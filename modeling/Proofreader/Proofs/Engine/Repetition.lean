import Proofreader.Proofs.Engine.SecondOpinion

/-!
# Checking a text again

While an engine takes matches in, rules are only switched off, and nothing else takes a
rule out of the catalogue.  An engine that is asked again about a text which it has
checked before therefore drops the matches of the rules that went off in the meantime,
returns all others as before, and stays as it is.
-/

namespace Proofreader.Engine

/-! ## What an engine may become -/

/-- The engine `last` may be what `e` becomes by checking texts. -/
structure Precedes (e last : Engine) : Prop where
  respond_eq : last.tool.respond = e.tool.respond
  spellingOnly_eq : last.spellingOnly = e.spellingOnly
  ignoredTerms_eq : last.ignoredTerms = e.ignoredTerms
  isDisabled : ∀ r, e.isDisabled r = true → last.isDisabled r = true
  lists : ∀ r, e.lists r = true → last.isDisabled r = true ∨ last.lists r = true

namespace Precedes

variable {e mid last : Engine}

theorem refl (e : Engine) : Precedes e e := ⟨rfl, rfl, rfl, fun _ h => h, fun _ h => .inr h⟩

theorem trans (h : Precedes e mid) (h' : Precedes mid last) : Precedes e last := by
  refine ⟨h'.respond_eq.trans h.respond_eq, h'.spellingOnly_eq.trans h.spellingOnly_eq,
    h'.ignoredTerms_eq.trans h.ignoredTerms_eq, fun r hr => h'.isDisabled r (h.isDisabled r hr),
    fun r hr => ?_⟩
  rcases h.lists r hr with hoff | hlists
  · exact .inl (h'.isDisabled r hoff)
  · exact h'.lists r hlists

theorem memoryless (h : Precedes e last) (hmemoryless : e.tool.Memoryless) :
    last.tool.Memoryless := by
  intro before text
  rw [h.respond_eq]
  exact hmemoryless before text

theorem isAboutTerms_eq (h : Precedes e last) (text : Text) (m : RuleMatch) :
    last.isAboutTerms text m = e.isAboutTerms text m := by
  simp [isAboutTerms, h.ignoredTerms_eq]

end Precedes

theorem precedes_disableRule (e : Engine) (ruleId : Text) :
    Precedes e (e.disableRule ruleId) := by
  cases hoff : e.isDisabled ruleId with
  | true =>
      rw [disableRule, if_pos hoff]
      exact .refl e
  | false =>
      have hrule := disableRule_of_not_isDisabled hoff
      refine ⟨by simp [hrule], by simp [hrule], by simp [hrule], fun r hr => ?_, fun r hr => ?_⟩
      · simp [isDisabled_disableRule, hr]
      · by_cases hne : r = ruleId
        · simp [isDisabled_disableRule, hne]
        · -- The entries of other rules stay in the catalogue.
          obtain ⟨entry, hmem, hid⟩ := List.any_eq_true.1 hr
          rw [beq_iff_eq] at hid
          refine .inr (List.any_eq_true.2 ⟨entry, ?_, by simp [hid]⟩)
          rw [hrule]
          exact List.mem_filter.2 ⟨hmem, by simp [hid, hne]⟩

theorem precedes_of_record {e last : Engine} {m : RuleMatch} (h : e.record m = .ok last) :
    Precedes e last ∧ last.lists m.ruleId = true := by
  rcases (record_eq_ok_iff e last m).1 h with ⟨hlists, rfl⟩ | ⟨-, -, rfl⟩
  · exact ⟨.refl last, hlists⟩
  · refine ⟨⟨rfl, rfl, rfl, fun _ hr => hr, fun r hr => .inr ?_⟩, by simp [Engine.lists]⟩
    unfold Engine.lists at hr ⊢
    simp [hr]

theorem Takes.precedes {e last : Engine} {text : Text} {m : RuleMatch} {keeps : Bool}
    (h : Takes e text m last keeps) : Precedes e last := by
  cases h with
  | off | otherKind | ignoredWord => exact .refl e
  | trigger => exact precedes_disableRule e m.ruleId
  | returned _ _ _ hrecord => exact (precedes_of_record hrecord).1

theorem precedes_considerAll {e : Engine} {text : Text} {as : List Answer} {ms : List RuleMatch}
    (h : (considerAll text e as).outcome = .ok ms) :
    Precedes e (considerAll text e as).engine := by
  induction as generalizing e ms with
  | nil => exact .refl e
  | cons a as ih =>
      obtain ⟨m, last, keeps, rest, -, htakes, hrest, hengine, -⟩ := considerAll_cons_ok h
      rw [hengine]
      exact htakes.precedes.trans (ih hrest)

theorem precedes_asked (e : Engine) (text : Text) :
    Precedes e { e with tool := (e.tool.check text).2 } :=
  ⟨rfl, rfl, rfl, fun _ hr => hr, fun _ hr => .inr hr⟩

theorem exists_answers_of_check {e : Engine} {text : Text} {ms : List RuleMatch}
    (h : (e.check text).outcome = .ok ms) :
    ∃ as, (e.tool.check text).1 = .answers as ∧
      e.check text = considerAll text { e with tool := (e.tool.check text).2 } as := by
  cases hresponse : (e.tool.check text).1 with
  | fails f => simp [check_of_fails hresponse] at h
  | answers as => exact ⟨as, rfl, check_of_answers hresponse⟩

theorem precedes_check {e : Engine} {text : Text} {ms : List RuleMatch}
    (h : (e.check text).outcome = .ok ms) : Precedes e (e.check text).engine := by
  obtain ⟨as, -, hcheck⟩ := exists_answers_of_check h
  rw [hcheck] at h ⊢
  exact (precedes_asked e text).trans (precedes_considerAll h)

/-! ## The second time -/

def SameButCalls (e e' : Engine) : Prop :=
  ∃ history, e' = { e with tool := { e.tool with history } }

namespace SameButCalls

variable {e e' : Engine}

theorem refl (e : Engine) : SameButCalls e e := ⟨e.tool.history, rfl⟩

theorem asked (h : SameButCalls e e') (text : Text) :
    SameButCalls e { e' with tool := (e'.tool.check text).2 } := by
  obtain ⟨history, rfl⟩ := h
  exact ⟨history ++ [.check text], rfl⟩

theorem precedes (h : SameButCalls e e') : Precedes e e' := by
  obtain ⟨history, rfl⟩ := h
  exact ⟨rfl, rfl, rfl, fun _ hr => hr, fun _ hr => .inr hr⟩

theorem isDisabled_eq (h : SameButCalls e e') (r : Text) : e'.isDisabled r = e.isDisabled r := by
  obtain ⟨history, rfl⟩ := h
  rfl

theorem activeRules_eq (h : SameButCalls e e') : e'.activeRules = e.activeRules := by
  obtain ⟨history, rfl⟩ := h
  rfl

end SameButCalls

/-- A match that was taken in before, on the way to the engine `final`, changes nothing
more, and is returned unless its rule has gone off. -/
theorem Takes.again {e last final e' : Engine} {text : Text} {m : RuleMatch} {keeps : Bool}
    (h : Takes e text m last keeps) (hfinal : Precedes last final) (hsame : SameButCalls final e') :
    e'.consider text m = .ok (e', keeps && !final.isDisabled m.ruleId) := by
  have hlater := (h.precedes.trans hfinal).trans hsame.precedes
  have honly := hlater.spellingOnly_eq
  have habout := hlater.isAboutTerms_eq text m
  rw [← hsame.isDisabled_eq]
  cases hoff : e'.isDisabled m.ruleId with
  | true => simp [consider, hoff]
  | false =>
      cases h with
      | off hoff' => simp [hlater.isDisabled _ hoff'] at hoff
      | otherKind _ honly' hkind => simp [consider, honly, honly', hkind]
      | ignoredWord _ hkind habout' => simp [consider, hoff, hkind, habout, habout']
      | trigger =>
          -- The rule of a trigger is off from then on.
          have hnow : (e.disableRule m.ruleId).isDisabled m.ruleId = true := by
            simp [isDisabled_disableRule]
          simp [(hfinal.trans hsame.precedes).isDisabled _ hnow] at hoff
      | returned _ hkind habout' hrecord =>
          have hlists : e'.lists m.ruleId = true := by
            rcases (hfinal.trans hsame.precedes).lists _ (precedes_of_record hrecord).2 with
              hnow | hlists
            · simp [hoff] at hnow
            · exact hlists
          have hrecord' : e'.record m = .ok e' :=
            (record_eq_ok_iff e' e' m).2 (.inl ⟨hlists, rfl⟩)
          have hother : (e'.spellingOnly && !m.isSpelling) = false := by
            rw [honly]
            cases honly' : e.spellingOnly with
            | true => simp [hkind honly']
            | false => rfl
          simp [consider, hoff, hother, habout, habout', hrecord', Except.map]

theorem considerAll_again {e final e' : Engine} {text : Text} {as : List Answer}
    {ms : List RuleMatch} (h : (considerAll text e as).outcome = .ok ms)
    (hfinal : Precedes (considerAll text e as).engine final) (hsame : SameButCalls final e') :
    (considerAll text e' as).outcome = .ok (ms.filter fun m => !final.isDisabled m.ruleId) ∧
      (considerAll text e' as).engine = e' := by
  induction as generalizing e ms with
  | nil =>
      obtain rfl : [] = ms := Except.ok.inj h
      exact ⟨rfl, rfl⟩
  | cons a as ih =>
      obtain ⟨m, last, keeps, rest, hm, htakes, hrest, hengine, rfl⟩ := considerAll_cons_ok h
      rw [hengine] at hfinal
      have hstep := htakes.again ((precedes_considerAll hrest).trans hfinal) hsame
      obtain ⟨houtcome, hstays⟩ := ih hrest hfinal
      cases keeps <;> cases hoff : final.isDisabled m.ruleId <;>
        simp [considerAll, hm, hstep, hoff, warnBefore, keepIf, houtcome, hstays, Except.map]

theorem check_again {e final e' : Engine} (hmemoryless : e.tool.Memoryless) {text : Text}
    {ms : List RuleMatch} (h : (e.check text).outcome = .ok ms)
    (hfinal : Precedes (e.check text).engine final) (hsame : SameButCalls final e') :
    (e'.check text).outcome = .ok (ms.filter fun m => !final.isDisabled m.ruleId) ∧
      SameButCalls final (e'.check text).engine := by
  have hstart := (precedes_check h).trans hfinal
  obtain ⟨as, hresponse, hcheck⟩ := exists_answers_of_check h
  rw [hcheck] at h hfinal
  have hresponse' : (e'.tool.check text).1 = .answers as := by
    obtain ⟨history, rfl⟩ := hsame
    rw [← hresponse]
    simp only [Tool.check]
    rw [hstart.respond_eq, hmemoryless, hmemoryless e.tool.checked]
  obtain ⟨houtcome, hstays⟩ := considerAll_again h hfinal (hsame.asked text)
  rw [check_of_answers hresponse', hstays]
  exact ⟨houtcome, hsame.asked text⟩

end Proofreader.Engine
