import Mathlib.Data.List.Basic
import Proofreader.Proofs.Engine.Step

/-!
# Second opinions

An engine that only looks at spelling never switches a rule off.  If its tool has no
memory either, what it says about a text does not depend on what it was asked before:
the calls of the tool and the entries of the catalogue are all that changes.
-/

namespace Proofreader

/-- The answer to a text does not depend on the texts that were checked before. -/
def Tool.Memoryless (t : Tool) : Prop := ∀ before text, t.respond before text = t.respond [] text

/-- The tool answers every text, and engines can take every answer in. -/
def Tool.Dependable (t : Tool) : Prop :=
  ∀ before text, ∃ as, t.respond before text = .answers as ∧
    ∀ a ∈ as, ∃ m, RuleMatch.ofAnswer a = .ok m ∧ m.ruleId.trim ≠ []

namespace Engine

structure IsSteady (e : Engine) : Prop where
  spellingOnly : e.spellingOnly = true
  memoryless : e.tool.Memoryless

/-- Engines that say the same about every text.  Blank ids matter, since only the
catalogue can keep them from ending a check. -/
structure Agrees (e e' : Engine) : Prop where
  respond_eq : e'.tool.respond = e.tool.respond
  language_eq : e'.language = e.language
  spellingOnly_eq : e'.spellingOnly = e.spellingOnly
  ignoredTerms_eq : e'.ignoredTerms = e.ignoredTerms
  disabledRules_eq : e'.disabledRules = e.disabledRules
  lists_blank : ∀ r : Text, r.trim = [] → e'.lists r = e.lists r

namespace Agrees

variable {e e' last : Engine}

theorem refl (e : Engine) : Agrees e e := ⟨rfl, rfl, rfl, rfl, rfl, fun _ _ => rfl⟩

theorem symm (h : Agrees e e') : Agrees e' e :=
  ⟨h.respond_eq.symm, h.language_eq.symm, h.spellingOnly_eq.symm, h.ignoredTerms_eq.symm,
    h.disabledRules_eq.symm, fun r hr => (h.lists_blank r hr).symm⟩

theorem trans (h : Agrees e e') (h' : Agrees e' last) : Agrees e last :=
  ⟨h'.respond_eq.trans h.respond_eq, h'.language_eq.trans h.language_eq,
    h'.spellingOnly_eq.trans h.spellingOnly_eq, h'.ignoredTerms_eq.trans h.ignoredTerms_eq,
    h'.disabledRules_eq.trans h.disabledRules_eq,
    fun r hr => (h'.lists_blank r hr).trans (h.lists_blank r hr)⟩

theorem isSteady (h : Agrees e e') (hsteady : e.IsSteady) : e'.IsSteady :=
  ⟨by rw [h.spellingOnly_eq, hsteady.spellingOnly], fun before text => by
    rw [h.respond_eq, hsteady.memoryless before text]⟩

theorem isDisabled_eq (h : Agrees e e') (r : Text) : e'.isDisabled r = e.isDisabled r := by
  rw [isDisabled, h.disabledRules_eq, isDisabled]

theorem isAboutTerms_eq (h : Agrees e e') (text : Text) (m : RuleMatch) :
    e'.isAboutTerms text m = e.isAboutTerms text m := by
  rw [isAboutTerms, h.ignoredTerms_eq, isAboutTerms]

end Agrees

/-! ## Steady engines -/

theorem agrees_asked (e : Engine) (text : Text) :
    Agrees e { e with tool := (e.tool.check text).2 } :=
  ⟨rfl, rfl, rfl, rfl, rfl, fun _ _ => rfl⟩

theorem agrees_of_record {e last : Engine} {m : RuleMatch} (h : e.record m = .ok last) :
    Agrees e last := by
  rcases (record_eq_ok_iff e last m).1 h with ⟨-, rfl⟩ | ⟨-, hid, rfl⟩
  · exact .refl last
  · refine ⟨rfl, rfl, rfl, rfl, rfl, fun r hr => ?_⟩
    have hne : m.ruleId ≠ r := fun heq => hid (heq ▸ hr)
    simp [lists, hne]

theorem Takes.agrees {e last : Engine} {text : Text} {m : RuleMatch} {keeps : Bool}
    (honly : e.spellingOnly = true) (h : Takes e text m last keeps) : Agrees e last := by
  cases h with
  | off | otherKind | ignoredWord => exact .refl e
  | trigger _ hany => simp [honly] at hany
  | returned _ _ _ hrecord => exact agrees_of_record hrecord

theorem map_snd_consider (e : Engine) (text : Text) (m : RuleMatch) :
    (e.consider text m).map Prod.snd =
      if e.isDisabled m.ruleId then .ok false
      else if e.spellingOnly && !m.isSpelling then .ok false
      else if e.isAboutTerms text m then .ok false
      else if e.lists m.ruleId || !m.ruleId.trim.isEmpty then .ok true
      else .error ⟨m.ruleId⟩ := by
  rw [consider, record, ← lists, RuleDescriptor.ofMatch]
  cases e.isDisabled m.ruleId <;> cases e.spellingOnly && !m.isSpelling <;>
    cases e.isAboutTerms text m <;> cases e.lists m.ruleId <;>
    cases m.ruleId.trim.isEmpty <;> rfl

theorem Agrees.map_snd_consider_eq {e e' : Engine} (h : Agrees e e') (text : Text)
    (m : RuleMatch) : (e'.consider text m).map Prod.snd = (e.consider text m).map Prod.snd := by
  have hlists : (e'.lists m.ruleId || !m.ruleId.trim.isEmpty) =
      (e.lists m.ruleId || !m.ruleId.trim.isEmpty) := by
    cases hid : m.ruleId.trim with
    | nil => rw [h.lists_blank _ hid]
    | cons c t => simp
  rw [map_snd_consider, map_snd_consider, h.isDisabled_eq, h.spellingOnly_eq, h.isAboutTerms_eq,
    hlists]

theorem agrees_considerAll {e : Engine} (honly : e.spellingOnly = true) (text : Text)
    (as : List Answer) : Agrees e (considerAll text e as).engine :=
  considerAll_induction
    (fun htakes h => h.trans (htakes.agrees (h.spellingOnly_eq.trans honly))) (.refl e) as

theorem Agrees.outcome_considerAll {e e' : Engine} (h : Agrees e e')
    (honly : e.spellingOnly = true) (text : Text) (as : List Answer) :
    (considerAll text e' as).outcome = (considerAll text e as).outcome := by
  induction as generalizing e e' with
  | nil => rfl
  | cons a as ih =>
      rw [considerAll, considerAll]
      cases hm : RuleMatch.ofAnswer a with
      | error f => rfl
      | ok m =>
          have hsame := h.map_snd_consider_eq text m
          simp only
          cases hstep : e.consider text m with
          | error f =>
              cases hstep' : e'.consider text m with
              | error f' =>
                  obtain rfl : f' = f := by simpa [hstep, hstep', Except.map] using hsame
                  rfl
              | ok result => simp [hstep, hstep', Except.map] at hsame
          | ok result =>
              cases hstep' : e'.consider text m with
              | error f' => simp [hstep, hstep', Except.map] at hsame
              | ok result' =>
                  obtain ⟨last, keeps⟩ := result
                  obtain ⟨last', keeps'⟩ := result'
                  obtain rfl : keeps' = keeps := by simpa [hstep, hstep', Except.map] using hsame
                  have honly' : e'.spellingOnly = true := by rw [h.spellingOnly_eq, honly]
                  -- Both engines go on as they were, so the next match is judged alike.
                  have hlast := (takes_of_consider hstep).agrees honly
                  have hlast' := (takes_of_consider hstep').agrees honly'
                  have hrest := ih (hlast.symm.trans (h.trans hlast'))
                    (by rw [hlast.spellingOnly_eq, honly])
                  cases keeps' <;> simp [warnBefore, keepIf, hrest]

/-! ## Opinions -/

theorem IsSteady.agrees_check {e : Engine} (h : e.IsSteady) (text : Text) :
    Agrees e (e.check text).engine := by
  have hasked := agrees_asked e text
  cases hresponse : (e.tool.check text).1 with
  | fails f =>
      rw [check_of_fails hresponse]
      exact hasked
  | answers as =>
      rw [check_of_answers hresponse]
      exact hasked.trans
        (agrees_considerAll (e := { e with tool := (e.tool.check text).2 }) h.spellingOnly text as)

theorem Agrees.outcome_check {e e' : Engine} (h : Agrees e e') (hsteady : e.IsSteady)
    (text : Text) : (e'.check text).outcome = (e.check text).outcome := by
  have hresponse : (e'.tool.check text).1 = (e.tool.check text).1 := by
    simp only [Tool.check]
    rw [h.respond_eq, hsteady.memoryless, hsteady.memoryless e.tool.checked]
  have htools : Agrees { e with tool := (e.tool.check text).2 }
      { e' with tool := (e'.tool.check text).2 } :=
    (agrees_asked e text).symm.trans (h.trans (agrees_asked e' text))
  cases hanswer : (e.tool.check text).1 with
  | fails f => rw [check_of_fails hanswer, check_of_fails (hresponse.trans hanswer)]
  | answers as =>
      rw [check_of_answers hanswer, check_of_answers (hresponse.trans hanswer)]
      exact htools.outcome_considerAll hsteady.spellingOnly text as

theorem IsSteady.agrees_acceptsWord {e : Engine} (h : e.IsSteady) (word : Text) :
    Agrees e (e.acceptsWord word).engine := by
  unfold acceptsWord
  split
  · exact .refl e
  · exact h.agrees_check word

theorem Agrees.outcome_acceptsWord {e e' : Engine} (h : Agrees e e') (hsteady : e.IsSteady)
    (word : Text) : (e'.acceptsWord word).outcome = (e.acceptsWord word).outcome := by
  rw [acceptsWord, acceptsWord]
  split
  · rfl
  · simp only [h.outcome_check hsteady word]

/-! ## Dependable tools -/

theorem exists_consider_ok (e : Engine) (text : Text) {m : RuleMatch} (hid : m.ruleId.trim ≠ []) :
    ∃ last keeps, e.consider text m = .ok (last, keeps) := by
  have hkeeps := map_snd_consider e text m
  cases hstep : e.consider text m with
  | ok result => exact ⟨result.1, result.2, rfl⟩
  | error f =>
      rw [hstep, if_pos (by simp [hid] : (e.lists m.ruleId || !m.ruleId.trim.isEmpty) = true)]
        at hkeeps
      split_ifs at hkeeps
      all_goals simp [Except.map] at hkeeps

theorem exists_considerAll_ok (e : Engine) (text : Text) {as : List Answer}
    (has : ∀ a ∈ as, ∃ m, RuleMatch.ofAnswer a = .ok m ∧ m.ruleId.trim ≠ []) :
    ∃ ms, (considerAll text e as).outcome = .ok ms ∧ ∀ m ∈ ms, m.ruleId.trim ≠ [] := by
  induction as generalizing e with
  | nil => exact ⟨[], rfl, by simp⟩
  | cons a as ih =>
      obtain ⟨m, hm, hid⟩ := has a (by simp)
      obtain ⟨last, keeps, hstep⟩ := exists_consider_ok e text hid
      obtain ⟨ms, hms, hids⟩ := ih last fun a ha => has a (by simp [ha])
      simp only [considerAll, hm, hstep, warnBefore, keepIf]
      cases keeps with
      | false => exact ⟨ms, hms, hids⟩
      | true => exact ⟨m :: ms, by simp [hms, Except.map], by simpa [hid] using hids⟩

theorem exists_check_ok {e : Engine} (h : e.tool.Dependable) (text : Text) :
    ∃ ms, (e.check text).outcome = .ok ms ∧ (∀ m ∈ ms, m.ruleId.trim ≠ []) ∧
      (e.check text).engine.tool.Dependable := by
  obtain ⟨as, hresponse, has⟩ := h e.tool.checked text
  obtain ⟨ms, hms, hids⟩ :=
    exists_considerAll_ok { e with tool := (e.tool.check text).2 } text has
  obtain ⟨rules, htool⟩ :=
    considerAll_tool_eq { e with tool := (e.tool.check text).2 } text as
  rw [check_of_answers hresponse]
  refine ⟨ms, hms, hids, fun before text' => ?_⟩
  rw [htool]
  exact h before text'

theorem exists_acceptsWord_ok {e : Engine} (h : e.tool.Dependable) (word : Text) :
    ∃ accepted, (e.acceptsWord word).outcome = .ok accepted := by
  unfold acceptsWord
  split
  · exact ⟨true, rfl⟩
  · obtain ⟨ms, hms, -⟩ := exists_check_ok h word
    exact ⟨!ms.any (·.isSpelling), by simp [hms, Except.map]⟩

end Engine

end Proofreader
