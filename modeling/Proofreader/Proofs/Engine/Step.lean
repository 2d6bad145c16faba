import Mathlib.Data.List.Basic
import Proofreader.Engine
import Proofreader.Proofs.Outcome

/-!
# What one match does to an engine

An engine takes matches in one at a time.  Each is passed over, switches its rule
off, or is entered into the catalogue and returned; nothing else can happen.
-/

namespace Proofreader.Engine

theorem isDisabled_disableRule (e : Engine) (ruleId r : Text) :
    (e.disableRule ruleId).isDisabled r = (e.isDisabled r || r == ruleId) := by
  cases h : e.isDisabled ruleId with
  | true =>
      rw [disableRule, if_pos h]
      by_cases hr : r = ruleId
      · simp [hr, h]
      · simp [hr]
  | false =>
      rw [disableRule, if_neg (by simp [h])]
      by_cases hr : r = ruleId <;> simp [isDisabled, hr]

theorem disableRule_of_not_isDisabled {e : Engine} {ruleId : Text}
    (h : e.isDisabled ruleId = false) :
    e.disableRule ruleId =
      { e with
        disabledRules := e.disabledRules ++ [ruleId]
        catalog := e.catalog.filter fun (id, _) => id ≠ ruleId
        tool := { e.tool with disabledRules := e.disabledRules ++ [ruleId] } } := by
  rw [disableRule, if_neg (by simp [h])]

def lists (e : Engine) (ruleId : Text) : Bool := e.catalog.any (·.1 == ruleId)

def descriptor (m : RuleMatch) : RuleDescriptor := ⟨m.ruleId.trim, m.message, m.category⟩

theorem record_eq_ok_iff (e last : Engine) (m : RuleMatch) :
    e.record m = .ok last ↔
      (e.lists m.ruleId = true ∧ last = e) ∨
      (e.lists m.ruleId = false ∧ m.ruleId.trim ≠ [] ∧
        last = { e with catalog := e.catalog ++ [(m.ruleId, descriptor m)] }) := by
  rw [record, RuleDescriptor.ofMatch, ← lists]
  cases e.lists m.ruleId with
  | true =>
      constructor
      · intro h
        exact .inl ⟨rfl, (Except.ok.inj h).symm⟩
      · rintro (⟨-, rfl⟩ | ⟨h, -⟩)
        · rfl
        · simp at h
  | false =>
      cases hid : m.ruleId.trim with
      | nil => simp [Except.map]
      | cons c t =>
          constructor
          · intro h
            refine .inr ⟨rfl, by simp, ?_⟩
            rw [descriptor, hid]
            exact (Except.ok.inj h).symm
          · rintro (⟨h, -⟩ | ⟨-, -, rfl⟩)
            · simp at h
            · rw [descriptor, hid]
              rfl

inductive Takes (e : Engine) (text : Text) (m : RuleMatch) : Engine → Bool → Prop where
  | off (h : e.isDisabled m.ruleId = true) : Takes e text m e false
  | otherKind (hon : e.isDisabled m.ruleId = false) (honly : e.spellingOnly = true)
      (hkind : m.isSpelling = false) : Takes e text m e false
  | ignoredWord (hon : e.isDisabled m.ruleId = false) (hkind : m.isSpelling = true)
      (habout : e.isAboutTerms text m = true) : Takes e text m e false
  | trigger (hon : e.isDisabled m.ruleId = false) (honly : e.spellingOnly = false)
      (hkind : m.isSpelling = false) (habout : e.isAboutTerms text m = true) :
      Takes e text m (e.disableRule m.ruleId) false
  | returned {last : Engine} (hon : e.isDisabled m.ruleId = false)
      (hkind : e.spellingOnly = true → m.isSpelling = true)
      (habout : e.isAboutTerms text m = false) (hrecord : e.record m = .ok last) :
      Takes e text m last true

theorem takes_of_consider {e last : Engine} {text : Text} {m : RuleMatch} {keeps : Bool}
    (h : e.consider text m = .ok (last, keeps)) : Takes e text m last keeps := by
  unfold consider at h
  cases hon : e.isDisabled m.ruleId with
  | true =>
      obtain ⟨rfl, rfl⟩ : e = last ∧ false = keeps := by simpa [hon] using h
      exact .off hon
  | false =>
      cases hother : e.spellingOnly && !m.isSpelling with
      | true =>
          obtain ⟨rfl, rfl⟩ : e = last ∧ false = keeps := by simpa [hon, hother] using h
          simp only [Bool.and_eq_true, Bool.not_eq_true'] at hother
          exact .otherKind hon hother.1 hother.2
      | false =>
          have hkind : e.spellingOnly = true → m.isSpelling = true := by simpa using hother
          cases habout : e.isAboutTerms text m with
          | true =>
              cases hspelling : m.isSpelling with
              | true =>
                  obtain ⟨rfl, rfl⟩ : e = last ∧ false = keeps := by
                    simpa [hon, habout, hspelling] using h
                  exact .ignoredWord hon hspelling habout
              | false =>
                  have honly : e.spellingOnly = false := by simpa [hspelling] using hkind
                  obtain ⟨rfl, rfl⟩ : e.disableRule m.ruleId = last ∧ false = keeps := by
                    simpa [hon, honly, habout, hspelling] using h
                  exact .trigger hon honly hspelling habout
          | false =>
              rw [if_neg (by simp [hon]), if_neg (by simp [hother]), if_neg (by simp [habout])] at h
              obtain ⟨recorded, hrecord, heq⟩ := exists_ok_of_map h
              obtain ⟨rfl, rfl⟩ : recorded = last ∧ true = keeps := by simpa using heq
              exact .returned hon hkind habout hrecord

/-! ## Many matches -/

theorem Takes.tool_eq {e last : Engine} {text : Text} {m : RuleMatch} {keeps : Bool}
    (h : Takes e text m last keeps) :
    ∃ rules, last.tool = { e.tool with disabledRules := rules } := by
  cases h with
  | off | otherKind | ignoredWord => exact ⟨e.tool.disabledRules, rfl⟩
  | trigger hon =>
      rw [disableRule_of_not_isDisabled hon]
      exact ⟨_, rfl⟩
  | returned _ _ _ hrecord =>
      rcases (record_eq_ok_iff e last m).1 hrecord with ⟨-, rfl⟩ | ⟨-, -, rfl⟩
      · exact ⟨last.tool.disabledRules, rfl⟩
      · exact ⟨e.tool.disabledRules, rfl⟩

theorem Takes.language_eq {e last : Engine} {text : Text} {m : RuleMatch} {keeps : Bool}
    (h : Takes e text m last keeps) : last.language = e.language := by
  cases h with
  | off | otherKind | ignoredWord => rfl
  | trigger hon => rw [disableRule_of_not_isDisabled hon]
  | returned _ _ _ hrecord =>
      rcases (record_eq_ok_iff e last m).1 hrecord with ⟨-, rfl⟩ | ⟨-, -, rfl⟩ <;> rfl

theorem exists_consider_of_considerAll {e : Engine} {text : Text} {a : Answer} {as : List Answer}
    {ms : List RuleMatch} (h : (considerAll text e (a :: as)).outcome = .ok ms) :
    ∃ m last keeps rest, RuleMatch.ofAnswer a = .ok m ∧ e.consider text m = .ok (last, keeps) ∧
      (considerAll text last as).outcome = .ok rest ∧
      (considerAll text e (a :: as)).engine = (considerAll text last as).engine ∧
      ms = (if keeps then [m] else []) ++ rest := by
  rw [considerAll] at h ⊢
  cases hm : RuleMatch.ofAnswer a with
  | error f => simp [hm] at h
  | ok m =>
      simp only [hm] at h ⊢
      cases hstep : e.consider text m with
      | error f => simp [hstep] at h
      | ok result =>
          obtain ⟨last, keeps⟩ := result
          simp only [hstep] at h ⊢
          cases keeps with
          | false =>
              refine ⟨m, last, false, ms, rfl, hstep, ?_, rfl, by simp⟩
              simpa [warnBefore, keepIf] using h
          | true =>
              obtain ⟨rest, hrest, rfl⟩ := exists_ok_of_map h
              exact ⟨m, last, true, rest, rfl, hstep, hrest, rfl, by simp⟩

theorem considerAll_cons_ok {e : Engine} {text : Text} {a : Answer} {as : List Answer}
    {ms : List RuleMatch} (h : (considerAll text e (a :: as)).outcome = .ok ms) :
    ∃ m last keeps rest, RuleMatch.ofAnswer a = .ok m ∧ Takes e text m last keeps ∧
      (considerAll text last as).outcome = .ok rest ∧
      (considerAll text e (a :: as)).engine = (considerAll text last as).engine ∧
      ms = (if keeps then [m] else []) ++ rest := by
  obtain ⟨m, last, keeps, rest, hm, hstep, hrest⟩ := exists_consider_of_considerAll h
  exact ⟨m, last, keeps, rest, hm, takes_of_consider hstep, hrest⟩

/-- What every match that is taken in leaves true is true at the end, even if one of the
answers cannot be taken in. -/
theorem considerAll_induction {P : Engine → Prop} {text : Text}
    (hstep : ∀ {e last m keeps}, Takes e text m last keeps → P e → P last) {e : Engine} (h : P e)
    (as : List Answer) : P (considerAll text e as).engine := by
  induction as generalizing e with
  | nil => exact h
  | cons a as ih =>
      unfold considerAll
      cases RuleMatch.ofAnswer a with
      | error f => exact h
      | ok m =>
          simp only
          cases hconsider : e.consider text m with
          | error f => exact h
          | ok result =>
              obtain ⟨last, keeps⟩ := result
              have hrest := ih (hstep (takes_of_consider hconsider) h)
              cases keeps <;> exact hrest

theorem considerAll_tool_eq (e : Engine) (text : Text) (as : List Answer) :
    ∃ rules, (considerAll text e as).engine.tool = { e.tool with disabledRules := rules } := by
  apply considerAll_induction
    (P := fun last => ∃ rules, last.tool = { e.tool with disabledRules := rules })
  · rintro mid last m keeps htakes ⟨rules, hrules⟩
    obtain ⟨rules', hrules'⟩ := htakes.tool_eq
    exact ⟨rules', by rw [hrules', hrules]⟩
  · exact ⟨e.tool.disabledRules, rfl⟩

/-! ## Whole texts -/

theorem check_of_fails {e : Engine} {text : Text} {f : Failure}
    (h : (e.tool.check text).1 = .fails f) :
    e.check text = ⟨.error (.tool f), { e with tool := (e.tool.check text).2 }, []⟩ := by
  simp [check, h]

theorem check_of_answers {e : Engine} {text : Text} {as : List Answer}
    (h : (e.tool.check text).1 = .answers as) :
    e.check text = considerAll text { e with tool := (e.tool.check text).2 } as := by
  simp [check, h]

end Proofreader.Engine
