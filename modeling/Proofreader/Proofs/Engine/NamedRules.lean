import Proofreader.Proofs.Engine.Step

/-!
# Named rules

A match whose rule has a blank id cannot be entered into the catalogue.  So an engine
whose catalogue holds no such rule never returns one of its matches.
-/

namespace Proofreader.Engine

/-- Every rule of the catalogue has an id that is not blank. -/
def IsNamed (e : Engine) : Prop := ∀ r, e.lists r = true → r.trim ≠ []

theorem isNamed_start (tool : Tool) (language : Option Text) (ignoredTerms : List Text)
    (spellingOnly : Bool) : (start tool language ignoredTerms spellingOnly).IsNamed := by
  intro r hr
  simp [lists, start] at hr

theorem IsNamed.disableRule {e : Engine} (h : e.IsNamed) (ruleId : Text) :
    (e.disableRule ruleId).IsNamed := by
  intro r hr
  cases hoff : e.isDisabled ruleId with
  | true =>
      rw [Engine.disableRule, if_pos hoff] at hr
      exact h r hr
  | false =>
      rw [disableRule_of_not_isDisabled hoff, lists, List.any_filter] at hr
      apply h r
      obtain ⟨entry, hmem, hentry⟩ := List.any_eq_true.1 hr
      exact List.any_eq_true.2 ⟨entry, hmem, (Bool.and_eq_true_iff.1 hentry).2⟩

theorem IsNamed.takes {e last : Engine} {text : Text} {m : RuleMatch} {keeps : Bool}
    (h : e.IsNamed) (htakes : Takes e text m last keeps) :
    last.IsNamed ∧ (keeps = true → m.ruleId.trim ≠ []) := by
  cases htakes with
  | off | otherKind | ignoredWord => exact ⟨h, by simp⟩
  | trigger => exact ⟨h.disableRule m.ruleId, by simp⟩
  | returned _ _ _ hrecord =>
      rcases (record_eq_ok_iff e last m).1 hrecord with ⟨hlists, rfl⟩ | ⟨-, hid, rfl⟩
      · exact ⟨h, fun _ => h m.ruleId hlists⟩
      · refine ⟨fun r hr => ?_, fun _ => hid⟩
        rw [lists, List.any_append, Bool.or_eq_true] at hr
        rcases hr with hr | hr
        · exact h r hr
        · obtain rfl : m.ruleId = r := by simpa using hr
          exact hid

theorem IsNamed.considerAll {e : Engine} (h : e.IsNamed) (text : Text) (as : List Answer) :
    (considerAll text e as).engine.IsNamed :=
  considerAll_induction (fun htakes h => (h.takes htakes).1) h as

theorem IsNamed.ids_of_considerAll {e : Engine} {text : Text} {as : List Answer}
    {ms : List RuleMatch} (h : e.IsNamed) (hok : (Engine.considerAll text e as).outcome = .ok ms) :
    ∀ m ∈ ms, m.ruleId.trim ≠ [] := by
  induction as generalizing e ms with
  | nil =>
      obtain rfl : [] = ms := Except.ok.inj hok
      simp
  | cons a as ih =>
      obtain ⟨m, last, keeps, rest, -, htakes, hrest, -, rfl⟩ := considerAll_cons_ok hok
      obtain ⟨hlast, hkept⟩ := h.takes htakes
      intro m' hm'
      rcases List.mem_append.1 hm' with hm' | hm'
      · cases keeps with
        | true =>
            obtain rfl : m' = m := by simpa using hm'
            exact hkept rfl
        | false => simp at hm'
      · exact ih hlast hrest m' hm'

theorem IsNamed.check {e : Engine} (h : e.IsNamed) (text : Text) :
    (e.check text).engine.IsNamed := by
  cases hresponse : (e.tool.check text).1 with
  | fails f =>
      rw [check_of_fails hresponse]
      exact h
  | answers as =>
      rw [check_of_answers hresponse]
      exact IsNamed.considerAll (e := { e with tool := (e.tool.check text).2 }) h text as

theorem IsNamed.ids_of_check {e : Engine} {text : Text} {ms : List RuleMatch} (h : e.IsNamed)
    (hok : (e.check text).outcome = .ok ms) : ∀ m ∈ ms, m.ruleId.trim ≠ [] := by
  cases hresponse : (e.tool.check text).1 with
  | fails f => simp [check_of_fails hresponse] at hok
  | answers as =>
      rw [check_of_answers hresponse] at hok
      exact IsNamed.ids_of_considerAll (e := { e with tool := (e.tool.check text).2 }) h hok

end Proofreader.Engine
