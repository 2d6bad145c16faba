import Mathlib.Data.List.Nodup
import Proofreader.Proofs.Engine.Repetition

/-!
# Entries of the catalogue

The catalogue keeps its entries under the rule ids as the tool gives them, while an entry
shows its id without the blanks around it.  So there is one entry for each id of the tool,
and two entries show the same id if those of the tool differ in blanks at their ends.
-/

namespace Proofreader

def Tool.TrimsIds (tool : Tool) : Prop :=
  ∀ asked text as, tool.respond asked text = .answers as →
    ∀ a ∈ as, a.filedRuleId.trim = a.filedRuleId

theorem RuleMatch.ruleId_of_ofAnswer {a : Answer} {m : RuleMatch} (h : ofAnswer a = .ok m) :
    m.ruleId = a.filedRuleId := by
  obtain ⟨items, offset, length, rfl⟩ := exists_of_ofAnswer h
  rfl

namespace Engine

def activeIds (e : Engine) : List Text :=
  (e.catalog.filter fun (id, _) => !e.isDisabled id).map Prod.fst

theorem lists_eq_true_iff {e : Engine} {r : Text} :
    e.lists r = true ↔ r ∈ e.catalog.map Prod.fst := by
  simp only [lists, List.any_eq_true, beq_iff_eq, List.mem_map]

theorem mem_activeIds_iff {e : Engine} {r : Text} :
    r ∈ e.activeIds ↔ e.lists r = true ∧ r ∉ e.disabledRules := by
  simp only [activeIds, lists_eq_true_iff, isDisabled, List.mem_map, List.mem_filter,
    Bool.not_eq_true', List.contains_eq_mem, decide_eq_false_iff_not]
  constructor
  · rintro ⟨entry, ⟨hmem, hon⟩, rfl⟩
    exact ⟨⟨entry, hmem, rfl⟩, hon⟩
  · rintro ⟨⟨entry, hmem, rfl⟩, hon⟩
    exact ⟨entry, ⟨hmem, hon⟩, rfl⟩

/-! ## One entry for each id -/

/-- The entries stand under different ids, and each shows its own without blanks around it. -/
structure IsFiled (e : Engine) : Prop where
  nodup : (e.catalog.map Prod.fst).Nodup
  id_eq : ∀ entry ∈ e.catalog, entry.2.id = entry.1.trim

theorem isFiled_start (tool : Tool) (language : Option Text) (ignoredTerms : List Text)
    (spellingOnly : Bool) : (start tool language ignoredTerms spellingOnly).IsFiled :=
  ⟨.nil, fun _ h => absurd h List.not_mem_nil⟩

namespace IsFiled

variable {e last : Engine} {text : Text} {m : RuleMatch} {keeps : Bool}

theorem nodup_activeIds (h : e.IsFiled) : e.activeIds.Nodup :=
  h.nodup.sublist (List.filter_sublist.map _)

theorem ids_activeRules (h : e.IsFiled) :
    e.activeRules.map (·.id) = e.activeIds.map Text.trim := by
  rw [activeRules, activeIds, List.map_map, List.map_map]
  apply List.map_congr_left
  intro entry hentry
  exact h.id_eq entry (List.mem_of_mem_filter hentry)

theorem disableRule (h : e.IsFiled) (ruleId : Text) : (e.disableRule ruleId).IsFiled := by
  cases hoff : e.isDisabled ruleId with
  | true =>
      rw [Engine.disableRule, if_pos hoff]
      exact h
  | false =>
      rw [disableRule_of_not_isDisabled hoff]
      exact ⟨h.nodup.sublist (List.filter_sublist.map _),
        fun entry hentry => h.id_eq entry (List.mem_of_mem_filter hentry)⟩

theorem takes (h : e.IsFiled) (htakes : Takes e text m last keeps) : last.IsFiled := by
  cases htakes with
  | off | otherKind | ignoredWord => exact h
  | trigger => exact h.disableRule m.ruleId
  | returned _ _ _ hrecord =>
      rcases (record_eq_ok_iff e last m).1 hrecord with ⟨-, rfl⟩ | ⟨hlists, -, rfl⟩
      · exact h
      · have hnew : m.ruleId ∉ e.catalog.map Prod.fst := by
          rw [← lists_eq_true_iff, hlists]
          exact Bool.false_ne_true
        refine ⟨?_, ?_⟩
        · rw [List.map_append, List.map_singleton, ← List.concat_eq_append]
          exact List.Nodup.concat hnew h.nodup
        · intro entry hentry
          rcases List.mem_append.1 hentry with hentry | hentry
          · exact h.id_eq entry hentry
          · rw [List.mem_singleton.1 hentry]
            rfl

theorem check (h : e.IsFiled) (text : Text) : (e.check text).engine.IsFiled := by
  have hasked : IsFiled { e with tool := (e.tool.check text).2 } := ⟨h.nodup, h.id_eq⟩
  cases hresponse : (e.tool.check text).1 with
  | fails f =>
      rw [check_of_fails hresponse]
      exact hasked
  | answers as =>
      rw [check_of_answers hresponse]
      exact considerAll_induction (fun htakes h => h.takes htakes) hasked as

end IsFiled

/-! ## What is returned -/

/-- A match that is returned answers the text.  Its rule was on, and it is in the catalogue
or has gone off since. -/
theorem returned_of_considerAll {e : Engine} {text : Text} {as : List Answer}
    {ms : List RuleMatch} (h : (considerAll text e as).outcome = .ok ms) :
    ∀ m ∈ ms, (∃ a ∈ as, m.ruleId = a.filedRuleId) ∧ e.isDisabled m.ruleId = false ∧
      ((considerAll text e as).engine.isDisabled m.ruleId = true ∨
        (considerAll text e as).engine.lists m.ruleId = true) := by
  induction as generalizing e ms with
  | nil =>
      obtain rfl : [] = ms := Except.ok.inj h
      simp
  | cons a as ih =>
      obtain ⟨m, last, keeps, rest, hm, htakes, hrest, hengine, rfl⟩ := considerAll_cons_ok h
      rw [hengine]
      intro m' hm'
      rcases List.mem_append.1 hm' with hm' | hm'
      · cases htakes with
        | off | otherKind | ignoredWord | trigger => simp at hm'
        | returned hon _ _ hrecord =>
            obtain rfl : m' = m := by simpa using hm'
            exact ⟨⟨a, List.mem_cons_self, RuleMatch.ruleId_of_ofAnswer hm⟩, hon,
              (precedes_considerAll hrest).lists _ (precedes_of_record hrecord).2⟩
      · obtain ⟨⟨a', ha', hid⟩, hon, hlast⟩ := ih hrest m' hm'
        refine ⟨⟨a', List.mem_cons_of_mem a ha', hid⟩, ?_, hlast⟩
        -- What is off stays off.
        by_contra hoff
        rw [Bool.not_eq_false] at hoff
        simp [htakes.precedes.isDisabled _ hoff] at hon

theorem lists_of_considerAll {e : Engine} {text : Text} {as : List Answer}
    {ms : List RuleMatch} (h : (considerAll text e as).outcome = .ok ms) {r : Text}
    (hr : (considerAll text e as).engine.lists r = true) :
    e.lists r = true ∨ ∃ m ∈ ms, m.ruleId = r := by
  induction as generalizing e ms with
  | nil => exact .inl hr
  | cons a as ih =>
      obtain ⟨m, last, keeps, rest, -, htakes, hrest, hengine, rfl⟩ := considerAll_cons_ok h
      rw [hengine] at hr
      rcases ih hrest hr with hlast | ⟨m', hm', rfl⟩
      · cases htakes with
        | off | otherKind | ignoredWord => exact .inl hlast
        | trigger hon =>
            rw [disableRule_of_not_isDisabled hon, lists, List.any_filter] at hlast
            obtain ⟨entry, hmem, hentry⟩ := List.any_eq_true.1 hlast
            exact .inl (List.any_eq_true.2 ⟨entry, hmem, (Bool.and_eq_true_iff.1 hentry).2⟩)
        | returned _ _ _ hrecord =>
            rcases (record_eq_ok_iff e last m).1 hrecord with ⟨-, rfl⟩ | ⟨-, -, rfl⟩
            · exact .inl hlast
            · rw [lists, List.any_append, Bool.or_eq_true] at hlast
              rcases hlast with hlast | hlast
              · exact .inl hlast
              · exact .inr ⟨m, by simp, by simpa using hlast⟩
      · exact .inr ⟨m', by simp [hm'], rfl⟩

/-! ## Ids without blanks around them -/

structure IsTrimmed (e : Engine) : Prop where
  tool : e.tool.TrimsIds
  lists : ∀ r, e.lists r = true → r.trim = r

theorem IsTrimmed.check {e : Engine} {text : Text} {ms : List RuleMatch} (h : e.IsTrimmed)
    (hok : (e.check text).outcome = .ok ms) :
    (e.check text).engine.IsTrimmed ∧ ∀ m ∈ ms, m.ruleId.trim = m.ruleId := by
  have hrespond := (precedes_check hok).respond_eq
  obtain ⟨as, hresponse, hcheck⟩ := exists_answers_of_check hok
  rw [hcheck] at hok hrespond ⊢
  have hids : ∀ m ∈ ms, m.ruleId.trim = m.ruleId := by
    intro m hm
    obtain ⟨⟨a, ha, hid⟩, -⟩ := returned_of_considerAll hok m hm
    rw [hid]
    exact h.tool _ _ _ hresponse a ha
  refine ⟨⟨?_, ?_⟩, hids⟩
  · unfold Tool.TrimsIds
    rw [hrespond]
    exact h.tool
  · intro r hr
    rcases lists_of_considerAll hok hr with hearlier | ⟨m, hm, rfl⟩
    · exact h.lists r hearlier
    · exact hids m hm

end Engine

end Proofreader
