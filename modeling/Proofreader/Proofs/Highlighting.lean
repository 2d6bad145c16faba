import Mathlib.Data.List.TakeDrop
import Mathlib.Order.MinMax
import Proofreader.Proofs.Outcome
import Proofreader.Reconcile

/-!
# What is highlighted

An issue shows what a match objects to in two ways: as a text of its own, which a slice cuts out
of the line, and between asterisks in the whole line.  The offsets of a match are in order and
not below zero, however the tool spelled them, so both ways show the same stretch of the line.
A match that objects to nothing is shown by the character at its offset.
-/

namespace Proofreader

/-! ## Cutting a text at two positions -/

namespace Text

theorem take_slice_drop (t : Text) {start stop : Nat} (h : start ≤ stop) :
    t.take start ++ t.slice start stop ++ t.drop stop = t := by
  have htake : t.take start = (t.take stop).take start := by rw [List.take_take, Nat.min_eq_left h]
  rw [slice, htake, List.take_append_drop, List.take_append_drop]

theorem slice_eq_nil_iff {t : Text} {start stop : Nat} (h : stop ≤ t.length) :
    t.slice start stop = [] ↔ stop ≤ start := by
  rw [slice, List.drop_eq_nil_iff, List.length_take, Nat.min_eq_left h]

theorem slice_next (t : Text) (start : Nat) :
    t.slice start (min t.length (start + 1)) = (t.drop start).take 1 := by
  rw [slice, List.drop_take]
  rcases Nat.lt_or_ge start t.length with h | h
  · have hone : min t.length (start + 1) - start = 1 := by omega
    rw [hone]
  · rw [List.drop_of_length_le h, List.take_nil, List.take_nil]

theorem clipOffset_of_nonneg {length : Nat} {offset : Int} (h : 0 ≤ offset) :
    clipOffset length offset = min length offset.toNat := by
  rw [clipOffset, if_neg (by omega)]

end Text

/-! ## The two ways -/

theorem RuleMatch.offsets_of_ofAnswer {a : Answer} {m : RuleMatch} (h : ofAnswer a = .ok m) :
    0 ≤ m.start ∧ m.start ≤ m.stop := by
  obtain ⟨items, offset, length, rfl⟩ := exists_of_ofAnswer h
  dsimp only [Answer.toMatch]
  omega

/-- In a text, two asterisks stand on either side of a stretch of it, which is what a match from
`start` on objects to. -/
structure Highlights (t : Text) (start : Int) (objected context before marked after : Text) :
    Prop where
  text_eq : t = before ++ marked ++ after
  context_eq : context = before ++ ['*', '*'] ++ marked ++ ['*', '*'] ++ after
  length_before : before.length = min t.length start.toNat
  marked_eq : objected ≠ [] → marked = objected
  /-- Where nothing is objected to, the next character is marked if there is one. -/
  marked_eq_next : objected = [] → marked = (t.drop before.length).take 1

theorem exists_highlights {t : Text} (ht : t ≠ []) {start stop : Int} (hstart : 0 ≤ start)
    (hstop : start ≤ stop) :
    ∃ before marked after,
      Highlights t start (t.span start stop) (highlight t start stop) before marked after := by
  have hsorted : min t.length start.toNat ≤ min t.length stop.toNat := by omega
  have hlast : min t.length stop.toNat ≤ t.length := Nat.min_le_left _ _
  have hlength : (t.take (min t.length start.toNat)).length = min t.length start.toNat := by
    rw [List.length_take]
    omega
  rw [Text.span, Text.clipOffset_of_nonneg hstart, Text.clipOffset_of_nonneg (hstart.trans hstop),
    highlight, if_neg (by simpa using ht)]
  simp only [Nat.max_eq_right hsorted]
  generalize hfirst : min t.length start.toNat = first at *
  generalize min t.length stop.toNat = last at *
  by_cases hempty : last = first
  · have hnothing : t.slice first last = [] := (Text.slice_eq_nil_iff hlast).2 hempty.le
    have hnext : first ≤ min t.length (first + 1) := by omega
    simp only [if_pos hempty, hnothing]
    refine ⟨_, _, _, (t.take_slice_drop hnext).symm, rfl, hlength.trans hfirst.symm, absurd rfl,
      fun _ => ?_⟩
    rw [hlength, Text.slice_next]
  · have hsomething : t.slice first last ≠ [] := by
      rw [Ne, Text.slice_eq_nil_iff hlast]
      omega
    simp only [if_neg hempty]
    exact ⟨_, _, _, (t.take_slice_drop hsorted).symm, rfl, hlength.trans hfirst.symm, fun _ => rfl,
      fun h => absurd h hsomething⟩

/-- An issue that is drawn up from an answer of a tool shows the same stretch of the line in both
ways.  Only a rule without an id keeps it from being drawn up. -/
theorem ofMatch_highlights {a : Answer} {m : RuleMatch} (h : RuleMatch.ofAnswer a = .ok m)
    (l : Location) (hl : l.text ≠ []) :
    0 ≤ m.start ∧ m.start ≤ m.stop ∧
      ((∃ i, Issue.ofMatch l m = .ok i) ↔ m.ruleId.trim ≠ []) ∧
      ∀ i, Issue.ofMatch l m = .ok i →
        ∃ before marked after,
          Highlights l.text m.start i.offendingText i.context before marked after := by
  obtain ⟨hstart, hstop⟩ := RuleMatch.offsets_of_ofAnswer h
  refine ⟨hstart, hstop, ?_, ?_⟩
  · unfold Issue.ofMatch
    split
    · rename_i hblank
      simpa using hblank
    · rename_i hblank
      exact iff_of_true ⟨_, rfl⟩ (by simpa using hblank)
  · intro i hi
    unfold Issue.ofMatch at hi
    split at hi
    · simp at hi
    · rw [← Except.ok.inj hi]
      exact exists_highlights hl hstart hstop

/-- A span that goes on beyond the end of the line, with offsets that are no whole numbers. -/
theorem ofMatch_highlights_across_end :
    let a : Answer :=
      ⟨.text "RULE", .null, .null, .text " 3 ", .decimal ⟨false, 999, -1⟩, .null, .null⟩
    let l : Location := ⟨"teh cat", 1, Path.ofText "a.md", by decide⟩
    ∃ m i before marked after, RuleMatch.ofAnswer a = .ok m ∧ (m.start, m.stop) = (3, 102) ∧
      l.text ≠ [] ∧ Issue.ofMatch l m = .ok i ∧ i.offendingText = " cat" ∧
      i.context = "teh** cat**" ∧
      Highlights l.text m.start i.offendingText i.context before marked after := by
  intro a l
  have hline : l.text ≠ [] := by decide
  have hanswer : (RuleMatch.ofAnswer a).toOption.map (fun m => (m.start, m.stop)) =
      some (3, 102) := by
    decide +kernel
  have hissue : ((RuleMatch.ofAnswer a).toOption.bind fun m =>
      (Issue.ofMatch l m).toOption.map fun i => (i.offendingText, i.context)) =
        some ((" cat" : Text), ("teh** cat**" : Text)) := by
    decide +kernel
  obtain ⟨m, hm, hoffsets⟩ := Option.map_eq_some_iff.1 hanswer
  rw [hm, Option.bind_some] at hissue
  obtain ⟨i, hi, htexts⟩ := Option.map_eq_some_iff.1 hissue
  obtain ⟨htext, hcontext⟩ := Prod.mk.inj htexts
  obtain ⟨-, -, -, hall⟩ := ofMatch_highlights (eq_ok_of_toOption hm) l hline
  obtain ⟨before, marked, after, hhighlights⟩ := hall i (eq_ok_of_toOption hi)
  exact ⟨m, i, before, marked, after, eq_ok_of_toOption hm, hoffsets, hline,
    eq_ok_of_toOption hi, htext, hcontext, hhighlights⟩

end Proofreader
