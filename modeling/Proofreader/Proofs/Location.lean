import Mathlib.Data.List.Basic
import Proofreader.Location
import Proofreader.Proofs.Text.Lines

/-!
# The lines of a location

A location with a text of several lines is split into one location for each of them, and a
location of one line is left as it is.  The lines with the breaks between them are the text,
so a location can be split in one way only.
-/

namespace Proofreader.Location

/-! ## Placed lines -/

theorem placeLines_eq (l : Location) (offset : Nat) (lines : List Text) :
    l.placeLines offset lines = (lines.zipIdx offset).map fun (line, i) => l.below i line := by
  induction lines generalizing offset with
  | nil => rfl
  | cons line lines ih => rw [placeLines, ih, List.zipIdx_cons, List.map_cons]

theorem map_text_placeLines (l : Location) (offset : Nat) (lines : List Text) :
    (l.placeLines offset lines).map Location.text = lines := by
  rw [placeLines_eq, List.map_map]
  exact List.zipIdx_map_fst offset lines

theorem length_placeLines (l : Location) (offset : Nat) (lines : List Text) :
    (l.placeLines offset lines).length = lines.length := by
  rw [placeLines_eq, List.length_map, List.length_zipIdx]

theorem map_line_placeLines (l : Location) (offset : Nat) (lines : List Text) :
    (l.placeLines offset lines).map Location.line = List.range' (l.line + offset) lines.length := by
  rw [placeLines_eq, List.map_map, ← List.map_add_range', ← List.zipIdx_map_snd offset lines,
    List.map_map]
  rfl

theorem file_of_mem_placeLines {l part : Location} {offset : Nat} {lines : List Text}
    (h : part ∈ l.placeLines offset lines) : part.file = l.file := by
  rw [placeLines_eq] at h
  obtain ⟨_, -, rfl⟩ := List.mem_map.1 h
  rfl

theorem eq_placeLines {l : Location} {offset : Nat} {parts : List Location}
    (hline : parts.map Location.line = List.range' (l.line + offset) parts.length)
    (hfile : ∀ part ∈ parts, part.file = l.file) :
    parts = l.placeLines offset (parts.map Location.text) := by
  induction parts generalizing offset with
  | nil => rfl
  | cons part parts ih =>
      rw [List.map_cons, List.length_cons, List.range'_succ, List.cons.injEq] at hline
      rw [List.forall_mem_cons] at hfile
      have hpart : part = l.below offset part.text := by
        cases part
        simp_all [below]
      rw [List.map_cons, placeLines, ← hpart, ← ih hline.2 hfile.2]

/-! ## Split locations -/

/-- The parts are the lines of a location: they end at the breaks of its text and count on from
its line. -/
structure IsSplitInto (l : Location) (parts : List Location) : Prop where
  length_eq : parts.length = (Text.lineBreaks l.text).length + 1
  line_eq : parts.map Location.line = List.range' l.line parts.length
  file_eq : ∀ part ∈ parts, part.file = l.file
  unbroken : ∀ part ∈ parts, '\r' ∉ part.text ∧ '\n' ∉ part.text
  text_eq : Text.interleave (parts.map Location.text) (Text.lineBreaks l.text) = l.text

theorem map_text_splitLines (l : Location) :
    l.splitLines.map Location.text = Text.splitLines l.text :=
  l.map_text_placeLines 0 _

theorem breaks_of_mem_splitLines {l part : Location} (h : part ∈ l.splitLines) :
    Text.breaks part.text = 0 := by
  refine Text.breaks_of_mem_splitLines (t := l.text) ?_
  rw [← map_text_splitLines]
  exact List.mem_map_of_mem h

theorem isSplitInto_splitLines (l : Location) : l.IsSplitInto l.splitLines where
  length_eq := by
    rw [splitLines, length_placeLines]
    exact (Text.divided_splitLines l.text).length_eq
  line_eq := by
    rw [splitLines, map_line_placeLines, length_placeLines, Nat.add_zero]
  file_eq _ h := file_of_mem_placeLines h
  unbroken part h := Text.breaks_eq_zero_iff.1 (breaks_of_mem_splitLines h)
  text_eq := by
    rw [map_text_splitLines]
    exact (Text.divided_splitLines l.text).interleave_eq

theorem IsSplitInto.eq_splitLines {l : Location} {parts : List Location}
    (h : l.IsSplitInto parts) : parts = l.splitLines := by
  have hsplit := l.isSplitInto_splitLines
  have htexts : parts.map Location.text = Text.splitLines l.text := by
    rw [← map_text_splitLines]
    refine Text.interleave_inj (Text.divided_splitLines l.text).subset_lineEndings
      (by rw [List.length_map, h.length_eq]) (by rw [List.length_map, hsplit.length_eq])
      ?_ ?_ (h.text_eq.trans hsplit.text_eq.symm)
    · exact List.forall_mem_map.2 fun part hpart => Text.breaks_eq_zero_iff.2 (h.unbroken part hpart)
    · exact List.forall_mem_map.2 fun part hpart => breaks_of_mem_splitLines hpart
  rw [splitLines, ← htexts]
  exact eq_placeLines h.line_eq h.file_eq

theorem splitLines_eq_singleton {l : Location} (h : Text.breaks l.text = 0) :
    l.splitLines = [l] := by
  rw [splitLines, Text.splitLines_eq_singleton_iff.2 h]
  rfl

/-- A location is split into its lines and nothing is lost: there is one part more than the
text has breaks, the parts count on from the line of the location, no part has a break, and the
parts with the breaks between them are the text.  There is no other way to do so, and a part is
split no further. -/
theorem splitLines_lossless (l : Location) :
    l.IsSplitInto l.splitLines ∧ (∀ parts, l.IsSplitInto parts → parts = l.splitLines) ∧
      ∀ part ∈ l.splitLines, part.splitLines = [part] :=
  ⟨l.isSplitInto_splitLines, fun _ h => h.eq_splitLines,
    fun _ h => splitLines_eq_singleton (breaks_of_mem_splitLines h)⟩

/-- A carriage return before a pair breaks a line of its own, and so does one behind a line
feed. -/
theorem splitLines_lossless_mixed :
    let l : Location := ⟨"\r\r\n\nfigs\n\r", 10, Path.ofText "fruit.md", by decide⟩
    let figs : Location := ⟨"figs", 13, Path.ofText "fruit.md", by decide⟩
    let parts : List Location :=
      [l.below 0 "", l.below 1 "", l.below 2 "", figs, l.below 4 "", l.below 5 ""]
    Text.lineBreaks l.text = ["\r", "\r\n", "\n", "\n", "\r"] ∧
      l.IsSplitInto parts ∧ parts = l.splitLines ∧ figs ∈ l.splitLines ∧
      figs.splitLines = [figs] := by
  intro l figs parts
  obtain ⟨-, hunique, hagain⟩ := splitLines_lossless l
  have hparts : l.IsSplitInto parts := ⟨by decide, by decide, by decide, by decide, by decide⟩
  have hfigs : figs ∈ l.splitLines := hunique parts hparts ▸ by simp [parts]
  exact ⟨by decide, hparts, hunique parts hparts, hfigs, hagain figs hfigs⟩

end Proofreader.Location
