import Mathlib.Data.List.Induction
import Mathlib.Data.List.Nodup
import Proofreader.Proofs.Disk

/-!
# Disks that are trees

A disk is a tree if each place has one entry and stands in a directory.  On a tree, the way from
a place down to an entry can be followed, and the files below a place are found once each.
-/

namespace Proofreader

def Path.down (p : Path) (way : Place) : Path := { p with parts := p.parts ++ way }

@[simp] theorem Path.down_nil (p : Path) : p.down [] = p := by
  rw [down, List.append_nil]

namespace Disk

structure IsTree (d : Disk) : Prop where
  nodup : (d.entries.map Prod.fst).Nodup
  rooted : [] ∉ d.entries.map Prod.fst
  parents : ∀ entry ∈ d.entries, d.lookup? entry.1.dropLast = some .directory
  /-- Two dots lead up, so nothing is called that. -/
  names : ∀ entry ∈ d.entries, ['.', '.'] ∉ entry.1

variable {d : Disk} {place way : Place} {e : Entry}

theorem mem_entries_of_lookup? (h : d.lookup? place = some e) (hplace : place ≠ []) :
    (place, e) ∈ d.entries := by
  cases place with
  | nil => exact absurd rfl hplace
  | cons name rest =>
      obtain ⟨entry, hfind, rfl⟩ := Option.map_eq_some_iff.1 h
      have hkey : entry.1 = name :: rest := by simpa using List.find?_some hfind
      rw [← hkey]
      exact List.mem_of_find?_eq_some hfind

namespace IsTree

theorem lookup?_of_mem (hd : d.IsTree) (h : (place, e) ∈ d.entries) :
    d.lookup? place = some e := by
  have hplace : place ≠ [] := by
    rintro rfl
    exact hd.rooted (List.mem_map_of_mem h)
  cases place with
  | nil => exact absurd rfl hplace
  | cons name rest =>
      have hsome : (d.entries.find? (·.1 == name :: rest)).isSome := by
        rw [List.find?_isSome]
        exact ⟨_, h, by simp⟩
      obtain ⟨entry, hfind⟩ := Option.isSome_iff_exists.1 hsome
      have hkey : entry.1 = name :: rest := by simpa using List.find?_some hfind
      have hsame : entry = (name :: rest, e) :=
        List.inj_on_of_nodup_map hd.nodup (List.mem_of_find?_eq_some hfind) h hkey
      simp [lookup?, hfind, hsame]

theorem dots_notMem (hd : d.IsTree) (h : d.lookup? place = some e) : ['.', '.'] ∉ place := by
  by_cases hplace : place = []
  · simp [hplace]
  · exact hd.names _ (mem_entries_of_lookup? h hplace)

theorem lookup?_above (hd : d.IsTree) (h : d.lookup? (place ++ way) = some e) (hway : way ≠ []) :
    d.lookup? place = some .directory := by
  induction way using List.reverseRecOn generalizing e with
  | nil => exact absurd rfl hway
  | append_singleton way name ih =>
      have hparent : d.lookup? (place ++ way) = some .directory := by
        have hparent := hd.parents _ (mem_entries_of_lookup? h (by simp))
        rwa [← List.append_assoc, List.dropLast_concat] at hparent
      by_cases hway : way = []
      · simpa [hway] using hparent
      · exact ih hparent hway

theorem follow_down (hd : d.IsTree) (h : d.lookup? (place ++ way) = some e) :
    d.follow place way = .ok (place ++ way) := by
  induction way generalizing place with
  | nil => rw [follow, List.append_nil]
  | cons name rest ih =>
      have hdirectory := hd.lookup?_above h (by simp)
      have hname : name ≠ ['.', '.'] := by
        rintro rfl
        exact hd.dots_notMem h (by simp)
      have hstep : step place name = place ++ [name] := by rw [step, if_neg hname]
      have hrest : d.follow (place ++ [name]) rest = .ok (place ++ [name] ++ rest) :=
        ih (by simpa using h)
      rw [follow, hdirectory]
      simpa [hstep] using hrest

end IsTree

/-! ## Paths that lead somewhere -/

theorem follow_append {names rest : List Text} {last : Place}
    (h : d.follow place names = .ok last) :
    d.follow place (names ++ rest) = d.follow last rest := by
  induction names generalizing place with
  | nil =>
      obtain rfl : place = last := Except.ok.inj h
      rfl
  | cons name names ih =>
      rw [List.cons_append, follow]
      rw [follow] at h
      cases hplace : d.lookup? place with
      | none => simp [hplace] at h
      | some there =>
          cases there with
          | file bytes => simp [hplace] at h
          | directory =>
              simp only [hplace] at h ⊢
              exact ih h

theorem foldl_step_of_follow {names : List Text} {last : Place}
    (h : d.follow place names = .ok last) : names.foldl step place = last := by
  induction names generalizing place with
  | nil => exact Except.ok.inj h
  | cons name names ih =>
      rw [follow] at h
      cases hplace : d.lookup? place with
      | none => simp [hplace] at h
      | some there =>
          cases there with
          | file bytes => simp [hplace] at h
          | directory =>
              simp only [hplace] at h
              exact ih h

theorem find?_eq_some_iff {p : Path} :
    d.find? p = some e ↔ d.locate p = .ok (d.resolve p) ∧ d.lookup? (d.resolve p) = some e := by
  rw [find?]
  cases hlocate : d.locate p with
  | error f => simp
  | ok place =>
      have hplace : d.resolve p = place := foldl_step_of_follow hlocate
      simp [hplace]

theorem isDirectory_iff {p : Path} : d.isDirectory p = true ↔ d.find? p = some .directory := by
  rw [isDirectory, beq_iff_eq]

theorem isFile_iff {p : Path} : d.isFile p = true ↔ ∃ bytes, d.find? p = some (.file bytes) := by
  rw [isFile]
  split
  · rename_i bytes hfind
    simp [hfind]
  · rename_i hnone
    simpa using hnone

theorem IsTree.find?_down (hd : d.IsTree) {p : Path} (hp : d.find? p = some .directory)
    (h : d.lookup? (d.resolve p ++ way) = some e) :
    d.resolve (p.down way) = d.resolve p ++ way ∧ d.find? (p.down way) = some e := by
  have hlocate : d.locate (p.down way) = .ok (d.resolve p ++ way) := by
    rw [← hd.follow_down h]
    exact follow_append (find?_eq_some_iff.1 hp).1
  have hresolve : d.resolve (p.down way) = d.resolve p ++ way := foldl_step_of_follow hlocate
  exact ⟨hresolve, find?_eq_some_iff.2 ⟨by rw [hlocate, hresolve], by rw [hresolve, h]⟩⟩

/-! ## What stands below -/

theorem below?_eq_some_iff {above : Place} :
    below? above place = some way ↔ place = above ++ way := by
  induction above generalizing place with
  | nil => simp [below?]
  | cons a above ih =>
      cases place with
      | nil => simp [below?]
      | cons b place =>
          rw [below?, List.cons_append, List.cons.injEq]
          by_cases hab : a = b
          · simp [hab, ih]
          · simp [hab, Ne.symm hab]

theorem IsTree.mem_filesBelow (hd : d.IsTree) :
    way ∈ d.filesBelow place ↔ ∃ bytes, d.lookup? (place ++ way) = some (.file bytes) := by
  rw [filesBelow, List.mem_filterMap]
  constructor
  · rintro ⟨⟨other, entry⟩, hmem, hbelow⟩
    cases entry with
    | directory => simp at hbelow
    | file bytes =>
        obtain rfl := below?_eq_some_iff.1 hbelow
        exact ⟨bytes, hd.lookup?_of_mem hmem⟩
  · rintro ⟨bytes, h⟩
    have hroot : place ++ way ≠ [] := by
      intro hroot
      rw [hroot] at h
      simp [lookup?] at h
    exact ⟨_, mem_entries_of_lookup? h hroot, below?_eq_some_iff.2 rfl⟩

theorem IsTree.nodup_filesBelow (hd : d.IsTree) (place : Place) : (d.filesBelow place).Nodup := by
  refine List.Pairwise.filterMap _ ?_ (List.pairwise_map.1 hd.nodup)
  rintro ⟨other, entry⟩ ⟨other', entry'⟩ hne way hway way' hway' rfl
  cases entry with
  | directory => simp at hway
  | file bytes =>
      cases entry' with
      | directory => simp at hway'
      | file bytes' =>
          exact hne ((below?_eq_some_iff.1 hway).trans (below?_eq_some_iff.1 hway').symm)

end Disk

end Proofreader
