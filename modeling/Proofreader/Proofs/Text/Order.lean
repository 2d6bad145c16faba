import Mathlib.Data.Char
import Mathlib.Data.List.Dedup
import Mathlib.Data.List.Lex
import Mathlib.Tactic.Tauto
import Proofreader.Text.Basic

/-!
# The order of texts

The dictionary order of texts is the linear order of lists of characters.  The sorted set of
a list has the members of the list, in increasing order and each once.
-/

namespace Proofreader.Text

theorem cons_lt_cons {a b : Char} {s t : Text} : a :: s < b :: t ↔ a < b ∨ a = b ∧ s < t :=
  List.cons_lt_cons_iff

theorem le_iff {s t : Text} : le s t = true ↔ s ≤ t := by
  induction s generalizing t with
  | nil =>
      have hnil : ([] : Text) ≤ t := not_lt.1 (List.not_lt_nil t)
      simp [le, hnil]
  | cons a s ih =>
      cases t with
      | nil =>
          have hnil : ¬ a :: s ≤ [] := not_le.2 (List.nil_lt_cons a s)
          simp [le, hnil]
      | cons b t =>
          have hless : a.toNat < b.toNat ↔ a < b := Iff.rfl
          rw [le_iff_lt_or_eq, cons_lt_cons, le, Bool.or_eq_true, decide_eq_true_eq, hless,
            Bool.and_eq_true, beq_iff_eq, ih, le_iff_lt_or_eq, List.cons.injEq]
          tauto

theorem le_total (s t : Text) : (le s t || le t s) = true := by
  rw [Bool.or_eq_true, le_iff, le_iff]
  exact LinearOrder.le_total s t

theorem le_trans {s t u : Text} (h : le s t = true) (h' : le t u = true) : le s u = true :=
  le_iff.2 ((le_iff.1 h).trans (le_iff.1 h'))

theorem eq_of_le {s t : Text} (h : le s t = true) (h' : le t s = true) : s = t :=
  (le_iff.1 h).antisymm (le_iff.1 h')

/-! ## Sorted sets -/

theorem mem_insertSorted {t u : Text} {ts : List Text} :
    u ∈ insertSorted t ts ↔ u = t ∨ u ∈ ts := by
  induction ts with
  | nil => simp [insertSorted]
  | cons v ts ih =>
      rw [insertSorted]
      split
      · rename_i htv
        simp [htv]
      · split
        · simp
        · simp only [List.mem_cons, ih]
          tauto

theorem pairwise_insertSorted (t : Text) {ts : List Text} (h : ts.Pairwise (· < ·)) :
    (insertSorted t ts).Pairwise (· < ·) := by
  induction ts with
  | nil => exact List.pairwise_singleton _ t
  | cons v ts ih =>
      obtain ⟨hv, hts⟩ := List.pairwise_cons.1 h
      rw [insertSorted]
      split
      · exact h
      · rename_i hne
        split
        · rename_i hle
          have htv : t < v := lt_of_le_of_ne (le_iff.1 hle) hne
          refine List.pairwise_cons.2 ⟨fun u hu => ?_, h⟩
          rcases List.mem_cons.1 hu with rfl | hu
          · exact htv
          · exact htv.trans (hv u hu)
        · rename_i hle
          have hvt : v < t := lt_of_not_ge fun hge => hle (le_iff.2 hge)
          refine List.pairwise_cons.2 ⟨fun u hu => ?_, ih hts⟩
          rcases mem_insertSorted.1 hu with rfl | hu
          · exact hvt
          · exact hv u hu

theorem mem_sortedSet {t : Text} {ts : List Text} : t ∈ sortedSet ts ↔ t ∈ ts := by
  have hfold (acc : List Text) :
      t ∈ ts.foldl (fun acc t => insertSorted t acc) acc ↔ t ∈ ts ∨ t ∈ acc := by
    induction ts generalizing acc with
    | nil => simp
    | cons u ts ih =>
        rw [List.foldl_cons, ih, mem_insertSorted, List.mem_cons]
        tauto
  simpa [sortedSet] using hfold []

theorem pairwise_sortedSet (ts : List Text) : (sortedSet ts).Pairwise (· < ·) := by
  have hfold (acc : List Text) (h : acc.Pairwise (· < ·)) :
      (ts.foldl (fun acc t => insertSorted t acc) acc).Pairwise (· < ·) := by
    induction ts generalizing acc with
    | nil => exact h
    | cons u ts ih => exact ih _ (pairwise_insertSorted u h)
  exact hfold [] .nil

theorem nodup_sortedSet (ts : List Text) : (sortedSet ts).Nodup :=
  (pairwise_sortedSet ts).imp fun h => ne_of_lt h

theorem sortedSet_perm_dedup (ts : List Text) : (sortedSet ts).Perm ts.dedup :=
  (List.perm_ext_iff_of_nodup (nodup_sortedSet ts) (List.nodup_dedup ts)).2 fun t => by
    rw [mem_sortedSet, List.mem_dedup]

end Proofreader.Text
