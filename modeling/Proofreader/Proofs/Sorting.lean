import Mathlib.Data.List.Perm.Basic
import Mathlib.Data.List.Pairwise
import Proofreader.Sorting

/-!
# Stable sorting

A list that is sorted by a total preorder is in order, and elements that may stand in either
order are in the order they had.  If only equal elements may, the sorted list does not depend
on the order of the elements.
-/

namespace Proofreader

variable {α : Type} {le : α → α → Bool} (htotal : ∀ a b, (le a b || le b a) = true)
  (htrans : ∀ {a b c}, le a b = true → le b c = true → le a c = true)
include htotal htrans

theorem pairwise_insertBy {S : α → α → Prop} {a : α} {l : List α}
    (h : l.Pairwise fun b c => le b c = true ∧ (le c b = true → S b c)) (ha : ∀ b ∈ l, S a b) :
    (insertBy le a l).Pairwise fun b c => le b c = true ∧ (le c b = true → S b c) := by
  induction l with
  | nil => exact List.pairwise_singleton _ a
  | cons b rest ih =>
      obtain ⟨hb, hrest⟩ := List.pairwise_cons.1 h
      rw [insertBy]
      split
      · rename_i hab
        refine List.pairwise_cons.2 ⟨fun c hc => ⟨?_, fun _ => ha c hc⟩, h⟩
        rcases List.mem_cons.1 hc with rfl | hc
        · exact hab
        · exact htrans hab (hb c hc).1
      · rename_i hab
        have hba : le b a = true := (Bool.or_eq_true_iff.1 (htotal b a)).resolve_right hab
        refine List.pairwise_cons.2
          ⟨fun c hc => ?_, ih hrest fun c hc => ha c (List.mem_cons_of_mem b hc)⟩
        rcases List.mem_cons.1 ((insertBy_perm le a rest).mem_iff.1 hc) with rfl | hc
        · exact ⟨hba, fun hab' => absurd hab' hab⟩
        · exact hb c hc

/-- What holds between the elements of a list in their order still holds between those that
sorting may not tell apart. -/
theorem pairwise_sortBy {S : α → α → Prop} {l : List α} (h : l.Pairwise S) :
    (sortBy le l).Pairwise fun a b => le a b = true ∧ (le b a = true → S a b) := by
  induction l with
  | nil => exact .nil
  | cons a rest ih =>
      obtain ⟨ha, hrest⟩ := List.pairwise_cons.1 h
      exact pairwise_insertBy htotal htrans (ih hrest) fun b hb =>
        ha b ((sortBy_perm le rest).mem_iff.1 hb)

theorem sortBy_eq_of_perm {l l' : List α} (hperm : l.Perm l')
    (heq : ∀ a ∈ l, ∀ b ∈ l, le a b = true → le b a = true → a = b) :
    sortBy le l = sortBy le l' := by
  have hsorted (l : List α) : (sortBy le l).Pairwise fun a b => le a b = true :=
    (pairwise_sortBy htotal htrans (S := fun _ _ => True)
      (List.pairwise_of_forall fun _ _ => trivial)).imp And.left
  have hsame : (sortBy le l).Perm (sortBy le l') :=
    (sortBy_perm le l).trans (hperm.trans (sortBy_perm le l').symm)
  refine List.Perm.eq_of_pairwise (fun a b ha hb => ?_) (hsorted l) (hsorted l') hsame
  exact heq a ((sortBy_perm le l).mem_iff.1 ha) b
    (hperm.mem_iff.2 ((sortBy_perm le l').mem_iff.1 hb))

end Proofreader
