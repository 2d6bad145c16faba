import Mathlib.Data.List.Basic
import Proofreader.Text.Basic

/-!
# Splitting

How the pieces and the words of a text follow from those of its parts.
-/

namespace Proofreader.Text

theorem splitOn_ne_nil (p : Char → Bool) (t : Text) : splitOn p t ≠ [] := by
  cases t with
  | nil => simp [splitOn]
  | cons c t =>
      simp only [splitOn]
      split
      · simp
      · split <;> simp

theorem splitOn_of_forall_not {p : Char → Bool} {t : Text} (h : ∀ c ∈ t, p c = false) :
    splitOn p t = [t] := by
  induction t with
  | nil => rfl
  | cons c t ih =>
      simp [splitOn, h c (by simp), ih fun d hd => h d (by simp [hd])]

theorem splitOn_append {p : Char → Bool} {c : Char} (hc : p c = true) (s t : Text) :
    splitOn p (s ++ c :: t) = splitOn p s ++ splitOn p t := by
  induction s with
  | nil => simp [splitOn, hc]
  | cons d s ih =>
      rw [List.cons_append, splitOn, splitOn, ih]
      cases hd : p d with
      | true => simp
      | false =>
          cases hs : splitOn p s with
          | nil => exact absurd hs (splitOn_ne_nil p s)
          | cons piece pieces => simp

/-! ## Words -/

theorem words_append {c : Char} (hc : isBlank c = true) (s t : Text) :
    words (s ++ c :: t) = words s ++ words t := by
  rw [words, splitOn_append hc, List.filter_append, words, words]

end Proofreader.Text
