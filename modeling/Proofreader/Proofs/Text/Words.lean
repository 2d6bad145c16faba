import Mathlib.Data.List.DropRight
import Proofreader.Proofs.Text.Breaks
import Proofreader.Proofs.Text.Squeeze

/-!
# Trimmed and squeezed texts

Trimming and squeezing move only blanks, so they leave the words of a text as they are, and
doing either of them twice is doing it once.
-/

namespace Proofreader.Text

/-! ## Words -/

theorem not_isBlank_of_mem_words {t w : Text} (h : w ∈ words t) : ∀ c ∈ w, isBlank c = false :=
  not_of_mem_splitOn (List.mem_filter.1 h).1

theorem ne_nil_of_mem_words {t w : Text} (h : w ∈ words t) : w ≠ [] := by
  simpa using (List.mem_filter.1 h).2

theorem words_of_forall_not_isBlank {w : Text} (hne : w ≠ []) (h : ∀ c ∈ w, isBlank c = false) :
    words w = [w] := by
  simp [words, splitOn_of_forall_not h, hne]

theorem words_cons_blank {c : Char} (hc : isBlank c = true) (t : Text) :
    words (c :: t) = words t :=
  words_append hc [] t

theorem words_concat_blank (t : Text) {c : Char} (hc : isBlank c = true) :
    words (t ++ [c]) = words t := by
  rw [words_append hc]
  exact List.append_nil _

theorem words_eq_nil_iff {t : Text} : words t = [] ↔ t.isAllBlank = true := by
  rw [← squeeze_eq_nil_iff, squeeze]
  constructor
  · intro h
    rw [h]
    rfl
  · intro h
    cases hwords : words t with
    | nil => rfl
    | cons w ws =>
        have hw : w ≠ [] := ne_nil_of_mem_words (hwords ▸ List.mem_cons_self ..)
        rw [hwords, joinWith_cons] at h
        exact absurd (List.append_eq_nil_iff.1 h).1 hw

/-! ## Trimming -/

theorem trim_eq (t : Text) : trim t = (t.dropWhile isBlank).rdropWhile isBlank := rfl

theorem words_dropWhile (t : Text) : words (t.dropWhile isBlank) = words t := by
  induction t with
  | nil => rfl
  | cons c t ih =>
      cases hc : isBlank c with
      | true => rw [List.dropWhile_cons_of_pos hc, ih, words_cons_blank hc]
      | false => rw [List.dropWhile_cons_of_neg (by simp [hc])]

theorem words_rdropWhile (t : Text) : words (t.rdropWhile isBlank) = words t := by
  induction t using List.reverseRecOn with
  | nil => rfl
  | append_singleton t c ih =>
      cases hc : isBlank c with
      | true => rw [List.rdropWhile_concat_pos _ _ _ hc, ih, words_concat_blank t hc]
      | false => rw [List.rdropWhile_concat_neg _ _ _ (by simp [hc])]

theorem words_trim (t : Text) : words (trim t) = words t := by
  rw [trim_eq, words_rdropWhile, words_dropWhile]

theorem trim_eq_nil_iff {t : Text} : trim t = [] ↔ t.isAllBlank = true := by
  constructor
  · intro h
    rw [← words_eq_nil_iff, ← words_trim, h]
    rfl
  · intro h
    have hdrop : t.dropWhile isBlank = [] := List.dropWhile_eq_nil_iff.2 (List.all_eq_true.1 h)
    rw [trim_eq, hdrop]
    rfl

theorem dropWhile_append_of_not_isAllBlank {s : Text} (hs : s.isAllBlank = false) (t : Text) :
    (s ++ t).dropWhile isBlank = s.dropWhile isBlank ++ t := by
  have hne : s.dropWhile isBlank ≠ [] := by
    rw [ne_eq, List.dropWhile_eq_nil_iff, ← List.all_eq_true]
    exact Bool.eq_false_iff.1 hs
  rw [List.dropWhile_append, if_neg (by simpa using hne)]

theorem rdropWhile_append_of_not_isAllBlank (s : Text) {t : Text} (ht : t.isAllBlank = false) :
    (s ++ t).rdropWhile isBlank = s ++ t.rdropWhile isBlank := by
  have hreverse : isAllBlank t.reverse = false := by rw [isAllBlank, List.all_reverse]; exact ht
  rw [List.rdropWhile, List.reverse_append, dropWhile_append_of_not_isAllBlank hreverse,
    List.reverse_append, List.reverse_reverse, List.rdropWhile]

theorem trim_append {s t : Text} (hs : s.isAllBlank = false) (between : Text)
    (ht : t.isAllBlank = false) :
    trim (s ++ between ++ t) = s.dropWhile isBlank ++ between ++ t.rdropWhile isBlank := by
  rw [trim_eq, List.append_assoc, dropWhile_append_of_not_isAllBlank hs, ← List.append_assoc,
    rdropWhile_append_of_not_isAllBlank _ ht]

theorem trim_eq_self_iff {t : Text} :
    trim t = t ↔ t.dropWhile isBlank = t ∧ t.rdropWhile isBlank = t := by
  constructor
  · intro h
    have hfront : t.dropWhile isBlank = t := by
      refine (List.dropWhile_suffix isBlank).eq_of_length_le ?_
      have hprefix := (List.rdropWhile_prefix isBlank (t.dropWhile isBlank)).length_le
      rwa [← trim_eq, h] at hprefix
    refine ⟨hfront, ?_⟩
    conv_rhs => rw [← h, trim_eq, hfront]
  · rintro ⟨hfront, hback⟩
    rw [trim_eq, hfront, hback]

theorem dropWhile_trim (t : Text) : (trim t).dropWhile isBlank = trim t := by
  cases htrim : trim t with
  | nil => rfl
  | cons c w =>
      -- The first character is the one that the front was cut at.
      obtain ⟨rest, hrest⟩ := List.rdropWhile_prefix isBlank (t.dropWhile isBlank)
      have hhead := List.head?_dropWhile_not isBlank t
      rw [← hrest, ← trim_eq, htrim] at hhead
      exact List.dropWhile_cons_of_neg (by simpa using hhead)

theorem trim_trim (t : Text) : trim (trim t) = trim t :=
  trim_eq_self_iff.2 ⟨dropWhile_trim t, List.rdropWhile_idempotent _ _⟩

/-! ## Squeezing -/

theorem words_joinWith {ws : List Text} (h : ∀ w ∈ ws, w ≠ [] ∧ ∀ c ∈ w, isBlank c = false) :
    words (joinWith [' '] ws) = ws := by
  have hspace : isBlank ' ' = true := by decide
  induction ws with
  | nil => rfl
  | cons w ws ih =>
      obtain ⟨⟨hne, hw⟩, hws⟩ := List.forall_mem_cons.1 h
      cases ws with
      | nil => exact words_of_forall_not_isBlank hne hw
      | cons v ws =>
          rw [joinWith.eq_3 _ _ _ (by simp), List.append_assoc, List.singleton_append,
            words_append hspace, ih hws, words_of_forall_not_isBlank hne hw]
          rfl

theorem words_squeeze (t : Text) : words (squeeze t) = words t :=
  words_joinWith fun _ hw => ⟨ne_nil_of_mem_words hw, not_isBlank_of_mem_words hw⟩

theorem squeeze_squeeze (t : Text) : squeeze (squeeze t) = squeeze t := by
  conv_lhs => rw [squeeze, words_squeeze]
  rfl

end Proofreader.Text
