import Mathlib.Data.List.Basic
import Proofreader.Proofs.Text.Splitting
import Proofreader.Text.Lines

/-!
# Line breaks

How many characters of a text break a line.  No part of a text has more of them than the
whole.
-/

namespace Proofreader.Text

def isBreak (c : Char) : Bool := c == '\n' || c == '\r'

theorem isBreak_of {p : Char → Bool} (hp : p '\n' = false ∧ p '\r' = false) {c : Char}
    (h : p c = true) : isBreak c = false := by
  cases hbreak : isBreak c with
  | false => rfl
  | true =>
      rw [isBreak, Bool.or_eq_true, beq_iff_eq, beq_iff_eq] at hbreak
      rcases hbreak with rfl | rfl
      · simp [hp.1] at h
      · simp [hp.2] at h

def breaks (t : Text) : Nat := t.countP isBreak

@[simp] theorem breaks_nil : breaks [] = 0 := rfl

@[simp] theorem breaks_cons (c : Char) (t : Text) :
    breaks (c :: t) = breaks t + if isBreak c then 1 else 0 := List.countP_cons

@[simp] theorem breaks_append (s t : Text) : breaks (s ++ t) = breaks s + breaks t :=
  List.countP_append

@[simp] theorem breaks_reverse (t : Text) : breaks t.reverse = breaks t :=
  (List.reverse_perm t).countP_eq isBreak

theorem breaks_mono {s t : Text} (h : s.Sublist t) : breaks s ≤ breaks t := h.countP_le

theorem breaks_eq_zero {t : Text} : breaks t = 0 ↔ ∀ c ∈ t, isBreak c = false := by
  simp [breaks, List.countP_eq_zero]

theorem breaks_eq_zero_iff {t : Text} : breaks t = 0 ↔ '\r' ∉ t ∧ '\n' ∉ t := by
  simp only [breaks_eq_zero, isBreak, Bool.or_eq_false_iff, beq_eq_false_iff_ne]
  constructor
  · intro h
    exact ⟨fun hmem => (h '\r' hmem).2 rfl, fun hmem => (h '\n' hmem).1 rfl⟩
  · rintro ⟨hreturn, hfeed⟩ c hc
    exact ⟨fun h => hfeed (h ▸ hc), fun h => hreturn (h ▸ hc)⟩

theorem breaks_eq_zero_of_subset {s t : Text} (h : s ⊆ t) (ht : breaks t = 0) : breaks s = 0 :=
  breaks_eq_zero.2 fun c hc => breaks_eq_zero.1 ht c (h hc)

theorem breaks_take_add_drop (t : Text) {m n : Nat} (h : m ≤ n) :
    breaks (t.take m) + breaks (t.drop n) ≤ breaks t := by
  have hsplit := congrArg breaks (List.take_append_drop m t)
  rw [breaks_append] at hsplit
  have hdrop : breaks (t.drop n) ≤ breaks (t.drop m) :=
    breaks_mono (List.drop_suffix_drop_left t h).sublist
  omega

/-! ## Lines -/

theorem length_consLine (c : Char) (lines : List Text) (h : lines ≠ []) :
    (consLine c lines).length = lines.length := by
  cases lines with
  | nil => exact absurd rfl h
  | cons line lines => rfl

theorem splitLines_ne_nil (t : Text) : splitLines t ≠ [] := by
  induction t using splitLines.induct with
  | case1 => simp [splitLines]
  | case2 rest ih => simp [splitLines]
  | case3 c rest hfirst hbreak ih => simp [splitLines, hbreak]
  | case4 c rest hfirst hbreak ih =>
      rw [splitLines.eq_3 _ _ hfirst, if_neg hbreak]
      cases splitLines rest <;> simp [consLine]

/-- The pieces between the break characters are the lines, and an empty one between the two
characters of a single break. -/
theorem exists_splitLines (t : Text) :
    ∃ first lines pieces, splitLines t = first :: lines ∧ splitOn isBreak t = first :: pieces ∧
      lines.filter (fun l => !l.isEmpty) = pieces.filter fun l => !l.isEmpty := by
  induction t using splitLines.induct with
  | case1 => exact ⟨[], [], [], rfl, rfl, rfl⟩
  | case2 rest ih =>
      obtain ⟨first, lines, pieces, hlines, hpieces, hfilter⟩ := ih
      refine ⟨[], splitLines rest, [] :: splitOn isBreak rest, rfl, rfl, ?_⟩
      rw [hlines, hpieces]
      simp [List.filter_cons, hfilter]
  | case3 c rest hfirst hbreak ih =>
      obtain ⟨first, lines, pieces, hlines, hpieces, hfilter⟩ := ih
      have hcount : isBreak c = true := by simpa [isBreak, or_comm] using hbreak
      refine ⟨[], splitLines rest, splitOn isBreak rest, ?_, ?_, ?_⟩
      · rw [splitLines.eq_3 _ _ hfirst, if_pos hbreak]
      · rw [splitOn, if_pos hcount]
      · rw [hlines, hpieces]
        simp [List.filter_cons, hfilter]
  | case4 c rest hfirst hbreak ih =>
      obtain ⟨first, lines, pieces, hlines, hpieces, hfilter⟩ := ih
      have hcount : ¬ isBreak c = true := by simpa [isBreak, or_comm] using hbreak
      refine ⟨c :: first, lines, pieces, ?_, ?_, hfilter⟩
      · rw [splitLines.eq_3 _ _ hfirst, if_neg hbreak, hlines]
        rfl
      · rw [splitOn, if_neg hcount, hpieces]

theorem filter_splitLines (t : Text) :
    (splitLines t).filter (fun l => !l.isEmpty) =
      (splitOn isBreak t).filter fun l => !l.isEmpty := by
  obtain ⟨first, lines, pieces, hlines, hpieces, hfilter⟩ := exists_splitLines t
  rw [hlines, hpieces, List.filter_cons, List.filter_cons, hfilter]

/-! ## Cutting and joining -/

theorem dropWhile_sublist (p : Char → Bool) (t : Text) : (t.dropWhile p).Sublist t :=
  (List.dropWhile_suffix p).sublist

theorem drop_length_takeWhile (p : Char → Bool) (t : Text) :
    t.drop (t.takeWhile p).length = t.dropWhile p := by
  induction t with
  | nil => rfl
  | cons c t ih =>
      cases hc : p c with
      | true => simp [hc, ih]
      | false => simp [hc]

theorem take_length_takeWhile (p : Char → Bool) (t : Text) :
    t.take (t.takeWhile p).length = t.takeWhile p := by
  induction t with
  | nil => rfl
  | cons c t ih =>
      cases hc : p c with
      | true => simp [hc, ih]
      | false => simp [hc]

theorem trim_isInfix (t : Text) : trim t <:+: t := by
  have hstart : trimStart t <:+ t := List.dropWhile_suffix _
  have hend : trim t <+: trimStart t := by
    rw [← List.reverse_suffix, trim, List.reverse_reverse]
    exact List.dropWhile_suffix _
  exact hend.isInfix.trans hstart.isInfix

theorem suffix_of_after? {t p rest : Text} (h : after? t p = some rest) : rest <:+ t := by
  induction t, p using after?.induct with
  | case1 t =>
      obtain rfl : t = rest := by simpa [after?] using h
      exact List.suffix_refl _
  | case2 d p => simp [after?] at h
  | case3 c t d p heq ih =>
      rw [after?, if_pos heq] at h
      exact (ih h).trans (List.suffix_cons c t)
  | case4 c t d p hne => simp [after?, hne] at h

theorem breaks_joinWith_newline {ts : List Text} (h : ∀ t ∈ ts, breaks t = 0) :
    breaks (joinWith ['\n'] ts) = ts.length - 1 := by
  induction ts with
  | nil => rfl
  | cons t ts ih =>
      rw [List.forall_mem_cons] at h
      cases ts with
      | nil => exact h.1
      | cons u ts =>
          have hnewline : breaks ['\n'] = 1 := rfl
          rw [joinWith, breaks_append, breaks_append, ih h.2, h.1, hnewline]
          · simp only [List.length_cons]
            omega
          · simp

theorem mem_joinWith {glue : Text} {ts : List Text} {c : Char} (h : c ∈ joinWith glue ts) :
    c ∈ glue ∨ ∃ t ∈ ts, c ∈ t := by
  induction ts using joinWith.induct with
  | case1 => simp [joinWith] at h
  | case2 t => exact .inr ⟨t, List.mem_singleton_self t, by simpa [joinWith] using h⟩
  | case3 t ts hts ih =>
      rw [joinWith.eq_3 _ _ _ hts, List.mem_append, List.mem_append] at h
      rcases h with (h | h) | h
      · exact .inr ⟨t, List.mem_cons_self .., h⟩
      · exact .inl h
      · rcases ih h with h | ⟨u, hu, h⟩
        · exact .inl h
        · exact .inr ⟨u, List.mem_cons_of_mem t hu, h⟩

theorem subset_of_mem_splitOn {p : Char → Bool} {t piece : Text} (h : piece ∈ splitOn p t) :
    piece ⊆ t := by
  induction t generalizing piece with
  | nil =>
      obtain rfl : piece = [] := by simpa [splitOn] using h
      exact List.nil_subset _
  | cons c t ih =>
      rw [splitOn] at h
      split at h
      · rcases List.mem_cons.1 h with rfl | h
        · exact List.nil_subset _
        · exact List.Subset.trans (ih h) (List.subset_cons_self c t)
      · split at h
        · rename_i hnil
          exact absurd hnil (splitOn_ne_nil p t)
        · rename_i first pieces hpieces
          rw [hpieces] at ih
          rcases List.mem_cons.1 h with rfl | h
          · exact List.cons_subset_cons c (ih (by simp))
          · exact List.Subset.trans (ih (by simp [h])) (List.subset_cons_self c t)

theorem not_of_mem_splitOn {p : Char → Bool} {t piece : Text} (h : piece ∈ splitOn p t) :
    ∀ c ∈ piece, p c = false := by
  induction t generalizing piece with
  | nil =>
      obtain rfl : piece = [] := by simpa [splitOn] using h
      simp
  | cons c t ih =>
      rw [splitOn] at h
      split at h
      · rcases List.mem_cons.1 h with rfl | h
        · simp
        · exact ih h
      · rename_i hc
        rw [Bool.not_eq_true] at hc
        split at h
        · rename_i hnil
          exact absurd hnil (splitOn_ne_nil p t)
        · rename_i first pieces hpieces
          rw [hpieces] at ih
          rcases List.mem_cons.1 h with rfl | h
          · exact List.forall_mem_cons.2 ⟨hc, ih (by simp)⟩
          · exact ih (by simp [h])

theorem exists_mem_splitOn {p : Char → Bool} {t : Text} {c : Char} (hc : c ∈ t) :
    p c = true ∨ ∃ piece ∈ splitOn p t, c ∈ piece := by
  induction t with
  | nil => simp at hc
  | cons d t ih =>
      rw [splitOn]
      split
      · rename_i hd
        rcases List.mem_cons.1 hc with rfl | hc
        · exact .inl hd
        · rcases ih hc with h | ⟨piece, hpiece, h⟩
          · exact .inl h
          · exact .inr ⟨piece, List.mem_cons_of_mem _ hpiece, h⟩
      · split
        · rename_i hnil
          exact absurd hnil (splitOn_ne_nil p t)
        · rename_i first pieces hpieces
          rw [hpieces] at ih
          rcases List.mem_cons.1 hc with rfl | hc
          · exact .inr ⟨c :: first, by simp⟩
          · rcases ih hc with h | ⟨piece, hpiece, h⟩
            · exact .inl h
            · right
              rcases List.mem_cons.1 hpiece with rfl | hpiece
              · exact ⟨d :: piece, by simp [h]⟩
              · exact ⟨piece, by simp [hpiece], h⟩

end Proofreader.Text
