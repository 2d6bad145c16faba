import Proofreader.Fragment.Exemption
import Proofreader.Proofs.Text.Splitting

/-!
# Squeezing and joining

Squeezing is defined through the words of a text.  Here it is described from left
to right, so that it can be followed through texts that are put together from
parts: `squeezeOn` is the squeezed form of what follows a character that is not
blank.  The main statements are `squeeze_middle`, which finds the squeezed form of
a part inside the squeezed form of the whole, and `filter_squeeze`, which says that
squeezing keeps the characters that are not blank, in their order.
-/

namespace Proofreader.Text

def isInk (c : Char) : Bool := !isBlank c

/-! ## From left to right -/

/-- The squeezed form of what follows a character that is not blank; `gap` says
whether there are blanks in between already. -/
def squeezeOn : Bool → Text → Text
  | _, [] => []
  | gap, c :: t =>
      if isBlank c then squeezeOn true t
      else (if gap then [' '] else []) ++ c :: squeezeOn false t

def gapAfter : Bool → Text → Bool
  | gap, [] => gap
  | _, c :: t => gapAfter (isBlank c) t

theorem squeezeOn_append (gap : Bool) (s t : Text) :
    squeezeOn gap (s ++ t) = squeezeOn gap s ++ squeezeOn (gapAfter gap s) t := by
  induction s generalizing gap with
  | nil => rfl
  | cons c s ih =>
      cases hc : isBlank c with
      | true => simp [squeezeOn, gapAfter, hc, ih]
      | false => simp [squeezeOn, gapAfter, hc, ih]

theorem gapAfter_eq_getLast (gap : Bool) (c : Char) (t : Text) :
    gapAfter gap (c :: t) = (c :: t).getLast?.any isBlank := by
  induction t generalizing gap c with
  | nil => rfl
  | cons d t ih =>
      rw [gapAfter, ih, List.getLast?_cons_cons]

/-! ## Words -/

def spaced (ws : List Text) : Text := ws.flatMap (' ' :: ·)

theorem joinWith_cons (w : Text) (ws : List Text) :
    joinWith [' '] (w :: ws) = w ++ spaced ws := by
  induction ws generalizing w with
  | nil => simp [joinWith, spaced]
  | cons v ws ih =>
      rw [joinWith, ih]
      · simp [spaced]
      · simp

theorem joinWith_eq_tail (ws : List Text) : joinWith [' '] ws = (spaced ws).tail := by
  cases ws with
  | nil => rfl
  | cons w ws => rw [joinWith_cons]; rfl

theorem spaced_filter_squeeze (ts : List Text) :
    spaced ((ts.map squeeze).filter fun t => !t.isEmpty) = spaced (ts.flatMap words) := by
  induction ts with
  | nil => rfl
  | cons t ts ih =>
      have happend : spaced (words t ++ ts.flatMap words) =
          spaced (words t) ++ spaced (ts.flatMap words) := List.flatMap_append
      rw [List.map_cons, List.flatMap_cons, happend, ← ih, squeeze]
      cases hwords : words t with
      | nil => rfl
      | cons w ws =>
          have hw : w ≠ [] := by
            have hmem : w ∈ words t := hwords ▸ List.mem_cons_self ..
            simpa using (List.mem_filter.1 hmem).2
          rw [joinWith_cons, List.filter_cons_of_pos (by simp [hw])]
          simp [spaced]

theorem joinWith_filter_squeeze (ts : List Text) :
    joinWith [' '] ((ts.map squeeze).filter fun t => !t.isEmpty) =
      joinWith [' '] (ts.flatMap words) := by
  rw [joinWith_eq_tail, spaced_filter_squeeze, ← joinWith_eq_tail]

theorem squeezeOn_eq (t piece : Text) (pieces : List Text)
    (h : splitOn isBlank t = piece :: pieces) :
    squeezeOn false t = piece ++ spaced (pieces.filter fun w => !w.isEmpty) ∧
      squeezeOn true t = spaced (words t) := by
  induction t generalizing piece pieces with
  | nil =>
      obtain ⟨rfl, rfl⟩ : [] = piece ∧ [] = pieces := by simpa [splitOn] using h
      simp [squeezeOn, words, splitOn, spaced]
  | cons c t ih =>
      obtain ⟨head, tail, ht⟩ := List.exists_cons_of_ne_nil (splitOn_ne_nil isBlank t)
      obtain ⟨ihFalse, ihTrue⟩ := ih head tail ht
      cases hc : isBlank c with
      | true =>
          obtain ⟨rfl, rfl⟩ : [] = piece ∧ head :: tail = pieces := by
            simpa [splitOn, hc, ht] using h
          simp [squeezeOn, words, splitOn, hc, ht, ihTrue]
      | false =>
          obtain ⟨rfl, rfl⟩ : c :: head = piece ∧ tail = pieces := by
            simpa [splitOn, hc, ht] using h
          simp [squeezeOn, words, splitOn, hc, ht, ihFalse, spaced]

@[simp] theorem squeeze_nil : squeeze [] = [] := rfl

theorem squeeze_cons_blank {c : Char} (hc : isBlank c = true) (t : Text) :
    squeeze (c :: t) = squeeze t := by
  simp [squeeze, words, splitOn, hc]

theorem squeeze_cons_ink {c : Char} (hc : isBlank c = false) (t : Text) :
    squeeze (c :: t) = c :: squeezeOn false t := by
  obtain ⟨head, tail, ht⟩ := List.exists_cons_of_ne_nil (splitOn_ne_nil isBlank t)
  rw [(squeezeOn_eq t head tail ht).1]
  simp [squeeze, words, splitOn, hc, ht, joinWith_cons]

theorem squeeze_dropWhile (t : Text) : squeeze (t.dropWhile isBlank) = squeeze t := by
  induction t with
  | nil => rfl
  | cons c t ih =>
      cases hc : isBlank c with
      | true => rw [List.dropWhile_cons_of_pos hc, ih, squeeze_cons_blank hc]
      | false => rw [List.dropWhile_cons_of_neg (by simp [hc])]

/-! ## What is kept -/

theorem filter_squeezeOn (gap : Bool) (t : Text) :
    (squeezeOn gap t).filter isInk = t.filter isInk := by
  have hspace : isBlank ' ' = true := by decide
  induction t generalizing gap with
  | nil => rfl
  | cons c t ih =>
      cases hc : isBlank c with
      | true => simpa [squeezeOn, isInk, hc] using ih true
      | false =>
          have hrest := ih false
          cases gap <;> simp_all [squeezeOn, isInk]

theorem filter_squeeze (t : Text) : (squeeze t).filter isInk = t.filter isInk := by
  induction t with
  | nil => rfl
  | cons c t ih =>
      cases hc : isBlank c with
      | true => rw [squeeze_cons_blank hc, ih]; simp [isInk, hc]
      | false =>
          have hrest := filter_squeezeOn false t
          rw [squeeze_cons_ink hc, List.filter_cons, List.filter_cons, hrest]

theorem squeeze_eq_nil_iff (t : Text) : squeeze t = [] ↔ t.isAllBlank = true := by
  induction t with
  | nil => simp [isAllBlank]
  | cons c t ih =>
      cases hc : isBlank c with
      | true => rw [squeeze_cons_blank hc, ih]; simp [isAllBlank, hc]
      | false => rw [squeeze_cons_ink hc]; simp [isAllBlank, hc]

/-! ## A part inside the whole -/

/-- The squeezed form of what stands before a character that is not blank, with the
space that separates the two if there is one. -/
def squeezedBefore (t : Text) : Text :=
  squeeze t ++ if !(squeeze t).isEmpty && t.getLast?.any isBlank then [' '] else []

@[simp] theorem squeezedBefore_nil : squeezedBefore [] = [] := rfl

theorem length_squeezedBefore (t : Text) (position : Nat) :
    (squeezedBefore (t.take position)).length = t.squeezedPosition position := by
  simp only [squeezedBefore, squeezedPosition]
  split <;> simp

theorem filter_squeezedBefore (t : Text) : (squeezedBefore t).filter isInk = t.filter isInk := by
  have hspace : [' '].filter isInk = [] := by decide
  rw [squeezedBefore, List.filter_append, filter_squeeze]
  split <;> simp [hspace]

theorem squeezedBefore_cons_blank {c : Char} (hc : isBlank c = true) (t : Text) :
    squeezedBefore (c :: t) = squeezedBefore t := by
  cases t with
  | nil => simp [squeezedBefore, squeeze_cons_blank hc]
  | cons d t => simp [squeezedBefore, squeeze_cons_blank hc, List.getLast?_cons_cons]

theorem squeezedBefore_cons_ink {c : Char} (hc : isBlank c = false) (t : Text) :
    squeezedBefore (c :: t) =
      c :: squeezeOn false t ++ if gapAfter false t then [' '] else [] := by
  have hgap : (c :: t).getLast?.any isBlank = gapAfter false t := by
    rw [← gapAfter_eq_getLast false, gapAfter, hc]
  simp [squeezedBefore, squeeze_cons_ink hc, hgap]

theorem squeeze_append_ink (before : Text) {c : Char} (hc : isBlank c = false) (t : Text) :
    squeeze (before ++ c :: t) = squeezedBefore before ++ c :: squeezeOn false t := by
  induction before with
  | nil => simp [squeeze_cons_ink hc]
  | cons d before ih =>
      cases hd : isBlank d with
      | true => rw [List.cons_append, squeeze_cons_blank hd, ih, squeezedBefore_cons_blank hd]
      | false =>
          rw [List.cons_append, squeeze_cons_ink hd, squeezedBefore_cons_ink hd, squeezeOn_append]
          simp [squeezeOn, hc]

/-- A part that is not all blank has its squeezed form inside that of the whole: it
stands after what precedes the first character that is not blank. -/
theorem squeeze_middle (before part after : Text) (h : part.isAllBlank = false) :
    ∃ rest, squeeze (before ++ part ++ after) =
      squeezedBefore (before ++ part.takeWhile isBlank) ++ squeeze part ++ rest := by
  have hpart := List.takeWhile_append_dropWhile (p := isBlank) (l := part)
  cases hdrop : part.dropWhile isBlank with
  | nil =>
      have hsqueeze : squeeze part = [] := by rw [← squeeze_dropWhile, hdrop, squeeze_nil]
      have hblank := (squeeze_eq_nil_iff part).1 hsqueeze
      simp [h] at hblank
  | cons c t =>
      have hc : isBlank c = false := by
        have hhead := List.head?_dropWhile_not isBlank part
        simpa [hdrop] using hhead
      have hsqueeze : squeeze part = c :: squeezeOn false t := by
        rw [← squeeze_dropWhile, hdrop, squeeze_cons_ink hc]
      refine ⟨squeezeOn (gapAfter false t) after, ?_⟩
      calc
        squeeze (before ++ part ++ after)
          = squeeze ((before ++ part.takeWhile isBlank) ++ c :: (t ++ after)) := by
            conv => lhs; rw [← hpart, hdrop]
            simp
        _ = squeezedBefore (before ++ part.takeWhile isBlank) ++
              c :: squeezeOn false (t ++ after) := squeeze_append_ink _ hc _
        _ = squeezedBefore (before ++ part.takeWhile isBlank) ++ squeeze part ++
              squeezeOn (gapAfter false t) after := by
            rw [squeezeOn_append, hsqueeze]
            simp

end Proofreader.Text
