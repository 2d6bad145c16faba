import Proofreader.Proofs.Markdown.Spelling

/-!
# What the parts of a link take

Each reader stops at an end of the text that it was given.  A title with what follows it
has no more line breaks than that text, so long as the text spells none.
-/

namespace Proofreader.Markdown.Link

open Text

variable {t d title rest : Text}

/-! ## Destinations -/

theorem suffix_of_readBracketed? (h : readBracketed? t = some (d, rest)) : rest <:+ t := by
  induction t using readBracketed?.induct generalizing d with
  | case1 => simp [readBracketed?] at h
  | case2 t =>
      obtain ⟨-, rfl⟩ : [] = d ∧ t = rest := by simpa [readBracketed?] using h
      exact List.suffix_cons '>' t
  | case3 c t ih =>
      rw [readBracketed?, Option.map_eq_some_iff] at h
      obtain ⟨⟨d', rest'⟩, hread, heq⟩ := h
      obtain rfl : rest' = rest := (Prod.mk.inj heq).2
      exact (ih hread).trans (List.suffix_append ['\\', c] t)
  | case4 c t hclose hescape hend =>
      rw [readBracketed?.eq_4 _ _ hclose hescape, if_pos hend] at h
      simp at h
  | case5 c t hclose hescape hend ih =>
      rw [readBracketed?.eq_4 _ _ hclose hescape, if_neg hend, Option.map_eq_some_iff] at h
      obtain ⟨⟨d', rest'⟩, hread, heq⟩ := h
      obtain rfl : rest' = rest := (Prod.mk.inj heq).2
      exact (ih hread).trans (List.suffix_cons c t)

theorem suffix_of_readBare? {depth : Nat} (h : readBare? depth t = some (d, rest)) :
    rest <:+ t := by
  induction depth, t using readBare?.induct generalizing d with
  | case1 =>
      obtain ⟨-, rfl⟩ : [] = d ∧ [] = rest := by simpa [readBare?] using h
      exact List.suffix_refl _
  | case2 depth hdepth => simp [readBare?, hdepth] at h
  | case3 t =>
      obtain ⟨-, rfl⟩ : [] = d ∧ '\\' :: ' ' :: t = rest := by simpa [readBare?] using h
      exact List.suffix_refl _
  | case4 depth t hdepth => simp [readBare?, hdepth] at h
  | case5 depth c t hblank ih =>
      rw [readBare?, if_neg hblank, Option.map_eq_some_iff] at h
      obtain ⟨⟨d', rest'⟩, hread, heq⟩ := h
      obtain rfl : rest' = rest := (Prod.mk.inj heq).2
      exact (ih hread).trans (List.suffix_append ['\\', c] t)
  | case6 depth t hdepth ih =>
      rw [readBare?, if_pos hdepth, Option.map_eq_some_iff] at h
      obtain ⟨⟨d', rest'⟩, hread, heq⟩ := h
      obtain rfl : rest' = rest := (Prod.mk.inj heq).2
      exact (ih hread).trans (List.suffix_cons '(' t)
  | case7 depth t hdepth => simp [readBare?, hdepth] at h
  | case8 t =>
      obtain ⟨-, rfl⟩ : [] = d ∧ ')' :: t = rest := by simpa [readBare?] using h
      exact List.suffix_refl _
  | case9 t depth ih =>
      simp only [readBare?, Option.map_eq_some_iff] at h
      obtain ⟨⟨d', rest'⟩, hread, heq⟩ := h
      obtain rfl : rest' = rest := (Prod.mk.inj heq).2
      exact (ih hread).trans (List.suffix_cons ')' t)
  | case10 c t hescape hopen hclose hend =>
      rw [readBare?.eq_6 _ _ _ hescape hopen hclose, if_pos hend, if_pos rfl] at h
      obtain rfl : c :: t = rest := (Prod.mk.inj (Option.some.inj h)).2
      exact List.suffix_refl _
  | case11 depth c t hescape hopen hclose hend hdepth =>
      rw [readBare?.eq_6 _ _ _ hescape hopen hclose, if_pos hend, if_neg hdepth] at h
      simp at h
  | case12 depth c t hescape hopen hclose hend ih =>
      rw [readBare?.eq_6 _ _ _ hescape hopen hclose, if_neg hend, Option.map_eq_some_iff] at h
      obtain ⟨⟨d', rest'⟩, hread, heq⟩ := h
      obtain rfl : rest' = rest := (Prod.mk.inj heq).2
      exact (ih hread).trans (List.suffix_cons c t)

theorem suffix_of_readDestination? (h : readDestination? t = some (d, rest)) : rest <:+ t := by
  simp only [readDestination?, Option.map_eq_some_iff] at h
  obtain ⟨⟨d', rest'⟩, hread, heq⟩ := h
  obtain rfl : rest' = rest := (Prod.mk.inj heq).2
  split at hread
  · rename_i t
    exact (suffix_of_readBracketed? hread).trans (List.suffix_cons '<' t)
  · split at hread
    · simp at hread
    · exact suffix_of_readBare? hread

/-! ## Titles -/

theorem push_eq_closed {c : Char} {r : TitleReading} :
    r.push c = .closed title rest ↔ ∃ title', title = c :: title' ∧ r = .closed title' rest := by
  cases r <;> simp [TitleReading.push, eq_comm]

theorem eq_of_readTitleTo {close : Char} (h : readTitleTo close t = .closed title rest) :
    t = title ++ close :: rest := by
  induction t using readTitleTo.induct close generalizing title with
  | case1 => simp [readTitleTo] at h
  | case2 t =>
      rw [readTitleTo.eq_def] at h
      simp only [if_true] at h
      obtain ⟨rfl, rfl⟩ := TitleReading.closed.inj h
      rfl
  | case3 c t hclose hnest =>
      rw [readTitleTo.eq_def] at h
      simp only [if_neg hclose, if_pos hnest, reduceCtorEq] at h
  | case4 hclose hnest =>
      rw [readTitleTo.eq_def] at h
      simp [hclose] at h
  | case5 e t hclose hnest ih =>
      rw [readTitleTo.eq_def] at h
      simp only [if_neg hclose, if_neg hnest, if_true] at h
      obtain ⟨title', rfl, h'⟩ := push_eq_closed.1 h
      obtain ⟨title'', rfl, h''⟩ := push_eq_closed.1 h'
      rw [ih h'']
      rfl
  | case6 c t hclose hnest hescape ih =>
      rw [readTitleTo.eq_def] at h
      simp only [if_neg hclose, if_neg hnest, if_neg hescape] at h
      obtain ⟨title', rfl, h'⟩ := push_eq_closed.1 h
      rw [ih h']
      rfl

theorem readTitle?_spec (hspells : SpellsNoBreak t) (h : readTitle? t = some (title, rest)) :
    rest <:+ t ∧ breaks title + breaks rest ≤ breaks t := by
  cases t with
  | nil => simp [readTitle?] at h
  | cons c t =>
      simp only [readTitle?] at h
      split at h
      · simp at h
      · rename_i close hmark
        split at h
        · rename_i raw rest' hread
          obtain ⟨rfl, rfl⟩ : unescape raw = title ∧ rest' = rest := by simpa using h
          obtain rfl := eq_of_readTitleTo hread
          have hraw : raw <:+: c :: (raw ++ close :: rest') := ⟨[c], close :: rest', rfl⟩
          have hle := breaks_unescape_le (hspells.of_isInfix hraw)
          refine ⟨⟨c :: raw ++ [close], by simp⟩, ?_⟩
          rw [breaks_cons, breaks_append, breaks_cons]
          omega
        · simp at h

/-! ## Inline targets -/

/-- A reading of a target ends where `t` ends, and takes the breaks of its title from `t`. -/
def TargetReading.Fits (t : Text) : TargetReading → Prop
  | .complete target title rest =>
      breaks target = 0 ∧ rest <:+ t ∧ breaks title + breaks rest ≤ breaks t
  | .missing => True
  | .broken rest => rest <:+ t

theorem fits_of_end {target : Text} :
    let reading := match rest with
      | ')' :: rest => TargetReading.complete target title rest
      | rest => .broken rest
    breaks target = 0 → rest <:+ t → breaks title + breaks rest ≤ breaks t → reading.Fits t := by
  intro reading htarget hrest hbreaks
  simp only [reading]
  split
  · rename_i rest'
    have hclose : rest' <:+ ')' :: rest' := List.suffix_cons ')' rest'
    have hle := breaks_mono hclose.sublist
    exact ⟨htarget, hclose.trans hrest, by omega⟩
  · exact hrest

theorem readTarget_fits (hspells : SpellsNoBreak t) : (readTarget t).Fits t := by
  have hstart : t.dropWhile isSpaceOrBreak <:+ t := List.dropWhile_suffix _
  rw [readTarget]
  split
  · trivial
  · rename_i hnil
    split
    rename_i target rest hdestination
    have hfirst : breaks target = 0 ∧ rest <:+ t.dropWhile isSpaceOrBreak := by
      split at hdestination
      · rename_i d rest' hread
        have hrest := suffix_of_readDestination? hread
        simp only at hdestination
        split at hdestination
        · obtain ⟨rfl, rfl⟩ := Prod.mk.inj hdestination
          exact ⟨Url.breaks_target d, hrest⟩
        · obtain ⟨rfl, rfl⟩ := Prod.mk.inj hdestination
          exact ⟨rfl, List.suffix_refl _⟩
      · obtain ⟨rfl, rfl⟩ := Prod.mk.inj hdestination
        exact ⟨rfl, List.suffix_refl _⟩
    have hnext : rest.dropWhile isSpaceOrBreak <:+ t :=
      (List.dropWhile_suffix _).trans (hfirst.2.trans hstart)
    have hle : breaks [] + breaks (rest.dropWhile isSpaceOrBreak) ≤ breaks t := by
      simpa using breaks_mono hnext.sublist
    simp only
    cases htitle : (if rest.head?.any isSpaceOrBreak then
        readTitle? (rest.dropWhile isSpaceOrBreak) else none) with
    | none => exact fits_of_end hfirst.1 hnext hle
    | some part =>
        split at htitle
        · obtain ⟨hafter, hbreaks⟩ := readTitle?_spec (hspells.of_isSuffix hnext) htitle
          have hdrop : part.2.dropWhile isSpaceOrBreak <:+ part.2 := List.dropWhile_suffix _
          have hsum : breaks part.1 + breaks (part.2.dropWhile isSpaceOrBreak) ≤ breaks t := by
            have hle' := breaks_mono hdrop.sublist
            rw [breaks_nil] at hle
            omega
          exact fits_of_end hfirst.1 (hdrop.trans (hafter.trans hnext)) hsum
        · simp at htitle

end Proofreader.Markdown.Link
