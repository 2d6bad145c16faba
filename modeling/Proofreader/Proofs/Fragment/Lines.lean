import Mathlib.Data.List.Forall2
import Proofreader.Proofs.Fragment.Locality
import Proofreader.Proofs.Fragment.Scanning
import Proofreader.Proofs.Fragment.Silence

/-!
# Fragments line by line

Markup that ends in its line can be stripped line by line.  A scan that comes to the end of
such a line in running text has read what it would have read if the text ended there, and goes
on as if the text began behind it.
-/

namespace Proofreader.Fragment

/-! ## Reading running text -/

def endsLine (t : Text) : Bool := t.head?.any Text.isBreak

/-- One step of a scan in running text, or two where an element holds raw content.  A
reference must be ended by something else than the end of its line. -/
inductive Step : Text → List Piece → Text → Prop
  | plain {c : Char} {t : Text} (h : startsMarkup c = false) : Step (c :: t) [.text [c]] t
  | construct {t rest : Text} {ps : List Piece} (h : readConstruct t = .pieces ps rest) :
      Step ('<' :: t) ps rest
  | raw {t name inside content rest : Text} {p : Piece}
      (h : readConstruct t = .rawStart p name inside)
      (hclose : cutWhere? (rawClose? name) inside = some (content, rest)) :
      Step ('<' :: t) [p, .text content, .closing name] rest
  | number {t rest : Text} {n : Nat} (h : CharacterReference.readNumber? t = some (.ok n, rest))
      (hend : endsLine rest = false) :
      Step ('&' :: '#' :: t) [.text [CharacterReference.charOfNumber n]] rest
  | name {t name rest : Text} (h : CharacterReference.readName? t = some (name, rest))
      (hend : endsLine rest = false) :
      Step ('&' :: t) [.text (CharacterReference.textOfName name)] rest
  | ampersand {c : Char} {t : Text} (halpha : c.isAlpha = false) (hnumber : c ≠ '#') :
      Step ('&' :: c :: t) [.text ['&']] (c :: t)

/-- From the front of a text a scan reads pieces and then stands at the rest, in running
text. -/
inductive Passage : Text → List Piece → Text → Prop
  | done (t : Text) : Passage t [] t
  | step {t between rest : Text} {ps qs : List Piece} (h : Step t ps between)
      (hrest : Passage between qs rest) : Passage t (ps ++ qs) rest

theorem Step.remainder {t rest : Text} {ps : List Piece} (h : Step t ps rest) :
    Remainder rest t := by
  cases h with
  | plain h => exact .cons _ (List.suffix_refl _)
  | construct h => exact .cons _ (suffix_of_readConstruct (by rw [h]; rfl))
  | raw h hclose =>
      exact .cons _ ((remainder_of_cutWhere? (closes_rawClose _) hclose).suffix.trans
        (suffix_of_readConstruct (by rw [h]; rfl)))
  | number h hend =>
      exact .cons _ ((CharacterReference.remainder_of_readNumber? h).suffix.trans
        (List.suffix_cons _ _))
  | name h hend => exact .cons _ (CharacterReference.remainder_of_readName? h).suffix
  | ampersand halpha hnumber => exact .cons _ (List.suffix_refl _)

theorem Passage.suffix {t rest : Text} {ps : List Piece} (h : Passage t ps rest) : rest <:+ t := by
  induction h with
  | done t => exact List.suffix_refl t
  | step h hrest ih => exact ih.trans h.remainder.suffix

/-! ## What a text shows -/

def shown (t : Text) : Except Fault (Nesting → Text) :=
  (pieces t).map fun ps σ => σ.plain ps

theorem map_plain_read (t : Text) : (read t).map plain = (shown t).map (· .outside) := by
  unfold read shown
  cases pieces t with
  | error e => rfl
  | ok ps => exact congrArg Except.ok (plain_ofPieces ps)

def behind (ps : List Piece) (f : Nesting → Text) : Nesting → Text :=
  fun σ => σ.plain ps ++ f (σ.run ps)

theorem shown_of_pieces {t rest : Text} {ps : List Piece}
    (h : pieces t = (pieces rest).map (ps ++ ·)) : shown t = (shown rest).map (behind ps) := by
  unfold shown
  rw [h]
  cases pieces rest with
  | error e => rfl
  | ok qs =>
      simp only [Except.map]
      congr 1
      funext σ
      exact σ.plain_append ps qs

theorem pieces_of_advance {t rest : Text} {ps : List Piece}
    (h : advance false none t = .on ⟨ps.reverse, none, rest⟩) :
    pieces t = (pieces rest).map (ps ++ ·) := by
  have hstep := piecesFrom_of_advance h
  rwa [List.reverse_reverse] at hstep

theorem pieces_plain {c : Char} {t : Text} (hc : startsMarkup c = false) :
    pieces (c :: t) = (pieces (t.dropWhile isPlain)).map
      ([.text (c :: t.takeWhile isPlain)] ++ ·) := by
  have hplain : isPlain c = true := by simp [isPlain, hc]
  have hopen : c ≠ '<' := by rintro rfl; simp [startsMarkup] at hc
  have hname : c ≠ '&' := by rintro rfl; simp [startsMarkup] at hc
  refine pieces_of_advance ?_
  rw [advance.eq_6 _ _ (by simp) (by simp [hopen]) (by simp [hname]) (by simp [hname]),
    List.takeWhile_cons_of_pos hplain, List.dropWhile_cons_of_pos hplain]
  rfl

/-- A string is read as a whole, but it may as well be read character by character. -/
theorem shown_plain {c : Char} {t : Text} (hc : startsMarkup c = false) :
    shown (c :: t) = (shown t).map (behind [.text [c]]) := by
  cases t with
  | nil => exact shown_of_pieces (pieces_plain hc)
  | cons d t =>
      cases hd : startsMarkup d with
      | true =>
          have hmarkup : isPlain d = false := by simp [isPlain, hd]
          have h := pieces_plain (t := d :: t) hc
          rw [List.takeWhile_cons_of_neg (by simp [hmarkup]),
            List.dropWhile_cons_of_neg (by simp [hmarkup])] at h
          exact shown_of_pieces h
      | false =>
          have hplain : isPlain d = true := by simp [isPlain, hd]
          have h := pieces_plain (t := d :: t) hc
          rw [List.takeWhile_cons_of_pos hplain, List.dropWhile_cons_of_pos hplain] at h
          rw [shown_of_pieces h, shown_of_pieces (pieces_plain hd)]
          cases shown (t.dropWhile isPlain) with
          | error e => rfl
          | ok f =>
              have hcut : ∀ σ : Nesting, σ.plain [.text (c :: d :: t.takeWhile isPlain)] =
                  σ.plain [.text [c]] ++ σ.plain [.text (d :: t.takeWhile isPlain)] :=
                fun σ => (σ.plain_text_append [c] _ []).trans (σ.plain_append [.text [c]] _)
              simp only [Except.map]
              congr 1
              funext σ
              rw [behind, hcut, List.append_assoc]
              rfl

theorem shown_of_step {t rest : Text} {ps : List Piece} (h : Step t ps rest) :
    shown t = (shown rest).map (behind ps) := by
  cases h with
  | plain h => exact shown_plain h
  | construct h =>
      refine shown_of_pieces (pieces_of_advance ?_)
      simp only [advance, advanceConstruct, h]
  | @raw t name inside content rest p h hclose =>
      have hopen : advance false none ('<' :: t) = .on ⟨[p], some name, inside⟩ := by
        simp only [advance, advanceConstruct, h]
      have hcontent : advance false (some name) inside =
          .on ⟨[.closing name, .text content], none, rest⟩ := by
        simp only [advance, hclose]
      refine shown_of_pieces ((piecesFrom_of_advance hopen).trans ?_)
      rw [piecesFrom_of_advance hcontent]
      change _ = (piecesFrom none rest).map _
      cases piecesFrom none rest <;> rfl
  | number h hend =>
      refine shown_of_pieces (pieces_of_advance ?_)
      simp only [advance, advanceNumber, h]
      rfl
  | @name t name rest h hend =>
      refine shown_of_pieces (pieces_of_advance ?_)
      have hnumber : ∀ t', t = '#' :: t' → False := by
        rintro t' rfl
        simp [CharacterReference.readName?] at h
      rw [advance.eq_5 _ _ hnumber]
      simp only [advanceName, h]
      rfl
  | @ampersand c t halpha hnumber =>
      refine shown_of_pieces (pieces_of_advance ?_)
      rw [advance.eq_5 _ _ (by simp [hnumber])]
      simp [advanceName, CharacterReference.readName?, halpha]

theorem shown_of_passage {t rest : Text} {ps : List Piece} (h : Passage t ps rest) :
    shown t = (shown rest).map (behind ps) := by
  induction h with
  | done t =>
      cases hshown : shown t <;> rfl
  | @step t between rest ps qs h hrest ih =>
      rw [shown_of_step h, ih]
      cases shown rest with
      | error e => rfl
      | ok f =>
          simp only [Except.map]
          congr 1
          funext σ
          simp [behind, σ.plain_append, Nesting.run]

/-! ## One line -/

section Line

variable {c : Char} {w : Text} (hc : Text.isBreak c = true)

theorem endsLine_append {r x : Text} (hr : r ≠ []) : endsLine (r ++ x) = endsLine r := by
  cases r with
  | nil => exact absurd rfl hr
  | cons d r => rfl

include hc

theorem ne_nil_of_endsLine {r : Text} (h : endsLine (r ++ c :: w) = false) : r ≠ [] := by
  rintro rfl
  simp [endsLine, hc] at h

theorem readConstruct_break : readConstruct (c :: w) = .pieces [.text ['<']] (c :: w) := by
  have hslash : c ≠ '/' := by rintro rfl; simp [Text.isBreak] at hc
  have hmark : c ≠ '!' := by rintro rfl; simp [Text.isBreak] at hc
  have hquestion : c ≠ '?' := by rintro rfl; simp [Text.isBreak] at hc
  have halpha : c.isAlpha = false := Text.not_of_isBreak hc (by decide)
  rw [readConstruct_cons hslash hmark hquestion, halpha]
  rfl

theorem Step.line {s y : Text} {ps : List Piece} (h : Step (s ++ c :: w) ps y)
    (hx : c :: w <:+ y) :
    ∃ r, y = r ++ c :: w ∧
      (Step s ps r ∨ r = [] ∧ ps = [.text s] ∧ (s = ['<'] ∨ s = ['&'])) := by
  generalize ht : s ++ c :: w = t at h
  cases h with
  | @plain d t h =>
      cases s with
      | nil =>
          obtain ⟨rfl, rfl⟩ := List.cons.inj ht
          exact absurd hx (Text.not_suffix (List.suffix_refl _))
      | cons e s =>
          obtain ⟨rfl, rfl⟩ := List.cons.inj ht
          exact ⟨s, rfl, .inl (.plain h)⟩
  | @construct t rest ps h =>
      obtain ⟨s, rfl, rfl⟩ := Text.eq_cons_of_append hc rfl ht
      by_cases hs : s = []
      · subst hs
        rw [List.nil_append, readConstruct_break hc] at h
        obtain ⟨rfl, rfl⟩ := Construct.pieces.inj h
        exact ⟨[], rfl, .inr ⟨rfl, rfl, .inl rfl⟩⟩
      · obtain ⟨r, rfl, hread⟩ := readConstruct_line hc hs (by rw [h]; rfl) hx
        rw [h] at hread
        exact ⟨r, rfl, .inl (.construct hread)⟩
  | @raw t name inside content rest p h hclose =>
      obtain ⟨s, rfl, rfl⟩ := Text.eq_cons_of_append hc rfl ht
      have hinside := hx.trans (remainder_of_cutWhere? (closes_rawClose _) hclose).suffix
      have hs : s ≠ [] := by
        rintro rfl
        rw [List.nil_append, readConstruct_break hc] at h
        simp at h
      obtain ⟨r, rfl, hread⟩ := readConstruct_line hc hs (by rw [h]; rfl) hinside
      obtain ⟨r', rfl, hcut⟩ := cutWhere?_line (rawClose_inLine hc name) hclose hx
      rw [h] at hread
      exact ⟨r', rfl, .inl (.raw hread hcut)⟩
  | @number t rest n h hend =>
      obtain ⟨s, rfl, hs⟩ := Text.eq_cons_of_append hc rfl ht
      obtain ⟨s, rfl, rfl⟩ := Text.eq_cons_of_append hc rfl hs.symm
      obtain ⟨r, rfl, hread⟩ := CharacterReference.readNumber?_line hc h hend
      rw [endsLine_append (ne_nil_of_endsLine hc hend)] at hend
      exact ⟨r, rfl, .inl (.number hread hend)⟩
  | @name t name rest h hend =>
      obtain ⟨s, rfl, rfl⟩ := Text.eq_cons_of_append hc rfl ht
      obtain ⟨r, rfl, hread⟩ := CharacterReference.readName?_line hc h hend
      rw [endsLine_append (ne_nil_of_endsLine hc hend)] at hend
      exact ⟨r, rfl, .inl (.name hread hend)⟩
  | @ampersand d t halpha hnumber =>
      obtain ⟨s, rfl, hs⟩ := Text.eq_cons_of_append hc rfl ht
      cases s with
      | nil => exact ⟨[], hs, .inr ⟨rfl, rfl, .inr rfl⟩⟩
      | cons e s =>
          obtain ⟨rfl, rfl⟩ := List.cons.inj hs
          exact ⟨d :: s, rfl, .inl (.ampersand halpha hnumber)⟩

theorem shown_line {s : Text} {ps : List Piece} (h : Passage (s ++ c :: w) ps (c :: w)) :
    shown s = .ok fun σ => σ.plain ps := by
  generalize ht : s ++ c :: w = t at h
  generalize hx : c :: w = x at h
  -- what remains of the text after a step still ends with the line end and what follows it
  induction h generalizing s with
  | done t =>
      have hs : s = [] := by
        have hlength := congrArg List.length (ht.trans hx.symm)
        rw [List.length_append] at hlength
        exact List.eq_nil_of_length_eq_zero (by omega)
      rw [hs]
      rfl
  | @step t between rest ps qs h hrest ih =>
      subst hx ht
      obtain ⟨r, rfl, hstep⟩ := h.line hc hrest.suffix
      have halone := ih rfl rfl
      rcases hstep with hstep | ⟨rfl, rfl, hlast⟩
      · rw [shown_of_step hstep, halone]
        exact congrArg Except.ok (funext fun σ => (σ.plain_append ps qs).symm)
      · have hnone : (fun _ : Nesting => ([] : Text)) = fun σ => σ.plain qs :=
          Except.ok.inj (show shown [] = _ from halone)
        have hlone : shown s = .ok fun σ => σ.plain [.text s] := by
          rcases hlast with rfl | rfl <;> rfl
        rw [hlone]
        congr 1
        funext σ
        rw [σ.plain_append, ← congrFun hnone, List.append_nil]

end Line

/-! ## All lines -/

/-- No markup crosses the end of a line: a scan comes to the end of each line in running text,
and there no silent element stands open.  Nor does it matter for what a line shows whether an
element around it keeps blanks. -/
inductive Apart (keeps : Bool) : Text → Prop
  | last {t : Text} (hline : ∀ c ∈ t, Text.isBreak c = false)
      (hopened : ∀ ps, pieces t = .ok ps → (ps.foldlM openedBy []).isSome = true ∧
        ∀ p ∈ ps, p.settles keeps = true) : Apart keeps t
  | line {l w : Text} {c : Char} {ps : List Piece} {inner : List Text}
      (hline : ∀ c ∈ l, Text.isBreak c = false) (hc : Text.isBreak c = true)
      (hread : Passage (l ++ c :: w) ps (c :: w))
      (hopened : ps.foldlM openedBy [] = some inner)
      (hinner : inner.any silentElements.contains = false)
      (hsettles : ∀ p ∈ ps, p.settles keeps = true) (hrest : Apart keeps w) :
      Apart keeps (l ++ c :: w)

theorem Apart.words {keeps : Bool} {t : Text} (h : Apart keeps t) {f : Nesting → Text}
    (hread : shown t = .ok f) {σ : Nesting} (hσ : σ.Over []) (hσkeeps : σ.Settled keeps) :
    ∃ ts, List.Forall₂ (fun l s => (read l).map plain = .ok s) (Text.splitOn Text.isBreak t) ts ∧
      Text.words (f σ) = ts.flatMap Text.words := by
  -- `σ` is general, since a line is shown behind the elements of all lines before it
  induction h generalizing f σ with
  | @last t hline hopened =>
      refine ⟨[f .outside], ?_, ?_⟩
      · rw [Text.splitOn_of_forall_not hline]
        exact .cons (by rw [map_plain_read, hread]; rfl) .nil
      · unfold shown at hread
        cases hpieces : pieces t with
        | error e => simp [hpieces, Except.map] at hread
        | ok ps =>
            obtain rfl : (fun σ : Nesting => σ.plain ps) = f := by
              simpa [hpieces, Except.map] using hread
            obtain ⟨hsome, hsettles⟩ := hopened ps hpieces
            obtain ⟨inner, hinner⟩ := Option.isSome_iff_exists.1 hsome
            simp [(plain_eq_of_over hσ .outside hσkeeps (Nesting.settled_outside keeps) hinner
              hsettles).1]
  | @line l w c ps inner hline hc hpassage hopened hinner hsettles hrest ih =>
      obtain ⟨hplain, hover, hkeeps⟩ := plain_eq_of_over hσ .outside hσkeeps
        (Nesting.settled_outside keeps) hopened hsettles
      have hstart := hover.restart hinner
      have hbreak : startsMarkup c = false := Text.not_of_isBreak hc (by decide)
      rw [shown_of_passage hpassage, shown_plain hbreak] at hread
      cases hw : shown w with
      | error e => simp [hw, Except.map] at hread
      | ok g =>
          obtain rfl : behind ps (behind [.text [c]] g) = f := by
            simpa [hw, Except.map] using hread
          obtain ⟨ts, hlines, hwords⟩ := ih hw hstart hkeeps
          refine ⟨Nesting.outside.plain ps :: ts, ?_, ?_⟩
          · rw [Text.splitOn_append hc, Text.splitOn_of_forall_not hline]
            refine .cons ?_ hlines
            rw [map_plain_read, shown_line hc hpassage]
            rfl
          · have hsilent : (σ.run ps).isSilent = false := hstart.isSilent
            have hshown : behind ps (behind [.text [c]] g) σ =
                Nesting.outside.plain ps ++ c :: g (σ.run ps) := by
              simp only [behind, hplain, Nesting.plain, Nesting.shown, hsilent]
              rfl
            rw [hshown, Text.words_append (Text.isBlank_of_isBreak hc), hwords]
            rfl

end Proofreader.Fragment
