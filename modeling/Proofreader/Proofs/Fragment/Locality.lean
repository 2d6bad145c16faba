import Mathlib.Data.List.TakeWhile
import Proofreader.Proofs.Fragment.Remainders
import Proofreader.Proofs.Text.Breaks

/-!
# Constructs inside a line

A construct that ends before the end of a line is read in the same way if the text ends
there.  Below, `c` ends the line, `w` is the rest of the text, and a construct ends in the
line if `c :: w` is an end of what follows it.
-/

namespace Proofreader

/-! ## However the text goes on -/

namespace Text

theorem dropWhile_append_of_ne_nil {p : Char → Bool} {s : Text} (h : s.dropWhile p ≠ [])
    (x : Text) : (s ++ x).dropWhile p = s.dropWhile p ++ x := by
  rw [List.dropWhile_append, if_neg (by simpa using h)]

theorem takeWhile_append_of_ne_nil {p : Char → Bool} {s : Text} (h : s.dropWhile p ≠ [])
    (x : Text) : (s ++ x).takeWhile p = s.takeWhile p := by
  rw [List.takeWhile_append, if_neg]
  intro hlength
  have hsplit := congrArg List.length (List.takeWhile_append_dropWhile (p := p) (l := s))
  rw [List.length_append] at hsplit
  exact h (List.eq_nil_of_length_eq_zero (by omega))

theorem not_suffix {c : Char} {w y : Text} (h : y <:+ w) : ¬ c :: w <:+ y := by
  intro hx
  have := hx.length_le
  have := h.length_le
  rw [List.length_cons] at *
  omega

end Text

theorem Tag.readPlainEnd?_append {s name r : Text} (h : readPlainEnd? s = some (name, r))
    (x : Text) : readPlainEnd? (s ++ x) = some (name, r ++ x) := by
  obtain ⟨d, t, hstart, halpha, hend, rfl⟩ := readPlainEnd?_eq_some.1 h
  have hname : t.dropWhile isEndNameChar ≠ [] := fun hnil => by simp [hnil] at hend
  refine readPlainEnd?_eq_some.2 ⟨d, t ++ x, ?_, halpha, ?_, ?_⟩
  · rw [Text.dropWhile_append_of_ne_nil (by simp [hstart]), hstart, List.cons_append]
  · rw [Text.dropWhile_append_of_ne_nil hname, Text.dropWhile_append_of_ne_nil (by simp [hend]),
      hend, List.cons_append]
  · rw [Text.takeWhile_append_of_ne_nil hname]

theorem Fragment.afterSpaced?_append {closer s r : Text} (h : afterSpaced? closer s = some r)
    (x : Text) : afterSpaced? closer (s ++ x) = some (r ++ x) := by
  induction closer generalizing s with
  | nil =>
      obtain rfl := Option.some.inj h
      rfl
  | cons d closer ih =>
      rw [afterSpaced?] at h ⊢
      cases hstart : s.dropWhile Text.isBlank with
      | nil => simp [hstart] at h
      | cons e t =>
          rw [Text.dropWhile_append_of_ne_nil (by simp [hstart]), hstart, List.cons_append]
          simp only [hstart] at h ⊢
          split at h
          · rename_i heq
            rw [if_pos heq]
            exact ih h
          · simp at h

/-! ## What ends in a line -/

section Line

variable {c : Char} {w : Text} (hc : Text.isBreak c = true)

include hc

/-! ## Classes of characters -/

namespace Text

theorem not_of_isBreak {p : Char → Bool} (hp : p '\n' = false ∧ p '\r' = false) : p c = false := by
  cases h : p c with
  | false => rfl
  | true => simp [isBreak_of hp h] at hc

theorem isBlank_of_isBreak : isBlank c = true := by
  have h := not_of_isBreak (p := fun d => !isBlank d) hc (by decide)
  simpa using h

theorem takeWhile_line {p : Char → Bool} (hp : p '\n' = false ∧ p '\r' = false) (s : Text) :
    (s ++ c :: w).takeWhile p = s.takeWhile p := by
  rw [List.takeWhile_append, List.takeWhile_cons_of_neg (by simp [not_of_isBreak hc hp]),
    List.append_nil]
  split
  · rename_i h
    exact (List.takeWhile_prefix p).eq_of_length h |>.symm
  · rfl

theorem dropWhile_line {p : Char → Bool} (hp : p '\n' = false ∧ p '\r' = false) (s : Text) :
    (s ++ c :: w).dropWhile p = s.dropWhile p ++ c :: w := by
  rw [List.dropWhile_append, List.dropWhile_cons_of_neg (by simp [not_of_isBreak hc hp])]
  split
  · rename_i h
    rw [List.isEmpty_iff.1 h, List.nil_append]
  · rfl

theorem eq_cons_of_append {d : Char} (hd : isBreak d = false) {s t : Text}
    (h : s ++ c :: w = d :: t) : ∃ s', s = d :: s' ∧ t = s' ++ c :: w := by
  cases s with
  | nil =>
      obtain ⟨rfl, -⟩ := List.cons.inj h
      simp [hd] at hc
  | cons e s =>
      obtain ⟨rfl, ht⟩ := List.cons.inj h
      exact ⟨s, rfl, ht.symm⟩

theorem blanks_line {s : Text} (hx : c :: w <:+ (s ++ c :: w).dropWhile isBlank) :
    s.dropWhile isBlank ≠ [] := by
  intro hnil
  rw [List.dropWhile_append, hnil, List.isEmpty_nil, if_pos rfl,
    List.dropWhile_cons_of_pos (isBlank_of_isBreak hc)] at hx
  exact not_suffix (List.dropWhile_suffix _) hx

theorem cons_of_blanks_line {d : Char} {s t : Text}
    (hstart : (s ++ c :: w).dropWhile isBlank = d :: t) (hx : c :: w <:+ t) :
    ∃ t', t = t' ++ c :: w ∧ s.dropWhile isBlank = d :: t' := by
  have hs := blanks_line hc (hstart ▸ hx.trans (List.suffix_cons d t))
  rw [dropWhile_append_of_ne_nil hs] at hstart
  cases hs' : s.dropWhile isBlank with
  | nil => exact absurd hs' hs
  | cons e t' =>
      rw [hs', List.cons_append] at hstart
      obtain ⟨rfl, rfl⟩ := List.cons.inj hstart
      exact ⟨t', rfl, rfl⟩

end Text

/-! ## Tags -/

namespace Tag

theorem readName?_line (s : Text) :
    readName? (s ++ c :: w) = (readName? s).map fun (name, rest) => (name, rest ++ c :: w) := by
  have hends : (!endsName '\n') = false ∧ (!endsName '\r') = false := by decide
  cases s with
  | nil =>
      have halpha : c.isAlpha = false := Text.not_of_isBreak hc (by decide)
      simp [readName?, halpha]
  | cons d s =>
      rw [List.cons_append, readName?, readName?, Text.takeWhile_line hc hends,
        Text.dropWhile_line hc hends]
      split <;> rfl

theorem not_closing_line {d : Char} {t : Text} (h : ∀ t', d = '/' → t = '>' :: t' → False) :
    ∀ t', d = '/' → t ++ c :: w = '>' :: t' → False := by
  intro t' hd ht
  cases t with
  | nil =>
      obtain ⟨rfl, -⟩ := List.cons.inj ht
      simp [Text.isBreak] at hc
  | cons e t =>
      obtain ⟨rfl, -⟩ := List.cons.inj ht
      exact h t hd rfl

theorem skipFiller_line {s : Text} (hx : c :: w <:+ (skipFiller (s ++ c :: w)).2) :
    (skipFiller s).2 ≠ [] ∧
      skipFiller (s ++ c :: w) = ((skipFiller s).1, (skipFiller s).2 ++ c :: w) := by
  induction s using skipFiller.induct with
  | case1 =>
      have hslash : ∀ t, c = '/' → w = '>' :: t → False := fun t h => by
        simp [h, Text.isBreak] at hc
      have hskip : (c == '/' || Text.isBlank c) = true := by simp [Text.isBlank_of_isBreak hc]
      rw [List.nil_append, skipFiller.eq_3 c w hslash, if_pos hskip] at hx
      exact absurd hx (Text.not_suffix (suffix_skipFiller w))
  | case2 t => exact ⟨List.cons_ne_nil _ _, rfl⟩
  | case3 d t hclose hskip ih =>
      rw [List.cons_append, skipFiller.eq_3 _ _ (not_closing_line hc hclose), if_pos hskip] at hx ⊢
      rw [skipFiller.eq_3 d t hclose, if_pos hskip]
      obtain ⟨hne, heq⟩ := ih hx
      exact ⟨hne, by rw [heq]⟩
  | case4 d t hclose hskip =>
      rw [List.cons_append, skipFiller.eq_3 _ _ (not_closing_line hc hclose), if_neg hskip,
        skipFiller.eq_3 d t hclose, if_neg hskip]
      exact ⟨List.cons_ne_nil _ _, rfl⟩

theorem dropWhile_quote_line {q : Char} (hquote : isQuote q = true) {tail : Text}
    (hclose : tail.dropWhile (· ≠ q) = []) :
    (tail ++ c :: w).dropWhile (· ≠ q) = w.dropWhile (· ≠ q) := by
  have hne : decide (c ≠ q) = true := by
    rw [decide_eq_true_eq]
    rintro rfl
    have hnone : isQuote c = false := Text.not_of_isBreak hc (by decide)
    simp [hnone] at hquote
  rw [List.dropWhile_append, hclose, List.isEmpty_nil, if_pos rfl]
  exact List.dropWhile_cons_of_pos hne

theorem valueFrom?_line (equals blanks : Text) {q : Char} (tail : Text) :
    (valueFrom? equals blanks (q :: (tail ++ c :: w)) = none →
      valueFrom? equals blanks (q :: tail) = none) ∧
    ∀ {value : Text} {ready : Bool} {y : Text},
      valueFrom? equals blanks (q :: (tail ++ c :: w)) = some (value, ready, y) → c :: w <:+ y →
        ∃ r, y = r ++ c :: w ∧ valueFrom? equals blanks (q :: tail) = some (value, ready, r) := by
  have htake := Text.takeWhile_line (p := fun d => !endsBareValue d) (w := w) hc (by decide)
    (q :: tail)
  have hdrop := Text.dropWhile_line (p := fun d => !endsBareValue d) (w := w) hc (by decide)
    (q :: tail)
  rw [List.cons_append] at htake hdrop
  cases hquote : isQuote q with
  | false =>
      rw [valueFrom?_bare hquote, valueFrom?_bare hquote, htake, hdrop]
      refine ⟨by simp, fun h _ => ?_⟩
      obtain ⟨rfl, rfl, rfl⟩ := by simpa only [Option.some.injEq, Prod.mk.injEq] using h
      exact ⟨_, rfl, rfl⟩
  | true =>
      cases hclose : tail.dropWhile (· ≠ q) with
      | cons e rest =>
          have hends : tail.dropWhile (· ≠ q) ≠ [] := hclose ▸ List.cons_ne_nil e rest
          have hends' : (tail ++ c :: w).dropWhile (· ≠ q) = e :: (rest ++ c :: w) := by
            rw [Text.dropWhile_append_of_ne_nil hends, hclose, List.cons_append]
          rw [valueFrom?_quoted hquote hclose, valueFrom?_quoted hquote hends',
            Text.takeWhile_append_of_ne_nil hends]
          refine ⟨by simp, fun h _ => ?_⟩
          obtain ⟨rfl, rfl, rfl⟩ := by simpa only [Option.some.injEq, Prod.mk.injEq] using h
          exact ⟨rest, rfl, rfl⟩
      | nil =>
          have hbeyond := dropWhile_quote_line (w := w) hc hquote hclose
          cases hend : w.dropWhile (· ≠ q) with
          | cons e rest =>
              -- the quote is closed beyond the line, and so the value does not end in it
              rw [valueFrom?_quoted hquote (hbeyond.trans hend)]
              refine ⟨by simp, fun h hx => ?_⟩
              obtain ⟨-, -, rfl⟩ := by simpa only [Option.some.injEq, Prod.mk.injEq] using h
              have hsuffix : e :: rest <:+ w := hend ▸ List.dropWhile_suffix _
              exact absurd hx (Text.not_suffix ((List.suffix_cons e rest).trans hsuffix))
          | nil =>
              rw [valueFrom?_open hquote (hbeyond.trans hend), valueFrom?_open hquote hclose, htake,
                hdrop]
              split
              · refine ⟨by simp, fun h _ => ?_⟩
                obtain ⟨rfl, rfl, rfl⟩ := by simpa only [Option.some.injEq, Prod.mk.injEq] using h
                exact ⟨q :: tail, rfl, rfl⟩
              · split
                · refine ⟨by simp, fun h _ => ?_⟩
                  obtain ⟨rfl, rfl, rfl⟩ := by simpa only [Option.some.injEq, Prod.mk.injEq] using h
                  exact ⟨_, rfl, rfl⟩
                · simp

theorem readValue?_line {s : Text} (hs : s.dropWhile Text.isBlank ≠ []) :
    (readValue? (s ++ c :: w) = none → readValue? s = none) ∧
    ∀ {value : Text} {ready : Bool} {y : Text},
      readValue? (s ++ c :: w) = some (value, ready, y) → c :: w <:+ y →
        ∃ r, y = r ++ c :: w ∧ readValue? s = some (value, ready, r) := by
  have hstart := Text.dropWhile_append_of_ne_nil hs (c :: w)
  rw [readValue?_eq, readValue?_eq, afterEquals, afterEquals, hstart]
  generalize s.dropWhile Text.isBlank = s'
  rw [Text.takeWhile_line hc (by decide), Text.dropWhile_line hc (by decide)]
  generalize s'.takeWhile (· == '=') = equals
  generalize s'.dropWhile (· == '=') = s''
  split
  · simp
  · by_cases hend : s''.dropWhile Text.isBlank = []
    · -- the blanks go on beyond the line, and so does what follows them
      have hblank := Text.isBlank_of_isBreak hc
      have hrest : (s'' ++ c :: w).dropWhile Text.isBlank = w.dropWhile Text.isBlank := by
        rw [List.dropWhile_append, hend, List.isEmpty_nil, if_pos rfl,
          List.dropWhile_cons_of_pos hblank]
      have hblanks : ((s'' ++ c :: w).takeWhile Text.isBlank).isEmpty = false := by
        cases s'' with
        | nil => simp [hblank]
        | cons d s'' =>
            rw [List.dropWhile_eq_nil_iff] at hend
            simp [hend d (List.mem_cons_self ..)]
      rw [hrest]
      refine ⟨fun h => ?_, fun h hx => ?_⟩
      · unfold valueFrom? at h
        simp only [hblanks, Bool.not_false, if_true] at h
        repeat' split at h
        all_goals simp at h
      · exact absurd hx (Text.not_suffix ((suffix_of_valueFrom? h).trans (List.dropWhile_suffix _)))
    · rw [Text.dropWhile_append_of_ne_nil hend, Text.takeWhile_append_of_ne_nil hend]
      cases hvalue : s''.dropWhile Text.isBlank with
      | nil => exact absurd hvalue hend
      | cons q tail => exact valueFrom?_line hc equals _ tail

theorem readAttribute_line (name : Text) {s : Text}
    (hx : c :: w <:+ (skipFiller (readAttribute name (s ++ c :: w)).2.2).2) :
    (readAttribute name (s ++ c :: w)).1 = (readAttribute name s).1 ∧
      (readAttribute name (s ++ c :: w)).2.1 = (readAttribute name s).2.1 ∧
      (skipFiller (readAttribute name s).2.2).2 ≠ [] ∧
      skipFiller (readAttribute name (s ++ c :: w)).2.2 =
        ((skipFiller (readAttribute name s).2.2).1,
          (skipFiller (readAttribute name s).2.2).2 ++ c :: w) := by
  by_cases hs : s.dropWhile Text.isBlank = []
  · exfalso
    unfold readAttribute at hx
    split at hx
    · rename_i h
      exact Text.blanks_line hc (hx.trans ((suffix_skipFiller _).trans
        ((suffix_of_readValue? h).trans (suffix_afterEquals _)))) hs
    · exact (skipFiller_line hc hx).1 (skipFiller_blanks hs)
  · obtain ⟨hnone, hsome⟩ := readValue?_line (w := w) hc hs
    unfold readAttribute at hx ⊢
    cases hvalue : readValue? (s ++ c :: w) with
    | none =>
        rw [hvalue] at hx
        rw [hnone hvalue]
        exact ⟨rfl, rfl, skipFiller_line hc hx⟩
    | some found =>
        obtain ⟨value, ready, y⟩ := found
        rw [hvalue] at hx
        obtain ⟨r, rfl, hread⟩ := hsome hvalue (hx.trans (suffix_skipFiller y))
        rw [hread]
        exact ⟨rfl, rfl, skipFiller_line hc hx⟩

def Outcome.leaving (rest : Text) : Outcome → Outcome
  | .closed selfClosing attributes _ => .closed selfClosing attributes rest
  | .broken attributes _ => .broken attributes rest
  | .unfinished => .unfinished

omit hc in
theorem Outcome.unescape_leaving (o : Outcome) (rest : Text) :
    (o.leaving rest).unescape = o.unescape.map (·.leaving rest) := by
  cases o with
  | closed selfClosing attributes rest =>
      simp only [leaving, unescape]
      cases attributes.mapM Attribute.unescape <;> rfl
  | unfinished => rfl
  | broken attributes rest =>
      simp only [leaving, unescape]
      cases attributes.mapM Attribute.unescape <;> rfl

theorem readAttributes_line {n m : Nat} {ready : Bool} {s y : Text} {attributes : List Attribute}
    (hs : s ≠ []) (hm : s.length < m)
    (h : (readAttributes n ready (s ++ c :: w) attributes).rest? = some y) (hx : c :: w <:+ y) :
    ∃ r, y = r ++ c :: w ∧
      readAttributes m ready s attributes =
        (readAttributes n ready (s ++ c :: w) attributes).leaving r := by
  -- the line alone is read with a fuel of its own, so both fuels go down together
  induction n generalizing m ready s attributes with
  | zero => simp [readAttributes, Outcome.rest?] at h
  | succ n ih =>
      cases m with
      | zero => exact absurd hm (Nat.not_lt_zero _)
      | succ m =>
          cases s with
          | nil => exact absurd rfl hs
          | cons d s =>
              by_cases hbracket : d = '>'
              · subst hbracket
                obtain rfl := Option.some.inj h
                exact ⟨s, rfl, rfl⟩
              · by_cases hclose : ∃ t, d = '/' ∧ s = '>' :: t
                · obtain ⟨t, rfl, rfl⟩ := hclose
                  obtain rfl := Option.some.inj h
                  exact ⟨t, rfl, rfl⟩
                · have hclose' : ∀ t, d = '/' → s = '>' :: t → False :=
                    fun t hd ht => hclose ⟨t, hd, ht⟩
                  rw [List.cons_append] at h ⊢
                  rw [readAttributes_next _ _ _ hbracket (not_closing_line hc hclose')] at h ⊢
                  rw [readAttributes_next _ _ _ hbracket hclose']
                  cases ready with
                  | false =>
                      simp only [Bool.false_eq_true, if_false] at h ⊢
                      split at h
                      · simp [Outcome.rest?] at h
                      · obtain rfl := Option.some.inj h
                        rename_i hequals
                        rw [if_neg hequals, if_neg hequals]
                        exact ⟨d :: s, rfl, rfl⟩
                  | true =>
                      simp only [if_true] at h ⊢
                      rw [Text.takeWhile_line hc (by decide), Text.dropWhile_line hc (by decide)]
                        at h ⊢
                      have hx' := hx.trans (suffix_of_readAttributes h)
                      obtain ⟨hfirst, hready, hne, hskip⟩ := readAttribute_line hc _ hx'
                      rw [hfirst, hready, hskip] at h ⊢
                      refine ih hne ?_ h
                      have := (suffix_skipFiller (readAttribute
                        (d :: s.takeWhile fun e => !endsAttributeName e)
                        (s.dropWhile fun e => !endsAttributeName e)).2.2).length_le
                      have := (suffix_readAttribute
                        (d :: s.takeWhile fun e => !endsAttributeName e)
                        (s.dropWhile fun e => !endsAttributeName e)).length_le
                      have := (List.dropWhile_suffix (l := s)
                        fun e => !endsAttributeName e).length_le
                      rw [List.length_cons] at hm
                      omega

theorem readStart_line {name s y : Text} (h : (readStart name (s ++ c :: w)).rest? = some y)
    (hx : c :: w <:+ y) :
    ∃ r, y = r ++ c :: w ∧ readStart name s = (readStart name (s ++ c :: w)).leaving r := by
  have hx' := hx.trans (suffix_of_readAttributes h)
  obtain ⟨hne, hskip⟩ := skipFiller_line hc hx'
  unfold readStart at h ⊢
  simp only [hskip] at h ⊢
  exact readAttributes_line hc hne (Nat.lt_succ_self _) h hx

theorem readPlainEnd?_line {s name y : Text} (h : readPlainEnd? (s ++ c :: w) = some (name, y))
    (hx : c :: w <:+ y) : ∃ r, y = r ++ c :: w ∧ readPlainEnd? s = some (name, r) := by
  have hname : isEndNameChar '\n' = false ∧ isEndNameChar '\r' = false := by decide
  obtain ⟨d, t, hstart, halpha, hend, rfl⟩ := readPlainEnd?_eq_some.1 h
  have hrest : y <:+ t := (List.suffix_cons '>' y).trans
    (hend ▸ (List.dropWhile_suffix _).trans (List.dropWhile_suffix _))
  obtain ⟨t, rfl, hstart'⟩ := Text.cons_of_blanks_line hc hstart (hx.trans hrest)
  rw [Text.dropWhile_line hc hname] at hend
  obtain ⟨r, rfl, hend'⟩ := Text.cons_of_blanks_line hc hend hx
  refine ⟨r, rfl, readPlainEnd?_eq_some.2 ⟨d, t, hstart', halpha, hend', ?_⟩⟩
  rw [Text.takeWhile_line hc hname]

end Tag

/-! ## References -/

namespace CharacterReference

theorem splitDigits_line (s : Text) :
    splitDigits (s ++ c :: w) =
      ((splitDigits s).1, (splitDigits s).2.1 ++ c :: w, (splitDigits s).2.2) := by
  have hhex : isHexDigit '\n' = false ∧ isHexDigit '\r' = false := by decide
  have hdigit : Char.isDigit '\n' = false ∧ Char.isDigit '\r' = false := by decide
  have hother : ∀ t : Text, (∀ t', t ≠ 'x' :: t') → (∀ t', t ≠ 'X' :: t') →
      splitDigits t = (t.takeWhile Char.isDigit, t.dropWhile Char.isDigit, decimalValue) := by
    intro t hx hX
    unfold splitDigits
    split
    · exact absurd rfl (hx _)
    · exact absurd rfl (hX _)
    · rfl
  cases s with
  | nil =>
      have hx : c ≠ 'x' := by rintro rfl; simp [Text.isBreak] at hc
      have hX : c ≠ 'X' := by rintro rfl; simp [Text.isBreak] at hc
      rw [List.nil_append, hother _ (by simp [hx]) (by simp [hX])]
      simp [splitDigits, Text.not_of_isBreak hc hdigit]
  | cons d s =>
      by_cases hx : d = 'x'
      · subst hx
        simp only [List.cons_append, splitDigits, Text.takeWhile_line hc hhex,
          Text.dropWhile_line hc hhex]
      · by_cases hX : d = 'X'
        · subst hX
          simp only [List.cons_append, splitDigits, Text.takeWhile_line hc hhex,
            Text.dropWhile_line hc hhex]
        · rw [hother (d :: s ++ c :: w) (by simp [hx]) (by simp [hX]),
            hother (d :: s) (by simp [hx]) (by simp [hX]), Text.takeWhile_line hc hdigit,
            Text.dropWhile_line hc hdigit]

theorem readNumber?_line {s y : Text} {n : Except Overlong Nat}
    (h : readNumber? (s ++ c :: w) = some (n, y)) (hy : y.head?.any Text.isBreak = false) :
    ∃ r, y = r ++ c :: w ∧ readNumber? s = some (n, r) := by
  rw [readNumber?_eq, splitDigits_line hc] at h
  rw [readNumber?_eq]
  generalize splitDigits s = number at h
  obtain ⟨digits, rest, value⟩ := number
  cases digits with
  | nil => simp [endDigits?] at h
  | cons d digits =>
      cases rest with
      | nil =>
          have hclose : c ≠ ';' := by rintro rfl; simp [Text.isBreak] at hc
          rw [List.nil_append, endDigits?_cons, if_neg hclose] at h
          split at h
          · simp at h
          · obtain ⟨-, rfl⟩ := Prod.mk.inj (Option.some.inj h)
            simp [hc] at hy
      | cons e rest =>
          rw [List.cons_append, endDigits?_cons] at h
          rw [endDigits?_cons]
          split at h
          · rename_i hclose
            obtain ⟨rfl, rfl⟩ := Prod.mk.inj (Option.some.inj h)
            exact ⟨rest, rfl, if_pos hclose⟩
          · rename_i hclose
            split at h
            · simp at h
            · rename_i hhex
              obtain ⟨rfl, rfl⟩ := Prod.mk.inj (Option.some.inj h)
              exact ⟨e :: rest, rfl, by rw [if_neg hclose, if_neg hhex]⟩

theorem readName?_line {s name y : Text} (h : readName? (s ++ c :: w) = some (name, y))
    (hy : y.head?.any Text.isBreak = false) :
    ∃ r, y = r ++ c :: w ∧ readName? s = some (name, r) := by
  have hname : isNameChar '\n' = false ∧ isNameChar '\r' = false := by decide
  cases s with
  | nil =>
      have halpha : c.isAlpha = false := Text.not_of_isBreak hc (by decide)
      simp [readName?, halpha] at h
  | cons d s =>
      rw [List.cons_append, readName?, Text.takeWhile_line hc hname, Text.dropWhile_line hc hname]
        at h
      rw [readName?]
      split at h
      · rename_i halpha
        rw [if_pos halpha]
        cases hrest : s.dropWhile isNameChar with
        | nil =>
            have hclose : c ≠ ';' := by rintro rfl; simp [Text.isBreak] at hc
            simp only [hrest, List.nil_append] at h
            obtain ⟨-, rfl⟩ := Prod.mk.inj (Option.some.inj h)
            simp [hc] at hy
        | cons e rest =>
            rw [hrest, List.cons_append] at h
            by_cases hclose : e = ';'
            · subst hclose
              obtain ⟨rfl, rfl⟩ := Prod.mk.inj (Option.some.inj h)
              exact ⟨rest, rfl, rfl⟩
            · split at h
              · rename_i heq
                exact absurd (List.cons.inj heq).1 hclose
              · rename_i heq
                obtain ⟨rfl, rfl⟩ := List.cons.inj heq
                obtain ⟨rfl, rfl⟩ := Prod.mk.inj (Option.some.inj h)
                exact ⟨_ :: rest, rfl, rfl⟩
              · rename_i heq
                simp at heq
      · simp at h

end CharacterReference

/-! ## Constructs -/

namespace Fragment

omit hc in
theorem cutAt?_line {d : Char} {s before y : Text} (h : cutAt? d (s ++ c :: w) = some (before, y))
    (hx : c :: w <:+ y) : ∃ r, y = r ++ c :: w ∧ cutAt? d s = some (before, r) := by
  induction s generalizing before with
  | nil =>
      have hlt := (remainder_of_cutAt? h).lt
      have := hx.length_le
      rw [List.nil_append] at hlt
      omega
  | cons e s ih =>
      rw [List.cons_append, cutAt?] at h
      rw [cutAt?]
      split at h
      · rename_i heq
        obtain ⟨rfl, rfl⟩ := Prod.mk.inj (Option.some.inj h)
        exact ⟨s, rfl, if_pos heq⟩
      · rename_i hne
        obtain ⟨⟨before', y'⟩, hcut, heq⟩ := Option.map_eq_some_iff.1 h
        obtain ⟨rfl, rfl⟩ := Prod.mk.inj heq
        obtain ⟨r, rfl, hread⟩ := ih hcut
        exact ⟨r, rfl, by rw [if_neg hne, hread]; rfl⟩

theorem afterSpaced?_line {closer s y : Text} (h : afterSpaced? closer (s ++ c :: w) = some y)
    (hx : c :: w <:+ y) : ∃ r, y = r ++ c :: w ∧ afterSpaced? closer s = some r := by
  induction closer generalizing s with
  | nil =>
      obtain rfl := Option.some.inj h
      exact ⟨s, rfl, rfl⟩
  | cons d closer ih =>
      rw [afterSpaced?] at h ⊢
      cases hstart : (s ++ c :: w).dropWhile Text.isBlank with
      | nil => simp [hstart] at h
      | cons e t =>
          simp only [hstart] at h
          split at h
          · rename_i heq
            obtain ⟨t, rfl, hstart'⟩ :=
              Text.cons_of_blanks_line hc hstart (hx.trans (suffix_of_afterSpaced? h))
            simpa only [hstart', heq, if_true] using ih h
          · simp at h

/-- What closes a construct in a line closes it because of the line alone. -/
structure ClosesInLine (c : Char) (w : Text) (close : Text → Option Text) : Prop where
  closes : Closes close
  line : ∀ {s y : Text}, close (s ++ c :: w) = some y → c :: w <:+ y →
    ∃ r, y = r ++ c :: w ∧ close s = some r
  append : ∀ {s r : Text}, close s = some r → close (s ++ c :: w) = some (r ++ c :: w)

theorem commentClose_inLine : ClosesInLine c w commentClose? := by
  refine ⟨closes_commentClose, fun {s y} h hx => ?_, fun {s r} h => ?_⟩
  · obtain ⟨t, ht, hspaced⟩ := commentClose?_eq_some.1 h
    obtain ⟨s, rfl, hs⟩ := Text.eq_cons_of_append hc rfl ht
    obtain ⟨s, rfl, rfl⟩ := Text.eq_cons_of_append hc rfl hs.symm
    obtain ⟨r, rfl, hread⟩ := afterSpaced?_line hc hspaced hx
    exact ⟨r, rfl, commentClose?_eq_some.2 ⟨s, rfl, hread⟩⟩
  · obtain ⟨t, rfl, hspaced⟩ := commentClose?_eq_some.1 h
    exact commentClose?_eq_some.2 ⟨t ++ c :: w, rfl, afterSpaced?_append hspaced _⟩

theorem bracketClose_inLine {close : Text → Option Text} {closer : Text}
    (hclose : IsBracketClose close closer) : ClosesInLine c w close := by
  refine ⟨hclose.closes, fun {s y} h hx => ?_, fun {s r} h => ?_⟩
  · obtain ⟨t, ht, hspaced⟩ := hclose.1 h
    obtain ⟨s, rfl, rfl⟩ := Text.eq_cons_of_append hc rfl ht
    obtain ⟨r, rfl, hread⟩ := afterSpaced?_line hc hspaced hx
    exact ⟨r, rfl, hclose.2 ⟨s, rfl, hread⟩⟩
  · obtain ⟨t, rfl, hspaced⟩ := hclose.1 h
    exact hclose.2 ⟨t ++ c :: w, rfl, afterSpaced?_append hspaced _⟩

theorem rawClose_inLine (name : Text) : ClosesInLine c w (rawClose? name) := by
  refine ⟨closes_rawClose name, fun {s y} h hx => ?_, fun {s r} h => ?_⟩
  · obtain ⟨t, ht, hend⟩ := rawClose?_eq_some.1 h
    obtain ⟨s, rfl, hs⟩ := Text.eq_cons_of_append hc rfl ht
    obtain ⟨s, rfl, rfl⟩ := Text.eq_cons_of_append hc rfl hs.symm
    obtain ⟨r, rfl, hread⟩ := Tag.readPlainEnd?_line hc hend hx
    exact ⟨r, rfl, rawClose?_eq_some.2 ⟨s, rfl, hread⟩⟩
  · obtain ⟨t, rfl, hend⟩ := rawClose?_eq_some.1 h
    exact rawClose?_eq_some.2 ⟨t ++ c :: w, rfl, Tag.readPlainEnd?_append hend _⟩

omit hc in
theorem cutWhere?_line {close : Text → Option Text} (hclose : ClosesInLine c w close)
    {s content y : Text} (h : cutWhere? close (s ++ c :: w) = some (content, y))
    (hx : c :: w <:+ y) : ∃ r, y = r ++ c :: w ∧ cutWhere? close s = some (content, r) := by
  induction s generalizing content with
  | nil =>
      have hlt := (remainder_of_cutWhere? hclose.closes h).lt
      have := hx.length_le
      rw [List.nil_append] at hlt
      omega
  | cons e s ih =>
      rw [List.cons_append, cutWhere?] at h
      rw [cutWhere?]
      cases hhere : close (e :: (s ++ c :: w)) with
      | some y' =>
          simp only [hhere] at h
          obtain ⟨rfl, rfl⟩ := Prod.mk.inj (Option.some.inj h)
          obtain ⟨r, rfl, hread⟩ := hclose.line (s := e :: s) hhere hx
          exact ⟨r, rfl, by rw [hread]⟩
      | none =>
          simp only [hhere] at h
          obtain ⟨⟨content', y'⟩, hcut, heq⟩ := Option.map_eq_some_iff.1 h
          obtain ⟨rfl, rfl⟩ := Prod.mk.inj heq
          obtain ⟨r, rfl, hread⟩ := ih hcut
          refine ⟨r, rfl, ?_⟩
          cases halone : close (e :: s) with
          | none => rw [hread]; rfl
          | some r' =>
              have happend := hclose.append halone
              rw [List.cons_append, hhere] at happend
              simp at happend

def Construct.leaving (rest : Text) : Construct → Construct
  | .pieces ps _ => .pieces ps rest
  | .rawStart p name _ => .rawStart p name rest
  | .unfinished => .unfinished
  | .fails f => .fails f

variable {s y : Text}

omit hc in
theorem silent_line (h : (silent (s ++ c :: w)).rest? = some y) (hx : c :: w <:+ y) :
    ∃ r, y = r ++ c :: w ∧ silent s = (silent (s ++ c :: w)).leaving r := by
  unfold silent at h ⊢
  split at h
  · rename_i hcut
    obtain rfl := Option.some.inj h
    obtain ⟨r, rfl, hread⟩ := cutAt?_line hcut hx
    exact ⟨r, rfl, by rw [hread]; rfl⟩
  · simp [Construct.rest?] at h

theorem readStartTag_line (h : (readStartTag (s ++ c :: w)).rest? = some y) (hx : c :: w <:+ y) :
    ∃ r, y = r ++ c :: w ∧ readStartTag s = (readStartTag (s ++ c :: w)).leaving r := by
  unfold readStartTag at h ⊢
  rw [Tag.readName?_line hc] at h ⊢
  cases hname : Tag.readName? s with
  | none => simp [hname, Construct.rest?] at h
  | some found =>
      obtain ⟨name, rest⟩ := found
      simp only [hname, Option.map_some] at h ⊢
      have hstart : ∀ {y}, (Tag.readStart name (rest ++ c :: w)).rest? = some y → c :: w <:+ y →
          ∃ r, y = r ++ c :: w ∧
            Tag.readStart name rest = (Tag.readStart name (rest ++ c :: w)).leaving r :=
        Tag.readStart_line hc
      cases houtcome : (Tag.readStart name (rest ++ c :: w)).unescape with
      | error f => simp [houtcome, Construct.rest?] at h
      | ok outcome =>
          have hrest := Tag.Outcome.rest?_of_unescape houtcome
          rw [← hrest] at hstart
          have halone : ∀ {r}, Tag.readStart name rest =
              (Tag.readStart name (rest ++ c :: w)).leaving r →
              (Tag.readStart name rest).unescape = .ok (outcome.leaving r) := by
            intro r hread
            rw [hread, Tag.Outcome.unescape_leaving, houtcome]
            rfl
          rw [houtcome] at h
          cases outcome with
          | unfinished => simp [Construct.rest?] at h
          | closed selfClosing attributes y' =>
              obtain rfl : y' = y := by
                simp only at h
                split at h <;> exact Option.some.inj h
              obtain ⟨r, rfl, hread⟩ := hstart rfl hx
              refine ⟨r, rfl, ?_⟩
              rw [halone hread]
              simp only [Tag.Outcome.leaving]
              split <;> rfl
          | broken attributes y' =>
              obtain rfl := Option.some.inj h
              obtain ⟨r, rfl, hread⟩ := hstart rfl hx
              refine ⟨r, rfl, ?_⟩
              rw [halone hread]
              have hr : r.length ≤ s.length := by
                have hsuffix : r <:+ rest := Tag.suffix_of_readStart
                  (by rw [← Tag.Outcome.rest?_of_unescape (halone hread)]; rfl)
                exact (hsuffix.trans (Tag.remainder_of_readName? hname).suffix).length_le
              have hlength :
                  (s ++ c :: w).length - (r ++ c :: w).length = s.length - r.length := by
                simp only [List.length_append]
                omega
              simp only [Tag.Outcome.leaving, Construct.leaving, hlength,
                List.take_append_of_le_length (Nat.sub_le s.length r.length)]

theorem readEndTag_line (h : (readEndTag (s ++ c :: w)).rest? = some y) (hx : c :: w <:+ y) :
    ∃ r, y = r ++ c :: w ∧ readEndTag s = (readEndTag (s ++ c :: w)).leaving r := by
  unfold readEndTag at h ⊢
  cases hcut : cutAt? '>' (s ++ c :: w) with
  | none => simp [hcut, Construct.rest?] at h
  | some found =>
      obtain ⟨before, rest⟩ := found
      simp only [hcut] at h ⊢
      cases hplain : Tag.readPlainEnd? (s ++ c :: w) with
      | some found =>
          obtain ⟨name, rest'⟩ := found
          simp only [hplain, Construct.rest?] at h ⊢
          obtain rfl := Option.some.inj h
          obtain ⟨r, rfl, hread⟩ := Tag.readPlainEnd?_line hc hplain hx
          obtain ⟨before', rest'', hcut'⟩ := exists_cutAt? (Tag.mem_of_readPlainEnd? hread)
          exact ⟨r, rfl, by simp only [hcut', hread, Construct.leaving]⟩
      | none =>
          have hplain' : Tag.readPlainEnd? s = none := by
            rw [Option.eq_none_iff_forall_ne_some]
            intro found hread
            rw [Tag.readPlainEnd?_append hread] at hplain
            simp at hplain
          rw [hplain, Tag.readName?_line hc] at h
          have hy : rest = y := by
            cases hname : Tag.readName? s with
            | none => simpa [hname, Construct.rest?] using h
            | some found => simpa [hname, Construct.rest?] using h
          subst hy
          obtain ⟨r, rfl, hcut'⟩ := cutAt?_line hcut hx
          refine ⟨r, rfl, ?_⟩
          simp only [hcut', hplain', Tag.readName?_line hc]
          cases hname : Tag.readName? s <;> rfl

theorem readSection_line (h : (readSection (s ++ c :: w)).rest? = some y) (hx : c :: w <:+ y) :
    ∃ r, y = r ++ c :: w ∧ readSection s = (readSection (s ++ c :: w)).leaving r := by
  obtain ⟨halpha, close, content, hcloser, hcut⟩ := cutWhere?_of_readSection h
  have halpha' : s.head?.any Char.isAlpha = true := by
    cases s with
    | nil => exact absurd halpha (by simp [Text.not_of_isBreak (p := Char.isAlpha) hc (by decide)])
    | cons d s => exact halpha
  have hcloser' : sectionCloser? (s.takeWhile isSectionNameChar) = some close := by
    rw [← hcloser, Text.takeWhile_line hc (by decide)]
  obtain ⟨closer, hclose⟩ := isBracketClose_of_sectionCloser? hcloser
  obtain ⟨r, rfl, hcut'⟩ := cutWhere?_line (bracketClose_inLine hc hclose) hcut hx
  refine ⟨r, rfl, ?_⟩
  rw [readSection_of_cutWhere? halpha hcloser hcut,
    readSection_of_cutWhere? halpha' hcloser' hcut']
  rfl

theorem isDoctype_line :
    (((s ++ c :: w).take 7).map Char.toLower == doctype) =
      ((s.take 7).map Char.toLower == doctype) := by
  by_cases hs : 7 ≤ s.length
  · rw [List.take_append_of_le_length hs]
  · -- the first seven characters reach over the end of the line, which is in no keyword
    have hlower : ∀ t : Text, c.toLower ∈ t → (t == doctype) = false := by
      intro t ht
      rw [beq_eq_false_iff_ne]
      rintro rfl
      have hnone := Text.not_of_isBreak (p := fun d => doctype.contains (Char.toLower d)) hc
        (by decide)
      simp [ht] at hnone
    rw [hlower]
    · symm
      rw [beq_eq_false_iff_ne]
      intro heq
      have hlength := congrArg List.length heq
      rw [List.length_map, List.length_take] at hlength
      have : doctype.length = 7 := rfl
      omega
    · rw [List.take_append, List.map_append, List.mem_append, List.take_cons (by omega)]
      exact .inr (List.mem_cons_self ..)

theorem readDeclaration_line (h : (readDeclaration (s ++ c :: w)).rest? = some y)
    (hx : c :: w <:+ y) :
    ∃ r, y = r ++ c :: w ∧ readDeclaration s = (readDeclaration (s ++ c :: w)).leaving r := by
  by_cases hcomment : ∃ t, s = '-' :: '-' :: t
  · obtain ⟨s, rfl⟩ := hcomment
    simp only [List.cons_append, readDeclaration] at h ⊢
    cases hcut : cutWhere? commentClose? (s ++ c :: w) with
    | none => simp [hcut, Construct.rest?] at h
    | some found =>
        obtain ⟨content, y'⟩ := found
        obtain rfl : y' = y := by simpa [hcut, Construct.rest?] using h
        obtain ⟨r, rfl, hread⟩ := cutWhere?_line (commentClose_inLine hc) hcut hx
        exact ⟨r, rfl, by simp only [hread, Construct.leaving]⟩
  · by_cases hsection : ∃ t, s = '[' :: t
    · obtain ⟨s, rfl⟩ := hsection
      exact readSection_line hc h hx
    · have hcomment' : ∀ t, s ++ c :: w = '-' :: '-' :: t → False := by
        intro t ht
        obtain ⟨s, rfl, hs⟩ := Text.eq_cons_of_append hc rfl ht
        obtain ⟨s, rfl, -⟩ := Text.eq_cons_of_append hc rfl hs.symm
        exact hcomment ⟨s, rfl⟩
      have hsection' : ∀ t, s ++ c :: w = '[' :: t → False := by
        intro t ht
        obtain ⟨s, rfl, -⟩ := Text.eq_cons_of_append hc rfl ht
        exact hsection ⟨s, rfl⟩
      rw [readDeclaration.eq_3 _ hcomment' hsection', isDoctype_line hc] at h ⊢
      rw [readDeclaration.eq_3 s (fun t ht => hcomment ⟨t, ht⟩) fun t ht => hsection ⟨t, ht⟩]
      split
      · rename_i hdoctype
        have hlength : 7 ≤ s.length := by
          have hlength := congrArg List.length (eq_of_beq hdoctype)
          rw [List.length_map, List.length_take] at hlength
          have : doctype.length = 7 := rfl
          omega
        rw [if_pos hdoctype, List.drop_append_of_le_length hlength] at h
        rw [List.drop_append_of_le_length hlength]
        exact silent_line h hx
      · rename_i hdoctype
        rw [if_neg hdoctype] at h
        exact silent_line h hx

theorem readConstruct_line (hs : s ≠ []) (h : (readConstruct (s ++ c :: w)).rest? = some y)
    (hx : c :: w <:+ y) :
    ∃ r, y = r ++ c :: w ∧ readConstruct s = (readConstruct (s ++ c :: w)).leaving r := by
  cases s with
  | nil => exact absurd rfl hs
  | cons d s =>
      rw [List.cons_append] at h ⊢
      by_cases hslash : d = '/'
      · subst hslash
        exact readEndTag_line hc h hx
      · by_cases hmark : d = '!'
        · subst hmark
          exact readDeclaration_line hc h hx
        · by_cases hquestion : d = '?'
          · subst hquestion
            exact silent_line h hx
          · rw [readConstruct_cons hslash hmark hquestion] at h ⊢
            rw [readConstruct_cons hslash hmark hquestion]
            split
            · rename_i halpha
              rw [if_pos halpha, ← List.cons_append] at h
              rw [← List.cons_append]
              exact readStartTag_line hc h hx
            · rename_i halpha
              rw [if_neg halpha] at h
              obtain rfl := Option.some.inj h
              exact ⟨d :: s, rfl, rfl⟩

end Fragment

end Line

end Proofreader
