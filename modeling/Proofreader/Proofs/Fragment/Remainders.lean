import Mathlib.Data.List.TakeDrop
import Mathlib.Data.List.TakeWhile
import Proofreader.Fragment.Markup
import Proofreader.Proofs.Outcome

/-!
# What follows a construct

Each reader of a fragment takes something off the front of a text, so that a scan comes to
an end.  What it leaves is an end of the text, and a shorter one.
-/

namespace Proofreader

/-- A proper end of a text. -/
structure Remainder (rest t : Text) : Prop where
  suffix : rest <:+ t
  lt : rest.length < t.length

namespace Remainder

variable {r s t : Text}

theorem cons (c : Char) (h : s <:+ t) : Remainder s (c :: t) :=
  ⟨h.trans (List.suffix_cons c t), Nat.lt_succ_of_le h.length_le⟩

theorem trans (h : Remainder r s) (h' : s <:+ t) : Remainder r t :=
  ⟨h.suffix.trans h', Nat.lt_of_lt_of_le h.lt h'.length_le⟩

end Remainder

/-! ## Tags -/

namespace Tag

theorem remainder_of_readName? {t name rest : Text} (h : readName? t = some (name, rest)) :
    Remainder rest t := by
  cases t with
  | nil => simp [readName?] at h
  | cons c t =>
      rw [readName?] at h
      split at h
      · obtain ⟨-, rfl⟩ := Prod.mk.inj (Option.some.inj h)
        exact .cons c (List.dropWhile_suffix _)
      · simp at h

theorem suffix_skipFiller (t : Text) : (skipFiller t).2 <:+ t := by
  induction t using skipFiller.induct with
  | case1 => exact List.suffix_refl _
  | case2 t => exact List.suffix_refl _
  | case3 c t hclose hskip ih =>
      rw [skipFiller.eq_3 c t hclose, if_pos hskip]
      exact ih.trans (List.suffix_cons c t)
  | case4 c t hclose hskip =>
      simp only [skipFiller.eq_3 c t hclose, if_neg hskip, List.suffix_refl]

theorem skipFiller_blanks {s : Text} (h : s.dropWhile Text.isBlank = []) :
    (skipFiller s).2 = [] := by
  induction s using skipFiller.induct with
  | case1 => rfl
  | case2 t =>
      rw [List.dropWhile_eq_nil_iff] at h
      exact absurd (h '/' (List.mem_cons_self ..)) (by decide)
  | case3 d t hclose hskip ih =>
      rw [skipFiller.eq_3 d t hclose, if_pos hskip]
      refine ih ?_
      rw [List.dropWhile_eq_nil_iff] at h ⊢
      exact fun e he => h e (List.mem_cons_of_mem d he)
  | case4 d t hclose hskip =>
      rw [List.dropWhile_eq_nil_iff] at h
      simp [h d (List.mem_cons_self ..)] at hskip

def afterEquals (t : Text) : Text :=
  ((t.dropWhile Text.isBlank).dropWhile (· == '=')).dropWhile Text.isBlank

theorem suffix_afterEquals (t : Text) : afterEquals t <:+ t.dropWhile Text.isBlank :=
  (List.dropWhile_suffix _).trans (List.dropWhile_suffix _)

def valueFrom? (equals blanks rest : Text) : Option (Text × Bool × Text) :=
  match rest with
  | q :: tail =>
      if isQuote q then
        match tail.dropWhile (· ≠ q) with
        | _ :: rest => some (tail.takeWhile (· ≠ q), true, rest)
        | [] =>
            if !blanks.isEmpty then some ([], true, rest)
            else if 2 ≤ equals.length then
              some ('=' :: rest.takeWhile (fun c => !endsBareValue c), false,
                rest.dropWhile (fun c => !endsBareValue c))
            else none
      else
        some (rest.takeWhile (fun c => !endsBareValue c), false,
          rest.dropWhile (fun c => !endsBareValue c))
  | [] => some ([], false, [])

theorem readValue?_eq (t : Text) :
    readValue? t =
      if ((t.dropWhile Text.isBlank).takeWhile (· == '=')).isEmpty then none
      else valueFrom? ((t.dropWhile Text.isBlank).takeWhile (· == '='))
        (((t.dropWhile Text.isBlank).dropWhile (· == '=')).takeWhile Text.isBlank)
        (afterEquals t) := by
  rw [readValue?, ← afterEquals]
  split
  · rfl
  · cases afterEquals t with
    | nil => rfl
    | cons q tail =>
        rw [valueFrom?]
        simp only [List.span_eq_takeWhile_dropWhile]
        split
        · cases tail.dropWhile (· ≠ q) <;> rfl
        · rfl

section Value

variable {equals blanks tail : Text} {q : Char}

theorem valueFrom?_bare (hq : isQuote q = false) :
    valueFrom? equals blanks (q :: tail) =
      some ((q :: tail).takeWhile (fun c => !endsBareValue c), false,
        (q :: tail).dropWhile fun c => !endsBareValue c) := by
  rw [valueFrom?, hq]
  rfl

theorem valueFrom?_quoted (hq : isQuote q = true) {e : Char} {rest : Text}
    (hend : tail.dropWhile (· ≠ q) = e :: rest) :
    valueFrom? equals blanks (q :: tail) = some (tail.takeWhile (· ≠ q), true, rest) := by
  rw [valueFrom?, hq, hend]
  rfl

theorem valueFrom?_open (hq : isQuote q = true) (hend : tail.dropWhile (· ≠ q) = []) :
    valueFrom? equals blanks (q :: tail) =
      if !blanks.isEmpty then some ([], true, q :: tail)
      else if 2 ≤ equals.length then
        some ('=' :: (q :: tail).takeWhile (fun c => !endsBareValue c), false,
          (q :: tail).dropWhile fun c => !endsBareValue c)
      else none := by
  rw [valueFrom?, hq, hend]
  rfl

theorem suffix_of_valueFrom? {t rest value : Text} {ready : Bool}
    (h : valueFrom? equals blanks t = some (value, ready, rest)) : rest <:+ t := by
  cases t with
  | nil =>
      obtain ⟨-, -, rfl⟩ := by simpa only [valueFrom?, Option.some.injEq, Prod.mk.injEq] using h
      exact List.nil_suffix
  | cons q tail =>
      cases hq : isQuote q with
      | false =>
          rw [valueFrom?_bare hq] at h
          obtain ⟨-, -, rfl⟩ := by simpa only [Option.some.injEq, Prod.mk.injEq] using h
          exact List.dropWhile_suffix _
      | true =>
          cases hend : tail.dropWhile (· ≠ q) with
          | cons e rest' =>
              rw [valueFrom?_quoted hq hend] at h
              obtain ⟨-, -, rfl⟩ := by simpa only [Option.some.injEq, Prod.mk.injEq] using h
              have hsuffix : e :: rest' <:+ tail := hend ▸ List.dropWhile_suffix _
              exact (List.suffix_cons e rest').trans (hsuffix.trans (List.suffix_cons q tail))
          | nil =>
              rw [valueFrom?_open hq hend] at h
              split at h
              · obtain ⟨-, -, rfl⟩ := by simpa only [Option.some.injEq, Prod.mk.injEq] using h
                exact List.suffix_refl _
              · split at h
                · obtain ⟨-, -, rfl⟩ := by simpa only [Option.some.injEq, Prod.mk.injEq] using h
                  exact List.dropWhile_suffix _
                · simp at h

end Value

theorem suffix_of_readValue? {t rest value : Text} {ready : Bool}
    (h : readValue? t = some (value, ready, rest)) : rest <:+ afterEquals t := by
  rw [readValue?_eq] at h
  split at h
  · simp at h
  · exact suffix_of_valueFrom? h

def Outcome.rest? : Outcome → Option Text
  | .closed _ _ rest | .broken _ rest => some rest
  | .unfinished => none

theorem Outcome.rest?_of_unescape {o o' : Outcome} (h : o.unescape = .ok o') :
    o'.rest? = o.rest? := by
  cases o with
  | closed selfClosing attributes rest =>
      obtain ⟨_, -, rfl⟩ := exists_ok_of_map h
      rfl
  | unfinished =>
      obtain rfl := Except.ok.inj h
      rfl
  | broken attributes rest =>
      obtain ⟨_, -, rfl⟩ := exists_ok_of_map h
      rfl

def readAttribute (name rest : Text) : Attribute × Bool × Text :=
  match readValue? rest with
  | some (value, ready, rest) => (⟨CaseMap.lower name, some value⟩, ready, rest)
  | none => (⟨CaseMap.lower name, none⟩, endsReady name, rest)

theorem suffix_readAttribute (name rest : Text) : (readAttribute name rest).2.2 <:+ rest := by
  unfold readAttribute
  split
  · rename_i h
    exact (suffix_of_readValue? h).trans ((suffix_afterEquals rest).trans (List.dropWhile_suffix _))
  · exact List.suffix_refl _

theorem readAttributes_next (n : Nat) (ready : Bool) {d : Char} {t : Text}
    (attributes : List Attribute) (hbracket : d ≠ '>')
    (hclose : ∀ t', d = '/' → t = '>' :: t' → False) :
    readAttributes (n + 1) ready (d :: t) attributes =
      if ready then
        let a := readAttribute (d :: t.takeWhile (fun e => !endsAttributeName e))
          (t.dropWhile (fun e => !endsAttributeName e))
        readAttributes n (a.2.1 || (skipFiller a.2.2).1) (skipFiller a.2.2).2 (a.1 :: attributes)
      else if d == '=' then .unfinished else .broken attributes.reverse (d :: t) :=
  readAttributes.eq_5 ready attributes n d t hbracket hclose

theorem suffix_of_readAttributes {n : Nat} {ready : Bool} {t rest : Text}
    {attributes : List Attribute} (h : (readAttributes n ready t attributes).rest? = some rest) :
    rest <:+ t := by
  induction n generalizing ready t attributes with
  | zero => simp [readAttributes, Outcome.rest?] at h
  | succ n ih =>
      rw [readAttributes.eq_def] at h
      simp only at h
      split at h
      · simp [Outcome.rest?] at h
      · obtain rfl := Option.some.inj h
        exact List.suffix_cons _ _
      · obtain rfl := Option.some.inj h
        exact (List.suffix_cons _ _).trans (List.suffix_cons _ _)
      · rename_i d t _ _
        split at h
        · exact (ih h).trans ((suffix_skipFiller _).trans ((suffix_readAttribute _ _).trans
            ((List.dropWhile_suffix _).trans (List.suffix_cons d t))))
        · split at h
          · simp [Outcome.rest?] at h
          · obtain rfl := Option.some.inj h
            exact List.suffix_refl _

theorem suffix_of_readStart {name t rest : Text} (h : (readStart name t).rest? = some rest) :
    rest <:+ t :=
  (suffix_of_readAttributes h).trans (suffix_skipFiller t)

theorem readPlainEnd?_eq_some {t name rest : Text} :
    readPlainEnd? t = some (name, rest) ↔
      ∃ d t', t.dropWhile Text.isBlank = d :: t' ∧ d.isAlpha = true ∧
        (t'.dropWhile isEndNameChar).dropWhile Text.isBlank = '>' :: rest ∧
        CaseMap.lower (d :: t'.takeWhile isEndNameChar) = name := by
  refine ⟨fun h => ?_, ?_⟩
  · unfold readPlainEnd? at h
    split at h
    · rename_i d t' hstart
      split at h
      · rename_i halpha
        split at h
        · rename_i hend
          obtain ⟨rfl, rfl⟩ := Prod.mk.inj (Option.some.inj h)
          exact ⟨d, t', hstart, halpha, hend, rfl⟩
        · simp at h
      · simp at h
    · simp at h
  · rintro ⟨d, t', hstart, halpha, hend, rfl⟩
    simp [readPlainEnd?, hstart, halpha, hend]

theorem bracket_of_readPlainEnd? {t name rest : Text} (h : readPlainEnd? t = some (name, rest)) :
    '>' :: rest <:+ t := by
  obtain ⟨d, t', hstart, -, hend, -⟩ := readPlainEnd?_eq_some.1 h
  have hsuffix : d :: t' <:+ t := hstart ▸ List.dropWhile_suffix _
  have hrest : '>' :: rest <:+ t' :=
    hend ▸ (List.dropWhile_suffix _).trans (List.dropWhile_suffix _)
  exact hrest.trans ((List.suffix_cons d t').trans hsuffix)

theorem remainder_of_readPlainEnd? {t name rest : Text}
    (h : readPlainEnd? t = some (name, rest)) : Remainder rest t :=
  (Remainder.cons '>' (List.suffix_refl rest)).trans (bracket_of_readPlainEnd? h)

theorem mem_of_readPlainEnd? {s name r : Text} (h : readPlainEnd? s = some (name, r)) :
    '>' ∈ s :=
  (bracket_of_readPlainEnd? h).subset (List.mem_cons_self ..)

end Tag

/-! ## References -/

namespace CharacterReference

def splitDigits (t : Text) : Text × Text × (Text → Except Overlong Nat) :=
  match t with
  | 'x' :: t => (t.takeWhile isHexDigit, t.dropWhile isHexDigit, hexValue)
  | 'X' :: t => (t.takeWhile isHexDigit, t.dropWhile isHexDigit, hexValue)
  | t => (t.takeWhile Char.isDigit, t.dropWhile Char.isDigit, decimalValue)

def endDigits? (number : Text × Text × (Text → Except Overlong Nat)) :
    Option (Except Overlong Nat × Text) :=
  let (digits, rest, value) := number
  match digits, rest with
  | [], _ => none
  | _, [] => none
  | _, ';' :: rest => some (value digits, rest)
  | _, c :: rest => if isHexDigit c then none else some (value digits, c :: rest)

theorem readNumber?_eq (t : Text) : readNumber? t = endDigits? (splitDigits t) := rfl

theorem suffix_splitDigits (t : Text) :
    (splitDigits t).1 ++ (splitDigits t).2.1 <:+ t := by
  unfold splitDigits
  split <;> simp only [List.takeWhile_append_dropWhile]
  · exact List.suffix_cons _ _
  · exact List.suffix_cons _ _
  · exact List.suffix_refl _

theorem endDigits?_cons (d e : Char) (digits rest : Text) (value : Text → Except Overlong Nat) :
    endDigits? (d :: digits, e :: rest, value) =
      if e = ';' then some (value (d :: digits), rest)
      else if isHexDigit e then none
      else some (value (d :: digits), e :: rest) := by
  by_cases hclose : e = ';'
  · rw [if_pos hclose, hclose]
    rfl
  · rw [if_neg hclose]
    unfold endDigits?
    simp only

theorem remainder_of_endDigits? {digits rest rest' : Text} {value : Text → Except Overlong Nat}
    {n : Except Overlong Nat}
    (h : endDigits? (digits, rest, value) = some (n, rest')) :
    Remainder rest' (digits ++ rest) := by
  cases digits with
  | nil => simp [endDigits?] at h
  | cons d digits =>
      cases rest with
      | nil => simp [endDigits?] at h
      | cons e rest =>
          rw [endDigits?_cons] at h
          refine .cons d (List.IsSuffix.trans ?_ (List.suffix_append digits (e :: rest)))
          split at h
          · obtain ⟨-, rfl⟩ := Prod.mk.inj (Option.some.inj h)
            exact List.suffix_cons e rest
          · split at h
            · simp at h
            · obtain ⟨-, rfl⟩ := Prod.mk.inj (Option.some.inj h)
              exact List.suffix_refl _

theorem remainder_of_readNumber? {t rest : Text} {n : Except Overlong Nat}
    (h : readNumber? t = some (n, rest)) : Remainder rest t :=
  (remainder_of_endDigits? (readNumber?_eq t ▸ h)).trans (suffix_splitDigits t)

theorem remainder_of_readName? {t name rest : Text} (h : readName? t = some (name, rest)) :
    Remainder rest t := by
  cases t with
  | nil => simp [readName?] at h
  | cons c t =>
      rw [readName?] at h
      have hrest : t.dropWhile isNameChar <:+ t := List.dropWhile_suffix _
      split at h
      · split at h
        · rename_i rest' hend
          obtain ⟨-, rfl⟩ := Prod.mk.inj (Option.some.inj h)
          exact .cons c ((List.suffix_cons ';' rest').trans (hend ▸ hrest))
        · rename_i d rest' hclose hend
          obtain ⟨-, rfl⟩ := Prod.mk.inj (Option.some.inj h)
          exact .cons c (hend ▸ hrest)
        · rw [List.span_eq_takeWhile_dropWhile] at h
          split at h
          · rename_i tail mark stem hspan
            obtain ⟨-, rfl⟩ := Prod.mk.inj (Option.some.inj h)
            obtain ⟨htail, hstem⟩ := Prod.mk.inj hspan
            have hsplit := congrArg List.reverse
              (List.takeWhile_append_dropWhile (p := Char.isAlphanum) (l := t.reverse))
            rw [htail, hstem, List.reverse_reverse, List.reverse_append, List.reverse_cons,
              List.append_assoc, List.singleton_append] at hsplit
            exact .cons c ⟨stem.reverse, hsplit⟩
          · simp at h
      · simp at h

end CharacterReference

/-! ## Constructs -/

namespace Fragment

theorem remainder_of_cutAt? {c : Char} {t before rest : Text}
    (h : cutAt? c t = some (before, rest)) : Remainder rest t := by
  induction t generalizing before with
  | nil => simp [cutAt?] at h
  | cons d t ih =>
      rw [cutAt?] at h
      split at h
      · obtain ⟨-, rfl⟩ := Prod.mk.inj (Option.some.inj h)
        exact .cons d (List.suffix_refl _)
      · obtain ⟨⟨before', rest'⟩, hcut, heq⟩ := Option.map_eq_some_iff.1 h
        obtain ⟨-, rfl⟩ := Prod.mk.inj heq
        exact .cons d (ih hcut).suffix

theorem suffix_of_afterSpaced? {closer t rest : Text} (h : afterSpaced? closer t = some rest) :
    rest <:+ t := by
  induction closer generalizing t with
  | nil =>
      obtain rfl : t = rest := by simpa [afterSpaced?] using h
      exact List.suffix_refl _
  | cons c closer ih =>
      rw [afterSpaced?] at h
      split at h
      · rename_i d t' hstart
        split at h
        · have hsuffix : d :: t' <:+ t := hstart ▸ List.dropWhile_suffix _
          exact (ih h).trans ((List.suffix_cons d t').trans hsuffix)
        · simp at h
      · simp at h

theorem exists_cutAt? {d : Char} {s : Text} (h : d ∈ s) :
    ∃ before rest, cutAt? d s = some (before, rest) := by
  induction s with
  | nil => simp at h
  | cons e s ih =>
      rw [cutAt?]
      split
      · exact ⟨_, _, rfl⟩
      · rename_i hne
        have hmem : d ∈ s := (List.mem_cons.1 h).resolve_left fun heq => hne (by simp [heq])
        obtain ⟨before, rest, hcut⟩ := ih hmem
        exact ⟨e :: before, rest, by rw [hcut]; rfl⟩

/-! ### Closers -/

theorem commentClose?_eq_some {t y : Text} :
    commentClose? t = some y ↔ ∃ t', t = '-' :: '-' :: t' ∧ afterSpaced? ['>'] t' = some y := by
  refine ⟨fun h => ?_, ?_⟩
  · unfold commentClose? at h
    split at h
    · exact ⟨_, rfl, h⟩
    · simp at h
  · rintro ⟨t', rfl, h⟩
    exact h

theorem sectionClose?_eq_some {t y : Text} :
    sectionClose? t = some y ↔ ∃ t', t = ']' :: t' ∧ afterSpaced? [']', '>'] t' = some y := by
  refine ⟨fun h => ?_, ?_⟩
  · unfold sectionClose? at h
    split at h
    · exact ⟨_, rfl, h⟩
    · simp at h
  · rintro ⟨t', rfl, h⟩
    exact h

theorem conditionClose?_eq_some {t y : Text} :
    conditionClose? t = some y ↔ ∃ t', t = ']' :: t' ∧ afterSpaced? ['>'] t' = some y := by
  refine ⟨fun h => ?_, ?_⟩
  · unfold conditionClose? at h
    split at h
    · exact ⟨_, rfl, h⟩
    · simp at h
  · rintro ⟨t', rfl, h⟩
    exact h

theorem rawClose?_eq_some {name t y : Text} :
    rawClose? name t = some y ↔
      ∃ t', t = '<' :: '/' :: t' ∧ Tag.readPlainEnd? t' = some (name, y) := by
  refine ⟨fun h => ?_, ?_⟩
  · unfold rawClose? at h
    split at h
    · split at h
      · rename_i hend
        split at h
        · rename_i hname
          obtain rfl := eq_of_beq hname
          obtain rfl := Option.some.inj h
          exact ⟨_, rfl, hend⟩
        · simp at h
      · simp at h
    · simp at h
  · rintro ⟨t', rfl, h⟩
    simp [rawClose?, h]

def Closes (close : Text → Option Text) : Prop :=
  ∀ {t rest : Text}, close t = some rest → Remainder rest t

theorem closes_commentClose : Closes commentClose? := by
  intro t rest h
  obtain ⟨t, rfl, hspaced⟩ := commentClose?_eq_some.1 h
  exact .cons _ ((suffix_of_afterSpaced? hspaced).trans (List.suffix_cons _ _))

/-- A closer that begins with a bracket and goes on with blanks allowed. -/
def IsBracketClose (close : Text → Option Text) (closer : Text) : Prop :=
  ∀ {t y : Text}, close t = some y ↔ ∃ t', t = ']' :: t' ∧ afterSpaced? closer t' = some y

theorem IsBracketClose.closes {close : Text → Option Text} {closer : Text}
    (h : IsBracketClose close closer) : Closes close := by
  intro t rest hread
  obtain ⟨t, rfl, hspaced⟩ := h.1 hread
  exact .cons _ (suffix_of_afterSpaced? hspaced)

theorem closes_rawClose (name : Text) : Closes (rawClose? name) := by
  intro t rest h
  obtain ⟨t, rfl, hend⟩ := rawClose?_eq_some.1 h
  exact .cons _ ((Tag.remainder_of_readPlainEnd? hend).suffix.trans (List.suffix_cons _ _))

theorem remainder_of_cutWhere? {close : Text → Option Text} (hclose : Closes close)
    {t content rest : Text} (h : cutWhere? close t = some (content, rest)) : Remainder rest t := by
  induction t generalizing content with
  | nil =>
      obtain ⟨rest', hread, heq⟩ := Option.map_eq_some_iff.1 h
      obtain ⟨-, rfl⟩ := Prod.mk.inj heq
      exact hclose hread
  | cons c t ih =>
      rw [cutWhere?] at h
      split at h
      · rename_i rest' hread
        obtain ⟨-, rfl⟩ := Prod.mk.inj (Option.some.inj h)
        exact hclose hread
      · obtain ⟨⟨content', rest'⟩, hcut, heq⟩ := Option.map_eq_some_iff.1 h
        obtain ⟨-, rfl⟩ := Prod.mk.inj heq
        exact .cons c (ih hcut).suffix

theorem mem_of_cutWhere? {close : Text → Option Text} {d : Char} {s : Text}
    (hclose : ∀ {t y : Text}, close t = some y → d ∈ t) {content r : Text}
    (h : cutWhere? close s = some (content, r)) : d ∈ s := by
  induction s generalizing content with
  | nil =>
      obtain ⟨r', hread, -⟩ := Option.map_eq_some_iff.1 h
      exact hclose hread
  | cons e s ih =>
      rw [cutWhere?] at h
      split at h
      · rename_i hread
        exact hclose hread
      · obtain ⟨⟨content', r'⟩, hcut, heq⟩ := Option.map_eq_some_iff.1 h
        obtain ⟨-, rfl⟩ := Prod.mk.inj heq
        exact List.mem_cons_of_mem e (ih hcut)

def Construct.rest? : Construct → Option Text
  | .pieces _ rest | .rawStart _ _ rest => some rest
  | .unfinished | .fails _ => none

variable {t rest : Text}

theorem suffix_of_silent (h : (silent t).rest? = some rest) : rest <:+ t := by
  unfold silent at h
  split at h
  · rename_i hcut
    obtain rfl := Option.some.inj h
    exact (remainder_of_cutAt? hcut).suffix
  · simp [Construct.rest?] at h

theorem suffix_of_readStartTag (h : (readStartTag t).rest? = some rest) : rest <:+ t := by
  unfold readStartTag at h
  split at h
  · simp [Construct.rest?] at h
  · rename_i name rest' hname
    have hstart : ∀ {r : Text}, (Tag.readStart name rest').rest? = some r → r <:+ t :=
      fun h => (Tag.suffix_of_readStart h).trans (Tag.remainder_of_readName? hname).suffix
    simp only at h
    split at h
    · simp [Construct.rest?] at h
    · rename_i houtcome
      rw [← Tag.Outcome.rest?_of_unescape houtcome] at hstart
      split at h <;> obtain rfl := Option.some.inj h <;> exact hstart rfl
    · simp [Construct.rest?] at h
    · rename_i houtcome
      rw [← Tag.Outcome.rest?_of_unescape houtcome] at hstart
      obtain rfl := Option.some.inj h
      exact hstart rfl

theorem suffix_of_readEndTag (h : (readEndTag t).rest? = some rest) : rest <:+ t := by
  unfold readEndTag at h
  split at h
  · simp [Construct.rest?] at h
  · rename_i hcut
    split at h
    · rename_i hend
      obtain rfl := Option.some.inj h
      exact (Tag.remainder_of_readPlainEnd? hend).suffix
    · split at h <;> obtain rfl := Option.some.inj h <;> exact (remainder_of_cutAt? hcut).suffix

theorem dropWhile_blank_ne_nil {s : Text} (h : ']' ∈ s) :
    ((s.dropWhile isSectionNameChar).dropWhile Text.isBlank).isEmpty = false := by
  rw [List.isEmpty_eq_false_iff]
  intro hnil
  rw [List.dropWhile_eq_nil_iff] at hnil
  rw [← List.takeWhile_append_dropWhile (p := isSectionNameChar) (l := s), List.mem_append] at h
  rcases h with h | h
  · exact absurd (List.mem_takeWhile_imp h) (by decide)
  · exact absurd (hnil _ h) (by decide)

def sectionCloser? (name : Text) : Option (Text → Option Text) :=
  if sectionNames.contains (CaseMap.lower name) then some sectionClose?
  else if conditionNames.contains (CaseMap.lower name) then some conditionClose?
  else none

theorem isBracketClose_of_sectionCloser? {name : Text} {close : Text → Option Text}
    (h : sectionCloser? name = some close) : ∃ closer, IsBracketClose close closer := by
  unfold sectionCloser? at h
  split at h
  · obtain rfl := Option.some.inj h
    exact ⟨_, sectionClose?_eq_some⟩
  · split at h
    · obtain rfl := Option.some.inj h
      exact ⟨_, conditionClose?_eq_some⟩
    · simp at h

theorem readSection_cons (d : Char) (s : Text) :
    readSection (d :: s) =
      if d.isAlpha then
        if (((d :: s).dropWhile isSectionNameChar).dropWhile Text.isBlank).isEmpty then .unfinished
        else
          match sectionCloser? ((d :: s).takeWhile isSectionNameChar) with
          | none => .fails .unknownSection
          | some close =>
              match cutWhere? close (d :: s) with
              | some (content, rest) => .pieces (sectionPieces content) rest
              | none => .unfinished
      else .fails .unknownSection := rfl

theorem cutWhere?_of_readSection (h : (readSection t).rest? = some rest) :
    t.head?.any Char.isAlpha = true ∧ ∃ close content,
      sectionCloser? (t.takeWhile isSectionNameChar) = some close ∧
        cutWhere? close t = some (content, rest) := by
  cases t with
  | nil => simp [readSection, Construct.rest?] at h
  | cons d s =>
      rw [readSection_cons] at h
      split at h
      · rename_i halpha
        split at h
        · simp [Construct.rest?] at h
        · split at h
          · simp [Construct.rest?] at h
          · rename_i close hcloser
            split at h
            · rename_i content rest' hcut
              obtain rfl := Option.some.inj h
              exact ⟨halpha, close, content, hcloser, hcut⟩
            · simp [Construct.rest?] at h
      · simp [Construct.rest?] at h

theorem readSection_of_cutWhere? (halpha : t.head?.any Char.isAlpha = true)
    {close : Text → Option Text} {content : Text}
    (hcloser : sectionCloser? (t.takeWhile isSectionNameChar) = some close)
    (hcut : cutWhere? close t = some (content, rest)) :
    readSection t = .pieces (sectionPieces content) rest := by
  obtain ⟨closer, hclose⟩ := isBracketClose_of_sectionCloser? hcloser
  have hbracket : ∀ {t y : Text}, close t = some y → ']' ∈ t := by
    intro t y hread
    obtain ⟨t', rfl, -⟩ := hclose.1 hread
    exact List.mem_cons_self ..
  have hblank := dropWhile_blank_ne_nil (mem_of_cutWhere? hbracket hcut)
  cases t with
  | nil => simp at halpha
  | cons d s =>
      have halpha : d.isAlpha = true := halpha
      rw [readSection_cons, if_pos halpha, hblank, hcloser]
      simp only [hcut, Bool.false_eq_true, if_false]

theorem suffix_of_readSection (h : (readSection t).rest? = some rest) : rest <:+ t := by
  obtain ⟨-, close, content, hcloser, hcut⟩ := cutWhere?_of_readSection h
  obtain ⟨closer, hclose⟩ := isBracketClose_of_sectionCloser? hcloser
  exact (remainder_of_cutWhere? hclose.closes hcut).suffix

theorem suffix_of_readDeclaration (h : (readDeclaration t).rest? = some rest) : rest <:+ t := by
  unfold readDeclaration at h
  split at h
  · split at h
    · rename_i hcut
      obtain rfl := Option.some.inj h
      exact (remainder_of_cutWhere? closes_commentClose hcut).suffix.trans
        ((List.suffix_cons _ _).trans (List.suffix_cons _ _))
    · simp [Construct.rest?] at h
  · exact (suffix_of_readSection h).trans (List.suffix_cons _ _)
  · split at h
    · exact (suffix_of_silent h).trans (List.drop_suffix _ _)
    · exact suffix_of_silent h

theorem readConstruct_cons {d : Char} {s : Text} (hslash : d ≠ '/') (hmark : d ≠ '!')
    (hquestion : d ≠ '?') :
    readConstruct (d :: s) =
      if d.isAlpha then readStartTag (d :: s) else .pieces [.text ['<']] (d :: s) := by
  unfold readConstruct
  split
  · rename_i heq
    exact absurd (List.cons.inj heq).1 hslash
  · rename_i heq
    exact absurd (List.cons.inj heq).1 hmark
  · rename_i heq
    exact absurd (List.cons.inj heq).1 hquestion
  · rename_i heq
    obtain ⟨rfl, rfl⟩ := List.cons.inj heq
    rfl
  · rename_i heq
    simp at heq

theorem suffix_of_readConstruct (h : (readConstruct t).rest? = some rest) : rest <:+ t := by
  unfold readConstruct at h
  split at h
  · exact (suffix_of_readEndTag h).trans (List.suffix_cons _ _)
  · exact (suffix_of_readDeclaration h).trans (List.suffix_cons _ _)
  · exact (suffix_of_silent h).trans (List.suffix_cons _ _)
  · split at h
    · exact suffix_of_readStartTag h
    · obtain rfl := Option.some.inj h
      exact List.suffix_refl _
  · simp [Construct.rest?] at h

theorem suffix_takeAsText (t : Text) : (takeAsText t).2 <:+ t := by
  unfold takeAsText
  split
  · rename_i hcut
    exact (remainder_of_cutAt? hcut).suffix
  · rw [List.span_eq_takeWhile_dropWhile]
    split
    · rename_i hspan
      exact (Prod.mk.inj hspan).2 ▸ List.dropWhile_suffix _
    · exact List.suffix_refl _

end Fragment

end Proofreader
