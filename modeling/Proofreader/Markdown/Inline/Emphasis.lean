import Proofreader.Markdown.Inline.Basic
import Proofreader.Text.Punctuation

/-!
# Emphasis

Runs of asterisks and underscores open and close emphasis.  Each closing mark
looks to the left for the nearest mark that it can close; two pairs of marks that
stand side by side at both ends make one strong emphasis.
-/

namespace Proofreader.Markdown

/-! ## Marks -/

structure Mark where
  char : Char
  /-- How many characters the run has. -/
  length : Nat
  opens : Bool
  closes : Bool
  deriving DecidableEq, Repr

namespace Mark

def isSpace (c : Char) : Bool :=
  let n := c.toNat
  (9 ≤ n && n ≤ 13) || n == 32 || n == 0xA0 || n == 0x1680 || (0x2000 ≤ n && n ≤ 0x200A) ||
    n == 0x202F || n == 0x205F || n == 0x3000

/-- The run of `length` characters between two others.  Underscores do not open or
close inside a word. -/
def ofRun (char : Char) (length : Nat) (before after : Char) : Mark :=
  let isLeft := !isSpace after &&
    (!Punctuation.isPunctuation after || isSpace before || Punctuation.isPunctuation before)
  let isRight := !isSpace before &&
    (!Punctuation.isPunctuation before || isSpace after || Punctuation.isPunctuation after)
  { char, length
    opens := isLeft && (char == '*' || !isRight || Punctuation.isPunctuation before)
    closes := isRight && (char == '*' || !isLeft || Punctuation.isPunctuation after) }

/-- Where one of two runs could both open and close, their lengths may not add up
to a multiple of three, unless both are one. -/
def fits (opener closer : Mark) : Bool :=
  !((opener.closes || closer.opens) && (opener.length + closer.length) % 3 == 0 &&
    (opener.length % 3 != 0 || closer.length % 3 != 0))

end Mark

/-! ## Pairing -/

structure Slot where
  mark : Mark
  /-- Where the mark stands among the elements. -/
  position : Nat
  /-- The slot that closes what this one opens. -/
  partner : Option Nat
  /-- How many slots before this one need no second look. -/
  jump : Nat
  deriving DecidableEq, Repr

namespace Slot

def blank : Slot := ⟨⟨' ', 0, false, false⟩, 0, none, 0⟩

def isOpenFor (s closer : Slot) : Bool :=
  s.mark.char == closer.mark.char && s.mark.opens && s.partner.isNone && s.mark.fits closer.mark

end Slot

structure Floor where
  char : Char
  kind : Nat
  slot : Nat
  deriving DecidableEq, Repr

structure Pairing where
  slots : List Slot
  floors : List Floor
  /-- The first slot of the run at hand. -/
  header : Nat
  /-- The position of the last slot, unless a new run begins after it. -/
  last : Option Nat
  deriving DecidableEq, Repr

namespace Pairing

def slot (p : Pairing) (i : Nat) : Slot := p.slots.getD i Slot.blank

/-- Closers are told apart by what they can do and by their length. -/
def kind (m : Mark) : Nat := (if m.opens then 3 else 0) + m.length % 3

def floor (p : Pairing) (m : Mark) : Nat :=
  ((p.floors.find? fun f => f.char = m.char ∧ f.kind = kind m).map (·.slot)).getD 0

def findOpener (p : Pairing) (closer : Slot) (floor : Nat) : Nat → Nat → Option Nat
  | 0, _ => none
  | fuel + 1, bound =>
      if bound ≤ floor then none
      else
        let s := p.slot (bound - 1)
        if s.isOpenFor closer then some (bound - 1)
        else findOpener p closer floor fuel (bound - (1 + s.jump))

def join (p : Pairing) (opener closer : Nat) : Pairing :=
  let o := p.slot opener
  let c := p.slot closer
  let before := p.slot (opener - 1)
  let skipped := if 0 < opener && !before.mark.opens then before.jump + 1 else 0
  let slots := p.slots.set closer
    { c with mark := { c.mark with opens := false }, jump := closer - opener + skipped }
  let slots := slots.set opener
    { o with mark := { o.mark with closes := false }, partner := some closer, jump := skipped }
  { p with slots, last := none }

def step (p : Pairing) (i : Nat) : Pairing :=
  let s := p.slot i
  let header :=
    if (p.slot p.header).mark.char == s.mark.char && p.last == some s.position then p.header else i
  let p := { p with header, last := some (s.position + 1) }
  if !s.mark.closes then p
  else
    let bound := header - (p.slot header).jump
    match p.findOpener s (p.floor s.mark) bound bound with
    | some opener => p.join opener i
    | none => { p with floors := ⟨s.mark.char, kind s.mark, bound⟩ :: p.floors }

def run (slots : List Slot) : List Slot :=
  ((List.range slots.length).foldl step ⟨slots, [], 0, none⟩).slots

end Pairing

/-! ## Elements with marks -/

inductive Piece where
  | inline (i : Inline)
  | mark (m : Mark)

namespace Piece

def slotsFrom : Nat → List Piece → List Slot
  | _, [] => []
  | i, .mark m :: rest => ⟨m, i, none, 0⟩ :: slotsFrom (i + 1) rest
  | i, .inline _ :: rest => slotsFrom (i + 1) rest

structure Verdict where
  position : Nat
  inlines : List Inline

def isInner (slots : List Slot) (i stop : Nat) : Bool :=
  match i with
  | 0 => false
  | j + 1 =>
      let outer := slots.getD j Slot.blank
      let opener := slots.getD i Slot.blank
      let closer := slots.getD stop Slot.blank
      outer.partner == some (stop + 1) && outer.mark.char == opener.mark.char &&
        outer.position + 1 == opener.position &&
        (slots.getD (stop + 1) Slot.blank).position == closer.position + 1

/-- The verdicts on the pairs among the first `n` slots, from the last to the
first. -/
def verdicts (slots : List Slot) : Nat → List Verdict
  | 0 => []
  | n + 1 =>
      let opener := slots.getD n Slot.blank
      match opener.partner with
      | none => verdicts slots n
      | some stop =>
          let closer := slots.getD stop Slot.blank
          if isInner slots n stop then
            ⟨opener.position, [.emphasis true true]⟩ :: ⟨closer.position, [.emphasis true false]⟩ ::
              ⟨opener.position - 1, []⟩ :: ⟨closer.position + 1, []⟩ ::
                (match n with
                  | 0 => []
                  | m + 1 => verdicts slots m)
          else
            ⟨opener.position, [.emphasis false true]⟩ ::
              ⟨closer.position, [.emphasis false false]⟩ :: verdicts slots n

def resolveFrom (vs : List Verdict) : Nat → List Piece → List Inline
  | _, [] => []
  | i, .inline e :: rest => e :: resolveFrom vs (i + 1) rest
  | i, .mark m :: rest =>
      (match vs.find? (·.position == i) with
        | some v => v.inlines
        | none => [.text [m.char]]) ++ resolveFrom vs (i + 1) rest

def resolve (ps : List Piece) : List Inline :=
  let slots := Pairing.run (slotsFrom 0 ps)
  resolveFrom (verdicts slots slots.length) 0 ps

end Piece

end Proofreader.Markdown
