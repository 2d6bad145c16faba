import Proofreader.Markdown.Block.Context
import Proofreader.Markdown.Block.Table
import Proofreader.Markdown.RawHtml

/-!
# How blocks begin

Each kind of block shows in the content of its first line, and some kinds end the
paragraph, the quote, the list or the table before them.
-/

namespace Proofreader.Markdown

/-! ## Fences, breaks and headings -/

structure Fence where
  mark : Char
  length : Nat
  deriving DecidableEq, Repr

namespace Fence

def isMark (c : Char) : Bool := c == '~' || c == '\x60'

def open? : Text → Option Fence
  | [] => none
  | c :: t =>
      let marks := (c :: t).takeWhile (· == c)
      let info := (c :: t).dropWhile (· == c)
      if isMark c && 3 ≤ marks.length && !(c == '\x60' && info.contains '\x60') then
        some ⟨c, marks.length⟩
      else none

def closes (f : Fence) (t : Text) : Bool :=
  f.length ≤ (t.takeWhile (· == f.mark)).length &&
    (t.dropWhile (· == f.mark)).all isSpaceOrTab

end Fence

def isThematicBreak : Text → Bool
  | [] => false
  | c :: t =>
      (c == '*' || c == '-' || c == '_') && t.all (fun d => d == c || isSpaceOrTab d) &&
        2 ≤ t.count c

def isNumberSign (c : Char) : Bool := c == '#'

def headingLevel? (t : Text) : Option Nat :=
  let level := (t.takeWhile isNumberSign).length
  if 1 ≤ level ∧ level ≤ 6 ∧ (t.drop level).head?.all isSpaceOrTab then some level else none

def headingText (t : Text) : Text :=
  let body := ((t.dropWhile isNumberSign).reverse.dropWhile isSpaceOrTab)
  let core := body.dropWhile isNumberSign
  Text.trim (if core.head?.any isSpaceOrTab then core else body).reverse

def underlineLevel? : Text → Option Nat
  | [] => none
  | c :: t =>
      if (c == '=' || c == '-') && (t.dropWhile (· == c)).all isSpaceOrTab then
        some (if c = '=' then 1 else 2)
      else none

/-! ## List markers -/

structure ListMarker where
  mark : Char
  /-- How many characters the marker has. -/
  width : Nat
  /-- The number of an ordered item. -/
  number : Option Nat
  deriving DecidableEq, Repr

namespace ListMarker

def maxDigits : Nat := 9

def endsHere (t : Text) : Bool := t.head?.all isSpaceOrTab

def ordered? (t : Text) : Option ListMarker :=
  let digits := t.takeWhile Char.isDigit
  match t.dropWhile Char.isDigit with
  | c :: rest =>
      if 1 ≤ digits.length && digits.length ≤ maxDigits && (c == ')' || c == '.') && endsHere rest
      then some ⟨c, digits.length + 1, some (digits.foldl (fun n d => 10 * n + (d.toNat - 48)) 0)⟩
      else none
  | [] => none

def bullet? : Text → Option ListMarker
  | c :: rest => if (c == '*' || c == '-' || c == '+') && endsHere rest then some ⟨c, 1, none⟩ else none
  | [] => none

def read? (t : Text) : Option ListMarker := (ordered? t).or (bullet? t)

def continues (m other : ListMarker) : Bool :=
  m.mark == other.mark && m.number.isSome == other.number.isSome

end ListMarker

/-! ## In a context -/

namespace Context

def fence? (ctx : Context) (i : Nat) : Option Fence :=
  if ctx.isCode i then none else Fence.open? (ctx.content i)

def startsQuote (ctx : Context) (i : Nat) : Bool :=
  !ctx.isCode i && (ctx.content i).head? == some '>'

def startsBreak (ctx : Context) (i : Nat) : Bool := !ctx.isCode i && isThematicBreak (ctx.content i)

def heading? (ctx : Context) (i : Nat) : Option Nat :=
  if ctx.isCode i then none else headingLevel? (ctx.content i)

def html? (ctx : Context) (i : Nat) : Option RawHtml.BlockKind :=
  if ctx.isCode i then none else RawHtml.blockKind? (ctx.content i)

/-- A marker far to the right of its list but left of the current item belongs to
the paragraph before it. -/
def isStrayMarker (ctx : Context) (i : Nat) : Bool :=
  ctx.listIndent.any fun start => start + 4 ≤ ctx.column i && ctx.isOutside i

def marker? (ctx : Context) (i : Nat) : Option ListMarker :=
  if ctx.isCode i || ctx.isStrayMarker i then none else ListMarker.read? (ctx.content i)

/-- A list ends a paragraph only if it begins with one and its first item is not
empty, unless the line leaves the container of the paragraph. -/
def listEndsParagraph (ctx : Context) (i : Nat) : Bool :=
  match ctx.marker? i with
  | none => false
  | some m =>
      ctx.isOutside i ||
        (m.number.all (· == 1) && !((ctx.content i).drop m.width).all isSpaceOrTab)

def htmlEndsParagraph (ctx : Context) (i : Nat) : Bool := (ctx.html? i).any (· ≠ .tag)

def endsList (ctx : Context) (i : Nat) : Bool :=
  (ctx.fence? i).isSome || ctx.startsQuote i || ctx.startsBreak i

def endsQuote (ctx : Context) (i : Nat) : Bool :=
  ctx.endsList i || (ctx.marker? i).isSome || ctx.htmlEndsParagraph i || (ctx.heading? i).isSome

/-! ## Tables -/

def table? (ctx : Context) (i stop : Nat) : Option (List Text × List Table.Alignment) :=
  if stop < i + 2 || ctx.isOutside (i + 1) || ctx.isCode (i + 1) || ctx.isCode i then none
  else
    match Table.alignments? (ctx.content (i + 1)) with
    | none => none
    | some alignments =>
        let header := Text.trim (ctx.content i)
        let cells := Table.cells header
        if header.contains '|' && !cells.isEmpty && cells.length = alignments.length then
          some (cells, alignments)
        else none

def endsDefinition (ctx : Context) (i : Nat) : Bool :=
  (ctx.table? i ctx.limit).isSome || ctx.endsQuote i

def endsParagraph (ctx : Context) (i stop : Nat) : Bool :=
  (ctx.table? i stop).isSome || ctx.endsList i || ctx.listEndsParagraph i ||
    ctx.htmlEndsParagraph i || (ctx.heading? i).isSome

def continuesParagraph (ctx : Context) (i : Nat) : Bool := ctx.isCode i || ctx.isLazy i

end Context

end Proofreader.Markdown
