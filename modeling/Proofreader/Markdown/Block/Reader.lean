import Proofreader.Markdown.AttributeLine
import Proofreader.Markdown.Block.Definition

/-!
# Reading blocks

Blocks are read one after the other; the first kind that fits the line at hand
takes it and as many lines after it as belong to it.  The content of quotes and
list items is read in the same way in a context of its own, at most twenty levels
deep.
-/

namespace Proofreader.Markdown

abbrev BlockReader := Context → Nat → Nat → Passage

namespace Context

/-! ## Code, fences and raw HTML -/

/-- Where indented code ends; empty lines at its end do not belong to it.  `last`
is the line after the last line of code so far. -/
def codeStop (ctx : Context) : Nat → Nat → Nat → Nat
  | 0, _, last => last
  | n + 1, i, last =>
      if ctx.isEmpty i then codeStop ctx n (i + 1) last
      else if ctx.isCode i then codeStop ctx n (i + 1) (i + 1)
      else last

def readCode? (ctx : Context) (i stop : Nat) : Option Passage :=
  if ctx.isCode i then
    let next := ctx.codeStop (stop - (i + 1)) (i + 1) (i + 1)
    some (.ofEvents [.block .literal i next] next)
  else none

/-- Where a fenced block ends.  An empty line at the end of the source does not
belong to it. -/
def fenceStop (ctx : Context) (f : Fence) : Nat → Nat → Nat
  | 0, i => i
  | n + 1, i =>
      let content := ctx.content i
      if !content.isEmpty && ctx.isOutside i then i
      else if content.isEmpty && (ctx.line i).isLast then i
      else if !ctx.isCode i && f.closes content then i + 1
      else fenceStop ctx f n (i + 1)

def readFence? (ctx : Context) (i stop : Nat) : Option Passage :=
  (ctx.fence? i).map fun f =>
    let next := ctx.fenceStop f (stop - (i + 1)) (i + 1)
    .ofEvents [.block .literal i next] next

def htmlStop (ctx : Context) (kind : RawHtml.BlockKind) : Nat → Nat → Nat
  | 0, i => i
  | n + 1, i =>
      let content := ctx.content i
      if ctx.isOutside i then i
      else if kind.endsAt content then if content.isEmpty then i else i + 1
      else htmlStop ctx kind n (i + 1)

def readHtml? (ctx : Context) (i stop : Nat) : Option Passage :=
  (ctx.html? i).map fun kind =>
    let next :=
      if kind.endsAt (ctx.content i) then i + 1 else ctx.htmlStop kind (stop - (i + 1)) (i + 1)
    .ofEvents [.block (.html (ctx.text i next)) i next] next

/-! ## Single lines -/

def readAttributeLine? (ctx : Context) (i : Nat) : Option Passage :=
  (AttributeLine.read? (ctx.content i)).map fun a =>
    .ofEvents [⟨.attributeLine, some ⟨i, i + 1⟩, a⟩] (i + 1)

def readBreak? (ctx : Context) (i : Nat) : Option Passage :=
  if ctx.startsBreak i then some (.ofEvents [.block .literal i (i + 1)] (i + 1)) else none

def readHeading? (ctx : Context) (i : Nat) : Option Passage :=
  (ctx.heading? i).map fun level =>
    .ofEvents [.block (.heading level (headingText (ctx.content i))) i (i + 1)] (i + 1)

def readDefinition? (ctx : Context) (i : Nat) : Option Passage :=
  (ctx.definition? i).map fun (d, next) => ⟨[], [d], next, false⟩

/-! ## Paragraphs -/

def paragraphStop (ctx : Context) : Nat → Nat → Nat
  | 0, i => i
  | n + 1, i =>
      if ctx.isEmpty i then i
      else if ctx.continuesParagraph i then paragraphStop ctx n (i + 1)
      else if ctx.endsParagraph i ctx.limit then i
      else paragraphStop ctx n (i + 1)

def prose (ctx : Context) (first stop : Nat) : Text := Text.trim (ctx.text first stop)

def readParagraph (ctx : Context) (i : Nat) : Passage :=
  let next := ctx.paragraphStop (ctx.limit - (i + 1)) (i + 1)
  .ofEvents [.block (.paragraph (ctx.prose i next)) i next] next

def underline? (ctx : Context) (stop : Nat) : Nat → Nat → Option (Nat × Nat)
  | 0, _ => none
  | n + 1, i =>
      if ctx.isEmpty i then none
      else if ctx.isCode i then underline? ctx stop n (i + 1)
      else match if ctx.isOutside i then none else underlineLevel? (ctx.content i) with
        | some level => some (i, level)
        | none =>
            if ctx.isLazy i then underline? ctx stop n (i + 1)
            else if ctx.endsParagraph i stop then none
            else underline? ctx stop n (i + 1)

def readUnderlined? (ctx : Context) (i stop : Nat) : Option Passage :=
  (ctx.underline? stop (stop - (i + 1)) (i + 1)).map fun (last, level) =>
    .ofEvents [.block (.heading level (ctx.prose i last)) i (last + 1)] (last + 1)

/-! ## Tables -/

def rowEvents (alignments : List Table.Alignment) (cells : List Text) : List Event :=
  (alignments.zip cells).map fun (a, cell) =>
    ⟨.cell (Text.trim cell), none, (a.style?.map fun style => ("style".toList, style)).toList⟩

/-- The rows of a table body, each with its line; `missing` counts the cells that
had to be added.  The flag is set when the body runs into the empty end of the
source. -/
def bodyRows (ctx : Context) (count : Nat) : Nat → Nat → Int → List (List Text) × Bool
  | 0, _, _ => ([], false)
  | n + 1, i, missing =>
      let row := Text.trim (ctx.content i)
      let cells := Table.cells row
      let missing := missing + (count - cells.length : Int)
      if ctx.isOutside i then ([], false)
      else if ctx.isEmpty i && (ctx.line i).isLast && !ctx.isCode i then ([], true)
      else if ctx.endsQuote i || row.isEmpty || ctx.isCode i || Table.maxMissing < missing then
        ([], false)
      else
        let (rows, isFaulty) := bodyRows ctx count n (i + 1) missing
        (Table.fit count cells :: rows, isFaulty)

def rowsFrom (alignments : List Table.Alignment) : Nat → List (List Text) → List Event
  | _, [] => []
  | i, cells :: rows =>
      Event.wrap .row i (i + 1) [] (rowEvents alignments cells) ++ rowsFrom alignments (i + 1) rows

def readTable? (ctx : Context) (i stop : Nat) : Option Passage :=
  (ctx.table? i stop).map fun (header, alignments) =>
    let (rows, isFaulty) := ctx.bodyRows header.length (stop - (i + 2)) (i + 2) 0
    let next := i + 2 + rows.length
    let head :=
      Event.wrap .tableHead i (i + 1) []
        (Event.wrap .row i (i + 1) [] (rowEvents alignments header))
    let body :=
      if rows.isEmpty then []
      else Event.wrap .tableBody (i + 2) next [] (rowsFrom alignments (i + 2) rows)
    { Passage.ofEvents (Event.wrap .table i next [] (head ++ body)) next with isFaulty }

/-! ## Quotes -/

/-- Takes the mark of a quote off a line.  One blank after the mark belongs to it;
a tab does so only if it is one column wide, and otherwise stays, narrower. -/
def unquote (l : Line) : Line :=
  let offset := l.column.toNat + 1
  match l.content.tail with
  | ' ' :: t =>
      let (shift, column) := Line.indentation l.base (offset + 1) t
      { l with text := t, shift, column := column - (offset + 1 : Nat), base := offset + 1 }
  | '\t' :: t =>
      if (l.base + offset) % 4 = 3 then
        let (shift, column) := Line.indentation l.base (offset + 1) t
        { l with text := t, shift, column := column - (offset + 1 : Nat), base := offset + 1 }
      else
        let (shift, column) := Line.indentation (l.base + 1) offset ('\t' :: t)
        { l with text := '\t' :: t, shift, column := column - (offset : Nat), base := offset + 1 }
  | t => { l with text := t, shift := 0, column := 0, base := offset }

structure QuoteLines where
  lines : List Line
  isCutOff : Bool
  deriving DecidableEq, Repr

def QuoteLines.cons (l : Line) (q : QuoteLines) : QuoteLines := { q with lines := l :: q.lines }

/-- The lines of a quote from `i` on.  A line without a mark goes on with the
paragraph of the quote, unless the line before it was empty. -/
def quoteLines (ctx : Context) : Nat → Nat → Bool → QuoteLines
  | 0, _, _ => ⟨[], false⟩
  | n + 1, i, lastIsEmpty =>
      let l := ctx.line i
      if l.isEmpty then ⟨[], false⟩
      else if l.content.head? == some '>' && !ctx.isOutside i then
        let inner := unquote l
        (quoteLines ctx n (i + 1) inner.isEmpty).cons inner
      else if lastIsEmpty then ⟨[], false⟩
      else if ctx.endsQuote i then ⟨[], true⟩
      else (quoteLines ctx n (i + 1) false).cons { l with column := -1 }

def readQuote? (inner : BlockReader) (ctx : Context) (i stop : Nat) : Option Passage :=
  if ctx.startsQuote i then
    let first := unquote (ctx.line i)
    let found := ctx.quoteLines (stop - (i + 1)) (i + 1) first.isEmpty
    let lines := first :: found.lines
    let quoteStop := i + lines.length
    let passage := inner
      { ctx with
        lines := ctx.lines.take i ++ lines ++ ctx.lines.drop quoteStop
        limit := if found.isCutOff then quoteStop else ctx.limit
        indent := 0
        level := ctx.level + 1 }
      i quoteStop
    some (passage.wrap .quote i passage.next [])
  else none

/-! ## Lists -/

def itemContext (ctx : Context) (m : ListMarker) (i : Nat) : Context :=
  let l := ctx.line i
  let rest := l.content.drop m.width
  let start := l.column.toNat + m.width
  let (blanks, column) := Line.indentation l.base start rest
  let isEmpty := blanks = rest.length
  let width := if isEmpty ∨ start + 4 < column then 1 else column - start
  { ctx with
    lines := ctx.lines.set i { l with shift := l.shift + m.width + blanks, column := column }
    indent := start + width
    listIndent := some ctx.indent
    level := ctx.level + 2 }

def readItem (inner : BlockReader) (ctx : Context) (m : ListMarker) (i stop : Nat) : Passage :=
  let item := ctx.itemContext m i
  let passage :=
    if item.isEmpty i && item.isEmpty (i + 1) then Passage.nothing (min (i + 2) stop)
    else inner item i stop
  passage.wrap .item i passage.next []

def nextMarker? (ctx : Context) (m : ListMarker) (i : Nat) : Option ListMarker :=
  if ctx.isOutside i || ctx.isCode i || ctx.endsList i then none
  else (ListMarker.read? (ctx.content i)).filter m.continues

def readItems (inner : BlockReader) (ctx : Context) (stop : Nat) :
    Nat → ListMarker → Nat → Passage
  | 0, _, i => .nothing i
  | n + 1, m, i =>
      let item := ctx.readItem inner m i stop
      if stop ≤ item.next then item
      else match ctx.nextMarker? m item.next with
        | some m => item.append (readItems inner ctx stop n m item.next)
        | none => item

def readList? (inner : BlockReader) (ctx : Context) (i stop : Nat) : Option Passage :=
  (ctx.marker? i).map fun m =>
    let items := ctx.readItems inner stop (stop - i) m i
    match m.number with
    | some n =>
        let start := if n = 1 then [] else [("start".toList, Numeral.ofNat n)]
        items.wrap .orderedList i items.next start
    | none => items.wrap .bulletList i items.next []

/-! ## All blocks -/

def readBlock (inner : BlockReader) (ctx : Context) (i stop : Nat) : Passage :=
  ((ctx.readTable? i stop).or <| (ctx.readCode? i stop).or <| (ctx.readAttributeLine? i).or <|
    (ctx.readFence? i stop).or <| (ctx.readQuote? inner i stop).or <| (ctx.readBreak? i).or <|
    (ctx.readList? inner i stop).or <| (ctx.readDefinition? i).or <| (ctx.readHtml? i stop).or <|
    (ctx.readHeading? i).or <| ctx.readUnderlined? i stop).getD (ctx.readParagraph i)

/-- Reads the blocks from a line on.  A line to the left of the container ends
them; what is nested too deeply is skipped. -/
def readBlocks : Nat → BlockReader
  | 0, _, _, stop => .nothing stop
  | fuel + 1, ctx, i, stop =>
      let i := if i < stop then ctx.nextContent i else i
      if stop ≤ i || ctx.isOutside i then .nothing i
      else if maxLevel ≤ ctx.level then .nothing stop
      else
        let block := ctx.readBlock (readBlocks fuel) i stop
        let next := if block.next < stop && ctx.isEmpty block.next then block.next + 1 else block.next
        block.append (readBlocks fuel ctx next stop)

def document (lines : List Line) : Context := ⟨lines, lines.length, 0, none, 0⟩

end Context

/-- Reads the block structure of a source.  Every block takes a line, and every
container that is opened in the same line as another one is a level deeper. -/
def readSource (source : Text) : Passage :=
  let lines := sourceLines source
  let passage :=
    (Context.document lines).readBlocks (lines.length + 2 * Context.maxLevel) 0 lines.length
  { passage with events := Event.applyAttributeLines none passage.events }

end Proofreader.Markdown
