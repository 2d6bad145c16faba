import Proofreader.Text.Basic

/-!
# Source lines

A Markdown source is read line by line.  A line knows how far its text is
indented, in characters and in columns; a tab reaches to the next column that is
a multiple of four.  Containers such as quotes cut lines on the left, and a line
remembers how many columns were cut off so that its tabs keep their widths.
-/

namespace Proofreader.Markdown

def isSpaceOrTab (c : Char) : Bool := c == ' ' || c == '\t'

structure Line where
  /-- What the enclosing containers left of the line. -/
  text : Text
  /-- How many of these characters stand before the content. -/
  shift : Nat
  /-- The column of the content; a lazy line has column -1. -/
  column : Int
  /-- The columns that were cut off. -/
  base : Nat
  /-- The source ends with this line, without a line feed. -/
  isLast : Bool
  deriving DecidableEq, Repr

namespace Line

def tabWidth (column : Nat) : Nat := 4 - column % 4

def indentation (base : Nat) : Nat → Text → Nat × Nat
  | column, ' ' :: t => let (n, column) := indentation base (column + 1) t; (n + 1, column)
  | column, '\t' :: t =>
      let (n, column) := indentation base (column + tabWidth (column + base)) t
      (n + 1, column)
  | column, _ => (0, column)

def ofText (text : Text) (isLast : Bool) : Line :=
  let (shift, column) := indentation 0 0 text
  ⟨text, shift, column, 0, isLast⟩

def none : Line := ⟨[], 0, 0, 0, true⟩

def content (l : Line) : Text := l.text.drop l.shift

def isEmpty (l : Line) : Bool := l.content.isEmpty

def terminated (l : Line) : Text := if l.isLast then l.content else l.content ++ ['\n']

/-- Cuts columns off the front.  Characters before the content count one column
each; a tab that is cut in two leaves spaces behind. -/
def cutColumns (indent base : Nat) : Nat → Nat → Text → Text
  | shift, column, t =>
      if indent ≤ column then List.replicate (column - indent) ' ' ++ t
      else match t with
        | [] => []
        | '\t' :: t => cutColumns indent base (shift - 1) (column + tabWidth (column + base)) t
        | c :: t =>
            if c = ' ' ∨ 0 < shift then cutColumns indent base (shift - 1) (column + 1) t
            else c :: t

def cut (l : Line) (indent : Nat) : Text := cutColumns indent l.base l.shift 0 l.text

end Line

/-! ## From the source -/

def cleanSource : Text → Text
  | [] => []
  | '\r' :: '\n' :: t => '\n' :: cleanSource t
  | c :: t =>
      (if c = '\r' then '\n' else if c = Char.ofNat 0 then Char.ofNat 0xFFFD else c) :: cleanSource t

def placeLines : List Text → List Line
  | [] => []
  | [t] => if t.all isSpaceOrTab then [] else [Line.ofText t true]
  | t :: rest => Line.ofText t false :: placeLines rest

def sourceLines (source : Text) : List Line :=
  placeLines (Text.splitOn (· == '\n') (cleanSource source))

end Proofreader.Markdown
