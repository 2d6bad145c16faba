import Proofreader.Markdown.Line

/-!
# Table rows

Pipes separate the cells of a row, except after a backslash, which then vanishes.
The second row of a table consists of hyphens, with colons that align columns.
-/

namespace Proofreader.Markdown.Table

inductive Alignment where
  | free
  | left
  | center
  | right
  deriving DecidableEq, Repr

def Alignment.style? : Alignment → Option Text
  | .free => none
  | .left => some "text-align:left".toList
  | .center => some "text-align:center".toList
  | .right => some "text-align:right".toList

def consCell (c : Char) : List Text → List Text
  | [] => [[c]]
  | cell :: cells => (c :: cell) :: cells

def splitCells : Text → List Text
  | [] => [[]]
  | '\\' :: '|' :: t => consCell '|' (splitCells t)
  | c :: t => if c = '|' then [] :: splitCells t else consCell c (splitCells t)

def dropEmptyFirst : List Text → List Text
  | [] :: cells => cells
  | cells => cells

/-- The cells of a trimmed row; pipes at its ends separate nothing. -/
def cells (t : Text) : List Text := (dropEmptyFirst (dropEmptyFirst (splitCells t)).reverse).reverse

def alignment? (t : Text) : Option Alignment :=
  let left := t.head? == some ':'
  let hyphens := if left then t.tail else t
  let right := hyphens.getLast? == some ':'
  let hyphens := if right then hyphens.dropLast else hyphens
  if hyphens.isEmpty || !hyphens.all (· == '-') then none
  else some (if left && right then .center else if right then .right else if left then .left else .free)

def readAlignments? (isFirst : Bool) : List Text → Option (List Alignment)
  | [] => some []
  | cell :: rest =>
      let cell := Text.trim cell
      if cell.isEmpty then if isFirst || rest.isEmpty then readAlignments? false rest else none
      else do
        let a ← alignment? cell
        let as ← readAlignments? false rest
        some (a :: as)

def isRuleChar (c : Char) : Bool := c == '|' || c == '-' || c == ':'

/-- The alignments of the second row.  It has two characters or more and does not
look like the item of a list. -/
def alignments? (t : Text) : Option (List Alignment) :=
  match t with
  | c :: d :: _ =>
      if isRuleChar c && t.all (fun c => isRuleChar c || isSpaceOrTab c) && !(c == '-' && isSpaceOrTab d)
      then readAlignments? true (Text.splitOn (· == '|') t)
      else none
  | _ => none

def fit (count : Nat) (cells : List Text) : List Text :=
  (cells ++ List.replicate (count - cells.length) []).take count

def maxMissing : Int := 65536

end Proofreader.Markdown.Table
