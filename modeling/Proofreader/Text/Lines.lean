import Proofreader.Text.Basic

/-!
# Lines of a text

A line break is a carriage return with the line feed that follows it, or else a
carriage return or a line feed alone.  A text with `n` line breaks has `n + 1`
lines.
-/

namespace Proofreader.Text

def consLine (c : Char) : List Text → List Text
  | [] => [[c]]
  | line :: lines => (c :: line) :: lines

def splitLines : Text → List Text
  | [] => [[]]
  | '\r' :: '\n' :: rest => [] :: splitLines rest
  | c :: rest =>
      if c = '\r' ∨ c = '\n' then [] :: splitLines rest
      else consLine c (splitLines rest)

def unifyBreaks : Text → Text
  | [] => []
  | '\r' :: '\n' :: rest => '\n' :: unifyBreaks rest
  | c :: rest => (if c = '\r' then '\n' else c) :: unifyBreaks rest

/-- The characters that end an entry of a word list: the two break characters,
the vertical tab and the form feed, the first three information separators, the
next line character and the two Unicode separators. -/
def endsEntry (c : Char) : Bool :=
  let n := c.toNat
  (10 ≤ n && n ≤ 13) || (28 ≤ n && n ≤ 30) || n == 0x85 || n == 0x2028 || n == 0x2029

end Proofreader.Text
