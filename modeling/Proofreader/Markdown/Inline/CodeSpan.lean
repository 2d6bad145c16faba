import Proofreader.Markdown.Line

/-!
# Code spans

A run of backticks opens a code span if a run of the same length follows.  While a
text is read it is remembered where runs were seen, so that a text full of unpaired
runs need not be searched again for each of them.
-/

namespace Proofreader.Markdown

structure Run where
  start : Nat
  length : Nat
  deriving DecidableEq, Repr

/-- The runs that were passed over, latest first.  Once a search has reached the
end of the text it is known that a run of some length was not seen after its last
mention. -/
structure SeenRuns where
  runs : List Run
  isComplete : Bool
  deriving DecidableEq, Repr

namespace CodeSpan

def isMark (c : Char) : Bool := c == '\x60'

def runsFrom : Nat → Nat → Text → List Run
  | pos, openMarks, [] => if openMarks = 0 then [] else [⟨pos - openMarks, openMarks⟩]
  | pos, openMarks, c :: t =>
      if isMark c then runsFrom (pos + 1) (openMarks + 1) t
      else if openMarks = 0 then runsFrom (pos + 1) 0 t
      else ⟨pos - openMarks, openMarks⟩ :: runsFrom (pos + 1) 0 t

def isHopeless (seen : SeenRuns) (start length : Nat) : Bool :=
  seen.isComplete && (seen.runs.find? (·.length == length)).all (·.start ≤ start)

/-- The text of a code span: line breaks become spaces, and one space is taken off
at both ends if the span holds anything else. -/
def content (t : Text) : Text :=
  let t := t.map fun c => if c = '\n' then ' ' else c
  if t.head? = some ' ' ∧ t.getLast? = some ' ' ∧ !Text.isAllBlank t then t.tail.dropLast else t

def read? (seen : SeenRuns) (pos : Nat) (t : Text) : Option (Text × Nat) × SeenRuns :=
  let length := (t.takeWhile isMark).length
  if isHopeless seen pos length then (none, seen)
  else
    let inside := t.drop length
    let runs := runsFrom (pos + length) 0 inside
    let passed := runs.takeWhile (·.length ≠ length)
    let seen := { seen with runs := passed.reverse ++ seen.runs }
    match runs.dropWhile (·.length ≠ length) with
    | closer :: _ =>
        (some (content (inside.take (closer.start - (pos + length))), closer.start + length - pos),
          seen)
    | [] => (none, { seen with isComplete := true })

end CodeSpan

end Proofreader.Markdown
