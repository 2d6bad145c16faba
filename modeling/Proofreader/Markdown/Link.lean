import Proofreader.Markdown.Escape
import Proofreader.Markdown.Line
import Proofreader.Markdown.Url

/-!
# The parts of a link

A link has a destination, in angle brackets or with balanced parentheses, and may
have a title in quotes or parentheses.  A label names a definition; labels are
compared without regard to case and to the width of their blanks.
-/

namespace Proofreader.Markdown.Link

/-! ## Destinations -/

def readBracketed? : Text → Option (Text × Text)
  | [] => none
  | '>' :: t => some ([], t)
  | '\\' :: c :: t => (readBracketed? t).map fun (d, rest) => ('\\' :: c :: d, rest)
  | c :: t =>
      if c = '\n' ∨ c = '<' then none
      else (readBracketed? t).map fun (d, rest) => (c :: d, rest)

def maxParentheses : Nat := 32

def isControl (c : Char) : Bool := c.toNat < 32 || c.toNat == 127

/-- A destination without brackets, and what follows it.  It ends at a blank, at a
control character or at the parenthesis that closes the link. -/
def readBare? : Nat → Text → Option (Text × Text)
  | depth, [] => if depth = 0 then some ([], []) else none
  | depth, '\\' :: c :: t =>
      if c = ' ' then if depth = 0 then some ([], '\\' :: c :: t) else none
      else (readBare? depth t).map fun (d, rest) => ('\\' :: c :: d, rest)
  | depth, '(' :: t =>
      if depth < maxParentheses then (readBare? (depth + 1) t).map fun (d, rest) => ('(' :: d, rest)
      else none
  | depth, ')' :: t =>
      match depth with
      | 0 => some ([], ')' :: t)
      | depth + 1 => (readBare? depth t).map fun (d, rest) => (')' :: d, rest)
  | depth, c :: t =>
      if c = ' ' ∨ isControl c then if depth = 0 then some ([], c :: t) else none
      else (readBare? depth t).map fun (d, rest) => (c :: d, rest)

def readDestination? (t : Text) : Option (Text × Text) :=
  let found := match t with
    | '<' :: t => readBracketed? t
    | t => match readBare? 0 t with
      | some ([], _) => none
      | found => found
  found.map fun (d, rest) => (unescape d, rest)

/-! ## Titles -/

inductive TitleReading where
  | closed (title rest : Text)
  | open (title : Text)
  | refused
  deriving DecidableEq, Repr

def TitleReading.push (c : Char) : TitleReading → TitleReading
  | .closed title rest => .closed (c :: title) rest
  | .open title => .open (c :: title)
  | .refused => .refused

def readTitleTo (close : Char) : Text → TitleReading
  | [] => .open []
  | c :: t =>
      if c = close then .closed [] t
      else if c = '(' ∧ close = ')' then .refused
      else if c = '\\' then
        match t with
        | [] => .open [c]
        | d :: t => ((readTitleTo close t).push d).push c
      else (readTitleTo close t).push c

def titleClose? (c : Char) : Option Char :=
  if c = '"' ∨ c = '\'' then some c else if c = '(' then some ')' else none

def readTitle? : Text → Option (Text × Text)
  | [] => none
  | c :: t =>
      match titleClose? c with
      | none => none
      | some close =>
          match readTitleTo close t with
          | .closed title rest => some (unescape title, rest)
          | _ => none

/-! ## Labels and definitions -/

def normalizeLabel (t : Text) : Text := CaseMap.upper (CaseMap.lower (Text.squeeze t))

structure Definition where
  label : Text
  target : Text
  title : Text
  deriving DecidableEq, Repr

def find? (definitions : List Definition) (label : Text) : Option Definition :=
  definitions.find? (·.label == normalizeLabel label)

/-! ## Inline targets -/

def isSpaceOrBreak (c : Char) : Bool := isSpaceOrTab c || c == '\n'

inductive TargetReading where
  | complete (target title rest : Text)
  /-- No target begins before the text ends. -/
  | missing
  /-- The reading goes wrong at `rest`. -/
  | broken (rest : Text)
  deriving DecidableEq, Repr

/-- Reads a target after its opening parenthesis.  A title follows a destination
after a blank; the destination may be missing. -/
def readTarget (t : Text) : TargetReading :=
  match t.dropWhile isSpaceOrBreak with
  | [] => .missing
  | start =>
      let (target, rest) := match readDestination? start with
        | some (d, rest) =>
            let target := Url.target d
            if Url.isAllowed target then (target, rest) else ([], start)
        | none => ([], start)
      let next := rest.dropWhile isSpaceOrBreak
      let isApart := rest.head?.any isSpaceOrBreak
      let (title, rest) := match if isApart then readTitle? next else none with
        | some (title, rest) => (title, rest.dropWhile isSpaceOrBreak)
        | none => ([], next)
      match rest with
      | ')' :: rest => .complete target title rest
      | rest => .broken rest

end Proofreader.Markdown.Link
