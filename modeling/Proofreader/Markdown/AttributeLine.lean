import Proofreader.Markdown.Event
import Proofreader.Markdown.Line
import Proofreader.Text.Letter

/-!
# Attribute lines

A line in braces gives attributes to the block after it: `#id`, `.class` and
`key=value`, with blanks between them and comments between percent signs.
Nothing is made of what follows the closing brace.  A comment or a quoted value
that is never closed hides the closing brace, and what was read before it counts.
Handlers of events, whose keys begin with `on`, are left out.
-/

namespace Proofreader.Markdown.AttributeLine

inductive Entry where
  | id (t : Text)
  | className (t : Text)
  | pair (key value : Text)
  deriving DecidableEq, Repr

/-! ## Words -/

def isKeyChar (c : Char) : Bool :=
  c.isAlpha || Letter.isDigit c || c == '_' || c == ':' || c == '-'

def breaksName (c : Char) : Bool :=
  Text.isBlank c || "!\"#$%&'()*+,./;<=>?@[]^\x60\x7b|\x7d~".toList.contains c

/-- Reads a word of such characters.  A blank ends it and is dropped; the closing
brace ends it and stays. -/
def readWord? (belongs : Char → Bool) (t : Text) : Option (Text × Text) :=
  match t.dropWhile belongs with
  | c :: rest =>
      if c == '}' then some (t.takeWhile belongs, c :: rest)
      else if Text.isBlank c then some (t.takeWhile belongs, rest)
      else none
  | [] => none

/-! ## Values -/

inductive ValueReading where
  | value (v rest : Text)
  /-- The line ends inside the quotes. -/
  | unclosed
  | refused
  deriving DecidableEq, Repr

def ValueReading.push (c : Char) : ValueReading → ValueReading
  | .value v rest => .value (c :: v) rest
  | other => other

def readQuoted : Text → ValueReading
  | [] => .unclosed
  | '"' :: t => .value [] t
  | '\\' :: c :: t => ((readQuoted t).push c).push '\\'
  | c :: t => if c == '{' || c == '}' then .refused else (readQuoted t).push c

def readValue (t : Text) : ValueReading :=
  match t with
  | '"' :: t => readQuoted t
  | t =>
      match readWord? isKeyChar t with
      | some (c :: v, rest) => .value (c :: v) rest
      | _ => .refused

/-! ## Entries -/

def isFiller (c : Char) : Bool := c == ' ' || c == '\t'

def consName (entry : Text → Entry) (name : Text) (entries : List Entry) : List Entry :=
  if name.isEmpty then entries else entry name :: entries

def readEntries : Nat → Text → Option (List Entry)
  | 0, _ => none
  | _, [] => some []
  | fuel + 1, c :: t =>
      if c == '}' then some []
      else if isFiller c then readEntries fuel t
      else if c == '%' then readEntries fuel ((t.dropWhile (· ≠ '%')).drop 1)
      else if c == '#' then do
        let (name, rest) ← readWord? (fun c => !breaksName c) t
        (readEntries fuel rest).map (consName .id name)
      else if c == '.' then do
        let (name, rest) ← readWord? (fun c => !breaksName c) t
        (readEntries fuel rest).map (consName .className name)
      else if isKeyChar c then
        match t.dropWhile isKeyChar with
        | '=' :: rest =>
            match readValue rest with
            | .value v rest =>
                (readEntries fuel rest).map (.pair (c :: t.takeWhile isKeyChar) v :: ·)
            | .unclosed => some []
            | .refused => none
        | _ => none
      else none

def Entry.class? : Entry → Option Text
  | .className t => some t
  | .pair key value => if key = Event.classAttribute then some value else none
  | .id _ => none

def isHandler (key : Text) : Bool := Text.startsWith (key.map Char.toLower) "on"

def Entry.setIn (a : Attributes) : Entry → Attributes
  | .id t => a.set "id" t
  | .pair key value =>
      if key = Event.classAttribute || isHandler key then a else a.set key value
  | .className _ => a

/-- Later entries win; the classes come last, joined by spaces. -/
def attributesOf (entries : List Entry) : Attributes :=
  let others := entries.foldl Entry.setIn []
  match entries.filterMap Entry.class? with
  | [] => others
  | classes => others.set Event.classAttribute (Text.joinWith [' '] classes)

def read? (content : Text) : Option Attributes :=
  let trimmed := (content.reverse.dropWhile isSpaceOrTab).reverse
  match trimmed with
  | '{' :: inside =>
      if trimmed.getLast? = some '}' then (readEntries trimmed.length inside).map attributesOf
      else none
  | _ => none

end Proofreader.Markdown.AttributeLine
