import Proofreader.Fragment.CharacterReference
import Proofreader.Text.CaseMap

/-!
# Tags of a fragment

A start tag is a name and attributes, with blanks and slashes between them; it
is closed by an angle bracket, with a slash before it if the element is empty.
Of the attributes only the classes matter here.
-/

namespace Proofreader.Tag

/-! ## Names -/

def endsName (c : Char) : Bool :=
  c == '\t' || c == '\n' || c == '\r' || c == Char.ofNat 12 || c == ' ' || c == '/' ||
    c == '>' || c == Char.ofNat 0

def readName? : Text → Option (Text × Text)
  | [] => none
  | c :: t =>
      if c.isAlpha then some (c :: t.takeWhile (!endsName ·), t.dropWhile (!endsName ·)) else none

def skipFiller : Text → Bool × Text
  | [] => (false, [])
  | '/' :: '>' :: t => (false, '/' :: '>' :: t)
  | c :: t => if c == '/' || Text.isBlank c then (true, (skipFiller t).2) else (false, c :: t)

/-! ## Attributes -/

structure Attribute where
  name : Text
  value : Option Text
  deriving DecidableEq, Repr

def Attribute.unescape (a : Attribute) : Except CharacterReference.Overlong Attribute :=
  match a.value with
  | none => .ok a
  | some t => (CharacterReference.unescape t).map fun t => { a with value := some t }

def isQuote (c : Char) : Bool := c == '"' || c == '\''

def endsBareValue (c : Char) : Bool := c == '>' || Text.isBlank c

/-- Reads the value after an attribute name; the flag says whether another
attribute may follow at once.  A quote that is never closed opens no value: with
blanks before it the value is empty, and of several equals signs before it the
last begins a bare value. -/
def readValue? (t : Text) : Option (Text × Bool × Text) :=
  let equals := (t.dropWhile Text.isBlank).takeWhile (· == '=')
  let afterEquals := (t.dropWhile Text.isBlank).dropWhile (· == '=')
  let blanks := afterEquals.takeWhile Text.isBlank
  let rest := afterEquals.dropWhile Text.isBlank
  if equals.isEmpty then none
  else match rest with
    | q :: tail =>
        if isQuote q then
          match tail.span (· ≠ q) with
          | (value, _ :: rest) => some (value, true, rest)
          | (_, []) =>
              if !blanks.isEmpty then some ([], true, rest)
              else if 2 ≤ equals.length then
                some ('=' :: rest.takeWhile (fun c => !endsBareValue c), false,
                  rest.dropWhile (fun c => !endsBareValue c))
              else none
        else
          some (rest.takeWhile (fun c => !endsBareValue c), false,
            rest.dropWhile (fun c => !endsBareValue c))
    | [] => some ([], false, [])

def endsReady (name : Text) : Bool := name.getLast?.any fun c => isQuote c || Text.isBlank c

def endsAttributeName (c : Char) : Bool :=
  c == '/' || c == '=' || c == '>' || Text.isBlank c

/-! ## Start tags -/

inductive Outcome where
  /-- The tag is complete. -/
  | closed (selfClosing : Bool) (attributes : List Attribute) (rest : Text)
  /-- The text ends inside the tag. -/
  | unfinished
  /-- What was read so far is no tag, though it has attributes. -/
  | broken (attributes : List Attribute) (rest : Text)
  deriving DecidableEq, Repr

def Outcome.unescape : Outcome → Except CharacterReference.Overlong Outcome
  | .closed selfClosing attributes rest =>
      (attributes.mapM Attribute.unescape).map fun attributes => .closed selfClosing attributes rest
  | .broken attributes rest =>
      (attributes.mapM Attribute.unescape).map fun attributes => .broken attributes rest
  | .unfinished => .ok .unfinished

def readAttributes : Nat → Bool → Text → List Attribute → Outcome
  | 0, _, _, _ => .unfinished
  | fuel + 1, ready, t, attributes =>
      match t with
      | [] => .unfinished
      | '>' :: rest => .closed false attributes.reverse rest
      | '/' :: '>' :: rest => .closed true attributes.reverse rest
      | c :: t =>
          if ready then
            let name := c :: t.takeWhile (fun d => !endsAttributeName d)
            let rest := t.dropWhile (fun d => !endsAttributeName d)
            let lowered := CaseMap.lower name
            let (found, ready, rest) := match readValue? rest with
              | some (value, ready, rest) => (Attribute.mk lowered (some value), ready, rest)
              | none => (Attribute.mk lowered none, endsReady name, rest)
            let (skipped, rest) := skipFiller rest
            readAttributes fuel (ready || skipped) rest (found :: attributes)
          else if c == '=' then .unfinished
          else .broken attributes.reverse (c :: t)

/-- The last attribute of that name counts. -/
def classesOf (attributes : List Attribute) : List Text :=
  match attributes.reverse.find? (·.name == ("class" : Text)) with
  | some a => Text.words (a.value.getD [])
  | none => []

def readStart (name rest : Text) : Outcome :=
  let (skipped, rest) := skipFiller rest
  readAttributes (rest.length + 1) (skipped || endsReady name) rest []

/-! ## End tags -/

def isEndNameChar (c : Char) : Bool :=
  c.isAlphanum || c == '-' || c == '.' || c == ':' || c == '_'

def readPlainEnd? (t : Text) : Option (Text × Text) :=
  match t.dropWhile Text.isBlank with
  | c :: t =>
      if c.isAlpha then
        match (t.dropWhile isEndNameChar).dropWhile Text.isBlank with
        | '>' :: rest => some (CaseMap.lower (c :: t.takeWhile isEndNameChar), rest)
        | _ => none
      else none
  | [] => none

end Proofreader.Tag
