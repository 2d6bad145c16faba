import Proofreader.Fragment.Tag

/-!
# Fragments as streams of markup

A fragment is first cut into pieces: strings, tags, and what shows nothing
(comments, declarations, instructions).  The text is scanned twice.  The first
scan stops at a construct that the end of the text leaves open; the second goes
on from there and takes such a construct as text.  A section that begins like
`<![` must have a known name, or the fragment is rejected, and a number must not have
too many digits.
-/

namespace Proofreader.Fragment

inductive Piece where
  | text (t : Text)
  /-- A string that shows wherever it stands. -/
  | verbatim (t : Text)
  | opening (name : Text) (classes : List Text) (selfClosing : Bool)
  | closing (name : Text)
  deriving DecidableEq, Repr

inductive Fault where
  /-- A section has an unknown name, which makes the markup malformed. -/
  | unknownSection
  | number (f : CharacterReference.Overlong)
  deriving DecidableEq, Repr

/-! ## Searching -/

def cutAt? (c : Char) : Text → Option (Text × Text)
  | [] => none
  | d :: t => if d == c then some ([], t) else (cutAt? c t).map fun (a, b) => (d :: a, b)

def afterSpaced? : Text → Text → Option Text
  | [], t => some t
  | c :: closer, t =>
      match t.dropWhile Text.isBlank with
      | d :: t => if d == c then afterSpaced? closer t else none
      | [] => none

def cutWhere? (close : Text → Option Text) : Text → Option (Text × Text)
  | [] => (close []).map fun rest => ([], rest)
  | c :: t =>
      match close (c :: t) with
      | some rest => some ([], rest)
      | none => (cutWhere? close t).map fun (a, b) => (c :: a, b)

def commentClose? : Text → Option Text
  | '-' :: '-' :: t => afterSpaced? ['>'] t
  | _ => none

/-- `]]>`, blanks allowed before the second and the third character. -/
def sectionClose? : Text → Option Text
  | ']' :: t => afterSpaced? [']', '>'] t
  | _ => none

def conditionClose? : Text → Option Text
  | ']' :: t => afterSpaced? ['>'] t
  | _ => none

/-! ## Steps -/

inductive Construct where
  | pieces (ps : List Piece) (rest : Text)
  /-- A start tag whose content is taken as it stands until the element ends. -/
  | rawStart (p : Piece) (name rest : Text)
  | unfinished
  | fails (f : Fault)
  deriving DecidableEq, Repr

def rawElements : List Text := ["script", "style"]

def silent (t : Text) : Construct :=
  match cutAt? '>' t with
  | some (_, rest) => .pieces [] rest
  | none => .unfinished

def readStartTag (t : Text) : Construct :=
  match Tag.readName? t with
  | none => .unfinished
  | some (name, rest) =>
      let lowered := CaseMap.lower name
      match (Tag.readStart name rest).unescape with
      | .error f => .fails (.number f)
      | .ok (.closed selfClosing attributes rest) =>
          let piece := Piece.opening lowered (Tag.classesOf attributes) selfClosing
          if !selfClosing && rawElements.contains lowered then .rawStart piece lowered rest
          else .pieces [piece] rest
      | .ok .unfinished => .unfinished
      | .ok (.broken _ rest) => .pieces [.text ('<' :: t.take (t.length - rest.length))] rest

def readEndTag (t : Text) : Construct :=
  match cutAt? '>' t with
  | none => .unfinished
  | some (_, rest) =>
      match Tag.readPlainEnd? t with
      | some (name, rest) => .pieces [.closing name] rest
      | none =>
          match Tag.readName? t with
          | some (name, _) => .pieces [.closing (CaseMap.lower name)] rest
          | none => .pieces [] rest

def sectionNames : List Text := ["temp", "cdata", "ignore", "include", "rcdata"]

def conditionNames : List Text := ["if", "else", "endif"]

def isSectionNameChar (c : Char) : Bool :=
  c.isAlphanum || c == '-' || c == '_' || c == '.'

def characterData : Text := "CDATA["

def sectionPieces (content : Text) : List Piece :=
  if (content.take 6).map Char.toUpper == characterData then [.verbatim (content.drop 6)] else []

def readSection (t : Text) : Construct :=
  match t with
  | [] => .unfinished
  | c :: _ =>
      if c.isAlpha then
        let name := t.takeWhile isSectionNameChar
        let rest := t.dropWhile isSectionNameChar
        if (rest.dropWhile Text.isBlank).isEmpty then .unfinished
        else
          let lowered := CaseMap.lower name
          let close? :=
            if sectionNames.contains lowered then some sectionClose?
            else if conditionNames.contains lowered then some conditionClose?
            else none
          match close? with
          | none => .fails .unknownSection
          | some close =>
              match cutWhere? close t with
              | some (content, rest) => .pieces (sectionPieces content) rest
              | none => .unfinished
      else .fails .unknownSection

def doctype : Text := "doctype"

def readDeclaration (t : Text) : Construct :=
  match t with
  | '-' :: '-' :: t =>
      match cutWhere? commentClose? t with
      | some (_, rest) => .pieces [] rest
      | none => .unfinished
  | '[' :: t => readSection t
  | t =>
      if (t.take 7).map Char.toLower == doctype then silent (t.drop 7) else silent t

def readConstruct (t : Text) : Construct :=
  match t with
  | '/' :: t => readEndTag t
  | '!' :: t => readDeclaration t
  | '?' :: t => silent t
  | c :: _ => if c.isAlpha then readStartTag t else .pieces [.text ['<']] t
  | [] => .unfinished

/-- The text that stands for an unfinished construct: it ends after the next
closing bracket, or before the next opening one, or after one character. -/
def takeAsText (t : Text) : Text × Text :=
  match cutAt? '>' t with
  | some (inside, rest) => ('<' :: inside ++ ['>'], rest)
  | none =>
      match t.span (· ≠ '<') with
      | (inside, '<' :: rest) => ('<' :: inside, '<' :: rest)
      | _ => (['<'], t)

/-! ## Scanning -/

/-- Where a scan stands: the pieces so far, latest first, the element whose
content is taken as it stands, and the text that is left. -/
structure Scan where
  pieces : List Piece
  raw : Option Text
  rest : Text
  deriving DecidableEq, Repr

def rawClose? (name : Text) : Text → Option Text
  | '<' :: '/' :: t =>
      match Tag.readPlainEnd? t with
      | some (found, rest) => if found == name then some rest else none
      | none => none
  | _ => none

def startsMarkup (c : Char) : Bool := c == '<' || c == '&'

/-- One scan; `last` is the second one, which leaves nothing open. -/
def scanFrom (last : Bool) : Nat → Scan → Except Fault Scan
  | 0, s => .ok s
  | fuel + 1, s =>
      match s.raw with
      | some name =>
          match cutWhere? (rawClose? name) s.rest with
          | some (content, rest) =>
              scanFrom last fuel ⟨.closing name :: .text content :: s.pieces, none, rest⟩
          | none => .ok s
      | none =>
          match s.rest with
          | [] => .ok s
          | '<' :: t =>
              match readConstruct t with
              | .pieces ps rest => scanFrom last fuel ⟨ps.reverse ++ s.pieces, none, rest⟩
              | .rawStart p name rest => scanFrom last fuel ⟨p :: s.pieces, some name, rest⟩
              | .fails f => .error f
              | .unfinished =>
                  if last && !t.isEmpty then
                    let (shown, rest) := takeAsText t
                    scanFrom last fuel ⟨.text shown :: s.pieces, none, rest⟩
                  else .ok s
          | '&' :: '#' :: t =>
              match CharacterReference.readNumber? t with
              | some (.ok n, rest) =>
                  scanFrom last fuel
                    ⟨.text [CharacterReference.charOfNumber n] :: s.pieces, none, rest⟩
              | some (.error f, _) => .error (.number f)
              | none =>
                  if t.contains ';' then .ok ⟨.text ['&', '#'] :: s.pieces, none, t⟩ else .ok s
          | '&' :: t =>
              match CharacterReference.readName? t, t with
              | some (name, rest), _ =>
                  scanFrom last fuel
                    ⟨.text (CharacterReference.textOfName name) :: s.pieces, none, rest⟩
              | none, [] => .ok s
              | none, c :: tail =>
                  if c.isAlpha then
                    if last && tail.isEmpty then .ok ⟨s.pieces, none, t⟩ else .ok s
                  else scanFrom last fuel ⟨.text ['&'] :: s.pieces, none, t⟩
          | t =>
              let (shown, rest) := t.span fun c => !startsMarkup c
              scanFrom last fuel ⟨.text shown :: s.pieces, none, rest⟩

def scanPass (last : Bool) (s : Scan) : Except Fault Scan :=
  scanFrom last (2 * s.rest.length + 1) s

/-- What the second scan leaves is text, unless it belongs to an element with
raw content. -/
def finish (s : Scan) : List Piece :=
  if s.raw.isNone && !s.rest.isEmpty then (.text s.rest :: s.pieces).reverse else s.pieces.reverse

def pieces (t : Text) : Except Fault (List Piece) := do
  let first ← scanPass false ⟨[], none, t⟩
  let second ← scanPass true first
  return finish second

end Proofreader.Fragment
