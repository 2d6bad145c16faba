import Proofreader.Markdown.Line
import Proofreader.Markdown.Url

/-!
# Raw HTML

Raw HTML is passed through.  Inside a text it is a tag, a comment, an instruction,
a declaration or a section of character data.  As a block it begins with one of
seven kinds of line and goes on to a line that ends it.
-/

namespace Proofreader.Markdown.RawHtml

/-! ## Constructs -/

def afterFirst? (t p : Text) : Option Text :=
  match Text.after? t p with
  | some rest => some rest
  | none =>
      match t with
      | [] => none
      | _ :: t => afterFirst? t p

def isTagChar (c : Char) : Bool := c.isAlphanum || c == '-'

def afterTagName? : Text → Option Text
  | c :: t => if c.isAlpha then some (t.dropWhile isTagChar) else none
  | [] => none

def startsAttribute (c : Char) : Bool := c.isAlpha || c == '_' || c == ':'

def isAttributeChar (c : Char) : Bool :=
  c.isAlphanum || c == ':' || c == '.' || c == '_' || c == '-'

def isBareValueChar (c : Char) : Bool := 32 < c.toNat && !"\"'=<>\x60".toList.contains c

/-- What can follow a bare value, the longest first; a value may also end before a
blank that it could hold. -/
def bareValueEnds (t : Text) : List Text :=
  let run := t.takeWhile isBareValueChar
  let cuts := (List.range run.length).reverse.filter fun n =>
    0 < n && (t.drop n).head?.any Text.isBlank
  if run.isEmpty then [] else t.drop run.length :: cuts.map t.drop

def valueEnds : Text → List Text
  | '"' :: t => match t.dropWhile (· ≠ '"') with
    | _ :: rest => [rest]
    | [] => []
  | '\'' :: t => match t.dropWhile (· ≠ '\'') with
    | _ :: rest => [rest]
    | [] => []
  | t => bareValueEnds t

def afterTagEnd? (t : Text) : Option Text :=
  match t.dropWhile Text.isBlank with
  | '>' :: rest => some rest
  | '/' :: '>' :: rest => some rest
  | _ => none

def attributeEnds (t : Text) : List Text :=
  match t.dropWhile Text.isBlank with
  | c :: rest =>
      if t.head?.any Text.isBlank && startsAttribute c then
        let afterName := rest.dropWhile isAttributeChar
        match afterName.dropWhile Text.isBlank with
        | '=' :: rest => valueEnds (rest.dropWhile Text.isBlank) ++ [afterName]
        | _ => [afterName]
      else []
  | [] => []

def afterAttributes? : Nat → Text → Option Text
  | 0, _ => none
  | fuel + 1, t =>
      match (attributeEnds t).findSome? (afterAttributes? fuel) with
      | some rest => some rest
      | none => afterTagEnd? t

def afterOpenTag? : Text → Option Text
  | '<' :: t => (afterTagName? t).bind fun rest => afterAttributes? (rest.length + 1) rest
  | _ => none

def afterCloseTag? : Text → Option Text
  | '<' :: '/' :: t =>
      match (afterTagName? t).map (·.dropWhile Text.isBlank) with
      | some ('>' :: rest) => some rest
      | _ => none
  | _ => none

/-- The rest of a comment.  Two hyphens end it if an angle bracket follows them;
otherwise they take the character after them along. -/
def afterCommentBody? : Text → Option Text
  | '-' :: '-' :: '>' :: t => some t
  | '-' :: '-' :: _ :: t => afterCommentBody? t
  | '-' :: '-' :: [] => none
  | _ :: t => afterCommentBody? t
  | [] => none

def afterComment? (t : Text) : Option Text :=
  match Text.after? t "<!--" with
  | some ('>' :: rest) => some rest
  | some ('-' :: '>' :: rest) => some rest
  | some rest => afterCommentBody? rest
  | none => none

def afterInstruction? (t : Text) : Option Text :=
  (Text.after? t "<?").bind (afterFirst? · "?>")

def afterDeclaration? : Text → Option Text
  | '<' :: '!' :: c :: t => if c.isAlpha then afterFirst? t ">" else none
  | _ => none

def afterSection? (t : Text) : Option Text :=
  (Text.after? t "<![CDATA[").bind (afterFirst? · "]]>")

def after? (t : Text) : Option Text :=
  (afterOpenTag? t).or <| (afterCloseTag? t).or <| (afterComment? t).or <|
    (afterInstruction? t).or <| (afterDeclaration? t).or (afterSection? t)

/-! ## Blocks -/

inductive BlockKind where
  | verbatim
  | comment
  | instruction
  | declaration
  | characterData
  | element
  /-- A line that holds one complete tag of any name; it interrupts no paragraph. -/
  | tag
  deriving DecidableEq, Repr

def afterWord? : Text → Text → Option Text
  | t, [] => some t
  | [], _ :: _ => none
  | c :: t, d :: word => if Url.foldLetter c == d then afterWord? t word else none

def verbatimElements : List Text := ["script", "pre", "style", "textarea"]

def blockElements : List Text := Text.words
  "address article aside base basefont blockquote body caption center col colgroup dd details dialog
   dir div dl dt fieldset figcaption figure footer form frame frameset h1 h2 h3 h4 h5 h6 head header
   hr html iframe legend li link main menu menuitem nav noframes ol optgroup option p param search
   section summary table tbody td tfoot th thead title tr track ul"

def endsTagName (allowsSlash : Bool) : Text → Bool
  | [] => true
  | '>' :: _ => true
  | '/' :: '>' :: _ => allowsSlash
  | c :: _ => Text.isBlank c

def beginsElement (names : List Text) (allowsSlash : Bool) (t : Text) : Bool :=
  names.any fun name => (afterWord? t name).any (endsTagName allowsSlash)

def blockKind? (t : Text) : Option BlockKind :=
  match t with
  | '<' :: rest =>
      let name := match rest with
        | '/' :: name => name
        | name => name
      if beginsElement verbatimElements false rest then some .verbatim
      else if Text.startsWith t "<!--" then some .comment
      else if Text.startsWith t "<?" then some .instruction
      else if Text.startsWith t "<!" && (t.drop 2).head?.any Char.isUpper then some .declaration
      else if Text.startsWith t "<![CDATA[" then some .characterData
      else if beginsElement blockElements true name then some .element
      else match (afterOpenTag? t).or (afterCloseTag? t) with
        | some rest => if Text.isAllBlank rest then some .tag else none
        | none => none
  | _ => none

def holdsVerbatimEnd : Text → Bool
  | [] => false
  | '<' :: '/' :: t =>
      (verbatimElements.any fun name => ((afterWord? t name).bind List.head?) == some '>') ||
        holdsVerbatimEnd t
  | _ :: t => holdsVerbatimEnd t

def BlockKind.endsAt : BlockKind → Text → Bool
  | .verbatim, t => holdsVerbatimEnd t
  | .comment, t => Text.includes t "-->"
  | .instruction, t => Text.includes t "?>"
  | .declaration, t => Text.includes t ">"
  | .characterData, t => Text.includes t "]]>"
  | .element, t => t.isEmpty
  | .tag, t => t.isEmpty

end Proofreader.Markdown.RawHtml
