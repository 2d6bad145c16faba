import Proofreader.Markdown.Block.Start

/-!
# Link definitions

A definition is a label in brackets, a colon, a destination and perhaps a title,
over as many lines as it takes.  A title that turns out wrong, or is followed by
something else, is given up, and then the definition ends after its destination.
-/

namespace Proofreader.Markdown

namespace Definition

structure Position where
  rest : Text
  lines : List Text
  deriving DecidableEq, Repr

/-! ## Labels -/

inductive LabelReading where
  | closed (label rest : Text)
  | open (label : Text)
  | refused
  deriving DecidableEq, Repr

def LabelReading.push (c : Char) : LabelReading → LabelReading
  | .closed label rest => .closed (c :: label) rest
  | .open label => .open (c :: label)
  | .refused => .refused

def readLabelLine : Text → LabelReading
  | [] => .open []
  | c :: t =>
      if c = '[' then .refused
      else if c = ']' then .closed [] t
      else if c = '\\' then
        match t with
        | [] => .open [c]
        | d :: t => ((readLabelLine t).push d).push c
      else (readLabelLine t).push c

def readLabel? : Text → List Text → Option (Text × Position)
  | t, lines =>
      match readLabelLine t with
      | .refused => none
      | .closed label rest => some (label, ⟨rest, lines⟩)
      | .open label =>
          match lines with
          | [] => none
          | line :: lines => (readLabel? line lines).map fun (more, p) => (label ++ more, p)
termination_by structural _ lines => lines

/-! ## Blanks and titles -/

def skipBlanks : Text → List Text → Position
  | t, lines =>
      match t.dropWhile isSpaceOrTab with
      | '\n' :: _ =>
          match lines with
          | [] => ⟨[], []⟩
          | line :: lines => skipBlanks line lines
      | rest => ⟨rest, lines⟩
termination_by structural _ lines => lines

def readTitleTo? (close : Char) : Text → List Text → Option (Text × Position)
  | t, lines =>
      match Link.readTitleTo close t with
      | .refused => none
      | .closed title rest => some (unescape title, ⟨rest, lines⟩)
      | .open title =>
          match lines with
          | [] => none
          | line :: lines =>
              (readTitleTo? close line lines).map fun (more, p) => (unescape title ++ more, p)
termination_by structural _ lines => lines

def readTitle? (p : Position) : Option (Text × Position) :=
  match p.rest with
  | [] => none
  | c :: t =>
      match Link.titleClose? c with
      | some close => readTitleTo? close t p.lines
      | none => none

/-! ## Whole definitions -/

def endsLine (t : Text) : Bool := (t.dropWhile isSpaceOrTab).head?.all (· == '\n')

/-- The title after a destination and what follows it.  A title stands apart and
ends its line. -/
def readTail? (p : Position) : Option (Text × Position) :=
  let start := skipBlanks p.rest p.lines
  let isApart := p.rest.head?.any Link.isSpaceOrBreak
  match if isApart then readTitle? start else none with
  | some (title, q) =>
      if endsLine q.rest then some (title, q)
      else if !title.isEmpty && endsLine p.rest then some ([], p)
      else none
  | none => if endsLine p.rest then some ([], p) else none

def read? (first : Text) (lines : List Text) : Option (Link.Definition × Position) := do
  let (label, p) ← readLabel? first lines
  match p.rest with
  | ':' :: rest =>
      let start := skipBlanks rest p.lines
      let (destination, rest) ← Link.readDestination? start.rest
      let target := Url.target destination
      if !Url.isAllowed target then none
      else
        let (title, q) ← readTail? ⟨rest, start.lines⟩
        let label := Link.normalizeLabel label
        if label.isEmpty then none else some (⟨label, target, title⟩, q)
  | _ => none

end Definition

namespace Context

def definitionLines (ctx : Context) : Nat → Nat → List Text
  | 0, _ => []
  | n + 1, i =>
      if ctx.isEmpty i || (!ctx.continuesParagraph i && ctx.endsDefinition i) then []
      else (ctx.line i).terminated :: definitionLines ctx n (i + 1)

def definition? (ctx : Context) (i : Nat) : Option (Link.Definition × Nat) :=
  if ctx.isCode i then none
  else
    match (ctx.line i).terminated with
    | '[' :: first =>
        let lines := ctx.definitionLines (ctx.limit - (i + 1)) (i + 1)
        (Definition.read? first lines).map fun (d, p) =>
          (d, i + 1 + (lines.length - p.lines.length))
    | _ => none

end Context

end Proofreader.Markdown
