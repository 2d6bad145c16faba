import Proofreader.Markdown.Inline.Autolink
import Proofreader.Markdown.Inline.CodeSpan
import Proofreader.Markdown.Inline.Emphasis
import Proofreader.Markdown.Link
import Proofreader.Markdown.RawHtml

/-!
# Reading inline content

A text is cut into constructs from left to right.  To find where the text of a link
ends, the constructs inside it are skipped first, at most twenty levels deep; how
far a construct reaches is remembered for each place, so that no place is skipped
over twice.
-/

namespace Proofreader.Markdown

/-! ## Constructs -/

inductive Construct where
  | text (t : Text)
  | lineBreak
  | hardBreak
  /-- Text that is no part of the running text around it. -/
  | literal (t : Text)
  | code (t : Text)
  | html (t : Text)
  | link (label target title : Text)
  | image (label source title : Text)
  | address (target shown : Text)
  deriving DecidableEq, Repr

/-- What is remembered about a text: where the constructs that begin at a place
end, and the runs of backticks. -/
structure Memory where
  skips : List (Nat × Nat)
  seen : SeenRuns
  deriving DecidableEq, Repr

namespace Memory

def empty : Memory := ⟨[], ⟨[], false⟩⟩

def skip? (m : Memory) (pos : Nat) : Option Nat := (m.skips.find? (·.1 == pos)).map (·.2)

def remember (m : Memory) (pos next : Nat) : Memory := { m with skips := (pos, next) :: m.skips }

end Memory

abbrev Skipper := Nat → Text → Memory → Nat × Memory

abbrev Recognition := Option (Construct × Nat) × Memory

namespace Construct

def interruptsText (c : Char) : Bool := "\n!#$%&*+-:<=>@[\\]^_\x60\x7b\x7d~".toList.contains c

/-! ## Labels -/

/-- Looks for the bracket that closes a label.  `depth` counts the brackets that
are open; a label that refuses links ends the search at a link. -/
def labelEnd (skip : Skipper) (refusesLinks : Bool) :
    Nat → Nat → Nat → Text → Memory → Option Nat × Memory
  | 0, _, _, _, memory => (none, memory)
  | _, _, _, [], memory => (none, memory)
  | fuel + 1, depth, pos, c :: t, memory =>
      if c = ']' ∧ depth = 1 then (some pos, memory)
      else
        let depth := if c = ']' then depth - 1 else depth
        let (next, memory) := skip pos (c :: t) memory
        let rest := (c :: t).drop (next - pos)
        if c = '[' ∧ next = pos + 1 then labelEnd skip refusesLinks fuel (depth + 1) next rest memory
        else if c = '[' ∧ refusesLinks then (none, memory)
        else labelEnd skip refusesLinks fuel depth next rest memory

def readLabel? (skip : Skipper) (refusesLinks : Bool) (pos : Nat) (t : Text) (memory : Memory) :
    Option (Text × Text) × Memory :=
  match labelEnd skip refusesLinks (t.length + 1) 1 pos t memory with
  | (some stop, memory) => (some (t.take (stop - pos), t.drop (stop + 1 - pos)), memory)
  | (none, memory) => (none, memory)

/-- The definition that a label or a second label names.  `second` is where a second
label may begin, and `stop` is the position at which the text ends. -/
def reference (definitions : List Link.Definition) (skip : Skipper) (label after second : Text)
    (stop : Nat) (memory : Memory) : Option (Link.Definition × Text) × Memory :=
  if definitions.isEmpty then (none, memory)
  else
    let (found, memory) := match second with
      | '[' :: inside => readLabel? skip false (stop - inside.length) inside memory
      | _ => (none, memory)
    let (name, rest) := found.getD ([], after)
    let name := if name.isEmpty then label else name
    ((Link.find? definitions name).map fun d => (d, rest), memory)

/-! ## Links and images -/

/-- A link, which begins with an opening bracket.  Parentheses that turn out to be
no target are skipped when the label is looked up. -/
def readLink (definitions : List Link.Definition) (skip : Skipper) (pos : Nat) (t : Text)
    (memory : Memory) : Recognition :=
  match readLabel? skip true (pos + 1) t.tail memory with
  | (none, memory) => (none, memory)
  | (some (label, after), memory) =>
      let refer (second : Text) : Recognition :=
        let (found, memory) :=
          reference definitions skip label after second (pos + t.length) memory
        (found.map fun (d, rest) => (.link label d.target d.title, t.length - rest.length), memory)
      match after with
      | '(' :: inside =>
          match Link.readTarget inside with
          | .complete target title rest =>
              (some (.link label target title, t.length - rest.length), memory)
          | .missing => (none, memory)
          | .broken rest => refer rest.tail
      | _ => refer after

def readImage (definitions : List Link.Definition) (skip : Skipper) (pos : Nat) (t : Text)
    (memory : Memory) : Recognition :=
  match t with
  | '!' :: '[' :: inside =>
      match readLabel? skip false (pos + 2) inside memory with
      | (none, memory) => (none, memory)
      | (some (label, after), memory) =>
          match after with
          | '(' :: inside =>
              match Link.readTarget inside with
              | .complete target title rest =>
                  (some (.image label target title, t.length - rest.length), memory)
              | _ => (none, memory)
          | _ =>
              let (found, memory) :=
                reference definitions skip label after after (pos + t.length) memory
              (found.map fun (d, rest) =>
                (.image label d.target d.title, t.length - rest.length), memory)
  | _ => (none, memory)

/-! ## Other constructs -/

def readEscape? (t : Text) : Option (Construct × Nat) :=
  match t.tail with
  | [] => none
  | '\n' :: rest => some (.hardBreak, 2 + (rest.takeWhile isSpaceOrTab).length)
  | c :: _ =>
      some (.literal (if Punctuation.isAsciiPunctuation c then [c] else ['\\', c]), 2)

def readAngle? (t : Text) : Option (Construct × Nat) :=
  match Autolink.read? t.tail with
  | some (target, shown, rest) => some (.address target shown, t.length - rest.length)
  | none =>
      if t.length < 3 then none
      else (RawHtml.after? t).map fun rest =>
        (.html (t.take (t.length - rest.length)), t.length - rest.length)

def readEntity? (t : Text) : Option (Construct × Nat) :=
  (Reference.inText? t.tail).map fun (value, rest) => (.literal value, t.length - rest.length)

def readCode (pos : Nat) (t : Text) (memory : Memory) : Recognition :=
  let (found, seen) := CodeSpan.read? memory.seen pos t
  let memory := { memory with seen }
  let marks := t.takeWhile CodeSpan.isMark
  match found with
  | some (content, length) => (some (.code content, length), memory)
  | none => (some (.text marks, marks.length), memory)

def read (definitions : List Link.Definition) (skip : Skipper) (pos : Nat) (t : Text)
    (memory : Memory) : Recognition :=
  match t with
  | [] => (none, memory)
  | c :: rest =>
      if !interruptsText c then
        let run := t.takeWhile fun c => !interruptsText c
        (some (.text run, run.length), memory)
      else if c = '\n' then
        (some (.lineBreak, 1 + (rest.takeWhile isSpaceOrTab).length), memory)
      else if c = '\\' then (readEscape? t, memory)
      else if CodeSpan.isMark c then readCode pos t memory
      else if c = '[' then readLink definitions skip pos t memory
      else if c = '!' then readImage definitions skip pos t memory
      else if c = '<' then (readAngle? t, memory)
      else if c = '&' then (readEntity? t, memory)
      else (none, memory)

def maxDepth : Nat := 20

/-- Skips the construct at a place, or one character.  Below the deepest level all
of the text is skipped. -/
def skip (definitions : List Link.Definition) : Nat → Skipper
  | depth, pos, t, memory =>
      match memory.skip? pos with
      | some next => (next, memory)
      | none =>
          match depth with
          | 0 =>
              let next := pos + t.length + 1
              (next, memory.remember pos next)
          | depth + 1 =>
              let (found, memory) := read definitions (skip definitions depth) pos t memory
              let next := match found with
                | some (_, length) => pos + length
                | none => pos + 1
              (next, memory.remember pos next)

end Construct

/-! ## Whole texts -/

namespace Inline

abbrev Pending := Text

def flush (pending : Pending) (rest : List Piece) : List Piece :=
  if pending.isEmpty then rest else .inline (.text pending.reverse) :: rest

def endLine (pending : Pending) (rest : List Piece) : List Piece :=
  let kept := pending.dropWhile (· == ' ')
  if kept.length + 2 ≤ pending.length then flush kept (.inline .hardBreak :: rest)
  else flush kept (.inline .softBreak :: rest)

/-- Reads the pieces of a text.  `before` is the character before it, and `depth`
the levels that are left for links inside links. -/
def readPieces (definitions : List Link.Definition) :
    Nat → Nat → Nat → Char → Text → Pending → Memory → List Piece × Memory
  | 0, _, _, _, _, pending, memory => (flush pending [], memory)
  | _, _, _, _, [], pending, memory => (flush pending [], memory)
  | fuel + 1, depth, pos, before, c :: t, pending, memory =>
      let go (length : Nat) (pending : Pending) (memory : Memory) : List Piece × Memory :=
        readPieces definitions fuel depth (pos + length) (((c :: t).take length).getLastD before)
          ((c :: t).drop length) pending memory
      let place (length : Nat) (i : Inline) (memory : Memory) : List Piece × Memory :=
        let (rest, memory) := go length [] memory
        (flush pending (.inline i :: rest), memory)
      if c = '*' ∨ c = '_' then
        let length := ((c :: t).takeWhile (· == c)).length
        let mark := Mark.ofRun c length before (((c :: t).drop length).headD ' ')
        let (rest, memory) := go length [] memory
        (flush pending (List.replicate length (.mark mark) ++ rest), memory)
      else
        match Construct.read definitions (Construct.skip definitions depth) pos (c :: t) memory with
        | (none, memory) => go 1 (c :: pending) memory
        | (some (.text run, length), memory) => go length (run.reverse ++ pending) memory
        | (some (.lineBreak, length), memory) =>
            let (rest, memory) := go length [] memory
            (endLine pending rest, memory)
        | (some (.hardBreak, length), memory) => place length .hardBreak memory
        | (some (.literal t, length), memory) => place length (.text t) memory
        | (some (.code t, length), memory) => place length (.code t) memory
        | (some (.html t, length), memory) => place length (.html t) memory
        | (some (.address target shown, length), memory) =>
            place length (.link target [] [.text shown]) memory
        | (some (.link label target title, length), memory) =>
            let (inside, memory) :=
              readPieces definitions fuel (depth - 1) (pos + 1) '[' label [] memory
            place length (.link target title (Piece.resolve inside)) memory
        | (some (.image label source title, length), memory) =>
            let (inside, _) :=
              readPieces definitions fuel Construct.maxDepth 0 ' ' label [] Memory.empty
            place length (.image source title (Piece.resolve inside)) memory

def read (definitions : List Link.Definition) (t : Text) : List Inline :=
  Piece.resolve
    (readPieces definitions (t.length + 1) Construct.maxDepth 0 ' ' t [] Memory.empty).1

def renderText (definitions : List Link.Definition) (t : Text) : Text :=
  renderAll (read definitions t)

end Inline

end Proofreader.Markdown
