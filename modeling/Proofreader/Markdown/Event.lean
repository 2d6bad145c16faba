import Proofreader.Text.Basic

/-!
# Block events

The block structure of a document is a flat stream of events.  Containers are
opened and closed; headings, paragraphs and table cells carry their inline source,
and blocks of raw HTML their content.  An event that opens a block names the lines
the block was read from and the attributes that an attribute line gave it.
-/

namespace Proofreader.Markdown

/-- The lines from `first` up to, but not including, `stop`, counted from zero. -/
structure LineSpan where
  first : Nat
  stop : Nat
  deriving DecidableEq, Repr

inductive Container where
  | bulletList
  | orderedList
  | item
  | quote
  | table
  | tableHead
  | tableBody
  | row
  deriving DecidableEq, Repr

inductive EventKind where
  | enter (c : Container)
  | leave (c : Container)
  | heading (level : Nat) (source : Text)
  | paragraph (source : Text)
  | cell (source : Text)
  | html (content : Text)
  /-- A block that holds no prose: code or a thematic break. -/
  | literal
  /-- A line of attributes for the event that follows. -/
  | attributeLine
  deriving DecidableEq, Repr

abbrev Attributes := List (Text × Text)

namespace Attributes

def get? (a : Attributes) (name : Text) : Option Text := (a.find? (·.1 == name)).map (·.2)

def set : Attributes → Text → Text → Attributes
  | [], name, value => [(name, value)]
  | (n, v) :: rest, name, value =>
      if n = name then (n, value) :: rest else (n, v) :: set rest name value

def override (a b : Attributes) : Attributes := b.foldl (fun a (n, v) => a.set n v) a

def fill (a b : Attributes) : Attributes :=
  b.foldl (fun a (n, v) => if (a.get? n).isSome then a else a.set n v) a

end Attributes

structure Event where
  kind : EventKind
  span : Option LineSpan
  attributes : Attributes
  deriving DecidableEq, Repr

namespace Event

def block (kind : EventKind) (first stop : Nat) : Event := ⟨kind, some ⟨first, stop⟩, []⟩

def wrap (c : Container) (first stop : Nat) (attributes : Attributes) (inside : List Event) :
    List Event :=
  ⟨.enter c, some ⟨first, stop⟩, attributes⟩ :: inside ++ [⟨.leave c, none, []⟩]

/-! ## Attribute lines -/

def classAttribute : Text := "class"

def joinClasses (line next : Attributes) : Attributes :=
  match line.get? classAttribute, next.get? classAttribute with
  | some a, some b => line.set classAttribute (a ++ ' ' :: b)
  | _, _ => line

def mergeLines (line next : Attributes) : Attributes :=
  (joinClasses line next).foldl
    (fun acc (n, v) =>
      if n = classAttribute ∨ (next.get? n).isNone then Attributes.set acc n v else acc) next

def applyAttributeLines : Option Attributes → List Event → List Event
  | _, [] => []
  | none, e :: rest =>
      if e.kind = .attributeLine then applyAttributeLines (some e.attributes) rest
      else e :: applyAttributeLines none rest
  | some line, e :: rest =>
      if e.kind = .attributeLine then
        applyAttributeLines (some (mergeLines line e.attributes)) rest
      else
        { e with attributes := Attributes.override e.attributes (joinClasses line e.attributes) } ::
          applyAttributeLines none rest

end Event

end Proofreader.Markdown
