import Proofreader.Markdown.Event
import Proofreader.Text.Quoted

/-!
# Nodes of a document

A node is a stretch of a document that may have a text of its own: the title of a
section, the leading paragraph of a list item, or the content of a block.  All
other nodes only group what is below them, or hold no prose.
-/

namespace Proofreader

inductive NodeKind where
  | document
  | sect
  | listItem
  | content
  | container
  | literal
  deriving DecidableEq, Repr

namespace NodeKind

def all : List NodeKind := [.document, .sect, .listItem, .content, .container, .literal]

def name : NodeKind → Text
  | .document => "DOCUMENT"
  | .sect => "SECTION"
  | .listItem => "LIST_ITEM"
  | .content => "CONTENT"
  | .container => "CONTAINER"
  | .literal => "LITERAL"

structure Unknown where
  name : Text
  deriving DecidableEq, Repr

def Unknown.message (e : Unknown) : Text := Quoted.quote e.name ++ " is not a valid NodeKind".toList

def ofName (t : Text) : Except Unknown NodeKind :=
  match all.find? (·.name == t) with
  | some k => .ok k
  | none => .error ⟨t⟩

end NodeKind

structure Node where
  kind : NodeKind
  line : Int
  parent : Option Nat
  children : List Nat
  title : Option Text
  text : Option Text
  content : Option Text
  attributes : Markdown.Attributes
  deriving DecidableEq, Repr

namespace Node

def bare (kind : NodeKind) (line : Int) (parent : Option Nat) : Node :=
  ⟨kind, line, parent, [], none, none, none, []⟩

def ownText (n : Node) : Option Text :=
  match n.kind with
  | .sect => n.title
  | .listItem => n.text
  | .content => n.content
  | .document | .container | .literal => none

end Node

end Proofreader
