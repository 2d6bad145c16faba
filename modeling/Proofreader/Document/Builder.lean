import Proofreader.Document.Tree
import Proofreader.Markdown.Event

/-!
# From events to a tree

The events of a document are folded into a tree.  A heading outside all containers
opens a section, which ends before the next such heading of the same or a smaller
level; a heading inside a container only stands there.  The paragraph that a list
item begins with becomes the text of the item.
-/

namespace Proofreader

open Markdown

structure OpenSection where
  level : Nat
  node : Nat
  deriving DecidableEq, Repr

structure TreeBuilder where
  tree : DocumentTree
  /-- The innermost node that is open. -/
  top : Nat
  /-- The open containers around it, the innermost first, and last the section
  outside them. -/
  below : List Nat
  /-- The open sections, the innermost first; the document is the last one. -/
  sections : List OpenSection
  deriving DecidableEq, Repr

namespace TreeBuilder

def start (path : Path) : TreeBuilder :=
  ⟨(DocumentTree.empty path).add (Node.bare .document 1 none), 0, [], [⟨0, 0⟩]⟩

/-- The line of an event; one without a span stands on the line of the innermost
open node. -/
def lineOf (b : TreeBuilder) (e : Event) : Int :=
  match e.span with
  | some s => s.first + 1
  | none => ((b.tree.node? b.top).map (·.line)).getD 1

def addLeaf (b : TreeBuilder) (n : Node) : TreeBuilder :=
  { b with tree := b.tree.add { n with parent := some b.top } }

def enter (b : TreeBuilder) (n : Node) : TreeBuilder :=
  { b.addLeaf n with top := b.tree.size, below := b.top :: b.below }

def leave? (b : TreeBuilder) : Option TreeBuilder :=
  match b.below with
  | [] => none
  | i :: below => some { b with top := i, below }

def closeSections (level : Nat) : List OpenSection → List OpenSection
  | [] => []
  | s :: rest => if level ≤ s.level then closeSections level rest else s :: rest

def addHeading (b : TreeBuilder) (level : Nat) (n : Node) : TreeBuilder :=
  if b.below.isEmpty then
    let sections := closeSections level b.sections
    let parent := (sections.head?.map (·.node)).getD 0
    { tree := b.tree.add { n with parent := some parent }
      top := b.tree.size
      below := []
      sections := ⟨level, b.tree.size⟩ :: sections }
  else b.addLeaf n

def takesParagraph (n : Node) : Bool :=
  n.kind = .listItem && n.text.isNone && n.children.isEmpty

def addParagraph (b : TreeBuilder) (text : Text) (attributes : Attributes) (n : Node) : TreeBuilder :=
  if (b.tree.node? b.top).any takesParagraph then
    { b with
      tree := b.tree.modify b.top fun m =>
        { m with text := some text, attributes := m.attributes.fill attributes } }
  else b.addLeaf { n with content := some text, attributes }

def dropBreaks (t : Text) : Text := (t.reverse.dropWhile fun c => c = '\n' || c = '\r').reverse

/-- One event; `render` gives the text of an inline source. -/
def step (render : Text → Text) (b : TreeBuilder) (e : Event) : Option TreeBuilder :=
  let line := b.lineOf e
  let node (kind : NodeKind) : Node := Node.bare kind line none
  match e.kind with
  | .enter .item => some (b.enter { node .listItem with attributes := e.attributes })
  | .enter _ => some (b.enter { node .container with attributes := e.attributes })
  | .leave _ => b.leave?
  | .heading level source =>
      some (b.addHeading level
        { node .sect with title := some (render source), attributes := e.attributes })
  | .paragraph source => some (b.addParagraph (render source) e.attributes (node .content))
  | .cell source =>
      some (b.addLeaf
        { node .content with content := some (render source), attributes := e.attributes })
  | .html content =>
      some (b.addLeaf
        { node .content with content := some (dropBreaks content), attributes := e.attributes })
  | .literal => some (b.addLeaf (node .literal))
  | .attributeLine => some b

def run (render : Text → Text) (b : TreeBuilder) (events : List Event) : Option TreeBuilder :=
  events.foldlM (step render) b

end TreeBuilder

def DocumentTree.ofEvents? (path : Path) (render : Text → Text) (events : List Markdown.Event) :
    Option DocumentTree :=
  (TreeBuilder.run render (TreeBuilder.start path) events).map (·.tree)

end Proofreader
