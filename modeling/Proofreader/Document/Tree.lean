import Proofreader.Document.Node
import Proofreader.Path

/-!
# Document trees

The nodes of a document are numbered in the order in which they are added.  A node
knows the number of its parent, and the parent the numbers of its children, in
order.
-/

namespace Proofreader

structure DocumentTree where
  path : Path
  nodes : List Node
  deriving DecidableEq, Repr

namespace DocumentTree

def empty (path : Path) : DocumentTree := ⟨path, []⟩

def size (t : DocumentTree) : Nat := t.nodes.length

def node? (t : DocumentTree) (i : Nat) : Option Node := t.nodes[i]?

def modify (t : DocumentTree) (i : Nat) (f : Node → Node) : DocumentTree :=
  { t with nodes := t.nodes.modify i f }

def add (t : DocumentTree) (n : Node) : DocumentTree :=
  let t' : DocumentTree := match n.parent with
    | some p => t.modify p fun m => { m with children := m.children ++ [t.size] }
    | none => t
  { t' with nodes := t'.nodes ++ [n] }

def parent? (t : DocumentTree) (i : Nat) : Option Nat := (t.node? i).bind (·.parent)

def ancestorsFrom (t : DocumentTree) : Nat → Nat → List Nat
  | 0, _ => []
  | n + 1, i =>
      match t.parent? i with
      | some p => p :: ancestorsFrom t n p
      | none => []

/-- The ancestors of a node, the parent first.  No node has as many ancestors as
there are nodes. -/
def ancestors (t : DocumentTree) (i : Nat) : List Nat := t.ancestorsFrom t.size i

/-- Visits the nodes on a stack, and the children of each before the next one. -/
def visit (t : DocumentTree) : Nat → List Nat → List Nat
  | 0, _ => []
  | _, [] => []
  | n + 1, i :: stack => i :: visit t n (((t.node? i).map (·.children)).getD [] ++ stack)

def preorder (t : DocumentTree) : List Nat := t.visit t.size [0]

end DocumentTree

end Proofreader
