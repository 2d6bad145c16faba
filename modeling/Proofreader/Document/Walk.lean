import Proofreader.Document.Tree
import Proofreader.Location

/-!
# The lines of a document

A document is checked line by line.  Walking it gives, for every node with a text
of its own, one location per line of that text and the rules that are switched off
there.  A block switches rules off for itself and for everything below it by naming
them in an attribute, and nothing below can switch a rule on again.
-/

namespace Proofreader

/-! ## Rules that are off -/

def suppressionAttribute : Text := "ignore"

def Node.declaredRules (n : Node) (key : Text) : List Text :=
  Text.words ((n.attributes.get? key).getD [])

namespace DocumentTree

def declaredRules (t : DocumentTree) (key : Text) (i : Nat) : List Text :=
  ((t.node? i).map (·.declaredRules key)).getD []

/-- The rules that a node or one of its ancestors names. -/
def ignoredRules (t : DocumentTree) (key : Text) (i : Nat) : List Text :=
  (i :: t.ancestors i).flatMap (t.declaredRules key)

end DocumentTree

/-! ## Lines -/

structure ProseLine where
  location : Location
  ignored : List Text
  deriving DecidableEq, Repr

inductive WalkError where
  | noRoot
  | position (e : PositionError)
  deriving DecidableEq, Repr

namespace DocumentTree

/-- The lines of one node; a node without a text has none. -/
def nodeLines (t : DocumentTree) (key : Text) (i : Nat) : Except PositionError (List ProseLine) :=
  match t.node? i with
  | none => .ok []
  | some n =>
      match n.ownText with
      | none | some [] => .ok []
      | some text =>
          (Location.at? text n.line t.path).map fun l =>
            l.splitLines.map fun l => ⟨l, t.ignoredRules key i⟩

def walk (t : DocumentTree) (key : Text) : Except WalkError (List ProseLine) :=
  if t.nodes.isEmpty then .error .noRoot
  else
    match t.preorder.mapM (t.nodeLines key) with
    | .ok lines => .ok lines.flatten
    | .error e => .error (.position e)

end DocumentTree

end Proofreader
