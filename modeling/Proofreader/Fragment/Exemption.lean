import Proofreader.Fragment.Basic
import Proofreader.Fragment.Selector
import Proofreader.Location

/-!
# Exempt regions of a line

An element that carries the marker class exempts its text from the rules that
its other classes name.  The region it gives rise to says where the text of the
element stands in the squeezed text of the whole fragment, so that a marked word
is never taken for an unmarked copy of it.
-/

namespace Proofreader

namespace Fragment

structure Marked where
  classes : List Text
  text : Text
  start : Nat
  deriving DecidableEq, Repr

/-- The elements that a selector selects, in document order; `start` is where
the fragment begins in the running text. -/
def marked (s : Selector) : Nat → Fragment → List Marked
  | _, nil => []
  | start, text t rest => marked s (start + t.length) rest
  | start, element classes inside rest =>
      let here := if s.selects classes then [⟨classes, inside.plain, start⟩] else []
      here ++ marked s start inside ++ marked s (start + inside.plain.length) rest

end Fragment

/-- Where the character at `position`, which is not blank, stands in the
squeezed text. -/
def Text.squeezedPosition (t : Text) (position : Nat) : Nat :=
  let before := t.take position
  let squeezed := squeeze before
  if !squeezed.isEmpty && before.getLast?.any isBlank then squeezed.length + 1
  else squeezed.length

def Fragment.Marked.region? (m : Marked) (plain : Text) : Option Region :=
  let covered := m.text.squeeze
  if covered.isEmpty then none
  else
    let leading := (m.text.takeWhile Text.isBlank).length
    some ⟨m.classes, covered, plain.squeezedPosition (m.start + leading)⟩

structure Stripped where
  text : Text
  regions : List Region
  deriving DecidableEq, Repr

inductive StripError where
  | fragment (f : Fragment.Fault)
  | selector
  deriving DecidableEq, Repr

def Fragment.exemptions (f : Fragment) (s : Selector) : Stripped :=
  ⟨f.plain.squeeze, (f.marked s 0).filterMap fun m => m.region? f.plain⟩

/-- Strips a line; the marker is written behind a dot to form the selector. -/
def stripMarkup (raw marker : Text) : Except StripError Stripped :=
  match Fragment.read raw with
  | .error e => .error (.fragment e)
  | .ok f =>
      match Selector.read ('.' :: marker) with
      | .error _ => .error .selector
      | .ok s => .ok (f.exemptions s)

end Proofreader
