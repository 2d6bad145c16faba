import Proofreader.Fragment.Markup

/-!
# Fragments as trees

A fragment is a sequence of strings and elements, and an element holds a
fragment of its own.  Strings inside scripts, styles, templates and ruby
annotations are not part of the running text and are left out.  An end tag
closes the innermost open element of its name together with everything inside
it; an end tag without such an element is ignored.
-/

namespace Proofreader

inductive Fragment where
  | nil
  | text (t : Text) (rest : Fragment)
  | element (classes : List Text) (inside rest : Fragment)
  deriving DecidableEq, Repr

namespace Fragment

def append : Fragment → Fragment → Fragment
  | nil, f => f
  | text t rest, f => text t (rest.append f)
  | element classes inside rest, f => element classes inside (rest.append f)

def plain : Fragment → Text
  | nil => []
  | text t rest => t ++ rest.plain
  | element _ inside rest => inside.plain ++ rest.plain

/-! ## Building -/

structure Frame where
  name : Text
  classes : List Text
  inside : Fragment
  deriving DecidableEq, Repr

/-- The open elements, innermost first; what stands outside of all of them; and
the elements without content that have been closed already, whose end tags are
to be passed over once each. -/
structure Builder where
  frames : List Frame
  outside : Fragment
  closedEarly : List Text
  deriving DecidableEq, Repr

namespace Builder

def empty : Builder := ⟨[], .nil, []⟩

def add (b : Builder) (f : Fragment) : Builder :=
  match b.frames with
  | [] => { b with outside := b.outside.append f }
  | frame :: frames => { b with frames := { frame with inside := frame.inside.append f } :: frames }

def closeInnermost (b : Builder) : Builder :=
  match b.frames with
  | [] => b
  | frame :: frames => { b with frames }.add (.element frame.classes frame.inside .nil)

def closeFrames : Nat → Builder → Builder
  | 0, b => b
  | n + 1, b => closeFrames n b.closeInnermost

def closeNamed (b : Builder) (name : Text) : Builder :=
  match b.frames.findIdx? (·.name == name) with
  | some n => closeFrames (n + 1) b
  | none => b

def endTag (b : Builder) (name : Text) : Builder :=
  if b.closedEarly.contains name then { b with closedEarly := b.closedEarly.erase name }
  else b.closeNamed name

end Builder

def emptyElements : List Text :=
  ["area", "base", "br", "col", "embed", "hr", "img", "input", "keygen", "link", "menuitem",
    "meta", "param", "source", "track", "wbr", "basefont", "bgsound", "command", "frame", "image",
    "isindex", "nextid", "spacer"]

/-- The elements that show an empty section as it is; elsewhere it shows a blank. -/
def blankKeepers : List Text := ["pre", "textarea"]

def silentElements : List Text := ["rt", "rp", "style", "script", "template"]

def Builder.isSilent (b : Builder) : Bool :=
  b.frames.any fun frame => silentElements.contains frame.name

def Builder.keepsBlanks (b : Builder) : Bool :=
  b.frames.any fun frame => blankKeepers.contains frame.name

def sectionText (keepsBlanks : Bool) (content : Text) : Text :=
  if content.isEmpty && !keepsBlanks then [' '] else content

def Builder.take (b : Builder) : Piece → Builder
  | .text t => if b.isSilent then b else b.add (.text t .nil)
  | .verbatim t => b.add (.text (sectionText b.keepsBlanks t) .nil)
  | .opening name classes selfClosing =>
      let opened := { b with frames := ⟨name, classes, .nil⟩ :: b.frames }
      if selfClosing then opened.endTag name
      else if emptyElements.contains name then
        let closed := opened.closeNamed name
        { closed with closedEarly := closed.closedEarly ++ [name] }
      else opened
  | .closing name => b.endTag name

def Builder.finish (b : Builder) : Fragment := (closeFrames b.frames.length b).outside

def ofPieces (ps : List Piece) : Fragment := (ps.foldl Builder.take .empty).finish

def read (t : Text) : Except Fault Fragment := (pieces t).map ofPieces

def strip (t : Text) : Except Fault Text := (read t).map fun f => f.plain.squeeze

end Fragment

end Proofreader
