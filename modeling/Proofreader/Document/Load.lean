import Proofreader.Document.Builder
import Proofreader.Markdown.Block.Reader
import Proofreader.Markdown.Inline.Reader
import Proofreader.Value

/-!
# Loading documents

A document is loaded from its Markdown source.  What cannot be loaded is refused
with the path of the document and a reason.
-/

namespace Proofreader

structure LoadError where
  path : Path
  reason : Text
  deriving DecidableEq, Repr

namespace LoadError

def message (e : LoadError) : Text :=
  "Could not load ".toList ++ e.path.text ++ ": ".toList ++ e.reason

/-- A failure of the parser is reported by its message, or by its kind if it has
none. -/
def ofFailure (path : Path) (kind message : Text) : LoadError :=
  ⟨path, if message.isEmpty then kind else message⟩

def notText (path : Path) (v : Value) : LoadError :=
  ⟨path, "expected text, got ".toList ++ v.typeName⟩

end LoadError

namespace Document

/-- The reason given when the source ends inside a table in a way that the parser
does not foresee. -/
def endOfSource : Text := "string index out of range"

def notOpen : Text := "pop from empty list"

def load (path : Path) (source : Text) : Except LoadError DocumentTree :=
  let blocks := Markdown.readSource source
  if blocks.isFaulty then .error ⟨path, endOfSource⟩
  else
    match DocumentTree.ofEvents? path (Markdown.Inline.renderText blocks.definitions) blocks.events with
    | some tree => .ok tree
    | none => .error ⟨path, notOpen⟩

def loadValue (path : Path) : Value → Except LoadError DocumentTree
  | .text source => load path source
  | v => .error (.notText path v)

end Document

end Proofreader
