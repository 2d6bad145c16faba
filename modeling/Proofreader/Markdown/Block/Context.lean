import Proofreader.Markdown.Event
import Proofreader.Markdown.Line
import Proofreader.Markdown.Link

/-!
# Where blocks are read

Blocks are read from a range of lines inside the containers that are open there.
The context keeps what the open containers require of a line.
-/

namespace Proofreader.Markdown

structure Context where
  lines : List Line
  /-- Paragraphs end at this line at the latest. -/
  limit : Nat
  /-- The column at which the content of the innermost container begins. -/
  indent : Nat
  /-- The column at which the innermost list began, if there is one. -/
  listIndent : Option Nat
  /-- How many containers are open, a list and its item counting as two. -/
  level : Nat
  deriving DecidableEq, Repr

namespace Context

def maxLevel : Nat := 20

def line (ctx : Context) (i : Nat) : Line := ctx.lines.getD i Line.none

def content (ctx : Context) (i : Nat) : Text := (ctx.line i).content

def isEmpty (ctx : Context) (i : Nat) : Bool := (ctx.line i).isEmpty

def column (ctx : Context) (i : Nat) : Int := (ctx.line i).column

def isCode (ctx : Context) (i : Nat) : Bool := ctx.indent + 4 ≤ ctx.column i

def isOutside (ctx : Context) (i : Nat) : Bool := ctx.column i < ctx.indent

/-- A line that belongs to a paragraph of a quote without the mark of the quote. -/
def isLazy (ctx : Context) (i : Nat) : Bool := ctx.column i < 0

def skipEmptyLines (ctx : Context) : Nat → Nat → Nat
  | 0, i => i
  | n + 1, i => if ctx.isEmpty i then skipEmptyLines ctx n (i + 1) else i

def nextContent (ctx : Context) (i : Nat) : Nat := ctx.skipEmptyLines (ctx.limit - i) i

def cutLines (ctx : Context) (first stop : Nat) : List Text :=
  (List.range' first (stop - first)).map fun i => (ctx.line i).cut ctx.indent

def text (ctx : Context) (first stop : Nat) : Text := Text.joinWith ['\n'] (ctx.cutLines first stop)

end Context

structure Passage where
  events : List Event
  definitions : List Link.Definition
  next : Nat
  /-- Some table ran into the empty end of the source. -/
  isFaulty : Bool
  deriving DecidableEq, Repr

namespace Passage

def nothing (next : Nat) : Passage := ⟨[], [], next, false⟩

def ofEvents (events : List Event) (next : Nat) : Passage := ⟨events, [], next, false⟩

def append (a b : Passage) : Passage :=
  ⟨a.events ++ b.events, a.definitions ++ b.definitions, b.next, a.isFaulty || b.isFaulty⟩

def wrap (a : Passage) (c : Container) (first stop : Nat) (attributes : Attributes) : Passage :=
  { a with events := Event.wrap c first stop attributes a.events }

end Passage

end Proofreader.Markdown
