import Proofreader.Match

/-!
# Checking tools

A tool is asked about texts and answers with matches, or fails.  What it answers
may depend on what it was asked before.  The tool keeps the history of its calls.
-/

namespace Proofreader

/-- What goes wrong in a tool, or in what builds it, has a kind and a message of its own. -/
structure Failure where
  kind : Text
  message : Text
  deriving DecidableEq, Repr

def Failure.reason (f : Failure) : Text := if f.message.isEmpty then f.kind else f.message

inductive Response where
  | answers (as : List Answer)
  | fails (f : Failure)

inductive ToolCall where
  | check (t : Text)
  | close
  deriving DecidableEq, Repr

def ToolCall.text? : ToolCall → Option Text
  | .check t => some t
  | .close => none

structure ToolOptions where
  newSpellings : Option (List Text)
  config : Option (List (Text × Value))
  remoteServer : Option Text

def ToolOptions.none : ToolOptions := ⟨.none, .none, .none⟩

structure Tool where
  language : Option Text
  options : ToolOptions
  /-- The answer to a text, given the texts that were checked before. -/
  respond : List Text → Text → Response
  isCloseable : Bool
  disabledRules : List Text
  enabledCategories : List Text
  /-- Rules other than the enabled ones are off. -/
  isRestricted : Bool
  /-- All calls, the first one first. -/
  history : List ToolCall

namespace Tool

def checked (t : Tool) : List Text := t.history.filterMap ToolCall.text?

def closed (t : Tool) : Nat := t.history.count .close

def check (t : Tool) (text : Text) : Response × Tool :=
  (t.respond t.checked text, { t with history := t.history ++ [.check text] })

def close (t : Tool) : Tool :=
  if t.isCloseable then { t with history := t.history ++ [.close] } else t

end Tool

end Proofreader
