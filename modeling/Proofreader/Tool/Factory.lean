import Proofreader.Settings
import Proofreader.Sorting
import Proofreader.Tool.Basic

/-!
# Building tools

Tools are built by somebody else, who may refuse.  A manager knows the settings of
a session and asks for two kinds of tools: primary ones, which learn the ignored
words, and spelling tools for second opinions.
-/

namespace Proofreader

structure ToolRequest where
  language : Text
  options : ToolOptions

inductive BuildFailure where
  /-- The builder does not know one of the options. -/
  | unknownOption
  | fails (f : Failure)
  deriving DecidableEq, Repr

/-- Builds tools.  What is built may depend on how many requests came before. -/
structure ToolFactory where
  build : Nat → ToolRequest → Except BuildFailure Tool

structure Built where
  outcome : Except BuildFailure Tool
  requests : Nat

structure ToolManager where
  ignoredWords : List Text
  disabledRules : List Text
  baseLanguage : Text
  remoteServer : Option Text
  config : List (Text × Value)

namespace ToolManager

def defaultConfig : List (Text × Value) :=
  [("requestLimitPeriodInSeconds", .int 60), ("maxCheckTimeMillis", .int 120000)]

def keepDifferent : List Text → List (Option Text) → List Text
  | _, [] => []
  | seen, none :: rest => keepDifferent seen rest
  | seen, some word :: rest =>
      let cleaned := word.trim
      if cleaned.isEmpty || seen.contains cleaned then keepDifferent seen rest
      else cleaned :: keepDifferent (cleaned :: seen) rest

def prepareWords (words : List (Option Text)) : List Text :=
  sortBy Text.le (keepDifferent [] words)

def start (ignoredWords : List (Option Text)) (disabledRules : List Text) (baseLanguage : Text)
    (remoteServer : Option Text) (config : Option (List (Text × Value))) : ToolManager :=
  { ignoredWords := prepareWords ignoredWords
    disabledRules, baseLanguage, remoteServer
    config := config.getD defaultConfig }

def ofSettings (s : Settings) : ToolManager :=
  start (s.ignoredWords.map some) s.disabledRules s.language s.remoteServer none

def newSpellings (m : ToolManager) : Option (List Text) :=
  match m.ignoredWords.filter fun w => !w.contains ' ' with
  | [] => none
  | ws => some ws

def options (m : ToolManager) (newSpellings : Option (List Text)) : ToolOptions :=
  { newSpellings
    config := if m.remoteServer.isNone && !m.config.isEmpty then some m.config else none
    remoteServer := m.remoteServer }

/-- Asks for a tool, and once more without the settings of the server if an option
is not known. -/
def request (f : ToolFactory) (requests : Nat) (r : ToolRequest) : Built :=
  match f.build requests r with
  | .error .unknownOption =>
      if r.options.config.isSome then
        ⟨f.build (requests + 1) { r with options := { r.options with config := none } },
          requests + 2⟩
      else ⟨.error .unknownOption, requests + 1⟩
  | outcome => ⟨outcome, requests + 1⟩

def buildTool (m : ToolManager) (f : ToolFactory) (requests : Nat) (language : Option Text) :
    Built :=
  let language := (language.filter fun t => !t.isEmpty).getD m.baseLanguage
  let b := request f requests ⟨language, m.options m.newSpellings⟩
  { b with
    outcome := b.outcome.map fun t =>
      if m.disabledRules.isEmpty then t else { t with disabledRules := m.disabledRules } }

def buildSpellingTool (m : ToolManager) (f : ToolFactory) (requests : Nat) (language : Text) :
    Built :=
  let b := request f requests ⟨language, m.options none⟩
  { b with
    outcome := b.outcome.map fun t =>
      { t with enabledCategories := [spellingCategory], isRestricted := true } }

end ToolManager

end Proofreader
