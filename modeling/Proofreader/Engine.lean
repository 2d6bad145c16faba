import Proofreader.Issue
import Proofreader.Terms
import Proofreader.Tool.Basic

/-!
# Engines

An engine asks a tool and keeps the state of a session: the terms to ignore, the
rules that are off, and the catalogue of the rules that spoke.  A rule other than
a spelling rule that objects to nothing but ignored terms is switched off for the
rest of the session and leaves the catalogue.
-/

namespace Proofreader

structure Engine where
  tool : Tool
  language : Text
  spellingOnly : Bool
  ignoredTerms : List Text
  disabledRules : List Text
  /-- Descriptors under the rule ids as the tool gives them. -/
  catalog : List (Text × RuleDescriptor)

inductive CheckFailure where
  | tool (f : Failure)
  | answer (e : AnswerFault)
  | ruleId (e : BlankId)
  deriving DecidableEq, Repr

namespace CheckFailure

def maxShown : Nat := 50

def shorten (t : Text) : Text :=
  if t.length ≤ maxShown then t
  else t.take 25 ++ "...".toList ++ t.drop (t.length - 24)

def explanation : Text := "https:".toList ++ "//errors.pydantic.dev/2.14/v/value_error".toList

def reason : CheckFailure → Text
  | .tool f => f.reason
  | .answer e => e.message
  | .ruleId e =>
      "1 validation error for RuleDescriptor\nid\n  ".toList ++ (DraftFault.mk "id" .blank).message ++
        " [type=value_error, input_value=".toList ++ shorten (Quoted.quote e.id) ++
        ", input_type=str]\n    For further information visit ".toList ++ explanation

def detail : CheckFailure → Text
  | .tool f => f.message
  | f => f.reason

end CheckFailure

/-- How a check turns out; the engine has changed even if the check failed. -/
structure Checked (α : Type) where
  outcome : Except CheckFailure α
  engine : Engine
  warnings : List OffsetWarning

namespace Engine

def unknownLanguage : Text := "unknown"

def languageFor (given tool : Option Text) : Text :=
  match given, tool with
  | some (c :: t), _ => c :: t
  | _, some (c :: t) => c :: t
  | _, _ => unknownLanguage

def start (tool : Tool) (language : Option Text) (ignoredTerms : List Text) (spellingOnly : Bool) :
    Engine :=
  { tool, spellingOnly, ignoredTerms
    language := languageFor language tool.language
    disabledRules := tool.disabledRules
    catalog := [] }

def addIgnoredTerms (e : Engine) (terms : List Text) : Engine :=
  { e with ignoredTerms := e.ignoredTerms ++ Terms.trimAll terms }

def isDisabled (e : Engine) (ruleId : Text) : Bool := e.disabledRules.contains ruleId

def disableRule (e : Engine) (ruleId : Text) : Engine :=
  if e.isDisabled ruleId then e
  else
    let disabledRules := e.disabledRules ++ [ruleId]
    { e with
      disabledRules
      catalog := e.catalog.filter fun (id, _) => id ≠ ruleId
      tool := { e.tool with disabledRules } }

def record (e : Engine) (m : RuleMatch) : Except BlankId Engine :=
  if e.catalog.any (·.1 == m.ruleId) then .ok e
  else (RuleDescriptor.ofMatch m).map fun d => { e with catalog := e.catalog ++ [(m.ruleId, d)] }

def isAboutTerms (e : Engine) (text : Text) (m : RuleMatch) : Bool :=
  Terms.coverAll e.ignoredTerms (m.spanText text)

def consider (e : Engine) (text : Text) (m : RuleMatch) : Except BlankId (Engine × Bool) :=
  if e.isDisabled m.ruleId then .ok (e, false)
  else if e.spellingOnly && !m.isSpelling then .ok (e, false)
  else if e.isAboutTerms text m then
    .ok (if m.isSpelling then e else e.disableRule m.ruleId, false)
  else (e.record m).map fun e => (e, true)

def keepIf (keeps : Bool) (m : RuleMatch) (c : Checked (List RuleMatch)) : Checked (List RuleMatch) :=
  if keeps then { c with outcome := c.outcome.map (m :: ·) } else c

def warnBefore (ws : List OffsetWarning) (c : Checked (List RuleMatch)) : Checked (List RuleMatch) :=
  { c with warnings := ws ++ c.warnings }

/-- Takes the answers of a tool in, one after the other.  The first that cannot be
taken in ends the check. -/
def considerAll (text : Text) : Engine → List Answer → Checked (List RuleMatch)
  | e, [] => ⟨.ok [], e, []⟩
  | e, a :: as =>
      match RuleMatch.ofAnswer a with
      | .error f => ⟨.error (.answer f), e, a.warnings⟩
      | .ok m =>
          match e.consider text m with
          | .error f => ⟨.error (.ruleId f), e, a.warnings⟩
          | .ok (e, keeps) => warnBefore a.warnings (keepIf keeps m (considerAll text e as))

def check (e : Engine) (text : Text) : Checked (List RuleMatch) :=
  let (response, tool) := e.tool.check text
  let e := { e with tool }
  match response with
  | .fails f => ⟨.error (.tool f), e, []⟩
  | .answers as => considerAll text e as

def acceptsWord (e : Engine) (word : Text) : Checked Bool :=
  if word.isAllBlank then ⟨.ok true, e, []⟩
  else
    let c := e.check word
    { outcome := c.outcome.map fun ms => !ms.any (·.isSpelling)
      engine := c.engine
      warnings := c.warnings }

def activeRules (e : Engine) : List RuleDescriptor :=
  (e.catalog.filter fun (id, _) => !e.isDisabled id).map (·.2)

def close (e : Engine) : Engine := { e with tool := e.tool.close }

end Engine

end Proofreader
