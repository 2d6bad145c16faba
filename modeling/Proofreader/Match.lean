import Proofreader.Text.Basic
import Proofreader.Value

/-!
# Matches

A match is what a checking tool found in a text: a rule id and the span that
the rule objects to.  `Answer` holds a match as the tool sends it, with loosely
typed attributes, and `RuleMatch.ofAnswer` normalises it.
-/

namespace Proofreader

/-! ## Slices with offsets of either sign -/

namespace Text

/-- An offset below zero counts from the end; what lies outside the text is cut
off at its ends. -/
def clipOffset (length : Nat) (offset : Int) : Nat :=
  if offset < 0 then (length + offset).toNat else min length offset.toNat

def span (t : Text) (start stop : Int) : Text :=
  t.slice (clipOffset t.length start) (clipOffset t.length stop)

end Text

/-! ## Spelling rules -/

def spellingIssueType : Text := "misspelling"

def spellingCategory : Text := "TYPOS"

def spellingFamilies : List Text := ["MORFOLOGIK_RULE", "HUNSPELL_RULE", "SPELLING_RULE"]

def isSpellingRule (ruleId issueType category : Text) : Bool :=
  issueType == spellingIssueType || category == spellingCategory ||
    spellingFamilies.any (Text.startsWith ruleId)

/-! ## Matches as the library uses them -/

structure RuleMatch where
  ruleId : Text
  message : Text
  start : Int
  stop : Int
  suggestions : List Text
  issueType : Text
  category : Text
  deriving DecidableEq, Repr

namespace RuleMatch

def isSpelling (m : RuleMatch) : Bool := isSpellingRule m.ruleId m.issueType m.category

def spanText (m : RuleMatch) (t : Text) : Text := t.span m.start m.stop

end RuleMatch

/-! ## Matches as a tool sends them -/

structure Answer where
  ruleId : Value
  message : Value
  replacements : Value
  offset : Value
  length : Value
  issueType : Value
  category : Value

inductive OffsetWarning where
  | offset (ruleId : Text)
  | length (ruleId : Text)
  deriving DecidableEq, Repr

def OffsetWarning.message : OffsetWarning → Text
  | .offset ruleId => "Invalid offset for rule " ++ ruleId ++ "; defaulting to 0".toList
  | .length ruleId => "Invalid errorLength for rule " ++ ruleId ++ "; defaulting to 0".toList

inductive AnswerFault where
  /-- The replacements are no list but something of another type. -/
  | replacements (typeName : Text)
  | infinite (e : Value.Infinite)
  deriving DecidableEq, Repr

def AnswerFault.message : AnswerFault → Text
  | .replacements typeName => '\'' :: typeName ++ "' object is not iterable".toList
  | .infinite e => e.message

namespace Answer

def filedRuleId (a : Answer) : Text := a.ruleId.textOr "UNKNOWN"

/-- An attribute that cannot be read stops the reading of those behind it. -/
def warnings (a : Answer) : List OffsetWarning :=
  match a.replacements.items?, a.offset.wholeNumber? with
  | some _, .ok offset =>
      (if offset.isNone then [.offset a.filedRuleId] else []) ++
        (match a.length.wholeNumber? with
          | .ok none => [.length a.filedRuleId]
          | _ => [])
  | _, _ => []

/-- What is no number becomes zero, and so do offsets and lengths below zero. -/
def toMatch (a : Answer) (items : List Value) (offset length : Option Int) : RuleMatch :=
  let start := max (offset.getD 0) 0
  { ruleId := a.filedRuleId
    message := a.message.textOr []
    start
    stop := start + max (length.getD 0) 0
    suggestions := items.map Value.asText
    issueType := a.issueType.textOr "unknown"
    category := a.category.textOr [] }

end Answer

def RuleMatch.ofAnswer (a : Answer) : Except AnswerFault RuleMatch :=
  match a.replacements.items? with
  | none => .error (.replacements a.replacements.typeName)
  | some items =>
      match a.offset.wholeNumber?, a.length.wholeNumber? with
      | .error e, _ | _, .error e => .error (.infinite e)
      | .ok offset, .ok length => .ok (a.toMatch items offset length)

theorem RuleMatch.exists_of_ofAnswer {a : Answer} {m : RuleMatch} (h : ofAnswer a = .ok m) :
    ∃ items offset length, m = a.toMatch items offset length := by
  unfold ofAnswer at h
  split at h
  · simp at h
  · split at h
    · simp at h
    · simp at h
    · exact ⟨_, _, _, (Except.ok.inj h).symm⟩

end Proofreader
