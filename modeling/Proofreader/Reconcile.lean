import Proofreader.Issue

/-!
# From matches to issues

Matches of rules that the enclosing blocks switch off are dropped wherever they
are; a match inside an exempt region is dropped if the region is exempt from its
rule.  The matches that remain become issues, in their order.
-/

namespace Proofreader

/-! ## Highlighting -/

/-- Puts two asterisks on either side of the span; an empty span takes in the
character after it. -/
def highlight (t : Text) (start stop : Int) : Text :=
  if t.isEmpty then []
  else
    let start := min t.length start.toNat
    let stop := max start (min t.length stop.toNat)
    let stop := if stop = start then min t.length (start + 1) else stop
    t.take start ++ ['*', '*'] ++ t.slice start stop ++ ['*', '*'] ++ t.drop stop

/-! ## Exemptions -/

/-- An empty span lies in a stretch that holds its offset; another one meets it
if they share a character. -/
def RuleMatch.meets (m : RuleMatch) (start stop : Int) : Bool :=
  if m.start = m.stop then start ≤ m.start && m.start < stop
  else m.start < stop && start < m.stop

def RuleMatch.isExempt (m : RuleMatch) (regions : List Region) (marker : Text) : Bool :=
  regions.any fun r => r.exempts m.ruleId marker && m.meets r.start r.stop

/-! ## Issues -/

def Issue.ofMatch (l : Location) (m : RuleMatch) : Except BlankId Issue :=
  if m.ruleId.trim.isEmpty then .error ⟨m.ruleId⟩
  else
    .ok
      { location := l
        ruleId := m.ruleId.trim
        message := m.message
        issueType := m.issueType
        category := m.category
        offendingText := m.spanText l.text
        suggestions := m.suggestions
        context := highlight l.text m.start m.stop }

def defaultMarker : Text := "ignore"

def surviving (suppressed : List Text) (regions : List Region) (marker : Text)
    (ms : List RuleMatch) : List RuleMatch :=
  ms.filter fun m => !(suppressed.contains m.ruleId || m.isExempt regions marker)

def reconcile (l : Location) (suppressed : List Text) (regions : List Region) (marker : Text)
    (ms : List RuleMatch) : Except BlankId (List Issue) :=
  (surviving suppressed regions marker ms).mapM (Issue.ofMatch l)

end Proofreader
