import Proofreader.Issue
import Proofreader.Sorting
import Proofreader.Text.CaseMap

/-!
# Reports

A report lists the issues of one document.  Reports are shown in the order of their
paths without regard to case; reports whose paths differ in case alone keep the
order they were made in.
-/

namespace Proofreader

structure DocumentReport where
  path : Path
  issues : List Issue
  deriving DecidableEq, Repr

namespace Report

def sortKey (r : DocumentReport) : Text := CaseMap.lower r.path.text

def ordered (rs : List DocumentReport) : List DocumentReport :=
  sortBy (fun r s => Text.le (sortKey r) (sortKey s)) rs

def totalIssues (rs : List DocumentReport) : Nat := rs.foldl (fun n r => n + r.issues.length) 0

/-! ## Suggestions -/

def dash : Text := ['—']

def suggestionLimit : Int := 3

/-- How many of `count` suggestions a limit lets through; a negative limit counts
from the end. -/
def visibleCount (limit : Int) (count : Nat) : Nat :=
  if limit < 0 then (count + limit).toNat else limit.toNat

def formatSuggestions (limit : Int) (suggestions : List Text) : Text :=
  if suggestions = [] then dash
  else if suggestions.length ≤ limit then Text.joinWith [',', ' '] suggestions
  else
    Text.joinWith [',', ' '] (suggestions.take (visibleCount limit suggestions.length)) ++
      " (+".toList ++ Numeral.ofInt (suggestions.length - limit) ++ " more)".toList

def suggestionsCell (i : Issue) : Text := formatSuggestions suggestionLimit i.suggestions

end Report

end Proofreader
