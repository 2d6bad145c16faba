import Proofreader.Report.Basic

/-!
# The Markdown report

The report opens with totals and then shows the issues of each document as a table.
A pipe in a cell is escaped, since it would otherwise end the cell.
-/

namespace Proofreader.Report

/-! ## Totals -/

def ruleIds (rs : List DocumentReport) : List Text := rs.flatMap fun r => r.issues.map (·.ruleId)

/-- Rules with the number of their issues: the most frequent ones first, equally
frequent ones by id. -/
def ruleTotals (rs : List DocumentReport) : List (Text × Nat) :=
  let ids := ruleIds rs
  sortBy (fun a b => b.2 ≤ a.2) ((Text.sortedSet ids).map fun id => (id, ids.count id))

def code (t : Text) : Text := '\x60' :: t ++ ['\x60']

def ruleTotalLine (total : Text × Nat) : Text :=
  "- ".toList ++ code total.1 ++ ": ".toList ++ Numeral.ofNat total.2 ++ " issue(s)".toList

def ruleTotalLines (rs : List DocumentReport) : List Text :=
  match ruleTotals rs with
  | [] => ["- No issues found."]
  | totals => totals.map ruleTotalLine

def summaryLines (rs : List DocumentReport) : List Text :=
  ("# Markup Check Report" : Text) :: [] ::
    ("- Checked ".toList ++ Numeral.ofNat rs.length ++ " document(s)".toList) ::
    ("- Total issues found: ".toList ++ Numeral.ofNat (totalIssues rs)) :: [] ::
    ("## Totals by Rule" : Text) ::
    ruleTotalLines rs ++ [[], "---", [], "## Document Details"]

/-! ## Tables -/

def escapePipes (t : Text) : Text := Text.replaceChar '|' ['\\', '|'] t

def filledCell (t : Text) : Text := if t.isEmpty then dash else escapePipes t

def cells (i : Issue) : List Text :=
  [Numeral.ofNat i.line, code i.ruleId, i.issueType, filledCell i.offendingText,
    escapePipes i.message, escapePipes (suggestionsCell i), filledCell i.context]

def tableRow (cells : List Text) : Text :=
  ['|', ' '] ++ Text.joinWith [' ', '|', ' '] cells ++ [' ', '|']

def tableHead : List Text :=
  [tableRow ["Line", "Rule", "Type", "Issue", "Message", "Suggestions", "Context"],
    tableRow (List.replicate 7 "---")]

def issueRow (i : Issue) : Text := tableRow (cells i)

/-! ## Documents -/

def documentLines (r : DocumentReport) : List Text :=
  [] :: ("### ".toList ++ r.path.text) :: [] ::
    if r.issues.isEmpty then ["_No issues found._"]
    else
      ("Found ".toList ++ Numeral.ofNat r.issues.length ++ " issue(s).".toList) :: [] ::
        tableHead ++ r.issues.map issueRow

def detailLines (rs : List DocumentReport) : List Text :=
  if rs.isEmpty then [[], "_No documents found for checking._"] else rs.flatMap documentLines

def markdownLines (rs : List DocumentReport) : List Text :=
  let rs := ordered rs
  summaryLines rs ++ detailLines rs

def markdown (rs : List DocumentReport) : Text := Text.joinWith ['\n'] (markdownLines rs)

end Proofreader.Report
