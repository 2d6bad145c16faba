import Proofreader.Disk
import Proofreader.Report.Markdown

/-!
# Filing reports

The Markdown report is written to a path, after the directories on the way to it were
made, and then the CSV report is written beside it under the same stem.  The CSV report
has a header and one row for each issue.

A row is its fields with commas between them, ended by a carriage return and a line
feed.  A field that holds a comma, a quote or one of the two break characters is
written between quotes, and each quote inside it twice; so is the field of a row
that has no other and would be an empty line.
-/

namespace Proofreader.Csv

def needsQuotes (c : Char) : Bool := c == ',' || c == '"' || c == '\r' || c == '\n'

def quoteField (t : Text) : Text := '"' :: Text.replaceChar '"' ['"', '"'] t ++ ['"']

def encodeField (t : Text) : Text := if t.any needsQuotes then quoteField t else t

def encodeFields (row : List Text) : Text :=
  if row = [[]] then quoteField [] else Text.joinWith [','] (row.map encodeField)

def rowEnd : Text := ['\r', '\n']

def encodeRow (row : List Text) : Text := encodeFields row ++ rowEnd

def encode (rows : List (List Text)) : Text := rows.flatMap encodeRow

end Proofreader.Csv

namespace Proofreader.Report

/-! ## The CSV report -/

def csvHeader : List Text :=
  ["File", "Line", "Rule ID", "Type", "Issue", "Message", "Suggestions", "Highlighted Context"]

def csvSuggestions (i : Issue) : Text :=
  let t := suggestionsCell i
  if t = dash then [] else t

def csvRow (i : Issue) : List Text :=
  [i.file.text, Numeral.ofNat i.line, i.ruleId, i.issueType, i.offendingText, i.message,
    csvSuggestions i, i.context]

def csvRows (rs : List DocumentReport) : List (List Text) :=
  csvHeader :: (ordered rs).flatMap fun r => r.issues.map csvRow

def csv (rs : List DocumentReport) : Text := Csv.encode (csvRows rs)

/-! ## Files -/

def csvPath (p : Path) : Path := p.withSuffix ".csv"

def file (rs : List DocumentReport) (p : Path) (d : Disk) : Disk.Changed :=
  (d.makeDirectories p.parent).andThen fun d =>
    (d.write p (Utf8.encode (markdown rs))).andThen fun d =>
      d.write (csvPath p) (Utf8.encode (csv rs))

end Proofreader.Report
