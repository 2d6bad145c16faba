import Mathlib.Algebra.GroupWithZero.Nat
import Mathlib.Data.List.Basic
import Proofreader.Report.Markdown

/-!
# What a Markdown report shows

The tables and the numbers of a Markdown report are read off its lines.  The row of an issue
is a row of a table that begins with a number.  A count is the number at the end of a line,
before a fixed text.
-/

namespace Proofreader

theorem Text.after?_append (p t : Text) : Text.after? (p ++ t) p = some t := by
  induction p with
  | nil => cases t <;> rfl
  | cons c p ih => simpa [Text.after?] using ih

/-! ## Numerals -/

namespace Numeral

theorem isDigit_of_mem_ofNat {n : Nat} {c : Char} (h : c ∈ ofNat n) : c.isDigit = true :=
  Nat.isDigit_of_mem_toDigits (by decide) (by decide) h

theorem ofNat_ne_nil (n : Nat) : ofNat n ≠ [] := Nat.toDigits_ne_nil

def last? (t : Text) : Option (Text × Nat) :=
  let digits := t.reverse.takeWhile Char.isDigit
  if digits.isEmpty then none
  else some ((t.reverse.dropWhile Char.isDigit).reverse, Nat.ofDigitChars 10 digits.reverse 0)

theorem last?_append_ofNat {front : Text} (hfront : ∀ c ∈ front.getLast?, c.isDigit = false)
    (n : Nat) : last? (front ++ ofNat n) = some (front, n) := by
  have hdigits : ∀ c ∈ (ofNat n).reverse, c.isDigit = true := fun c hc =>
    isDigit_of_mem_ofNat (List.mem_reverse.1 hc)
  have hstop : front.reverse.takeWhile Char.isDigit = [] ∧
      front.reverse.dropWhile Char.isDigit = front.reverse := by
    rcases front.eq_nil_or_concat with rfl | ⟨front, c, rfl⟩
    · exact ⟨rfl, rfl⟩
    · have hc : c.isDigit = false := hfront c (by simp)
      simp [hc]
  have hvalue : Nat.ofDigitChars 10 (ofNat n) 0 = n :=
    Nat.ofDigitChars_toDigits (by decide) (by decide)
  rw [last?, List.reverse_append, List.takeWhile_append_of_pos hdigits,
    List.dropWhile_append_of_pos hdigits, hstop.1, hstop.2, List.append_nil, List.reverse_reverse,
    List.reverse_reverse, hvalue, if_neg]
  simp [ofNat_ne_nil]

end Numeral

namespace Report

theorem totalIssues_eq_sum (rs : List DocumentReport) :
    totalIssues rs = (rs.map (·.issues.length)).sum := by
  rw [totalIssues, List.sum_eq_foldl, List.foldl_map]

/-! ## Lines -/

def fixedLines : List Text :=
  [[], "# Markup Check Report", "## Totals by Rule", "- No issues found.", "---",
    "## Document Details", "_No documents found for checking._", "_No issues found._"] ++ tableHead

def checkedLine (count : Nat) : Text :=
  "- Checked ".toList ++ Numeral.ofNat count ++ " document(s)".toList

def totalLine (total : Nat) : Text := "- Total issues found: ".toList ++ Numeral.ofNat total

def headingLine (p : Path) : Text := "### ".toList ++ p.text

def foundLine (count : Nat) : Text :=
  "Found ".toList ++ Numeral.ofNat count ++ " issue(s).".toList

theorem summaryLines_eq (rs : List DocumentReport) :
    summaryLines rs = (["# Markup Check Report", [], checkedLine rs.length,
      totalLine (totalIssues rs), [], "## Totals by Rule"] : List Text) ++ ruleTotalLines rs ++
      ([[], "---", [], "## Document Details"] : List Text) := rfl

theorem documentLines_eq (r : DocumentReport) :
    documentLines r = [[], headingLine r.path, []] ++
      if r.issues.isEmpty then (["_No issues found._"] : List Text)
      else foundLine r.issues.length :: [] :: tableHead ++ r.issues.map issueRow := rfl

/-! ## Reading lines -/

def isIssueRow (line : Text) : Bool :=
  match Text.after? line "| " with
  | some (c :: _) => c.isDigit
  | _ => false

def readCount? (beginning ending line : Text) : Option (Text × Nat) :=
  (Text.after? line beginning).bind fun rest =>
    (Text.after? rest.reverse ending.reverse).bind fun back => Numeral.last? back.reverse

theorem isIssueRow_issueRow (i : Issue) : isIssueRow (issueRow i) = true := by
  obtain ⟨c, digits, hline⟩ := List.exists_cons_of_ne_nil (Numeral.ofNat_ne_nil i.line)
  have hdigit : c.isDigit = true :=
    Numeral.isDigit_of_mem_ofNat (hline ▸ List.mem_cons_self .. : c ∈ Numeral.ofNat i.line)
  simp [isIssueRow, issueRow, tableRow, cells, Text.joinWith, hline, Text.after?, hdigit]

theorem readCount?_append (beginning ending : Text) {front : Text}
    (hfront : ∀ c ∈ front.getLast?, c.isDigit = false) (n : Nat) :
    readCount? beginning ending (beginning ++ (front ++ Numeral.ofNat n ++ ending)) =
      some (front, n) := by
  rw [readCount?, Text.after?_append, Option.bind_some, List.reverse_append, Text.after?_append,
    Option.bind_some, List.reverse_reverse, Numeral.last?_append_ofNat hfront]

theorem readCount?_total (n : Nat) :
    readCount? "- Total issues found: " [] (totalLine n) = some ([], n) := by
  have hnone : ∀ c ∈ ([] : Text).getLast?, c.isDigit = false := by simp
  have h := readCount?_append "- Total issues found: " [] hnone n
  rwa [List.nil_append, List.append_nil] at h

theorem readCount?_found (n : Nat) :
    readCount? "Found " " issue(s)." (foundLine n) = some ([], n) := by
  have hnone : ∀ c ∈ ([] : Text).getLast?, c.isDigit = false := by simp
  have h := readCount?_append "Found " " issue(s)." hnone n
  rwa [List.nil_append, ← List.append_assoc] at h

theorem readCount?_ruleTotalLine (total : Text × Nat) :
    readCount? "- \x60" " issue(s)" (ruleTotalLine total) =
      some (total.1 ++ "\x60: ".toList, total.2) := by
  have hfront : ∀ c ∈ (total.1 ++ "\x60: ".toList).getLast?, c.isDigit = false := by simp
  simpa [ruleTotalLine, code] using readCount?_append "- \x60" " issue(s)" hfront total.2

/-! ## Readings of a report -/

/-- Nothing is read off the lines that are always the same, the number of documents and the
headings. -/
structure Overlooks {β : Type} (read : Text → Option β) : Prop where
  fixed : ∀ line ∈ fixedLines, read line = none
  checked : ∀ n, read (checkedLine n) = none
  heading : ∀ p, read (headingLine p) = none

theorem forall_fixedLines : ∀ line ∈ fixedLines,
    Option.guard isIssueRow line = none ∧ readCount? "- Total issues found: " [] line = none ∧
      readCount? "Found " " issue(s)." line = none ∧
      readCount? "- \x60" " issue(s)" line = none := by
  decide +kernel

namespace Overlooks

variable {β : Type} {read : Text → Option β} (h : Overlooks read)
include h

theorem filterMap_ruleTotalLines (rs : List DocumentReport) :
    (ruleTotalLines rs).filterMap read =
      (ruleTotals rs).filterMap fun total => read (ruleTotalLine total) := by
  have hnone : read "- No issues found." = none := h.fixed _ (by simp [fixedLines])
  unfold ruleTotalLines
  cases ruleTotals rs with
  | nil => simp only [List.filterMap_cons, List.filterMap_nil, hnone]
  | cons total totals => exact List.filterMap_map

theorem filterMap_summaryLines (rs : List DocumentReport) :
    (summaryLines rs).filterMap read = (read (totalLine (totalIssues rs))).toList ++
      (ruleTotals rs).filterMap fun total => read (ruleTotalLine total) := by
  have hfixed := h.fixed
  simp only [fixedLines, List.forall_mem_append, List.forall_mem_cons] at hfixed
  obtain ⟨⟨hempty, htitle, htotals, -, hbar, hdetails, -⟩, -⟩ := hfixed
  rw [summaryLines_eq]
  simp only [List.filterMap_append, List.filterMap_cons, List.filterMap_nil, hempty, htitle,
    h.checked, htotals, hbar, hdetails, h.filterMap_ruleTotalLines, List.append_nil]
  cases read (totalLine (totalIssues rs)) <;> rfl

theorem filterMap_documentLines (r : DocumentReport) :
    (documentLines r).filterMap read =
      if r.issues.isEmpty then []
      else (read (foundLine r.issues.length)).toList ++
        r.issues.filterMap fun i => read (issueRow i) := by
  have hempty : read [] = none := h.fixed _ (by simp [fixedLines])
  have hnone : read "_No issues found._" = none := h.fixed _ (by simp [fixedLines])
  have hhead : tableHead.filterMap read = [] :=
    List.filterMap_eq_nil_iff.2 fun line hline => h.fixed line (List.mem_append_right _ hline)
  rw [documentLines_eq, List.filterMap_append]
  split
  · simp only [List.filterMap_cons, List.filterMap_nil, hempty, h.heading, hnone, List.append_nil]
  · simp only [List.cons_append, List.filterMap_append, List.filterMap_cons, List.filterMap_nil,
      hempty, h.heading, hhead, List.filterMap_map, List.nil_append]
    cases read (foundLine r.issues.length) <;> rfl

theorem filterMap_markdownLines (rs : List DocumentReport) :
    (markdownLines rs).filterMap read =
      (read (totalLine (totalIssues (ordered rs)))).toList ++
        (ruleTotals (ordered rs)).filterMap (fun total => read (ruleTotalLine total)) ++
        (ordered rs).flatMap fun r =>
          if r.issues.isEmpty then []
          else (read (foundLine r.issues.length)).toList ++
            r.issues.filterMap fun i => read (issueRow i) := by
  have hempty : read [] = none := h.fixed _ (by simp [fixedLines])
  have hnone : read "_No documents found for checking._" = none := h.fixed _ (by simp [fixedLines])
  unfold markdownLines
  rw [List.filterMap_append, h.filterMap_summaryLines]
  congr 1
  cases ordered rs with
  | nil =>
      simp only [detailLines, List.isEmpty_nil, if_true, List.filterMap_cons, hempty, hnone,
        List.filterMap_nil, List.flatMap_nil]
  | cons r rs =>
      simp only [detailLines, List.isEmpty_cons, Bool.false_eq_true, if_false,
        List.filterMap_flatMap, h.filterMap_documentLines]

end Overlooks

/-! ## What is shown -/

def shownRows (rs : List DocumentReport) : List Text := (markdownLines rs).filter isIssueRow

def shownTotals (rs : List DocumentReport) : List Nat :=
  ((markdownLines rs).filterMap (readCount? "- Total issues found: " [])).map Prod.snd

def shownCounts (rs : List DocumentReport) : List Nat :=
  ((markdownLines rs).filterMap (readCount? "Found " " issue(s).")).map Prod.snd

/-- The rule ids that are shown with a number; three characters divide an id from its number. -/
def shownRuleTotals (rs : List DocumentReport) : List (Text × Nat) :=
  ((markdownLines rs).filterMap (readCount? "- \x60" " issue(s)")).map fun (front, n) =>
    (front.take (front.length - 3), n)

theorem shownRows_eq (rs : List DocumentReport) :
    shownRows rs = ((ordered rs).flatMap (·.issues)).map issueRow := by
  have hread : Overlooks (Option.guard isIssueRow) :=
    ⟨fun line h => (forall_fixedLines line h).1, fun _ => rfl, fun _ => rfl⟩
  have htotal (n : Nat) : Option.guard isIssueRow (totalLine n) = none := rfl
  have hrule (t : Text × Nat) : Option.guard isIssueRow (ruleTotalLine t) = none := rfl
  have hfound (n : Nat) : Option.guard isIssueRow (foundLine n) = none := rfl
  have hissue (i : Issue) : Option.guard isIssueRow (issueRow i) = some (issueRow i) := by
    simp [isIssueRow_issueRow]
  rw [shownRows, ← List.filterMap_eq_filter, hread.filterMap_markdownLines, List.map_flatMap]
  simp only [htotal, hrule, hfound, hissue, Option.toList_none, List.nil_append,
    List.filterMap_none, List.filterMap_eq_map']
  congr 1
  funext r
  cases r.issues <;> rfl

theorem shownTotals_eq (rs : List DocumentReport) :
    shownTotals rs = [totalIssues (ordered rs)] := by
  have hread : Overlooks (readCount? "- Total issues found: " []) :=
    ⟨fun line h => (forall_fixedLines line h).2.1, fun _ => rfl, fun _ => rfl⟩
  have hrule (t : Text × Nat) : readCount? "- Total issues found: " [] (ruleTotalLine t) = none :=
    rfl
  have hfound (n : Nat) : readCount? "- Total issues found: " [] (foundLine n) = none := rfl
  have hissue (i : Issue) : readCount? "- Total issues found: " [] (issueRow i) = none := rfl
  rw [shownTotals, hread.filterMap_markdownLines]
  simp only [readCount?_total, hrule, hfound, hissue, List.filterMap_none, Option.toList_none,
    Option.toList_some, List.append_nil, ite_self]
  simp

theorem shownCounts_eq (rs : List DocumentReport) :
    shownCounts rs = ((ordered rs).map (·.issues.length)).filter (· ≠ 0) := by
  have hread : Overlooks (readCount? "Found " " issue(s).") :=
    ⟨fun line h => (forall_fixedLines line h).2.2.1, fun _ => rfl, fun _ => rfl⟩
  have htotal (n : Nat) : readCount? "Found " " issue(s)." (totalLine n) = none := rfl
  have hrule (t : Text × Nat) : readCount? "Found " " issue(s)." (ruleTotalLine t) = none := rfl
  have hissue (i : Issue) : readCount? "Found " " issue(s)." (issueRow i) = none := rfl
  rw [shownCounts, hread.filterMap_markdownLines]
  simp only [htotal, hrule, readCount?_found, hissue, List.filterMap_none, Option.toList_none,
    Option.toList_some, List.append_nil, List.nil_append]
  induction ordered rs with
  | nil => rfl
  | cons r rs ih => cases hissues : r.issues <;> simpa [hissues] using ih

theorem shownRuleTotals_eq (rs : List DocumentReport) :
    shownRuleTotals rs = ruleTotals (ordered rs) := by
  have hread : Overlooks (readCount? "- \x60" " issue(s)") :=
    ⟨fun line h => (forall_fixedLines line h).2.2.2, fun _ => rfl, fun _ => rfl⟩
  have htotal (n : Nat) : readCount? "- \x60" " issue(s)" (totalLine n) = none := rfl
  have hfound (n : Nat) : readCount? "- \x60" " issue(s)" (foundLine n) = none := rfl
  have hissue (i : Issue) : readCount? "- \x60" " issue(s)" (issueRow i) = none := rfl
  rw [shownRuleTotals, hread.filterMap_markdownLines]
  simp only [htotal, hfound, hissue, readCount?_ruleTotalLine, List.filterMap_none,
    Option.toList_none, List.nil_append, List.append_nil, ite_self, List.filterMap_eq_map']
  rw [List.map_append, List.map_map]
  simp [Function.comp_def]

end Report

end Proofreader
