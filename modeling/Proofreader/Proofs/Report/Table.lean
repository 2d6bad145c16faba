import Proofreader.Proofs.Report.Printed
import Proofreader.Proofs.Text.Joining
import Proofreader.Proofs.Text.Lines

/-!
# Table rows

A table row is read by cutting it at its bare pipes, those that no backslash precedes.  The
cells for texts, suggestions and contexts hold no bare pipe and give back what was put into
them.  The rule id and the issue type are shown as they are, so each bare pipe in them makes
one cell more; and a row is a single line only if nothing in it breaks the line.
-/

namespace Proofreader.Report

open Text

/-! ## Bare pipes -/

/-- The pieces of a text between its bare pipes, after the character `previous`. -/
def cutAtPipes (previous : Char) : Text → List Text
  | [] => [[]]
  | c :: t =>
      if c = '|' ∧ previous ≠ '\\' then [] :: cutAtPipes c t else consLine c (cutAtPipes c t)

def barePipes (previous : Char) : Text → Nat
  | [] => 0
  | c :: t => barePipes c t + if c = '|' ∧ previous ≠ '\\' then 1 else 0

theorem cutAtPipes_ne_nil (previous : Char) (t : Text) : cutAtPipes previous t ≠ [] := by
  cases t with
  | nil => simp [cutAtPipes]
  | cons c t =>
      rw [cutAtPipes]
      split
      · simp
      · cases cutAtPipes c t <;> simp [consLine]

theorem length_cutAtPipes (previous : Char) (t : Text) :
    (cutAtPipes previous t).length = barePipes previous t + 1 := by
  induction t generalizing previous with
  | nil => rfl
  | cons c t ih =>
      rw [cutAtPipes, barePipes]
      split
      · rw [List.length_cons, ih]
      · rw [length_consLine _ _ (cutAtPipes_ne_nil c t), ih, Nat.add_zero]

theorem cutAtPipes_of_barePipes {previous : Char} {t : Text} (h : barePipes previous t = 0) :
    cutAtPipes previous t = [t] := by
  induction t generalizing previous with
  | nil => rfl
  | cons c t ih =>
      rw [barePipes, Nat.add_eq_zero_iff, ite_eq_right_iff] at h
      have hc : ¬ (c = '|' ∧ previous ≠ '\\') := fun hc => absurd (h.2 hc) (by decide)
      rw [cutAtPipes, if_neg hc, ih h.1, consLine]

theorem cutAtPipes_append (previous : Char) (s t : Text) :
    cutAtPipes previous (s ++ ' ' :: '|' :: t) =
      cutAtPipes previous (s ++ [' ']) ++ cutAtPipes '|' t := by
  induction s generalizing previous with
  | nil => simp [cutAtPipes, consLine]
  | cons c s ih =>
      rw [List.cons_append, List.cons_append, cutAtPipes, cutAtPipes, ih]
      split
      · rw [List.cons_append]
      · obtain ⟨piece, pieces, hpieces⟩ :=
          List.exists_cons_of_ne_nil (cutAtPipes_ne_nil c (s ++ [' ']))
        rw [hpieces]
        rfl

theorem barePipes_congr {c d : Char} (hc : c ≠ '\\') (hd : d ≠ '\\') (t : Text) :
    barePipes c t = barePipes d t := by
  cases t with
  | nil => rfl
  | cons e t => simp [barePipes, hc, hd]

theorem barePipes_concat (previous : Char) (t : Text) {c : Char} (hc : c ≠ '|') :
    barePipes previous (t ++ [c]) = barePipes previous t := by
  induction t generalizing previous with
  | nil => simp [barePipes, hc]
  | cons d t ih => rw [List.cons_append, barePipes, barePipes, ih]

theorem barePipes_of_not_mem {previous : Char} {t : Text} (h : '|' ∉ t) :
    barePipes previous t = 0 := by
  induction t generalizing previous with
  | nil => rfl
  | cons c t ih =>
      rw [List.mem_cons, not_or] at h
      rw [barePipes, ih h.2, if_neg fun hc => h.1 hc.1.symm]

/-! ## Escaped pipes -/

def unescapePipes : Text → Text
  | '\\' :: '|' :: t => '|' :: unescapePipes t
  | c :: t => c :: unescapePipes t
  | [] => []

theorem barePipes_escapePipes (previous : Char) (t : Text) :
    barePipes previous (escapePipes t) = 0 := by
  unfold escapePipes
  induction t generalizing previous with
  | nil => rfl
  | cons c t ih =>
      rw [replaceChar]
      split
      · simp [barePipes, ih]
      · rename_i hc
        rw [barePipes, ih, if_neg fun h => hc (beq_iff_eq.2 h.1)]

theorem head?_escapePipes (t : Text) : (escapePipes t).head? ≠ some '|' := by
  unfold escapePipes
  cases t with
  | nil => simp [replaceChar]
  | cons c t =>
      rw [replaceChar]
      split
      · simp
      · rename_i hc
        simpa using hc

theorem unescapePipes_escapePipes (t : Text) : unescapePipes (escapePipes t) = t := by
  induction t with
  | nil => rfl
  | cons c t ih =>
      have hhead := head?_escapePipes t
      unfold escapePipes at ih hhead ⊢
      rw [replaceChar]
      split
      · rename_i hc
        simp [unescapePipes, ih, beq_iff_eq.1 hc]
      · -- A backslash is not taken for an escape, as no pipe is left right behind it.
        rw [unescapePipes, ih]
        rintro rest - hrest
        rw [hrest] at hhead
        exact hhead rfl

/-! ## Cells of a row -/

def unpad (piece : Text) : Text := (piece.drop 1).dropLast

def rowCells (row : Text) : List Text := ((cutAtPipes '\n' row).drop 1).dropLast.map unpad

def readCell (cell : Text) : List Text := (cutAtPipes '|' (' ' :: cell ++ [' '])).map unpad

theorem length_readCell (cell : Text) : (readCell cell).length = barePipes ' ' cell + 1 := by
  rw [readCell, List.length_map, length_cutAtPipes, barePipes_concat '|' (' ' :: cell) (by decide)]
  rfl

theorem readCell_of_barePipes {cell : Text} (h : barePipes ' ' cell = 0) :
    readCell cell = [cell] := by
  have hpadded : barePipes '|' (' ' :: cell ++ [' ']) = 0 := by
    rw [barePipes_concat '|' (' ' :: cell) (by decide)]
    exact h
  rw [readCell, cutAtPipes_of_barePipes hpadded]
  simp [unpad]

theorem joinWith_cells (cell : Text) (cells : List Text) :
    joinWith [' ', '|', ' '] (cell :: cells) ++ [' ', '|'] =
      cell ++ [' ', '|'] ++ cells.flatMap fun c => ' ' :: c ++ [' ', '|'] := by
  induction cells generalizing cell with
  | nil => simp [joinWith]
  | cons next cells ih =>
      rw [joinWith.eq_3 _ _ _ (by simp), List.append_assoc, ih]
      simp

theorem tableRow_eq {cells : List Text} (h : cells ≠ []) :
    tableRow cells = '|' :: cells.flatMap fun c => ' ' :: c ++ [' ', '|'] := by
  obtain ⟨cell, cells, rfl⟩ := List.exists_cons_of_ne_nil h
  rw [tableRow, List.append_assoc, joinWith_cells]
  simp

theorem cutAtPipes_row (cells : List Text) :
    cutAtPipes '|' (cells.flatMap fun c => ' ' :: c ++ [' ', '|']) =
      (cells.flatMap fun c => cutAtPipes '|' (' ' :: c ++ [' '])) ++ [[]] := by
  induction cells with
  | nil => rfl
  | cons cell cells ih =>
      have happend := cutAtPipes_append '|' (' ' :: cell)
        (cells.flatMap fun c => ' ' :: c ++ [' ', '|'])
      simp only [List.flatMap_cons, List.append_assoc, List.cons_append, List.nil_append] at *
      rw [happend, ih]

theorem rowCells_tableRow {cells : List Text} (h : cells ≠ []) :
    rowCells (tableRow cells) = cells.flatMap readCell := by
  rw [rowCells, tableRow_eq h, cutAtPipes, if_pos (by decide), cutAtPipes_row, List.drop_one,
    List.tail_cons, List.dropLast_concat, List.map_flatMap]
  rfl

/-! ## The row of an issue -/

def shown (t : Text) : Text := if t.isEmpty then dash else t

theorem barePipes_code (id : Text) : barePipes ' ' (code id) = barePipes ' ' id := by
  rw [code, List.cons_append, barePipes, barePipes_concat _ _ (by decide), if_neg (by decide),
    Nat.add_zero]
  exact barePipes_congr (by decide) (by decide) id

theorem barePipes_filledCell (t : Text) : barePipes ' ' (filledCell t) = 0 := by
  unfold filledCell
  split
  · rfl
  · exact barePipes_escapePipes ' ' t

theorem unescapePipes_filledCell (t : Text) : unescapePipes (filledCell t) = shown t := by
  unfold filledCell shown
  split
  · rfl
  · exact unescapePipes_escapePipes t

theorem barePipes_ofNat (n : Nat) : barePipes ' ' (Numeral.ofNat n) = 0 :=
  barePipes_of_not_mem fun h => absurd (Numeral.isDigit_of_mem_ofNat h) (by decide)

/-- The cells of the row of an issue: the pieces of its id and of its type stand among them, and
the last four give back what they were made from. -/
theorem rowCells_issueRow (i : Issue) :
    rowCells (issueRow i) =
      Numeral.ofNat i.line :: readCell (code i.ruleId) ++ readCell i.issueType ++
        [filledCell i.offendingText, escapePipes i.message, escapePipes (suggestionsCell i),
          filledCell i.context] := by
  rw [issueRow, rowCells_tableRow (by simp [cells]), cells]
  simp only [List.flatMap_cons, List.flatMap_nil, readCell_of_barePipes (barePipes_ofNat _),
    readCell_of_barePipes (barePipes_filledCell _),
    readCell_of_barePipes (barePipes_escapePipes ' ' _)]
  simp

theorem breaks_escapePipes (t : Text) : breaks (escapePipes t) = breaks t := by
  unfold escapePipes
  induction t with
  | nil => rfl
  | cons c t ih =>
      rw [replaceChar]
      split
      · rename_i hc
        simp [beq_iff_eq.1 hc, isBreak, ih]
      · simp [ih]

theorem breaks_filledCell (t : Text) : breaks (filledCell t) = breaks t := by
  unfold filledCell
  split
  · rename_i ht
    rw [List.isEmpty_iff.1 ht]
    rfl
  · exact breaks_escapePipes t

theorem breaks_ofNat (n : Nat) : breaks (Numeral.ofNat n) = 0 :=
  breaks_eq_zero.2 fun _ hc => isBreak_of ⟨by decide, by decide⟩ (Numeral.isDigit_of_mem_ofNat hc)

def rowBreaks (i : Issue) : Nat :=
  breaks i.ruleId + breaks i.issueType + breaks i.offendingText + breaks i.message +
    breaks (suggestionsCell i) + breaks i.context

theorem breaks_issueRow (i : Issue) : breaks (issueRow i) = rowBreaks i := by
  rw [issueRow, tableRow_eq (by simp [cells])]
  simp [cells, code, breaks_ofNat, breaks_filledCell, breaks_escapePipes, isBreak, rowBreaks]
  omega

/-! ## Rows in a report -/

theorem getLast?_issueRow (i : Issue) : (issueRow i).getLast? = some '|' := by
  rw [issueRow, tableRow, List.getLast?_append]
  rfl

theorem exists_documentLines_eq (r : DocumentReport) :
    ∃ above last, documentLines r = above ++ [last] ∧ last.getLast? ≠ some '\r' := by
  rw [documentLines_eq]
  rcases r.issues.eq_nil_or_concat with hissues | ⟨issues, i, hissues⟩
  · rw [hissues]
    exact ⟨[[], headingLine r.path, []], "_No issues found._", rfl, by decide⟩
  · refine ⟨[[], headingLine r.path, []] ++
      (foundLine r.issues.length :: [] :: tableHead ++ issues.map issueRow), issueRow i, ?_, ?_⟩
    · simp [hissues]
    · rw [getLast?_issueRow]
      decide

theorem exists_markdownLines_eq (rs : List DocumentReport) :
    ∃ above last, markdownLines rs = above ++ [last] ∧ last.getLast? ≠ some '\r' := by
  unfold markdownLines detailLines
  rcases (ordered rs).eq_nil_or_concat with hordered | ⟨rs', r, hordered⟩
  · rw [hordered]
    exact ⟨summaryLines [] ++ [[]], "_No documents found for checking._", by simp, by decide⟩
  · obtain ⟨above, last, hlines, hlast⟩ := exists_documentLines_eq r
    refine ⟨summaryLines (ordered rs) ++ (rs'.flatMap documentLines ++ above), last, ?_, hlast⟩
    simp [hordered, hlines]

theorem splitLines_markdown (rs : List DocumentReport) :
    splitLines (markdown rs) = (markdownLines rs).flatMap endedLines := by
  obtain ⟨above, last, hlines, hlast⟩ := exists_markdownLines_eq rs
  rw [markdown, hlines, splitLines_joinWith above hlast]

/-- The lines of a report are those of its parts, and each issue has one part, its row.  The row
of an issue is a single line exactly if no text of the issue breaks it, and it has seven cells
and one more for each bare pipe in the rule id or the issue type.  The last four cells give back
the offending text, the message, the suggestions and the context. -/
theorem markdown_rows (rs : List DocumentReport) :
    splitLines (markdown rs) = (markdownLines rs).flatMap endedLines ∧
      shownRows rs = ((ordered rs).flatMap (·.issues)).map issueRow ∧
      ∀ r ∈ rs, ∀ i ∈ r.issues,
        let row := issueRow i
        let pipes := barePipes ' ' i.ruleId + barePipes ' ' i.issueType
        (endedLines row = [row] ↔ rowBreaks i = 0) ∧
          (rowCells row).length = 7 + pipes ∧
          (pipes = 0 → (rowCells row).take 3 = [Numeral.ofNat i.line, code i.ruleId, i.issueType]) ∧
          ((rowCells row).drop (3 + pipes)).map unescapePipes =
            [shown i.offendingText, i.message, suggestionsCell i, shown i.context] := by
  refine ⟨splitLines_markdown rs, shownRows_eq rs, fun r _ i _ => ?_⟩
  intro row pipes
  have hid := length_readCell (code i.ruleId)
  rw [barePipes_code] at hid
  have htype := length_readCell i.issueType
  have hcells := rowCells_issueRow i
  refine ⟨?_, ?_, ?_, ?_⟩
  · rw [endedLines_eq_splitLines (by rw [getLast?_issueRow]; decide), splitLines_eq_singleton_iff,
      breaks_issueRow]
  · rw [hcells]
    simp [hid, htype, pipes]
    omega
  · intro hpipes
    obtain ⟨hnone, hnone'⟩ := Nat.add_eq_zero_iff.1 hpipes
    rw [hcells, readCell_of_barePipes ((barePipes_code _).trans hnone),
      readCell_of_barePipes hnone']
    rfl
  · have hfront : (Numeral.ofNat i.line :: readCell (code i.ruleId) ++
        readCell i.issueType).length = 3 + pipes := by
      simp [hid, htype, pipes]
      omega
    rw [hcells, ← hfront, List.drop_left]
    simp [unescapePipes_filledCell, unescapePipes_escapePipes]

/-- Pipes in the texts of an issue, one of them behind a backslash and one at the end. -/
theorem markdown_rows_piped :
    let i : Issue :=
      ⟨⟨"a\\|b", 3, Path.ofText "a.md", by decide⟩, "PIPES", "Write || for \\|", "style", "",
        "a\\|b", ["a|"], []⟩
    let row := issueRow i
    row ∈ shownRows [⟨Path.ofText "a.md", [i]⟩] ∧ endedLines row = [row] ∧
      (rowCells row).take 3 = ([("3" : Text), "\x60PIPES\x60", "style"]) ∧
      ((rowCells row).drop 3).map unescapePipes =
        ([("a\\|b" : Text), "Write || for \\|", "a|", dash]) := by
  intro i row
  have hrows := markdown_rows [⟨Path.ofText "a.md", [i]⟩]
  obtain ⟨hline, -, hfront, htexts⟩ := hrows.2.2 _ (List.mem_singleton_self _) i (by simp)
  refine ⟨?_, hline.2 (by decide), ?_, ?_⟩
  · rw [hrows.2.1]
    exact List.mem_singleton_self row
  · rw [hfront (by decide)]
    decide +kernel
  · exact htexts.trans (by decide +kernel)

/-- A pipe in the rule id makes an eighth cell, and a message of two lines tears its row. -/
theorem markdown_rows_torn :
    let issue (ruleId message : Text) : Issue :=
      ⟨⟨"teh", 1, Path.ofText "a.md", by decide⟩, ruleId, message, "misspelling", "", "teh", [],
        "**teh**"⟩
    let rs : List DocumentReport :=
      [⟨Path.ofText "a.md", [issue "A|B" "typo", issue "RULE" "a typo\nin it"]⟩]
    (shownRows rs).map (fun row => (rowCells row).length) = [8, 7] ∧
      (shownRows rs).map (fun row => (endedLines row).length) = [1, 2] ∧
      (splitLines (markdown rs)).filter
        (fun line => isIssueRow line && (rowCells line).length == 7) = [] := by
  decide +kernel

end Proofreader.Report
