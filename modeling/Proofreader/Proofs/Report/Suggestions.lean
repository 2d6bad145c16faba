import Proofreader.Proofs.Report.Agreement

/-!
# Suggestions in the CSV report

The CSV report leaves out the dash, which stands for no suggestions.  Formatted suggestions are
the dash in one other case only, namely if the dash is the only suggestion there is.  So that
suggestion is hidden, and all others are shown.
-/

namespace Proofreader.Report

/-! ## Formatted suggestions -/

theorem length_joinWith_le (glue s t : Text) (ts : List Text) :
    glue.length ≤ (Text.joinWith glue (s :: t :: ts)).length := by
  have hjoin : Text.joinWith glue (s :: t :: ts) = s ++ glue ++ Text.joinWith glue (t :: ts) := rfl
  rw [hjoin, List.length_append, List.length_append]
  omega

/-- A text that is at most one character long was not joined and not cut short. -/
theorem formatSuggestions_eq_iff {limit : Int} {suggestions : List Text} {t : Text}
    (h : suggestions ≠ []) (ht : t.length ≤ 1) :
    formatSuggestions limit suggestions = t ↔ suggestions = [t] ∧ 1 ≤ limit := by
  rw [formatSuggestions, if_neg h]
  split
  · rename_i hlimit
    match suggestions, h with
    | [s], _ =>
        have hone : 1 ≤ limit := hlimit
        simp [Text.joinWith, hone]
    | s :: s' :: rest, _ =>
        have hjoined := length_joinWith_le [',', ' '] s s' rest
        simp only [List.length_cons, List.length_nil] at hjoined
        constructor
        · rintro rfl
          omega
        · rintro ⟨hsame, -⟩
          simp at hsame
  · rename_i hlimit
    constructor
    · intro hcut
      have hlength := congrArg List.length hcut
      simp only [List.length_append, String.length_toList] at hlength
      have hmore : " more)".length = 6 := rfl
      omega
    · rintro ⟨rfl, hone⟩
      exact absurd hone hlimit

theorem suggestionsCell_eq_iff {i : Issue} {t : Text} (h : i.suggestions ≠ [])
    (ht : t.length ≤ 1) : suggestionsCell i = t ↔ i.suggestions = [t] := by
  rw [suggestionsCell, formatSuggestions_eq_iff h ht]
  exact and_iff_left (by decide)

/-! ## Cells -/

def cellUnder (heading : Text) (row : List Text) : Option Text := (csvHeader.zip row).lookup heading

theorem cellUnder_csvRow (i : Issue) :
    cellUnder "Suggestions" (csvRow i) = some (csvSuggestions i) := rfl

/-- A row shows the suggestions of an issue, unless the only one is the dash. -/
structure ShowsSuggestions (i : Issue) (row : List Text) : Prop where
  shown_iff : i.suggestions ≠ [] →
    (cellUnder "Suggestions" row = some (suggestionsCell i) ↔ i.suggestions ≠ [dash])
  /-- Only an empty suggestion looks the same as none and as the dash. -/
  empty_iff : cellUnder "Suggestions" row = some [] ↔
    i.suggestions = [] ∨ i.suggestions = [dash] ∨ i.suggestions = [[]]

theorem showsSuggestions_csvRow (i : Issue) : ShowsSuggestions i (csvRow i) := by
  have hcell : csvSuggestions i = if suggestionsCell i = dash then [] else suggestionsCell i := rfl
  refine ⟨fun h => ?_, ?_⟩
  · rw [cellUnder_csvRow, Option.some.injEq, hcell, Ne, ← suggestionsCell_eq_iff h (by decide)]
    split
    · rename_i hdash
      simp [hdash, dash]
    · rename_i hdash
      exact iff_of_true rfl hdash
  · rw [cellUnder_csvRow, Option.some.injEq, hcell]
    by_cases h : i.suggestions = []
    · simp [h, suggestionsCell, formatSuggestions]
    · rw [← suggestionsCell_eq_iff h (by decide), ← suggestionsCell_eq_iff h (by simp)]
      simp only [h, false_or]
      split
      · rename_i hdash
        exact iff_of_true rfl (.inl hdash)
      · rename_i hdash
        exact (or_iff_right hdash).symm

/-- Every issue has a row of its own, which shows its suggestions. -/
theorem csv_suggestions (rs : List DocumentReport) :
    (reported rs).Perm (rs.flatMap (·.issues)) ∧
      List.Forall₂ ShowsSuggestions (reported rs) (csvRows rs).tail := by
  refine ⟨(ordered_perm rs).flatMap_right _, ?_⟩
  rw [csvRows_eq, List.tail_cons, List.forall₂_map_right_iff]
  exact List.forall₂_same.2 fun i _ => showsSuggestions_csvRow i

/-- A dash among other suggestions is shown, also where not all of them are. -/
theorem csv_suggestions_among_others :
    let issue (suggestions : List Text) : Issue :=
      ⟨⟨"1-2", 1, Path.ofText "a.md", by decide⟩, "DASH", "Use a dash", "typographical", "", "-",
        suggestions, "1**-**2"⟩
    let rs : List DocumentReport :=
      [⟨Path.ofText "a.md", [issue ["—", "–"], issue ["–", "—", "-", "to"]]⟩]
    reported rs = [issue ["—", "–"], issue ["–", "—", "-", "to"]] ∧
      List.Forall₂ ShowsSuggestions (reported rs) (csvRows rs).tail ∧
      (csvRows rs).tail.map (cellUnder "Suggestions") =
        [some ("—, –" : Text), some ("–, —, - (+1 more)" : Text)] := by
  intro issue rs
  exact ⟨by decide +kernel, (csv_suggestions rs).2, by decide +kernel⟩

/-- The dash is the only suggestion, and the row looks as if there were none. -/
theorem csv_hides_dash :
    let i : Issue :=
      ⟨⟨"1-2", 1, Path.ofText "a.md", by decide⟩, "DASH", "Use a dash", "typographical", "", "-",
        [dash], "1**-**2"⟩
    let rs : List DocumentReport := [⟨Path.ofText "a.md", [i]⟩]
    reported rs = [i] ∧ suggestionsCell i = dash ∧
      (csvRows rs).tail.map (cellUnder "Suggestions") = [some []] := by
  decide +kernel

end Proofreader.Report
