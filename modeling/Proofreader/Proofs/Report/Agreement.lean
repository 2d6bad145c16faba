import Mathlib.Algebra.BigOperators.Group.List.Lemmas
import Proofreader.Proofs.Report.Table
import Proofreader.Proofs.Sorting
import Proofreader.Proofs.Text.Order
import Proofreader.Report.Filing

/-!
# The reports agree

The Markdown report and the CSV report show the same issues in the same order, and all the
numbers of the Markdown report count them.  Both follow the order of the paths without regard
to case, so they do not depend on the order of documents whose paths differ in more than case.
-/

namespace Proofreader.Report

/-! ## The order of documents -/

theorem ordered_perm (rs : List DocumentReport) : (ordered rs).Perm rs := sortBy_perm _ rs

theorem ordered_eq_of_perm {rs rs' : List DocumentReport} (hperm : rs.Perm rs')
    (hkeys : (rs.map sortKey).Nodup) : ordered rs = ordered rs' := by
  refine sortBy_eq_of_perm (fun r s => Text.le_total (sortKey r) (sortKey s))
    (fun h h' => Text.le_trans h h') hperm fun r hr s hs hrs hsr => ?_
  exact List.inj_on_of_nodup_map hkeys hr hs (Text.eq_of_le hrs hsr)

/-! ## Numbers of issues -/

def reported (rs : List DocumentReport) : List Issue := (ordered rs).flatMap (·.issues)

theorem length_reported (rs : List DocumentReport) :
    (reported rs).length = totalIssues (ordered rs) := by
  rw [totalIssues_eq_sum, reported, List.length_flatMap]

theorem sum_filter_ne_zero (ns : List Nat) : (ns.filter (· ≠ 0)).sum = ns.sum := by
  induction ns with
  | nil => rfl
  | cons n ns ih => cases n <;> simpa using ih

theorem csvRows_eq (rs : List DocumentReport) :
    csvRows rs = csvHeader :: (reported rs).map csvRow := by
  rw [csvRows, reported, List.map_flatMap]

/-! ## Totals by rule -/

theorem ruleIds_ordered (rs : List DocumentReport) :
    ruleIds (ordered rs) = (reported rs).map (·.ruleId) := by
  rw [ruleIds, reported, List.map_flatMap]

theorem ruleTotals_perm (rs : List DocumentReport) :
    (ruleTotals rs).Perm
      ((Text.sortedSet (ruleIds rs)).map fun id => (id, (ruleIds rs).count id)) :=
  sortBy_perm _ _

theorem mem_ruleTotals {rs : List DocumentReport} {id : Text} {n : Nat} :
    (id, n) ∈ ruleTotals rs ↔ n = (ruleIds rs).count id ∧ 0 < n := by
  rw [(ruleTotals_perm rs).mem_iff, List.mem_map]
  constructor
  · rintro ⟨id, hid, heq⟩
    obtain ⟨rfl, rfl⟩ := Prod.mk.inj heq
    exact ⟨rfl, List.count_pos_iff.2 (Text.mem_sortedSet.1 hid)⟩
  · rintro ⟨rfl, hpos⟩
    exact ⟨id, Text.mem_sortedSet.2 (List.count_pos_iff.1 hpos), rfl⟩

theorem nodup_ruleTotals (rs : List DocumentReport) : ((ruleTotals rs).map Prod.fst).Nodup := by
  have hperm := (ruleTotals_perm rs).map Prod.fst
  rw [List.map_map] at hperm
  refine hperm.nodup_iff.2 ?_
  simpa [Function.comp_def] using Text.nodup_sortedSet (ruleIds rs)

theorem sum_ruleTotals (rs : List DocumentReport) :
    ((ruleTotals rs).map Prod.snd).sum = (ruleIds rs).length := by
  have hperm := (ruleTotals_perm rs).map Prod.snd
  rw [List.map_map] at hperm
  calc ((ruleTotals rs).map Prod.snd).sum
      = ((Text.sortedSet (ruleIds rs)).map fun id => (ruleIds rs).count id).sum := hperm.sum_eq
    _ = ((ruleIds rs).dedup.map fun id => (ruleIds rs).count id).sum :=
        ((Text.sortedSet_perm_dedup (ruleIds rs)).map _).sum_eq
    _ = (ruleIds rs).length := by
        rw [lawful_beq_subsingleton List.instBEq (instBEqOfDecidableEq : BEq Text)]
        exact List.sum_map_count_dedup_eq_length (ruleIds rs)

/-- The ids are increasing before they are sorted by their numbers, so they still are among
those with one number. -/
theorem pairwise_ruleTotals (rs : List DocumentReport) :
    (ruleTotals rs).Pairwise fun a b => b.2 < a.2 ∨ a.2 = b.2 ∧ a.1 < b.1 := by
  have hids : ((Text.sortedSet (ruleIds rs)).map fun id => (id, (ruleIds rs).count id)).Pairwise
      fun a b => a.1 < b.1 :=
    List.pairwise_map.2 (Text.pairwise_sortedSet (ruleIds rs))
  have htotal (a b : Text × Nat) : (decide (b.2 ≤ a.2) || decide (a.2 ≤ b.2)) = true := by
    simpa using Nat.le_total b.2 a.2
  have htrans {a b c : Text × Nat} (h : decide (b.2 ≤ a.2) = true)
      (h' : decide (c.2 ≤ b.2) = true) : decide (c.2 ≤ a.2) = true :=
    decide_eq_true ((of_decide_eq_true h').trans (of_decide_eq_true h))
  refine (pairwise_sortBy htotal htrans hids).imp fun {a b} h => ?_
  simp only [decide_eq_true_eq] at h
  rcases Nat.lt_or_eq_of_le h.1 with hless | heq
  · exact .inl hless
  · exact .inr ⟨heq.symm, h.2 heq.ge⟩

/-! ## Agreement -/

/-- A table row shows the fields of a CSV row.  Only the CSV row names the file, and only the table
row has a dash where there is nothing to show. -/
def ShowsFields (row : Text) : List Text → Prop
  | [_, line, ruleId, issueType, text, message, suggestions, context] =>
      ∃ cells, rowCells row = line :: readCell (code ruleId) ++ readCell issueType ++ cells ∧
        ∃ suggested, cells.map unescapePipes = [shown text, message, suggested, shown context] ∧
          suggestions = if suggested = dash then [] else suggested
  | _ => False

theorem showsFields_csvRow (i : Issue) : ShowsFields (issueRow i) (csvRow i) :=
  ⟨_, rowCells_issueRow i, suggestionsCell i,
    by simp [unescapePipes_filledCell, unescapePipes_escapePipes], rfl⟩

structure Agree (rs : List DocumentReport) : Prop where
  /-- No issue is left out or added. -/
  reported_perm : (reported rs).Perm (rs.flatMap (·.issues))
  tables : shownRows rs = (reported rs).map issueRow
  dataRows : (csvRows rs).tail = (reported rs).map csvRow
  fields : List.Forall₂ ShowsFields (shownRows rs) (csvRows rs).tail
  total : shownTotals rs = [(csvRows rs).tail.length]
  /-- A document without issues shows no number. -/
  counts : shownCounts rs = ((ordered rs).map (·.issues.length)).filter (· ≠ 0)
  sum_counts : (shownCounts rs).sum = (csvRows rs).tail.length
  sum_ruleTotals : ((shownRuleTotals rs).map Prod.snd).sum = (csvRows rs).tail.length
  ruleTotals_nodup : ((shownRuleTotals rs).map Prod.fst).Nodup
  mem_ruleTotals : ∀ id n, (id, n) ∈ shownRuleTotals rs ↔
    n = ((reported rs).map (·.ruleId)).count id ∧ 0 < n
  /-- The most frequent rules come first, and equally frequent ones by id. -/
  ruleTotals_sorted : (shownRuleTotals rs).Pairwise fun a b => b.2 < a.2 ∨ a.2 = b.2 ∧ a.1 < b.1

theorem agree (rs : List DocumentReport) : Agree rs := by
  have hrows : (csvRows rs).tail = (reported rs).map csvRow := by rw [csvRows_eq, List.tail_cons]
  have hlength : (csvRows rs).tail.length = totalIssues (ordered rs) := by
    rw [hrows, List.length_map, length_reported]
  have hfields : List.Forall₂ ShowsFields (shownRows rs) (csvRows rs).tail := by
    rw [hrows, shownRows_eq, List.forall₂_map_left_iff, List.forall₂_map_right_iff]
    exact List.forall₂_same.2 fun i _ => showsFields_csvRow i
  have htotals := shownRuleTotals_eq rs
  refine
    { reported_perm := (ordered_perm rs).flatMap_right _
      tables := shownRows_eq rs
      dataRows := hrows
      fields := hfields
      total := by rw [shownTotals_eq, hlength]
      counts := shownCounts_eq rs
      sum_counts := by rw [shownCounts_eq, sum_filter_ne_zero, hlength, totalIssues_eq_sum]
      sum_ruleTotals := ?_
      ruleTotals_nodup := htotals ▸ nodup_ruleTotals (ordered rs)
      mem_ruleTotals := fun id n => by rw [htotals, mem_ruleTotals, ruleIds_ordered]
      ruleTotals_sorted := htotals ▸ pairwise_ruleTotals (ordered rs) }
  rw [htotals, sum_ruleTotals, ruleIds_ordered, List.length_map, length_reported, hlength]

/-- The reports agree, whatever the documents are; and where no two paths are the same without
regard to case, the order of the documents makes no difference. -/
theorem reports_agree (rs : List DocumentReport) :
    Agree rs ∧ ((rs.map sortKey).Nodup →
      ∀ rs', rs'.Perm rs → markdown rs' = markdown rs ∧ csvRows rs' = csvRows rs) := by
  refine ⟨agree rs, fun hkeys rs' hperm => ?_⟩
  have hordered := ordered_eq_of_perm hperm.symm hkeys
  exact ⟨by simp only [markdown, markdownLines, hordered], by simp only [csvRows, hordered]⟩

/-- Three documents in two orders: two rules with one issue each, and one with two. -/
theorem reports_agree_swapped :
    let issue (ruleId : Text) : Issue :=
      ⟨⟨"teh", 1, Path.ofText "a.md", by decide⟩, ruleId, "typo", "misspelling", "", "teh", ["the"],
        "**teh**"⟩
    let r : DocumentReport := ⟨Path.ofText "B.md", [issue "Z", issue "Y"]⟩
    let r' : DocumentReport := ⟨Path.ofText "a.md", [issue "X", issue "Z"]⟩
    let r'' : DocumentReport := ⟨Path.ofText "c.md", []⟩
    markdown [r, r', r''] = markdown [r', r, r''] ∧ csvRows [r, r', r''] = csvRows [r', r, r''] ∧
      shownRuleTotals [r', r, r''] = [(("Z" : Text), 2), ("X", 1), ("Y", 1)] ∧
      shownCounts [r', r, r''] = [2, 2] ∧ shownTotals [r', r, r''] = [4] := by
  intro issue r r' r''
  obtain ⟨hagree, hperm⟩ := reports_agree [r', r, r'']
  obtain ⟨hmarkdown, hcsv⟩ := hperm (by decide +kernel) [r, r', r''] (.swap r' r [r''])
  refine ⟨hmarkdown, hcsv, by decide +kernel, ?_, ?_⟩
  · rw [hagree.counts]
    decide +kernel
  · rw [hagree.total]
    decide +kernel

end Proofreader.Report
