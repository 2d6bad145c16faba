import Proofreader.Proofs.Document.Descent
import Proofreader.Proofs.Session.Findings

/-!
# One more suppressed rule

Suppression by blocks only filters.  Two documents are compared that differ in one
rule which a block of the second names.  The lines and the engine are the same in both
analyses; the second one reports the issues of the first without those of that rule
on the lines of the block and of what is below it.
-/

namespace Proofreader

/-! ## The lines -/

/-- Lines of the same node that differ in what is ignored there: on the lines of some
nodes one more rule is. -/
structure OneMore (r : Text) (covers : Nat → Prop) (line line' : Nat × ProseLine) : Prop where
  node_eq : line'.1 = line.1
  location_eq : line'.2.location = line.2.location
  mem_ignored : ∀ q, q ∈ line'.2.ignored ↔ q ∈ line.2.ignored ∨ q = r ∧ covers line.1

namespace DocumentTree

namespace AddsRule

variable {t t' : DocumentTree} {key : Text} {x : Nat} {r : Text}

theorem nodeLines_eq (h : AddsRule t t' key x r) (i : Nat) :
    t'.nodeLines key i = (t.nodeLines key i).map fun lines =>
      lines.map fun p => { p with ignored := t'.ignoredRules key i } := by
  obtain ⟨f, hnode⟩ := h.node?_eq i
  have hpath : t'.path = t.path := by
    obtain ⟨a, rfl⟩ := h.tree_eq
    rfl
  rw [nodeLines, hnode, hpath, nodeLines]
  cases t.node? i with
  | none => rfl
  | some n =>
      have hown : ({ n with attributes := f n.attributes } : Node).ownText = n.ownText := rfl
      simp only [Option.map_some, hown]
      cases n.ownText with
      | none => rfl
      | some text =>
          cases text with
          | nil => rfl
          | cons c text =>
              simp only
              cases Location.at? (c :: text) n.line t.path with
              | error e => rfl
              | ok l => simp [Except.map]

theorem placedLines_oneMore (h : AddsRule t t' key x r) (hlinked : Linked t) :
    List.Forall₂ (OneMore r (t.Below x)) (t.placedLines key) (t'.placedLines key) := by
  rw [placedLines, placedLines, h.preorder_eq]
  induction t.preorder with
  | nil => exact .nil
  | cons i is ih =>
      rw [List.flatMap_cons, List.flatMap_cons]
      refine List.rel_append ?_ ih
      rw [h.nodeLines_eq]
      cases hlines : t.nodeLines key i with
      | error e => exact .nil
      | ok lines =>
          simp only [Except.map, Except.toOption, Option.getD_some, List.map_map,
            List.forall₂_map_left_iff, List.forall₂_map_right_iff, List.forall₂_same]
          intro p hp
          refine ⟨rfl, rfl, fun q => ?_⟩
          rw [ignored_of_mem_nodeLines hlines hp]
          exact h.mem_ignoredRules hlinked i q

theorem exists_walk_ok (h : AddsRule t t' key x r) (hwalk : ∃ lines, t.walk key = .ok lines) :
    ∃ lines, t'.walk key = .ok lines := by
  obtain ⟨lines, hlines⟩ := hwalk
  obtain ⟨hnodes, hall, -⟩ := walk_eq_ok_iff.1 hlines
  refine ⟨_, walk_eq_ok_iff.2 ⟨?_, ?_, rfl⟩⟩
  · have hsize := h.size_eq
    rw [← List.length_pos_iff] at hnodes ⊢
    rw [size, size] at hsize
    omega
  · intro i hi
    obtain ⟨ls, hls⟩ := hall i (h.preorder_eq ▸ hi)
    rw [h.nodeLines_eq, hls]
    exact ⟨_, rfl⟩

end AddsRule

end DocumentTree

/-! ## The analysis -/

def Session.unread? (p : ProseLine) : Option CharacterReference.Overlong :=
  match cleanLine p.location with
  | .error x => some x
  | .ok _ => none

theorem Session.unread?_eq_none_iff {p : ProseLine} : unread? p = none ↔ IsReadable p := by
  unfold unread? IsReadable
  cases cleanLine p.location <;> simp

theorem Session.unread?_eq_some_iff {p : ProseLine} {x : CharacterReference.Overlong} :
    unread? p = some x ↔ cleanLine p.location = .error x := by
  unfold unread?
  cases cleanLine p.location <;> simp

namespace OneMore

open Session

variable {auxiliaries : List Engine} {r : Text} {covers : Nat → Prop}

section Line

variable {line line' : Nat × ProseLine}

theorem cleaned_eq (h : OneMore r covers line line') : cleaned line'.2 = cleaned line.2 := by
  rw [cleaned, h.location_eq, cleaned]

theorem checkedText_eq (h : OneMore r covers line line') :
    checkedText line'.2 = checkedText line.2 := by
  rw [checkedText, h.cleaned_eq, checkedText]

theorem heard_eq (h : OneMore r covers line line') (e : Engine) :
    heard e line'.2 = heard e line.2 := by
  rw [heard, h.checkedText_eq, h.location_eq, heard]

theorem unread?_eq (h : OneMore r covers line line') : unread? line'.2 = unread? line.2 := by
  rw [unread?, h.location_eq, unread?]

theorem engineAfter_eq (h : OneMore r covers line line') (e : Engine) :
    engineAfter e line'.2 = engineAfter e line.2 := by
  rw [engineAfter, h.checkedText_eq, engineAfter]

theorem issueOf_eq (h : OneMore r covers line line') (m : RuleMatch) :
    issueOf line'.2 m = issueOf line.2 m := by
  rw [issueOf, h.checkedText_eq, h.location_eq, issueOf]

open Classical in
theorem survivors_eq (h : OneMore r covers line line') (ms : List RuleMatch) :
    survivors line'.2 ms =
      (survivors line.2 ms).filter fun m => ¬(m.ruleId = r ∧ covers line.1) := by
  rw [survivors, survivors, surviving, surviving, h.cleaned_eq, List.filter_filter]
  apply List.filter_congr
  intro m _
  -- The exempt regions are the same; only what the block ignores differs.
  have hcontains : line'.2.ignored.contains m.ruleId =
      (line.2.ignored.contains m.ruleId || decide (m.ruleId = r ∧ covers line.1)) := by
    rw [Bool.eq_iff_iff]
    simp only [List.contains_iff_mem, Bool.or_eq_true, decide_eq_true_eq]
    exact h.mem_ignored m.ruleId
  rw [hcontains]
  by_cases hsuppressed : m.ruleId = r ∧ covers line.1 <;> simp [hsuppressed]

open Classical in
theorem lineFindings_eq (h : OneMore r covers line line') (ms : List RuleMatch) :
    lineFindings auxiliaries line'.1 line'.2 ms =
      (lineFindings auxiliaries line.1 line.2 ms).filter fun f =>
        ¬(f.found.ruleId = r ∧ covers f.node) := by
  rw [h.node_eq, lineFindings_filter (funext h.issueOf_eq) (h.survivors_eq ms)]
  apply List.filter_congr
  intro f hf
  rw [lineFindings_node hf]

end Line

/-! ## All lines -/

section Lines

variable {lines lines' : List (Nat × ProseLine)}

theorem engineAfterAll_eq (h : List.Forall₂ (OneMore r covers) lines lines') (e : Engine) :
    engineAfterAll e lines' = engineAfterAll e lines := by
  induction h generalizing e with
  | nil => rfl
  | @cons line line' lines lines' hline _ ih =>
      rw [engineAfterAll, List.foldl_cons, hline.engineAfter_eq, ← engineAfterAll, ih]
      rfl

theorem passes (h : List.Forall₂ (OneMore r covers) lines lines') {e : Engine}
    (hpasses : Passes auxiliaries e lines) : Passes auxiliaries e lines' := by
  induction h generalizing e with
  | nil => exact hpasses
  | @cons line line' lines lines' hline _ ih =>
      obtain ⟨⟨ms, hheard, hsettled⟩, hrest⟩ := hpasses
      refine ⟨⟨ms, by rw [hline.heard_eq, hheard], fun m hm => ?_⟩, ?_⟩
      · rw [hline.survivors_eq] at hm
        obtain ⟨i, hi, hverdict⟩ := hsettled m (List.mem_of_mem_filter hm)
        exact ⟨i, by rw [hline.issueOf_eq, hi], hverdict⟩
      · rw [hline.engineAfter_eq]
        exact ih hrest

open Classical in
theorem findingsFrom_eq (h : List.Forall₂ (OneMore r covers) lines lines') (e : Engine) :
    findingsFrom auxiliaries e lines' =
      (findingsFrom auxiliaries e lines).filter fun f => ¬(f.found.ruleId = r ∧ covers f.node) := by
  induction h generalizing e with
  | nil => rfl
  | @cons line line' lines lines' hline _ ih =>
      rw [findingsFrom, findingsFrom, List.filter_append, hline.heard_eq, hline.lineFindings_eq,
        hline.engineAfter_eq, ih]

theorem findSome?_unread? (h : List.Forall₂ (OneMore r covers) lines lines') :
    (lines'.map Prod.snd).findSome? unread? = (lines.map Prod.snd).findSome? unread? := by
  induction h with
  | nil => rfl
  | cons hline _ ih => simp only [List.map_cons, List.findSome?_cons, hline.unread?_eq, ih]

theorem foldl_takeWhile_unread? (h : List.Forall₂ (OneMore r covers) lines lines') (e : Engine) :
    ((lines'.map Prod.snd).takeWhile fun p => (unread? p).isNone).foldl engineAfter e =
      ((lines.map Prod.snd).takeWhile fun p => (unread? p).isNone).foldl engineAfter e := by
  induction h generalizing e with
  | nil => rfl
  | @cons line line' lines lines' hline _ ih =>
      simp only [List.map_cons, List.takeWhile_cons, hline.unread?_eq]
      split
      · rw [List.foldl_cons, List.foldl_cons, hline.engineAfter_eq, ih]
      · rfl

end Lines

end OneMore

/-! ## Analyses that succeed -/

namespace Session

theorem exists_askAll_ok (i : Issue) {es : List Engine} (h : ∀ e ∈ es, e.tool.Dependable) :
    ∃ accepted, (askAll i es).outcome = .ok accepted := by
  induction es with
  | nil => exact ⟨false, rfl⟩
  | cons e es ih =>
      simp only [List.forall_mem_cons] at h
      obtain ⟨accepted, haccepted⟩ := Engine.exists_acceptsWord_ok h.1 i.offendingText
      obtain ⟨rest, hrest⟩ := ih h.2
      unfold askAll
      cases accepted with
      | true => exact ⟨true, by simp [haccepted]⟩
      | false => exact ⟨rest, by simp [haccepted, hrest]⟩

section Dependable

variable {auxiliaries : List Engine} (haux : ∀ e ∈ auxiliaries, e.tool.Dependable)

include haux

theorem exists_verdict_ok (i : Issue) : ∃ b, verdict auxiliaries i = .ok b := by
  unfold verdict
  split
  · exact exists_askAll_ok i haux
  · exact ⟨false, rfl⟩

theorem exists_heard_ok {e : Engine} (h : e.tool.Dependable) {p : ProseLine}
    (hread : IsReadable p) :
    (∃ ms, heard e p = .ok ms ∧ ∀ m ∈ survivors p ms, Settled auxiliaries p m) ∧
      (engineAfter e p).tool.Dependable := by
  simp only [heard_eq_ok_iff, and_iff_right hread]
  unfold engineAfter
  cases hblank : (checkedText p).isAllBlank with
  | true =>
      refine ⟨⟨[], rfl, ?_⟩, h⟩
      intro m hm
      simp [survivors, surviving] at hm
  | false =>
      obtain ⟨ms, hms, hids, hdependable⟩ := Engine.exists_check_ok h (checkedText p)
      refine ⟨⟨ms, hms, ?_⟩, hdependable⟩
      intro m hm
      have hid := hids m (List.mem_of_mem_filter hm)
      exact ⟨_, by rw [issueOf, Issue.ofMatch, if_neg (by simpa using hid)],
        exists_verdict_ok haux _⟩

/-- Dependable tools fail on no line: the first line that cannot be read ends the check. -/
theorem checkLines_of_dependable (hsteady : ∀ e ∈ auxiliaries, e.IsSteady) {s : Session}
    (hagree : AllAgree auxiliaries s.auxiliaries) (h : s.engine.tool.Dependable)
    (lines : List ProseLine) :
    (s.checkLines lines).outcome =
        (match lines.findSome? unread? with
        | some x => .error (.number x)
        | none => .ok ()) ∧
      (s.checkLines lines).session.engine =
        (lines.takeWhile fun p => (unread? p).isNone).foldl engineAfter s.engine := by
  induction lines generalizing s with
  | nil => exact ⟨rfl, rfl⟩
  | cons p lines ih =>
      cases hunread : unread? p with
      | some x =>
          have hread := unread?_eq_some_iff.1 hunread
          simp [checkLines, checkLine, hread, hunread]
      | none =>
          obtain ⟨⟨ms, hheard, hsettled⟩, hdependable⟩ :=
            exists_heard_ok haux h (unread?_eq_none_iff.1 hunread)
          obtain ⟨hengine, -, haux', hspec⟩ := checkLine_spec hsteady hagree 0 p
          have hline := (hspec _).2 ⟨ms, hheard, hsettled, rfl⟩
          obtain ⟨houtcome, hsession⟩ := checkLines_of_ok hline lines
          obtain ⟨hrest, hlast⟩ := ih (s := s.afterLine p _) haux' (hengine ▸ hdependable)
          rw [show (s.afterLine p _).engine = _ from hengine] at hlast
          rw [houtcome, hsession, hrest, hlast]
          simp [hunread]

end Dependable

theorem analyzeTree_of_dependable {s : Session} (haux : ∀ e ∈ s.auxiliaries, e.tool.Dependable)
    (hsteady : ∀ e ∈ s.auxiliaries, e.IsSteady) (h : s.engine.tool.Dependable) {t : DocumentTree}
    {lines : List ProseLine} (hwalk : t.walk suppressionAttribute = .ok lines) :
    (s.analyzeTree t).session.engine =
        (lines.takeWhile fun p => (unread? p).isNone).foldl engineAfter s.engine ∧
      (∀ x, lines.findSome? unread? = some x → (s.analyzeTree t).outcome = .error (.number x)) ∧
      (lines.findSome? unread? = none → ∃ result, (s.analyzeTree t).outcome = .ok result) := by
  obtain ⟨houtcome, hengine⟩ := checkLines_of_dependable haux hsteady
    (s := { s with issues := [] }) (allAgree_refl s.auxiliaries) h lines
  simp only [analyzeTree, hwalk, houtcome, hengine]
  refine ⟨trivial, fun x hx => ?_, fun hnone => ?_⟩
  · rw [hx]
    rfl
  · rw [hnone]
    exact ⟨_, rfl⟩

/-! ## Two analyses -/

open Classical in
/-- When a block names one more rule, an analysis that succeeded still does.  Its engine
ends in the same state: it was asked about the same texts, and the same rules are off.
The catalogue is the same, and of the issues exactly those are missing that were built
from matches of the rule in the block and below it.  If all tools are dependable and the
document can be walked, the analysis does succeed, unless a line cannot be read; then both
analyses end there. -/
theorem analyzeTree_of_addsRule (s : Session) {t t' : DocumentTree} {x : Nat} {r : Text}
    (hlinked : t.Linked) (hadds : t.AddsRule t' suppressionAttribute x r)
    (hsteady : ∀ e ∈ s.auxiliaries, e.IsSteady) :
    (∀ result, (s.analyzeTree t).outcome = .ok result →
      ∃ result', (s.analyzeTree t').outcome = .ok result' ∧
        (s.analyzeTree t').session.engine = (s.analyzeTree t).session.engine ∧
        result'.catalog = result.catalog ∧
        result.issues = (s.findings t).map Finding.issue ∧
        result'.issues = ((s.findings t).filter fun f =>
          ¬(f.found.ruleId = r ∧ t.Below x f.node)).map Finding.issue) ∧
    ∀ lines, t.walk suppressionAttribute = .ok lines → (∀ tool ∈ s.tools, tool.Dependable) →
      ((∀ p ∈ lines, IsReadable p) → ∃ result, (s.analyzeTree t).outcome = .ok result) ∧
      ((∃ p ∈ lines, ¬ IsReadable p) → ∃ x, (s.analyzeTree t).outcome = .error (.number x) ∧
        (s.analyzeTree t').outcome = .error (.number x) ∧
        (s.analyzeTree t').session.engine = (s.analyzeTree t).session.engine) := by
  have hlines := hadds.placedLines_oneMore hlinked
  constructor
  · intro result hresult
    obtain ⟨hwalk, hpasses⟩ := passes_of_analyzeTree hsteady hresult
    obtain ⟨hengine, houtcome⟩ := analyzeTree_of_passes hsteady hwalk hpasses
    obtain ⟨hengine', houtcome'⟩ := analyzeTree_of_passes hsteady (hadds.exists_walk_ok hwalk)
      (OneMore.passes hlines hpasses)
    obtain rfl := Except.ok.inj (houtcome.symm.trans hresult)
    rw [OneMore.engineAfterAll_eq hlines] at hengine' houtcome'
    refine ⟨_, houtcome', hengine'.trans hengine.symm, rfl, rfl, ?_⟩
    rw [findings, findings, OneMore.findingsFrom_eq hlines]
  · intro lines hwalk htools
    simp only [tools, List.forall_mem_cons, List.forall_mem_map] at htools
    obtain ⟨lines', hwalk'⟩ := hadds.exists_walk_ok ⟨lines, hwalk⟩
    obtain ⟨-, -, rfl⟩ := DocumentTree.walk_eq_ok_iff.1 hwalk
    obtain ⟨-, -, rfl⟩ := DocumentTree.walk_eq_ok_iff.1 hwalk'
    obtain ⟨hengine, hfails, hsucceeds⟩ :=
      analyzeTree_of_dependable htools.2 hsteady htools.1 hwalk
    obtain ⟨hengine', hfails', -⟩ := analyzeTree_of_dependable htools.2 hsteady htools.1 hwalk'
    rw [OneMore.foldl_takeWhile_unread? hlines, ← hengine] at hengine'
    rw [OneMore.findSome?_unread? hlines] at hfails'
    constructor
    · intro hreadable
      exact hsucceeds (List.findSome?_eq_none_iff.2 fun p hp =>
        unread?_eq_none_iff.2 (hreadable p hp))
    · rintro ⟨p, hp, hunreadable⟩
      cases hfirst : ((t.placedLines suppressionAttribute).map Prod.snd).findSome? unread? with
      | none =>
          have hread := List.findSome?_eq_none_iff.1 hfirst p hp
          exact absurd (unread?_eq_none_iff.1 hread) hunreadable
      | some x => exact ⟨x, hfails x hfirst, hfails' x hfirst, hengine'⟩

open Classical in
/-- A rule is named by a quotation.  Its match after the quotation is still reported, and
so is the spelling that the auxiliary engine does not accept. -/
theorem analyzeTree_of_addsRule_quotation :
    let answer (ruleId : Text) (offset : Int) : Answer :=
      ⟨.text ruleId, .null, .null, .int offset, .int 3, .null, .null⟩
    let tool (respond : List Text → Text → Response) : Tool :=
      { language := some "en", options := .none, isCloseable := true, disabledRules := []
        enabledCategories := [], isRestricted := false, history := [], respond }
    let first := tool fun _ _ => .answers [answer "RULE" 0, answer "SPELLING_RULE" 4]
    let second := tool fun _ text =>
      .answers (if text = ['d', 'o', 'g'] then [] else [answer "SPELLING_RULE" 0])
    let s : Session := .start (.start first none [] false) [.start second none [] true]
    let path := Path.ofText "pets.md"
    let events := Markdown.Event.wrap .quote 0 1 [] [.block (.paragraph "teh cat") 0 1] ++
      [.block (.paragraph "teh dog") 2 3]
    let t := (DocumentTree.ofEvents? path id events).getD (.empty path)
    let t' := t.nameRule suppressionAttribute 1 "RULE"
    ∃ result result', (s.analyzeTree t).outcome = .ok result ∧
      (s.analyzeTree t').outcome = .ok result' ∧
      (s.analyzeTree t').session.engine = (s.analyzeTree t).session.engine ∧
      result.issues.map (fun i => (i.ruleId, i.line)) =
        ([("RULE", 1), ("SPELLING_RULE", 1), ("RULE", 3)] : List (Text × Nat)) ∧
      result'.issues.map (fun i => (i.ruleId, i.line)) =
        ([("SPELLING_RULE", 1), ("RULE", 3)] : List (Text × Nat)) ∧
      result'.issues = ((s.findings t).filter fun f =>
        ¬(f.found.ruleId = ("RULE" : Text) ∧ t.Below 1 f.node)).map Finding.issue := by
  intro answer tool first second s path events t t'
  have hsummary : (s.analyzeTree t).outcome.toOption.map
      (fun result => result.issues.map fun i => (i.ruleId, i.line)) =
        some ([("RULE", 1), ("SPELLING_RULE", 1), ("RULE", 3)] : List (Text × Nat)) := by
    decide +kernel
  have hsummary' : (s.analyzeTree t').outcome.toOption.map
      (fun result => result.issues.map fun i => (i.ruleId, i.line)) =
        some ([("SPELLING_RULE", 1), ("RULE", 3)] : List (Text × Nat)) := by
    decide +kernel
  have hfolded : DocumentTree.ofEvents? path id events = some t := rfl
  have hlinked := DocumentTree.linked_of_ofEvents? hfolded
  have hadds : t.AddsRule t' suppressionAttribute 1 "RULE" :=
    DocumentTree.addsRule_nameRule suppressionAttribute (by decide) (by decide)
  have hsteady : ∀ e ∈ s.auxiliaries, e.IsSteady := by
    intro e he
    obtain rfl := List.mem_singleton.1 he
    exact ⟨rfl, fun _ _ => rfl⟩
  have hdependable : ∀ asked ∈ s.tools, asked.Dependable := by
    intro asked hasked
    have hrule : ∀ a ∈ [answer "RULE" 0, answer "SPELLING_RULE" 4, answer "SPELLING_RULE" 0],
        ∃ m, RuleMatch.ofAnswer a = .ok m ∧ m.ruleId.trim ≠ [] := by
      simp only [List.forall_mem_cons]
      exact ⟨⟨_, rfl, by decide⟩, ⟨_, rfl, by decide⟩, ⟨_, rfl, by decide⟩, by simp⟩
    rcases List.mem_cons.1 hasked with rfl | hasked
    · exact fun _ _ => ⟨_, rfl, fun a ha => hrule a (List.mem_of_mem_take (i := 2) ha)⟩
    · obtain rfl := List.mem_singleton.1 hasked
      intro before text
      refine ⟨_, rfl, fun a ha => hrule a ?_⟩
      split at ha
      · simp at ha
      · exact List.mem_of_mem_drop (i := 2) ha
  obtain ⟨hkeeps, hsucceeds⟩ := analyzeTree_of_addsRule s hlinked hadds hsteady
  obtain ⟨lines, hwalk⟩ : ∃ lines, t.walk suppressionAttribute = .ok lines := ⟨_, rfl⟩
  have hreadable : ∀ p ∈ lines, IsReadable p := by
    obtain rfl := Except.ok.inj hwalk
    simp only [← unread?_eq_none_iff]
    decide +kernel
  obtain ⟨result, hresult⟩ := (hsucceeds lines hwalk hdependable).1 hreadable
  obtain ⟨result', hresult', hengine, -, -, hfilter⟩ := hkeeps result hresult
  obtain ⟨summarized, hsummarized, hissues⟩ := Option.map_eq_some_iff.1 hsummary
  obtain ⟨summarized', hsummarized', hissues'⟩ := Option.map_eq_some_iff.1 hsummary'
  obtain rfl := Except.ok.inj ((eq_ok_of_toOption hsummarized).symm.trans hresult)
  obtain rfl := Except.ok.inj ((eq_ok_of_toOption hsummarized').symm.trans hresult')
  exact ⟨_, _, hresult, hresult', hengine, hissues, hissues', hfilter⟩

end Session

end Proofreader
