import Proofreader.Proofs.Engine.Repetition
import Proofreader.Proofs.Session.Findings

/-!
# Analyzing a document again

A session that analyzes a document a second time starts with the rules off that the
first analysis switched off at any point of it.  The second analysis reports what the
first one did, less the matches of those rules, and each further one repeats the second.
-/

namespace Proofreader.Session

open Engine (Precedes SameButCalls)

variable {auxiliaries : List Engine} {e final e' : Engine}

/-! ## One line -/

theorem precedes_engineAfter {p : ProseLine} {ms : List RuleMatch} (h : heard e p = .ok ms) :
    Precedes e (engineAfter e p) := by
  rcases blank_or_check_of_heard h with ⟨-, hafter⟩ | ⟨hcheck, hafter⟩
  · rw [hafter]
    exact .refl e
  · rw [hafter]
    exact Engine.precedes_check hcheck

theorem heard_again (hmemoryless : e.tool.Memoryless) {p : ProseLine} {ms : List RuleMatch}
    (h : heard e p = .ok ms) (hfinal : Precedes (engineAfter e p) final)
    (hsame : SameButCalls final e') :
    heard e' p = .ok (ms.filter fun m => !final.isDisabled m.ruleId) ∧
      SameButCalls final (engineAfter e' p) := by
  obtain ⟨hread, h⟩ := heard_eq_ok_iff.1 h
  rw [heard_eq_ok_iff, and_iff_right hread]
  unfold engineAfter at *
  split at h
  · rw [if_pos ‹_›, if_pos ‹_›, h]
    exact ⟨rfl, hsame⟩
  · rw [if_neg ‹_›] at hfinal
    rw [if_neg ‹_›, if_neg ‹_›]
    exact Engine.check_again hmemoryless h hfinal hsame

theorem survivors_filter (p : ProseLine) (ms : List RuleMatch) (q : RuleMatch → Bool) :
    survivors p (ms.filter q) = (survivors p ms).filter q := by
  rw [survivors, survivors, surviving, surviving, List.filter_filter, List.filter_filter]
  apply List.filter_congr
  simp [Bool.and_comm]

/-! ## All lines -/

theorem precedes_engineAfterAll {lines : List (Nat × ProseLine)}
    (h : Passes auxiliaries e lines) : Precedes e (engineAfterAll e lines) := by
  induction lines generalizing e with
  | nil => exact .refl e
  | cons line lines ih =>
      obtain ⟨⟨ms, hheard, -⟩, hrest⟩ := h
      exact (precedes_engineAfter hheard).trans (ih hrest)

/-- Lines that passed before, on the way to the engine `final`, pass again.  What is off
in the end is off from the beginning this time, wherever on the lines it went off. -/
theorem findingsFrom_again (hmemoryless : e.tool.Memoryless) {lines : List (Nat × ProseLine)}
    (h : Passes auxiliaries e lines) (hfinal : Precedes (engineAfterAll e lines) final)
    (hsame : SameButCalls final e') :
    Passes auxiliaries e' lines ∧ SameButCalls final (engineAfterAll e' lines) ∧
      findingsFrom auxiliaries e' lines =
        (findingsFrom auxiliaries e lines).filter fun f => !final.isDisabled f.found.ruleId := by
  induction lines generalizing e e' with
  | nil => exact ⟨trivial, hsame, rfl⟩
  | cons line lines ih =>
      obtain ⟨node, p⟩ := line
      obtain ⟨⟨ms, hheard, hsettled⟩, hrest⟩ := h
      have hfirst := precedes_engineAfter hheard
      obtain ⟨hheard', hsame'⟩ :=
        heard_again hmemoryless hheard ((precedes_engineAfterAll hrest).trans hfinal) hsame
      obtain ⟨hpasses, hlast, hfindings⟩ := ih (hfirst.memoryless hmemoryless) hrest hfinal hsame'
      have hsurvivors := survivors_filter p ms fun m => !final.isDisabled m.ruleId
      refine ⟨⟨⟨_, hheard', fun m hm => hsettled m ?_⟩, hpasses⟩, hlast, ?_⟩
      · rw [hsurvivors] at hm
        exact List.mem_of_mem_filter hm
      · rw [findingsFrom, findingsFrom, hheard, hheard', hfindings, List.filter_append]
        congr 1
        exact lineFindings_filter rfl hsurvivors

/-! ## Documents -/

/-- The second analysis of a document succeeds if the first one did.  It returns the same
catalogue and those issues of the first one whose rules are still on, and it changes
nothing in the engine, so that the third analysis returns what the second one did. -/
theorem analyze_again (s : Session) (source : Text) (path : Path)
    (hsteady : ∀ e ∈ s.auxiliaries, e.IsSteady) (hmemoryless : s.engine.tool.Memoryless)
    {result : AnalysisResult} (h : (s.analyze source path).outcome = .ok result) :
    let again := (s.analyze source path).session
    let third := (again.analyze source path).session
    ∃ t, Document.load path source = .ok t ∧
      result.issues = (s.findings t).map Finding.issue ∧
      (again.analyze source path).outcome = .ok
        ⟨((s.findings t).filter fun f =>
          !again.engine.isDisabled f.found.ruleId).map Finding.issue, result.catalog⟩ ∧
      SameButCalls again.engine third.engine ∧
      (third.analyze source path).outcome = (again.analyze source path).outcome := by
  intro again third
  cases hload : Document.load path source with
  | error f => simp [analyze, hload, analyzeLoaded] at h
  | ok t =>
      have hanalyze : ∀ s : Session, s.analyze source path = s.analyzeTree t := by
        intro s
        rw [analyze, hload, analyzeLoaded]
      simp only [again, third, hanalyze] at h ⊢
      obtain ⟨hwalk, hpasses⟩ := passes_of_analyzeTree hsteady h
      obtain ⟨hengine, haux, houtcome⟩ :=
        analyzeTree_spec hsteady (allAgree_refl s.auxiliaries) hwalk hpasses
      obtain rfl := Except.ok.inj (houtcome.symm.trans h)
      -- Both repetitions are compared with the first analysis.
      have hagain := findingsFrom_again hmemoryless hpasses (.refl _) (.refl _)
      rw [← hengine] at hagain
      obtain ⟨hpasses', hsame', hfindings'⟩ := hagain
      obtain ⟨hengine', haux', houtcome'⟩ := analyzeTree_spec hsteady haux hwalk hpasses'
      rw [← hengine'] at hsame'
      obtain ⟨hpasses'', hsame'', hfindings''⟩ :=
        findingsFrom_again hmemoryless hpasses (.refl _) (hengine ▸ hsame')
      obtain ⟨-, -, houtcome''⟩ := analyzeTree_spec hsteady haux' hwalk hpasses''
      refine ⟨t, rfl, rfl, ?_, hsame', ?_⟩
      · rw [houtcome', hfindings', ← hengine', hsame'.activeRules_eq, hengine]
        rfl
      · rw [houtcome'', houtcome', hfindings'', hfindings', hsame''.activeRules_eq, ← hengine',
          hsame'.activeRules_eq, hengine]

/-- A rule speaks on the first line, where a spelling is accepted by the auxiliary engine,
and is switched off on the last one.  Its issue is gone the second time. -/
theorem analyze_again_switched_off :
    let answer (ruleId : Text) (offset : Int) : Answer :=
      ⟨.text ruleId, .null, .null, .int offset, .int 3, .null, .null⟩
    let tool (respond : List Text → Text → Response) : Tool :=
      { language := some "en", options := .none, isCloseable := true, disabledRules := []
        enabledCategories := [], isRestricted := false, history := [], respond }
    let first := tool fun _ _ => .answers
      [answer "RULE" 0, answer "SPELLING_RULE" 4, answer "OTHER" 4]
    let second := tool fun _ text =>
      .answers (if text = ['d', 'o', 'g'] then [] else [answer "SPELLING_RULE" 0])
    let s : Session := .start (.start first none ["API"] false) [.start second none [] true]
    let path := Path.ofText "pets.md"
    let source : Text := "teh dog\n\nAPI cat"
    let again := (s.analyze source path).session
    ∃ result t, (s.analyze source path).outcome = .ok result ∧
      again.engine.disabledRules = ["RULE"] ∧
      result.issues.map (fun i => (i.ruleId, i.line)) =
        ([("RULE", 1), ("OTHER", 1), ("SPELLING_RULE", 3), ("OTHER", 3)] : List (Text × Nat)) ∧
      (again.analyze source path).outcome = .ok
        ⟨((s.findings t).filter fun f =>
          !again.engine.isDisabled f.found.ruleId).map Finding.issue, result.catalog⟩ := by
  intro answer tool first second s path source again
  have hsummary : (s.analyze source path).outcome.toOption.map
      (fun result => result.issues.map fun i => (i.ruleId, i.line)) =
        some ([("RULE", 1), ("OTHER", 1), ("SPELLING_RULE", 3), ("OTHER", 3)] :
          List (Text × Nat)) := by
    decide +kernel
  have hoff : again.engine.disabledRules = ["RULE"] := by decide +kernel
  have hsteady : ∀ e ∈ s.auxiliaries, e.IsSteady := by
    intro e he
    obtain rfl := List.mem_singleton.1 he
    exact ⟨rfl, fun _ _ => rfl⟩
  obtain ⟨result, hresult, hissues⟩ := Option.map_eq_some_iff.1 hsummary
  have hok := eq_ok_of_toOption hresult
  obtain ⟨t, -, -, hagain, -⟩ := analyze_again s source path hsteady (fun _ _ => rfl) hok
  exact ⟨result, t, hok, hoff, hissues, hagain⟩

end Proofreader.Session
