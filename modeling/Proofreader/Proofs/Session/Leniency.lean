import Proofreader.Proofs.Engine.Leniency
import Proofreader.Proofs.Session.Repetition

/-!
# Sessions that ignore more

Two sessions that differ in their own engines alone analyze the same document.  If the
engine of the second is more lenient, it is so at every point of the analysis, and the
second session reports a part of what the first one does, in the same order.
-/

namespace Proofreader.Session

open Engine (MoreLenient)

/-! ## The engine on its way -/

def lineTrail (e : Engine) (p : ProseLine) : List Engine :=
  if (checkedText p).isAllBlank then [e] else e.trail (checkedText p)

def engineTrail : Engine → List ProseLine → List Engine
  | e, [] => [e]
  | e, p :: rest => lineTrail e p ++ engineTrail (engineAfter e p) rest

theorem getLast?_engineTrail (e : Engine) (lines : List (Nat × ProseLine)) :
    (engineTrail e (lines.map Prod.snd)).getLast? = some (engineAfterAll e lines) := by
  induction lines generalizing e with
  | nil => rfl
  | cons line lines ih =>
      rw [List.map_cons, engineTrail, List.getLast?_append, ih]
      rfl

/-! ## One line -/

section Lines

variable {auxiliaries : List Engine} {e e' : Engine}

theorem moreLenient_line (h : MoreLenient e e') (hmemoryless : e.tool.Memoryless) {p : ProseLine}
    {ms ms' : List RuleMatch} (hheard : heard e p = .ok ms) (hheard' : heard e' p = .ok ms') :
    List.Forall₂ MoreLenient (lineTrail e p) (lineTrail e' p) ∧
      MoreLenient (engineAfter e p) (engineAfter e' p) ∧ ms'.Sublist ms := by
  obtain ⟨-, hheard⟩ := heard_eq_ok_iff.1 hheard
  obtain ⟨-, hheard'⟩ := heard_eq_ok_iff.1 hheard'
  unfold lineTrail engineAfter
  cases hblank : (checkedText p).isAllBlank with
  | true =>
      simp only [hblank, if_true] at hheard hheard' ⊢
      rw [hheard, hheard']
      exact ⟨.cons h .nil, h, .refl _⟩
  | false =>
      simp only [hblank, Bool.false_eq_true, if_false] at hheard hheard' ⊢
      exact h.check hmemoryless hheard hheard'

/-- What becomes of a match on a line depends on the match alone. -/
theorem lineFindings_sublist (node : Nat) (p : ProseLine) {ms ms' : List RuleMatch}
    (h : ms'.Sublist ms) :
    (lineFindings auxiliaries node p ms').Sublist (lineFindings auxiliaries node p ms) := by
  have hsurvivors : (survivors p ms').Sublist (survivors p ms) := h.filter _
  exact (hsurvivors.filterMap _).filter _

/-! ## All lines -/

theorem moreLenient_lines (h : MoreLenient e e') (hmemoryless : e.tool.Memoryless)
    {lines : List (Nat × ProseLine)} (hpasses : Passes auxiliaries e lines)
    (hpasses' : Passes auxiliaries e' lines) :
    List.Forall₂ MoreLenient (engineTrail e (lines.map Prod.snd))
        (engineTrail e' (lines.map Prod.snd)) ∧
      (findingsFrom auxiliaries e' lines).Sublist (findingsFrom auxiliaries e lines) := by
  induction lines generalizing e e' with
  | nil => exact ⟨.cons h .nil, .slnil⟩
  | cons line lines ih =>
      obtain ⟨node, p⟩ := line
      obtain ⟨⟨ms, hheard, -⟩, hrest⟩ := hpasses
      obtain ⟨⟨ms', hheard', -⟩, hrest'⟩ := hpasses'
      obtain ⟨htrail, hafter, hreturned⟩ := moreLenient_line h hmemoryless hheard hheard'
      have hmemoryless' := (precedes_engineAfter hheard).memoryless hmemoryless
      obtain ⟨htrails, hfindings⟩ := ih hafter hmemoryless' hrest hrest'
      constructor
      · exact List.rel_append htrail htrails
      · rw [findingsFrom, findingsFrom, hheard, hheard']
        exact (lineFindings_sublist node p hreturned).append hfindings

end Lines

/-! ## Two analyses -/

/-- If both analyses succeed, the issues of the lenient session are a sublist of those of
the stricter one, and whatever is off in the stricter engine is off in the lenient engine
at the same point. -/
theorem analyzeTree_of_moreLenient (s s' : Session) (t : DocumentTree)
    (hmore : MoreLenient s.engine s'.engine) (hsame : s'.auxiliaries = s.auxiliaries)
    (hsteady : ∀ e ∈ s.auxiliaries, e.IsSteady) (hmemoryless : s.engine.tool.Memoryless)
    {result result' : AnalysisResult} (h : (s.analyzeTree t).outcome = .ok result)
    (h' : (s'.analyzeTree t).outcome = .ok result') :
    result'.issues.Sublist result.issues ∧
      ∃ lines, t.walk suppressionAttribute = .ok lines ∧
        List.Forall₂ (fun e e' => e.disabledRules ⊆ e'.disabledRules)
          (engineTrail s.engine lines) (engineTrail s'.engine lines) ∧
        (engineTrail s.engine lines).getLast? = some (s.analyzeTree t).session.engine ∧
        (engineTrail s'.engine lines).getLast? = some (s'.analyzeTree t).session.engine := by
  have hsteady' : ∀ e ∈ s'.auxiliaries, e.IsSteady := hsame ▸ hsteady
  obtain ⟨hwalk, hpasses⟩ := passes_of_analyzeTree hsteady h
  obtain ⟨-, hpasses'⟩ := passes_of_analyzeTree hsteady' h'
  obtain ⟨hengine, houtcome⟩ := analyzeTree_of_passes hsteady hwalk hpasses
  obtain ⟨hengine', houtcome'⟩ := analyzeTree_of_passes hsteady' hwalk hpasses'
  obtain rfl := Except.ok.inj (houtcome.symm.trans h)
  obtain rfl := Except.ok.inj (houtcome'.symm.trans h')
  rw [hsame] at hpasses'
  obtain ⟨htrails, hfindings⟩ := moreLenient_lines hmore hmemoryless hpasses hpasses'
  obtain ⟨lines, hlines⟩ := hwalk
  obtain ⟨-, -, rfl⟩ := DocumentTree.walk_eq_ok_iff.1 hlines
  constructor
  · rw [findings, findings, hsame]
    exact hfindings.map _
  · refine ⟨_, hlines, ?_, ?_, ?_⟩
    · exact htrails.imp fun e e' hlenient => hlenient.disabledRules_subset
    · rw [getLast?_engineTrail, hengine]
    · rw [getLast?_engineTrail, hengine']

/-- Only the second session ignores the term that a rule objects to first, so only there
the rule goes off.  Another rule is off in the second session from the beginning. -/
theorem analyzeTree_of_moreLenient_term :
    let answer (ruleId : Text) (offset : Int) : Answer :=
      ⟨.text ruleId, .null, .null, .int offset, .int 3, .null, .null⟩
    let tool (respond : List Text → Text → Response) : Tool :=
      { language := some "en", options := .none, isCloseable := true, disabledRules := []
        enabledCategories := [], isRestricted := false, history := [], respond }
    let first := tool fun _ _ => .answers
      [answer "RULE" 0, answer "SPELLING_RULE" 4, answer "OTHER" 4]
    let second := tool fun _ text =>
      .answers (if text = ['d', 'o', 'g'] then [] else [answer "SPELLING_RULE" 0])
    let session (terms rules : List Text) : Session :=
      .start (.start { first with disabledRules := rules } none terms false)
        [.start second none [] true]
    let s := session [] []
    let s' := session ["API"] ["OTHER"]
    let path := Path.ofText "pets.md"
    let t := (DocumentTree.ofEvents? path id
      [.block (.paragraph "API cat") 0 1, .block (.paragraph "teh dog") 2 3]).getD (.empty path)
    ∃ result result', (s.analyzeTree t).outcome = .ok result ∧
      (s'.analyzeTree t).outcome = .ok result' ∧
      result.issues.map (fun i => (i.ruleId, i.line)) =
        ([("RULE", 1), ("SPELLING_RULE", 1), ("OTHER", 1), ("RULE", 3), ("OTHER", 3)] :
          List (Text × Nat)) ∧
      result'.issues.map (fun i => (i.ruleId, i.line)) =
        ([("SPELLING_RULE", 1)] : List (Text × Nat)) ∧
      (s.analyzeTree t).session.engine.disabledRules = [] ∧
      (s'.analyzeTree t).session.engine.disabledRules = ["OTHER", "RULE"] ∧
      result'.issues.Sublist result.issues ∧
      ∃ lines, t.walk suppressionAttribute = .ok lines ∧
        List.Forall₂ (fun e e' => e.disabledRules ⊆ e'.disabledRules)
          (engineTrail s.engine lines) (engineTrail s'.engine lines) := by
  intro answer tool first second session s s' path t
  have hsummary : (s.analyzeTree t).outcome.toOption.map
      (fun result => result.issues.map fun i => (i.ruleId, i.line)) =
        some ([("RULE", 1), ("SPELLING_RULE", 1), ("OTHER", 1), ("RULE", 3), ("OTHER", 3)] :
          List (Text × Nat)) := by
    decide +kernel
  have hsummary' : (s'.analyzeTree t).outcome.toOption.map
      (fun result => result.issues.map fun i => (i.ruleId, i.line)) =
        some ([("SPELLING_RULE", 1)] : List (Text × Nat)) := by
    decide +kernel
  have hoff : (s.analyzeTree t).session.engine.disabledRules = [] := by decide +kernel
  have hoff' : (s'.analyzeTree t).session.engine.disabledRules = ["OTHER", "RULE"] := by
    decide +kernel
  have hmore : MoreLenient s.engine s'.engine :=
    Engine.moreLenient_start first none false (List.nil_subset _) (List.nil_subset _)
  have hsteady : ∀ e ∈ s.auxiliaries, e.IsSteady := by
    intro e he
    obtain rfl := List.mem_singleton.1 he
    exact ⟨rfl, fun _ _ => rfl⟩
  obtain ⟨result, hresult, hissues⟩ := Option.map_eq_some_iff.1 hsummary
  obtain ⟨result', hresult', hissues'⟩ := Option.map_eq_some_iff.1 hsummary'
  have hok := eq_ok_of_toOption hresult
  have hok' := eq_ok_of_toOption hresult'
  obtain ⟨hsublist, lines, hlines, htrails, -, -⟩ :=
    analyzeTree_of_moreLenient s s' t hmore rfl hsteady (fun _ _ => rfl) hok hok'
  exact ⟨result, result', hok, hok', hissues, hissues', hoff, hoff', hsublist, lines, hlines,
    htrails⟩

end Proofreader.Session
