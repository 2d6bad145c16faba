import Proofreader.Proofs.Session.Findings

/-!
# Vetoes

Auxiliary engines that only look at spelling and always have an opinion take issues away
and do nothing else.  An issue is taken away if one of them accepts its word, whichever it
is and whatever they were asked before, so neither their order nor their number matters.
-/

namespace Proofreader

namespace Engine

def Opines (e : Engine) : Prop := ∀ word, ∃ accepted, (e.acceptsWord word).outcome = .ok accepted

def approves (e : Engine) (word : Text) : Bool := (e.acceptsWord word).outcome.toOption.getD false

theorem Opines.outcome_acceptsWord {e : Engine} (h : e.Opines) (word : Text) :
    (e.acceptsWord word).outcome = .ok (e.approves word) := by
  obtain ⟨accepted, haccepted⟩ := h word
  rw [approves, haccepted]
  rfl

/-- An engine that can give second opinions: they stay the same, and none is refused. -/
structure IsAdviser (e : Engine) : Prop where
  steady : e.IsSteady
  opines : e.Opines

end Engine

namespace Session

/-- A spelling with something to look at that at least one of the engines accepts. -/
def vetoed (auxiliaries : List Engine) (i : Issue) : Bool :=
  needsOpinion i && auxiliaries.any fun e => e.approves i.offendingText

/-! ## Verdicts -/

theorem outcome_askAll_of_opines (i : Issue) {es : List Engine} (h : ∀ e ∈ es, e.Opines) :
    (askAll i es).outcome = .ok (es.any fun e => e.approves i.offendingText) := by
  induction es with
  | nil => rfl
  | cons e es ih =>
      rw [List.forall_mem_cons] at h
      rw [askAll, List.any_cons]
      simp only [h.1.outcome_acceptsWord]
      cases e.approves i.offendingText with
      | true => rfl
      | false => exact ih h.2

variable {auxiliaries : List Engine}

theorem verdict_of_opines (h : ∀ e ∈ auxiliaries, e.Opines) (i : Issue) :
    verdict auxiliaries i = .ok (vetoed auxiliaries i) := by
  rw [verdict, vetoed]
  cases needsOpinion i with
  | true => exact outcome_askAll_of_opines i h
  | false => rfl

theorem vetoed_nil (i : Issue) : vetoed [] i = false := by simp [vetoed]

theorem vetoed_mono {others : List Engine} (h : auxiliaries ⊆ others) {i : Issue}
    (hi : vetoed auxiliaries i = true) : vetoed others i = true := by
  simp only [vetoed, Bool.and_eq_true, List.any_eq_true] at hi ⊢
  obtain ⟨hneeds, e, he, happroves⟩ := hi
  exact ⟨hneeds, e, h he, happroves⟩

theorem vetoed_congr {others : List Engine} (h : ∀ e, e ∈ others ↔ e ∈ auxiliaries) :
    vetoed others = vetoed auxiliaries := by
  funext i
  rw [Bool.eq_iff_iff]
  exact ⟨vetoed_mono fun e => (h e).1, vetoed_mono fun e => (h e).2⟩

def spared (auxiliaries : List Engine) (is : List Issue) : List Issue :=
  is.filter fun i => !vetoed auxiliaries i

theorem filterAccepted_of_advisers (h : ∀ e ∈ auxiliaries, e.IsAdviser) {s : Session}
    (hagree : AllAgree auxiliaries s.auxiliaries) (is : List Issue) :
    (s.filterAccepted is).outcome = .ok (spared auxiliaries is) := by
  have hverdict := verdict_of_opines fun e he => (h e he).opines
  obtain ⟨-, hkept⟩ := filterAccepted_spec (fun e he => (h e he).steady) hagree is
  refine (hkept _).2 ⟨fun i _ => ⟨_, hverdict i⟩, ?_⟩
  simp [spared, accepts, hverdict, Except.toOption]

theorem outcome_checkLine_of_advisers (h : ∀ e ∈ auxiliaries, e.IsAdviser) {s : Session}
    (hagree : AllAgree auxiliaries s.auxiliaries) (p : ProseLine) :
    (s.checkLine p).outcome = (drafted s.engine p).map (spared auxiliaries) := by
  have hline := checkLine_eq s p
  cases hdrafted : drafted s.engine p with
  | error e =>
      rw [hdrafted] at hline
      exact hline.1
  | ok is =>
      rw [hdrafted] at hline
      rw [hline.1]
      exact filterAccepted_of_advisers (s := { s with engine := engineAfter s.engine p }) h hagree is

/-! ## One session beside another -/

/-- The session `s` has the advisers, the session `alone` has none; beyond that, they
differ in the issues that a veto has taken away. -/
structure Trims (auxiliaries : List Engine) (alone s : Session) : Prop where
  alone_eq : alone.auxiliaries = []
  agree : AllAgree auxiliaries s.auxiliaries
  engine_eq : s.engine = alone.engine
  issues_eq : s.issues = spared auxiliaries alone.issues

theorem spared_append (is is' : List Issue) :
    spared auxiliaries (is ++ is') = spared auxiliaries is ++ spared auxiliaries is' :=
  List.filter_append is is'

namespace Trims

variable {alone s : Session}

theorem checkLine (h : ∀ e ∈ auxiliaries, e.IsAdviser) (htrims : Trims auxiliaries alone s)
    (p : ProseLine) :
    (s.checkLine p).outcome = (alone.checkLine p).outcome.map (spared auxiliaries) ∧
      Trims auxiliaries (alone.checkLine p).session (s.checkLine p).session := by
  have halone : AllAgree [] alone.auxiliaries := by
    rw [htrims.alone_eq]
    exact .nil
  have hspared : ∀ is, spared [] is = is := fun is => by simp [spared, vetoed_nil]
  obtain ⟨hengine, hissues, hagree, -⟩ :=
    checkLine_spec (fun e he => (h e he).steady) htrims.agree 0 p
  obtain ⟨hengine', hissues', hagree', -⟩ := checkLine_spec (by simp) halone 0 p
  constructor
  · rw [outcome_checkLine_of_advisers h htrims.agree, outcome_checkLine_of_advisers (by simp) halone,
      htrims.engine_eq]
    cases drafted alone.engine p with
    | error e => rfl
    | ok is => simp [Except.map, hspared]
  · refine ⟨List.forall₂_nil_left_iff.1 hagree', hagree, ?_, ?_⟩
    · rw [hengine, hengine', htrims.engine_eq]
    · rw [hissues, hissues', htrims.issues_eq]

theorem checkLines (h : ∀ e ∈ auxiliaries, e.IsAdviser) (htrims : Trims auxiliaries alone s)
    (lines : List ProseLine) :
    (s.checkLines lines).outcome = (alone.checkLines lines).outcome ∧
      Trims auxiliaries (alone.checkLines lines).session (s.checkLines lines).session := by
  induction lines generalizing alone s with
  | nil => exact ⟨rfl, htrims⟩
  | cons p lines ih =>
      obtain ⟨houtcome, hline⟩ := htrims.checkLine h p
      cases hfirst : (alone.checkLine p).outcome with
      | error e =>
          rw [hfirst] at houtcome
          change (s.checkLine p).outcome = .error e at houtcome
          simp only [Session.checkLines, hfirst, houtcome]
          exact ⟨trivial, hline⟩
      | ok is =>
          rw [hfirst] at houtcome
          obtain ⟨hrest, hsession⟩ := checkLines_of_ok hfirst lines
          obtain ⟨hrest', hsession'⟩ := checkLines_of_ok houtcome lines
          rw [hrest, hsession, hrest', hsession']
          refine ih ⟨hline.alone_eq, hline.agree, hline.engine_eq, ?_⟩
          simp [afterLine, hline.issues_eq, spared_append]

end Trims

/-! ## Analyses -/

def trimmed (auxiliaries : List Engine) (r : AnalysisResult) : AnalysisResult :=
  { r with issues := spared auxiliaries r.issues }

theorem analyze_trimmed {s : Session} (h : ∀ e ∈ s.auxiliaries, e.IsAdviser) (source : Text)
    (path : Path) :
    let alone : Session := { s with auxiliaries := [] }
    (s.analyze source path).outcome =
        (alone.analyze source path).outcome.map (trimmed s.auxiliaries) ∧
      (s.analyze source path).session.engine = (alone.analyze source path).session.engine := by
  intro alone
  unfold analyze
  cases Document.load path source with
  | error e => exact ⟨rfl, rfl⟩
  | ok t =>
      simp only [analyzeLoaded, analyzeTree]
      cases t.walk suppressionAttribute with
      | error e => exact ⟨rfl, rfl⟩
      | ok lines =>
          have hstart : Trims s.auxiliaries { alone with issues := [] } { s with issues := [] } :=
            ⟨rfl, allAgree_refl s.auxiliaries, rfl, rfl⟩
          obtain ⟨houtcome, hlast⟩ := hstart.checkLines h lines
          refine ⟨?_, hlast.engine_eq⟩
          simp only [houtcome, hlast.engine_eq, hlast.issues_eq]
          cases (({ alone with issues := [] } : Session).checkLines lines).outcome <;> rfl

/-- Auxiliary engines take away the spellings that one of them accepts, and change nothing
else: neither how the analysis turns out nor the state of the engine.  The result is the
same for all lists of the same engines, and with more of them there are no more issues. -/
theorem analyze_vetoed (s : Session) (source : Text) (path : Path)
    (h : ∀ e ∈ s.auxiliaries, e.IsAdviser) :
    let alone : Session := { s with auxiliaries := [] }
    (s.analyze source path).outcome = (alone.analyze source path).outcome.map (fun r =>
        { r with issues := r.issues.filter fun i => !vetoed s.auxiliaries i }) ∧
      (s.analyze source path).session.engine = (alone.analyze source path).session.engine ∧
      ∀ others : List Engine, (∀ e ∈ others, e.IsAdviser) →
        let s' : Session := { s with auxiliaries := others }
        ((∀ e, e ∈ others ↔ e ∈ s.auxiliaries) →
          (s'.analyze source path).outcome = (s.analyze source path).outcome) ∧
        (s.auxiliaries ⊆ others → ∀ result', (s'.analyze source path).outcome = .ok result' →
          ∃ result, (s.analyze source path).outcome = .ok result ∧
            result'.issues.Sublist result.issues) := by
  intro alone
  obtain ⟨houtcome, hengine⟩ := analyze_trimmed h source path
  refine ⟨houtcome, hengine, fun others hothers => ?_⟩
  obtain ⟨houtcome', -⟩ := analyze_trimmed (s := { s with auxiliaries := others }) hothers source path
  constructor
  · intro hsame
    rw [houtcome, houtcome']
    apply congrArg fun f => Except.map f _
    funext r
    simp only [trimmed, spared, vetoed_congr hsame]
  · intro hmore result' hresult'
    rw [houtcome'] at hresult'
    obtain ⟨result, hresult, rfl⟩ := exists_ok_of_map hresult'
    refine ⟨trimmed s.auxiliaries result, by rw [houtcome, hresult]; rfl, ?_⟩
    apply List.monotone_filter_right
    intro i hi
    rw [Bool.not_eq_true'] at hi ⊢
    exact Bool.eq_false_of_not_eq_true (mt (vetoed_mono hmore) (by simp [hi]))

/-- Each of two spellings is accepted by another engine; the engines are then listed the
other way round, one of them twice. -/
theorem analyze_vetoed_reversed :
    let answer (ruleId : Text) (offset : Int) : Answer :=
      ⟨.text ruleId, .null, .null, .int offset, .int 3, .null, .null⟩
    let tool (respond : Text → List Answer) : Tool :=
      { language := some "en", options := .none, isCloseable := true, disabledRules := []
        enabledCategories := [], isRestricted := false, history := []
        respond := fun _ text => .answers (respond text) }
    let first := tool fun _ =>
      [answer "SPELLING_RULE" 0, answer "RULE" 0, answer "SPELLING_RULE" 4]
    let adviser (word : Text) : Engine :=
      .start (tool fun text => if text = word then [] else [answer "SPELLING_RULE" 0]) none [] true
    let s : Session := .start (.start first none [] false) [adviser "teh", adviser "dgo"]
    let alone : Session := { s with auxiliaries := [] }
    let s' : Session := { s with auxiliaries := [adviser "dgo", adviser "teh", adviser "dgo"] }
    let path := Path.ofText "pets.md"
    let source : Text := "teh dgo"
    (∀ e ∈ s.auxiliaries, e.IsAdviser) ∧
      (alone.analyze source path).outcome.toOption.map
        (fun r => r.issues.map fun i => (i.ruleId, i.offendingText)) =
          some ([("SPELLING_RULE", "teh"), ("RULE", "teh"), ("SPELLING_RULE", "dgo")] :
            List (Text × Text)) ∧
      (s.analyze source path).outcome.toOption.map
        (fun r => r.issues.map fun i => (i.ruleId, i.offendingText)) =
          some ([("RULE", "teh")] : List (Text × Text)) ∧
      (s.analyze source path).outcome = (alone.analyze source path).outcome.map (fun r =>
        { r with issues := r.issues.filter fun i => !vetoed s.auxiliaries i }) ∧
      (s'.analyze source path).outcome = (s.analyze source path).outcome := by
  intro answer tool first adviser s alone s' path source
  have halone : (alone.analyze source path).outcome.toOption.map
      (fun r => r.issues.map fun i => (i.ruleId, i.offendingText)) =
        some ([("SPELLING_RULE", "teh"), ("RULE", "teh"), ("SPELLING_RULE", "dgo")] :
          List (Text × Text)) := by
    decide +kernel
  have hvetoed : (s.analyze source path).outcome.toOption.map
      (fun r => r.issues.map fun i => (i.ruleId, i.offendingText)) =
        some ([("RULE", "teh")] : List (Text × Text)) := by
    decide +kernel
  have hadviser : ∀ word, (adviser word).IsAdviser := by
    intro word
    refine ⟨⟨rfl, fun _ _ => rfl⟩, fun asked => Engine.exists_acceptsWord_ok ?_ asked⟩
    intro before text
    refine ⟨_, rfl, fun a ha => ?_⟩
    dsimp only at ha
    split at ha
    · cases ha
    · obtain rfl := List.mem_singleton.1 ha
      exact ⟨_, rfl, by decide⟩
  have h : ∀ e ∈ [adviser "teh", adviser "dgo"], e.IsAdviser := by
    simp only [List.forall_mem_cons]
    exact ⟨hadviser _, hadviser _, by simp⟩
  have hothers : ∀ e ∈ [adviser "dgo", adviser "teh", adviser "dgo"], e.IsAdviser := by
    simp only [List.forall_mem_cons]
    exact ⟨hadviser _, hadviser _, hadviser _, by simp⟩
  have hsame : ∀ e, e ∈ [adviser "dgo", adviser "teh", adviser "dgo"] ↔
      e ∈ [adviser "teh", adviser "dgo"] := by
    intro e
    simp only [List.mem_cons, List.not_mem_nil, or_false]
    rw [or_left_comm, or_self]
  obtain ⟨houtcome, -, hlists⟩ := analyze_vetoed s source path h
  exact ⟨h, halone, hvetoed, houtcome, (hlists _ hothers).1 hsame⟩

end Session

end Proofreader
