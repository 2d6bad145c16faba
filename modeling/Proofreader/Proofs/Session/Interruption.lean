import Proofreader.Proofs.Session.Failures

/-!
# Interruptions

The engine of a session is asked about the lines of a document in order, blank ones left
out.  The first line on which a check fails interrupts the analysis.  So the calls of the
tool tell how far the analysis came, and the failure tells where it ended.
-/

namespace Proofreader

theorem Engine.history_check (e : Engine) (text : Text) :
    (e.check text).engine.tool.history = e.tool.history ++ [.check text] := by
  cases hresponse : (e.tool.check text).1 with
  | fails f =>
      rw [check_of_fails hresponse]
      rfl
  | answers as =>
      obtain ⟨rules, htool⟩ :=
        considerAll_tool_eq { e with tool := (e.tool.check text).2 } text as
      rw [check_of_answers hresponse, htool]
      rfl

namespace Session

/-- The texts of the lines that an engine is asked about. -/
def submitted (lines : List ProseLine) : List Text :=
  (lines.map checkedText).filter fun text => !text.isAllBlank

theorem history_engineAfter (e : Engine) (p : ProseLine) :
    (engineAfter e p).tool.history = e.tool.history ++ (submitted [p]).map .check := by
  unfold engineAfter submitted
  cases hblank : (checkedText p).isAllBlank with
  | true => simp [hblank]
  | false => simp [hblank, e.history_check]

theorem history_foldl_engineAfter (e : Engine) (lines : List ProseLine) :
    (lines.foldl engineAfter e).tool.history =
      e.tool.history ++ (submitted lines).map .check := by
  induction lines generalizing e with
  | nil => simp [submitted]
  | cons p lines ih =>
      have hsplit : submitted (p :: lines) = submitted [p] ++ submitted lines := by
        unfold submitted
        rw [← List.filter_append, ← List.map_append, List.singleton_append]
      rw [List.foldl_cons, ih, history_engineAfter, hsplit, List.map_append, List.append_assoc]

theorem isNamed_foldl_engineAfter {e : Engine} (h : e.IsNamed) (lines : List ProseLine) :
    (lines.foldl engineAfter e).IsNamed := by
  induction lines generalizing e with
  | nil => exact h
  | cons p lines ih => exact ih (isNamed_engineAfter h p)

/-! ## Analyses -/

section Analysis

variable {s : Session} {path : Path} {source : Text} {t : DocumentTree} {lines : List ProseLine}

theorem analyze_of_failsFirst (hnamed : s.engine.IsNamed)
    (hload : Document.load path source = .ok t) (hwalk : t.walk suppressionAttribute = .ok lines)
    {before after : List ProseLine} {p : ProseLine} {x : AnalysisError}
    (hsplit : lines = before ++ p :: after)
    (h : FailsFirst past LineFails s.checkers before p x) :
    (s.analyze source path).outcome = .error x ∧
      (s.analyze source path).session.engine = (before ++ [p]).foldl engineAfter s.engine := by
  subst hsplit
  obtain ⟨houtcome, hsession⟩ := analyze_of_load (s := s) hload hwalk
  obtain ⟨hlines, hengine⟩ :=
    checkLines_of_failsFirst (s := { s with issues := [] }) hnamed h after
  rw [houtcome, hsession, hlines]
  exact ⟨rfl, hengine⟩

theorem analyze_of_noneFails (hnamed : s.engine.IsNamed)
    (hload : Document.load path source = .ok t) (hwalk : t.walk suppressionAttribute = .ok lines)
    (h : NoneFails past LineFails s.checkers lines) :
    (∃ result, (s.analyze source path).outcome = .ok result) ∧
      (s.analyze source path).session.engine = lines.foldl engineAfter s.engine := by
  obtain ⟨houtcome, hsession⟩ := analyze_of_load (s := s) hload hwalk
  obtain ⟨hlines, hengine⟩ := checkLines_of_noneFails (s := { s with issues := [] }) hnamed h
  rw [houtcome, hsession, hlines]
  exact ⟨⟨_, rfl⟩, hengine⟩

/-- An analysis fails if and only if some line does.  It fails as the first such line does,
and the tool was asked about the lines up to it, or about all lines if there is none.  If
all lines can be read, it is a check that fails, and the failure names the line. -/
theorem analyze_interrupted (hnamed : s.engine.IsNamed)
    (hload : Document.load path source = .ok t) :
    let a := s.analyze source path
    ∃ lines, t.walk suppressionAttribute = .ok lines ∧
      ((∃ x, a.outcome = .error x) ↔
        ∃ before p after x, lines = before ++ p :: after ∧
          LineFails (before.foldl past s.checkers) p x) ∧
      (∀ before p after x, lines = before ++ p :: after →
        FailsFirst past LineFails s.checkers before p x →
          a.outcome = .error x ∧
          (IsReadable p → ∃ r, x = .check ⟨p.location.file, p.location.line, r⟩) ∧
          a.session.engine.tool.history =
            s.engine.tool.history ++ (submitted (before ++ [p])).map .check) ∧
      ((∀ x, a.outcome ≠ .error x) →
        (∃ result, a.outcome = .ok result) ∧
          a.session.engine.tool.history =
            s.engine.tool.history ++ (submitted lines).map .check) ∧
      ((∀ p ∈ lines, IsReadable p) →
        ∀ x, a.outcome = .error x → ∃ e, x = .check e) ∧
      a.session.engine.IsNamed := by
  intro a
  obtain ⟨lines, hwalk⟩ := Document.exists_walk_of_load hload suppressionAttribute
  refine ⟨lines, hwalk, ?_⟩
  rcases noneFails_or_exists_failsFirst s.checkers lines with
    hnone | ⟨before, p, after, x, hsplit, hfirst⟩
  · obtain ⟨⟨result, hresult⟩, hengine⟩ := analyze_of_noneFails hnamed hload hwalk hnone
    refine ⟨iff_of_false ?_ ?_, ?_, fun _ => ⟨⟨result, hresult⟩, ?_⟩, fun _ x hx => ?_, ?_⟩
    · simp [a, hresult]
    · rintro ⟨before, p, after, x, hsplit, hfails⟩
      exact hnone before p after hsplit x hfails
    · intro before p after x hsplit hfirst
      exact absurd hfirst.fails (hnone before p after hsplit x)
    · rw [hengine, history_foldl_engineAfter]
    · simp [a, hresult] at hx
    · rw [hengine]
      exact isNamed_foldl_engineAfter hnamed lines
  · obtain ⟨houtcome, hengine⟩ := analyze_of_failsFirst hnamed hload hwalk hsplit hfirst
    refine ⟨iff_of_true ⟨_, houtcome⟩ ⟨before, p, after, x, hsplit, hfirst.fails⟩, ?_,
      fun hother => absurd houtcome (hother _), fun hreadable y hy => ?_, ?_⟩
    · intro before' p' after' x' hsplit' hfirst'
      obtain ⟨houtcome', hengine'⟩ := analyze_of_failsFirst hnamed hload hwalk hsplit' hfirst'
      exact ⟨houtcome', hfirst'.fails.exists_check, by rw [hengine', history_foldl_engineAfter]⟩
    · obtain rfl : x = y := Except.error.inj (houtcome.symm.trans hy)
      obtain ⟨r, hr⟩ := hfirst.fails.exists_check (hreadable p (by simp [hsplit]))
      exact ⟨_, hr⟩
    · rw [hengine]
      exact isNamed_foldl_engineAfter hnamed _

end Analysis

/-- Two engines are asked about the word of a line that cannot be read: the first accepts
it, but fails when it is asked again, two lines later. -/
theorem analyze_interrupted_asked_again :
    let answer (offset : Int) : Answer :=
      ⟨.text "SPELLING_RULE", .null, .null, .int offset, .int 3, .null, .null⟩
    let tool (respond : List Text → Text → Response) : Tool :=
      { language := none, options := .none, isCloseable := true, disabledRules := []
        enabledCategories := [], isRestricted := false, history := [], respond }
    let first := tool fun _ text => .answers
      (if text = "x<![-->teh" then [answer 7] else if text = "the teh" then [answer 4] else [])
    let second := tool fun before text =>
      if before.contains text then .fails ⟨"Error", "down"⟩ else .answers []
    let third := tool fun _ _ => .fails ⟨"Error", "gone"⟩
    let s : Session := .start (.start first none [] false)
      [.start second (some "de") [] true, .start third (some "fr") [] true]
    let path := Path.ofText "doc.md"
    let source : Text := "a <b>b</b><!--\nx<![-->teh\n\nthe teh\n\nend"
    let a := s.analyze source path
    s.engine.IsNamed ∧
      a.outcome = .error (.check ⟨path, 4, "de: down"⟩) ∧
      a.session.engine.tool.history =
        (["a b<!--", "x<![-->teh", "the teh"] : List Text).map .check ∧
      ∃ t lines, Document.load path source = .ok t ∧
        t.walk suppressionAttribute = .ok lines ∧
        ∃ before p after x, lines = before ++ p :: after ∧
          LineFails (before.foldl past s.checkers) p x := by
  intro answer tool first second third s path source a
  have hnamed : s.engine.IsNamed := Engine.isNamed_start first none [] false
  have hload : (Document.load path source).toOption.isSome = true := by decide +kernel
  have houtcome : a.outcome = .error (.check ⟨path, 4, "de: down"⟩) := by decide +kernel
  have hhistory : a.session.engine.tool.history =
      (["a b<!--", "x<![-->teh", "the teh"] : List Text).map .check := by
    decide +kernel
  obtain ⟨t, ht⟩ := Option.isSome_iff_exists.1 hload
  have hok := eq_ok_of_toOption ht
  obtain ⟨lines, hwalk, hfails, -⟩ := analyze_interrupted hnamed hok
  exact ⟨hnamed, houtcome, hhistory, t, lines, hok, hwalk, hfails.1 ⟨_, houtcome⟩⟩

end Session

end Proofreader
