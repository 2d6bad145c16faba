import Proofreader.Proofs.Engine.Catalogue
import Proofreader.Proofs.Session.Exemption
import Proofreader.Proofs.Session.Repetition

/-!
# Rule ids in the results

Rules are suppressed, switched off and catalogued under their ids as the tool gives them,
and on these everything agrees.  Issues and entries of the catalogue show an id without the
blanks around it.  So the results agree with what was suppressed or off if the tool gives no
id that has blanks around it, and otherwise they need not.
-/

namespace Proofreader.Session

open Engine (Precedes IsFiled IsTrimmed)

/-! ## Lines that are all checked -/

def HeardAll (e : Engine) (lines : List ProseLine) : Prop :=
  ∀ before p after, lines = before ++ p :: after →
    ∃ ms, heard (before.foldl engineAfter e) p = .ok ms

namespace HeardAll

variable {e : Engine} {before after lines : List ProseLine}

theorem cons {p : ProseLine} {ms : List RuleMatch} (h : heard e p = .ok ms)
    (hrest : HeardAll (engineAfter e p) lines) : HeardAll e (p :: lines) := by
  intro before p' after hsplit
  cases before with
  | nil =>
      obtain ⟨rfl, -⟩ := List.cons.inj hsplit
      exact ⟨ms, h⟩
  | cons q before =>
      obtain ⟨rfl, hlines⟩ := List.cons.inj hsplit
      exact hrest before p' after hlines

theorem left (h : HeardAll e (before ++ after)) : HeardAll e before := by
  rintro front p back rfl
  exact h front p (back ++ after) (by simp)

theorem right (h : HeardAll e (before ++ after)) :
    HeardAll (before.foldl engineAfter e) after := by
  rintro front p back rfl
  rw [← List.foldl_append]
  exact h (before ++ front) p back (by simp)

theorem tail {p : ProseLine} (h : HeardAll e (p :: lines)) :
    HeardAll (engineAfter e p) lines := by
  have h : HeardAll e ([p] ++ lines) := h
  exact h.right

theorem foldl_induction {P : Engine → Prop}
    (hstep : ∀ {e p ms}, heard e p = .ok ms → P e → P (engineAfter e p))
    (h : HeardAll e lines) (hfirst : P e) : P (lines.foldl engineAfter e) := by
  induction lines generalizing e with
  | nil => exact hfirst
  | cons p lines ih =>
      obtain ⟨ms, hheard⟩ := h [] p lines rfl
      exact ih h.tail (hstep hheard hfirst)

theorem precedes (h : HeardAll e lines) : Precedes e (lines.foldl engineAfter e) :=
  foldl_induction (P := Precedes e)
    (fun hheard hearlier => hearlier.trans (precedes_engineAfter hheard)) h (.refl e)

end HeardAll

/-! ## Where issues come from -/

def Reports (e : Engine) (p : ProseLine) (m : RuleMatch) (i : Issue) : Prop :=
  ∃ ms, heard e p = .ok ms ∧ m ∈ survivors p ms ∧ issueOf p m = .ok i

theorem exists_reports_of_checkLine {s : Session} {p : ProseLine} {is : List Issue}
    (h : (s.checkLine p).outcome = .ok is) :
    (∃ ms, heard s.engine p = .ok ms) ∧ ∀ i ∈ is, ∃ m, Reports s.engine p m i := by
  have hline := checkLine_eq s p
  unfold drafted at hline
  cases hheard : heard s.engine p with
  | error f =>
      simp only [hheard] at hline
      simp [hline.1] at h
  | ok ms =>
      refine ⟨⟨ms, rfl⟩, fun i hi => ?_⟩
      simp only [hheard] at hline
      cases hmade : (survivors p ms).mapM (issueOf p) with
      | error e =>
          simp only [hmade, Except.mapError] at hline
          simp [hline.1] at h
      | ok made =>
          simp only [hmade, Except.mapError] at hline
          rw [hline.1] at h
          obtain ⟨-, rfl⟩ := mapM_eq_ok_iff.1 hmade
          obtain ⟨m, hm, hissue⟩ :=
            List.mem_filterMap.1 ((filterAccepted_sublist h).subset hi)
          exact ⟨m, ms, hheard, hm, eq_ok_of_toOption hissue⟩

def ReportedOn (e : Engine) (lines : List ProseLine) (i : Issue) : Prop :=
  ∃ before p after m, lines = before ++ p :: after ∧ Reports (before.foldl engineAfter e) p m i

theorem ReportedOn.cons {e : Engine} {p : ProseLine} {lines : List ProseLine} {i : Issue}
    (h : ReportedOn (engineAfter e p) lines i) : ReportedOn e (p :: lines) i := by
  obtain ⟨before, p', after, m, rfl, hreports⟩ := h
  exact ⟨p :: before, p', after, m, rfl, hreports⟩

theorem reportedOn_of_checkLines {s : Session} {lines : List ProseLine}
    (h : (s.checkLines lines).outcome = .ok ()) :
    (s.checkLines lines).session.engine = lines.foldl engineAfter s.engine ∧
      HeardAll s.engine lines ∧
      ∀ i ∈ (s.checkLines lines).session.issues, i ∈ s.issues ∨ ReportedOn s.engine lines i := by
  induction lines generalizing s with
  | nil =>
      refine ⟨rfl, ?_, fun i hi => .inl hi⟩
      intro before p after hsplit
      simp at hsplit
  | cons p lines ih =>
      cases hline : (s.checkLine p).outcome with
      | error f => simp [checkLines, hline] at h
      | ok is =>
          obtain ⟨houtcome, hsession⟩ := checkLines_of_ok hline lines
          obtain ⟨⟨ms, hheard⟩, hreports⟩ := exists_reports_of_checkLine hline
          obtain ⟨hengine, hall, hissues⟩ :=
            ih (s := s.afterLine p is) (houtcome.symm.trans h)
          have hafter : (s.afterLine p is).engine = engineAfter s.engine p :=
            s.engine_checkLine p
          rw [hafter] at hengine hall hissues
          refine ⟨by rw [hsession, hengine, List.foldl_cons], hall.cons hheard, ?_⟩
          rw [hsession]
          intro i hi
          rcases hissues i hi with hearlier | hlater
          · rw [afterLine, (madeFrom_checkLine hline).2.1] at hearlier
            rcases List.mem_append.1 hearlier with hold | hnew
            · exact .inl hold
            · obtain ⟨m, hm⟩ := hreports i hnew
              exact .inr ⟨[], p, lines, m, rfl, hm⟩
          · exact .inr hlater.cons

/-! ## Ids -/

theorem Reports.ruleId_eq {e : Engine} {p : ProseLine} {m : RuleMatch} {i : Issue}
    (h : Reports e p m i) : i.ruleId = m.ruleId.trim := by
  obtain ⟨-, -, -, hissue⟩ := h
  unfold issueOf Issue.ofMatch at hissue
  split at hissue
  · simp at hissue
  · rw [← Except.ok.inj hissue]

theorem Reports.not_mem_ignored {e : Engine} {p : ProseLine} {m : RuleMatch} {i : Issue}
    (h : Reports e p m i) : m.ruleId ∉ p.ignored := by
  obtain ⟨ms, -, hm, -⟩ := h
  have hsurvives := (List.mem_filter.1 hm).2
  simp only [Bool.not_eq_true', Bool.or_eq_false_iff] at hsurvives
  simpa using hsurvives.1

/-- A blank line has no matches, so what is returned was found by a check. -/
theorem Reports.exists_check {e : Engine} {p : ProseLine} {m : RuleMatch} {i : Issue}
    (h : Reports e p m i) :
    ∃ ms, (e.check (checkedText p)).outcome = .ok ms ∧ m ∈ ms ∧
      engineAfter e p = (e.check (checkedText p)).engine := by
  obtain ⟨ms, hheard, hm, -⟩ := h
  have hmem := List.mem_of_mem_filter hm
  rcases blank_or_check_of_heard hheard with ⟨rfl, -⟩ | ⟨hcheck, hafter⟩
  · simp at hmem
  · exact ⟨ms, hcheck, hmem, hafter⟩

theorem Reports.isDisabled_eq {e : Engine} {p : ProseLine} {m : RuleMatch} {i : Issue}
    (h : Reports e p m i) :
    e.isDisabled m.ruleId = false ∧
      ((engineAfter e p).isDisabled m.ruleId = true ∨
        (engineAfter e p).lists m.ruleId = true) := by
  obtain ⟨ms, hcheck, hm, hafter⟩ := h.exists_check
  obtain ⟨as, -, hanswers⟩ := Engine.exists_answers_of_check hcheck
  rw [hafter, hanswers]
  rw [hanswers] at hcheck
  exact (Engine.returned_of_considerAll hcheck m hm).2

theorem isTrimmed_engineAfter {e : Engine} (h : e.IsTrimmed) {p : ProseLine}
    {ms : List RuleMatch} (hheard : heard e p = .ok ms) : (engineAfter e p).IsTrimmed := by
  rcases blank_or_check_of_heard hheard with ⟨-, hafter⟩ | ⟨hcheck, hafter⟩
  · rw [hafter]
    exact h
  · rw [hafter]
    exact (h.check hcheck).1

theorem isFiled_engineAfter {e : Engine} (h : e.IsFiled) (p : ProseLine) :
    (engineAfter e p).IsFiled := by
  unfold engineAfter
  split
  · exact h
  · exact h.check (checkedText p)

/-! ## Agreement -/

/-- Rule ids, read off issues and their matches by `idOf`, agree with what is suppressed, with
what is off and with a catalogue: an id that is reported is not suppressed on its line and
was on when the line was checked, and the catalogue has it once if it is still on. -/
structure RulesAgree (idOf : Issue → RuleMatch → Text) (first last : Engine)
    (lines : List ProseLine) (is : List Issue) (catalog : List Text) : Prop where
  reported : ∀ i ∈ is, ∃ before p after m, lines = before ++ p :: after ∧
    Reports (before.foldl engineAfter first) p m i ∧ i.ruleId = m.ruleId.trim ∧
    idOf i m ∉ p.ignored ∧ idOf i m ∉ (before.foldl engineAfter first).disabledRules ∧
    (idOf i m ∉ last.disabledRules → idOf i m ∈ catalog)
  nodup : catalog.Nodup

theorem HeardAll.rulesAgree {first : Engine} {lines : List ProseLine} {is : List Issue}
    (hall : HeardAll first lines) (his : ∀ i ∈ is, ReportedOn first lines i)
    (hfiled : (lines.foldl engineAfter first).IsFiled) :
    RulesAgree (fun _ m => m.ruleId) first (lines.foldl engineAfter first) lines is
      (lines.foldl engineAfter first).activeIds := by
  refine ⟨fun i hi => ?_, hfiled.nodup_activeIds⟩
  obtain ⟨before, p, after, m, rfl, hreports⟩ := his i hi
  obtain ⟨hon, hafter⟩ := hreports.isDisabled_eq
  refine ⟨before, p, after, m, rfl, hreports, hreports.ruleId_eq, hreports.not_mem_ignored, ?_, ?_⟩
  · simpa [Engine.isDisabled] using hon
  · intro hstill
    have hlater : Precedes (engineAfter (before.foldl engineAfter first) p)
        ((before ++ p :: after).foldl engineAfter first) := by
      rw [List.foldl_append, List.foldl_cons]
      exact hall.right.tail.precedes
    refine Engine.mem_activeIds_iff.2 ⟨?_, hstill⟩
    -- A rule that is on in the end was on all the time, so its entry was never taken out.
    rcases hafter with hoff | hlists
    · exact absurd (hlater.isDisabled _ hoff) (by simpa [Engine.isDisabled] using hstill)
    · exact (hlater.lists _ hlists).resolve_left (by simpa [Engine.isDisabled] using hstill)

theorem RulesAgree.shown {first last : Engine} {lines : List ProseLine} {is : List Issue}
    (h : RulesAgree (fun _ m => m.ruleId) first last lines is last.activeIds)
    (hall : HeardAll first lines) (htrimmed : first.IsTrimmed) (hlast : last.IsTrimmed) :
    RulesAgree (fun i _ => i.ruleId) first last lines is (last.activeIds.map Text.trim) := by
  have hids : last.activeIds.map Text.trim = last.activeIds := by
    conv_rhs => rw [← List.map_id last.activeIds]
    apply List.map_congr_left
    intro r hr
    exact hlast.lists r (Engine.mem_activeIds_iff.1 hr).1
  rw [hids]
  refine ⟨fun i hi => ?_, h.nodup⟩
  obtain ⟨before, p, after, m, rfl, hreports, hid, hfacts⟩ := h.reported i hi
  obtain ⟨ms, hcheck, hm, -⟩ := hreports.exists_check
  have hbefore : (before.foldl engineAfter first).IsTrimmed :=
    hall.left.foldl_induction (fun hheard h => isTrimmed_engineAfter h hheard) htrimmed
  have heq : i.ruleId = m.ruleId := hid.trans ((hbefore.check hcheck).2 m hm)
  simp only [← heq] at hfacts
  exact ⟨before, p, after, m, rfl, hreports, hid, hfacts⟩

theorem heardAll_of_analyze {s : Session} {source : Text} {path : Path}
    {result : AnalysisResult} (h : (s.analyze source path).outcome = .ok result) :
    ∃ t lines, Document.load path source = .ok t ∧ t.walk suppressionAttribute = .ok lines ∧
      HeardAll s.engine lines ∧
      (s.analyze source path).session.engine = lines.foldl engineAfter s.engine ∧
      (∀ i ∈ result.issues, ReportedOn s.engine lines i) ∧
      result.catalog = (lines.foldl engineAfter s.engine).activeRules := by
  obtain ⟨t, lines, hload, hwalk, -⟩ := analyze_madeFrom s source path h
  obtain ⟨houtcome, hsession⟩ := analyze_of_load (s := s) hload hwalk
  rw [houtcome] at h
  obtain ⟨_, hok, rfl⟩ := exists_ok_of_map h
  obtain ⟨hengine, hall, hissues⟩ := reportedOn_of_checkLines hok
  exact ⟨t, lines, hload, hwalk, hall, by rw [hsession, hengine],
    fun i hi => (hissues i hi).resolve_left List.not_mem_nil, by rw [hengine]⟩

/-- On ids as the tool gives them, suppressing, switching off and cataloguing agree, and the
results show these ids trimmed.  So the results agree as well if there is nothing to trim. -/
theorem analyze_ruleIds (s : Session) (hfiled : s.engine.IsFiled) (source : Text) (path : Path)
    {result : AnalysisResult} (h : (s.analyze source path).outcome = .ok result) :
    let last := (s.analyze source path).session.engine
    ∃ t lines, Document.load path source = .ok t ∧ t.walk suppressionAttribute = .ok lines ∧
      last.IsFiled ∧
      RulesAgree (fun _ m => m.ruleId) s.engine last lines result.issues last.activeIds ∧
      result.catalog.map (·.id) = last.activeIds.map Text.trim ∧
      (s.engine.IsTrimmed → last.IsTrimmed ∧
        RulesAgree (fun i _ => i.ruleId) s.engine last lines result.issues
          (result.catalog.map (·.id))) := by
  intro last
  obtain ⟨t, lines, hload, hwalk, hall, hlast, his, hcatalog⟩ := heardAll_of_analyze h
  have hlastFiled : (lines.foldl engineAfter s.engine).IsFiled :=
    hall.foldl_induction (fun {_ p _} _ h => isFiled_engineAfter h p) hfiled
  have hagree := hall.rulesAgree his hlastFiled
  simp only [last, hlast, hcatalog, hlastFiled.ids_activeRules]
  refine ⟨t, lines, hload, hwalk, hlastFiled, hagree, trivial, fun htrimmed => ?_⟩
  have hlastTrimmed : (lines.foldl engineAfter s.engine).IsTrimmed :=
    hall.foldl_induction (fun hheard h => isTrimmed_engineAfter h hheard) htrimmed
  exact ⟨hlastTrimmed, hagree.shown hall htrimmed hlastTrimmed⟩

/-- Ids without blanks around them: of two rules on the first line one is suppressed, another is
off from the beginning, and the rule that spoke there is switched off on the second line. -/
theorem analyze_ruleIds_nothing_to_trim :
    let answer (ruleId : Text) : Answer :=
      ⟨.text ruleId, .null, .null, .null, .int 3, .null, .null⟩
    let tool : Tool :=
      { language := none, options := .none, isCloseable := true, disabledRules := ["OFF"]
        enabledCategories := [], isRestricted := false, history := []
        respond := fun _ text => .answers
          (if text = "teh cat" then [answer "RULE", answer "MUTED", answer "OFF"]
            else [answer "OTHER", answer "RULE"]) }
    let s : Session := .start (.start tool none ["API"] false) []
    let path := Path.ofText "doc.md"
    let source : Text := "{ignore=MUTED}\nteh cat\n\nAPI"
    let last := (s.analyze source path).session.engine
    ∃ result lines, (s.analyze source path).outcome = .ok result ∧
      s.engine.IsFiled ∧ s.engine.IsTrimmed ∧
      result.issues.map (·.ruleId) = (["RULE"] : List Text) ∧
      last.disabledRules = (["OFF", "OTHER", "RULE"] : List Text) ∧
      result.catalog.map (·.id) = (["MUTED"] : List Text) ∧
      RulesAgree (fun i _ => i.ruleId) s.engine last lines result.issues
        (result.catalog.map (·.id)) := by
  intro answer tool s path source last
  have hfiled : s.engine.IsFiled := Engine.isFiled_start tool none ["API"] false
  have htool : tool.TrimsIds := by
    intro asked text as hrespond a ha
    obtain rfl := Response.answers.inj hrespond
    split at ha
    · simp only [List.mem_cons, List.not_mem_nil, or_false] at ha
      rcases ha with rfl | rfl | rfl <;> decide
    · simp only [List.mem_cons, List.not_mem_nil, or_false] at ha
      rcases ha with rfl | rfl <;> decide
  have htrimmed : s.engine.IsTrimmed := ⟨htool, fun r hr => absurd hr Bool.false_ne_true⟩
  have hsummary : (s.analyze source path).outcome.toOption.map (fun result =>
      (result.issues.map (·.ruleId), result.catalog.map (·.id))) =
        some ((["RULE"] : List Text), (["MUTED"] : List Text)) := by
    decide +kernel
  have hlast : last.disabledRules = (["OFF", "OTHER", "RULE"] : List Text) := by decide +kernel
  obtain ⟨result, hresult, hshown⟩ := Option.map_eq_some_iff.1 hsummary
  obtain ⟨hissues, hcatalog⟩ := Prod.mk.inj hshown
  have hok := eq_ok_of_toOption hresult
  obtain ⟨t, lines, -, -, -, -, -, hagree⟩ := analyze_ruleIds s hfiled source path hok
  exact ⟨result, lines, hok, hfiled, htrimmed, hissues, hlast, hcatalog, (hagree htrimmed).2⟩

/-- Ids with blanks around them: a rule is reported that is suppressed on its line, another one
that was off from the beginning, and two entries of the catalogue show the same id. -/
theorem analyze_reports_untrimmed :
    let answer (ruleId : Text) : Answer :=
      ⟨.text ruleId, .null, .null, .null, .int 3, .null, .null⟩
    let tool : Tool :=
      { language := none, options := .none, isCloseable := true, disabledRules := ["OFF"]
        enabledCategories := [], isRestricted := false, history := []
        respond := fun _ _ => .answers
          [answer " MUTED", answer "OFF ", answer "TWICE", answer " TWICE"] }
    let s : Session := .start (.start tool none [] false) []
    let path := Path.ofText "doc.md"
    let source : Text := "{ignore=MUTED}\nteh"
    ((s.analyze source path).outcome.toOption.map fun result =>
        (result.issues.map (·.ruleId), result.catalog.map (·.id))) =
      some ((["MUTED", "OFF", "TWICE", "TWICE"] : List Text),
        (["MUTED", "OFF", "TWICE", "TWICE"] : List Text)) ∧
    ((Document.load path source).toOption.bind fun t =>
        (t.walk suppressionAttribute).toOption.map fun lines => lines.map (·.ignored)) =
      some [[("MUTED" : Text)]] ∧
    s.engine.disabledRules = [("OFF" : Text)] := by
  decide +kernel

end Proofreader.Session
