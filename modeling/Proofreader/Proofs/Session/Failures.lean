import Proofreader.Proofs.Document.Provenance
import Proofreader.Proofs.Engine.NamedRules
import Proofreader.Proofs.Session.Findings

/-!
# How analyses fail

A document that was loaded can be walked, and an engine that begins with an empty
catalogue returns no match that names no rule.  What remains are documents that cannot
be loaded and checks that fail.  A check is made while lines are taken in order, so what
is reported is the first line that fails, and no line after it is seen by an engine.
-/

namespace Proofreader

/-! ## Walking what was loaded -/

theorem DocumentTree.exists_walk_of_ofEvents? {path : Path} {render : Text → Text}
    {es : List Markdown.Event} {t : DocumentTree} (h : ofEvents? path render es = some t)
    (key : Text) : ∃ lines, t.walk key = .ok lines := by
  rw [ofEvents?, Option.map_eq_some_iff] at h
  obtain ⟨last, hrun, rfl⟩ := h
  have hnumbered := ((TreeBuilder.Invariant.start path).run hrun).numbered
  have hgrounded := (TreeBuilder.grounded_start path).run hrun
  exact ⟨_, walk_eq_flatMap_speakers hnumbered hgrounded key⟩

theorem Document.ofEvents?_of_load {path : Path} {source : Text} {t : DocumentTree}
    (h : load path source = .ok t) :
    DocumentTree.ofEvents? path
      (Markdown.Inline.renderText (Markdown.readSource source).definitions)
      (Markdown.readSource source).events = some t := by
  unfold load at h
  simp only at h
  split at h
  · simp at h
  · split at h
    · rename_i hevents
      obtain rfl := Except.ok.inj h
      exact hevents
    · simp at h

theorem Document.exists_walk_of_load {path : Path} {source : Text} {t : DocumentTree}
    (h : load path source = .ok t) (key : Text) : ∃ lines, t.walk key = .ok lines :=
  DocumentTree.exists_walk_of_ofEvents? (ofEvents?_of_load h) key

theorem Document.grounded_of_load {path : Path} {source : Text} {t : DocumentTree}
    (h : load path source = .ok t) : t.Grounded := by
  have hevents := ofEvents?_of_load h
  rw [DocumentTree.ofEvents?, Option.map_eq_some_iff] at hevents
  obtain ⟨last, hrun, rfl⟩ := hevents
  exact (TreeBuilder.grounded_start path).run hrun

/-! ## First failures -/

section FirstFailure

variable {σ α ρ : Type} (next : σ → α → σ) (fails : σ → α → ρ → Prop)

/-- Items are taken in order, each in the state that those before it lead to, and none of
them fails. -/
def NoneFails (s : σ) (xs : List α) : Prop :=
  ∀ before x after, xs = before ++ x :: after → ∀ r, ¬ fails (before.foldl next s) x r

structure FailsFirst (s : σ) (before : List α) (x : α) (r : ρ) : Prop where
  passes : NoneFails next fails s before
  fails : fails (before.foldl next s) x r

variable {next fails} {s : σ}

theorem noneFails_nil : NoneFails next fails s [] := by
  intro before x after h
  simp at h

theorem noneFails_cons {x : α} {xs : List α} :
    NoneFails next fails s (x :: xs) ↔
      (∀ r, ¬ fails s x r) ∧ NoneFails next fails (next s x) xs := by
  constructor
  · intro h
    exact ⟨h [] x xs rfl, fun before y after hxs => h (x :: before) y after (by rw [hxs]; rfl)⟩
  · rintro ⟨hfirst, hrest⟩ before y after hxs
    cases before with
    | nil =>
        obtain ⟨rfl, -⟩ := List.cons.inj hxs
        exact hfirst
    | cons z before =>
        obtain ⟨rfl, hrest'⟩ := List.cons.inj hxs
        exact hrest before y after hrest'

theorem noneFails_or_exists_failsFirst (s : σ) (xs : List α) :
    NoneFails next fails s xs ∨
      ∃ before x after r, xs = before ++ x :: after ∧ FailsFirst next fails s before x r := by
  induction xs generalizing s with
  | nil => exact .inl noneFails_nil
  | cons x xs ih =>
      by_cases hfirst : ∃ r, fails s x r
      · obtain ⟨r, hr⟩ := hfirst
        exact .inr ⟨[], x, xs, r, rfl, noneFails_nil, hr⟩
      · rw [not_exists] at hfirst
        rcases ih (next s x) with hrest | ⟨before, y, after, r, rfl, hpasses, hr⟩
        · exact .inl (noneFails_cons.2 ⟨hfirst, hrest⟩)
        · exact .inr ⟨x :: before, y, after, r, rfl, noneFails_cons.2 ⟨hfirst, hpasses⟩, hr⟩

end FirstFailure

namespace Engine

theorem language_acceptsWord (e : Engine) (word : Text) :
    (e.acceptsWord word).engine.language = e.language := by
  have hanswers : ∀ (e : Engine) (as : List Answer),
      (considerAll word e as).engine.language = e.language := fun e as =>
    considerAll_induction (P := fun last => last.language = e.language)
      (fun htakes h => htakes.language_eq.trans h) rfl as
  unfold acceptsWord
  split
  · rfl
  · cases hresponse : (e.tool.check word).1 with
    | fails f => simp only [check_of_fails hresponse]
    | answers as => simp only [check_of_answers hresponse, hanswers]

end Engine

namespace Session

/-! ## Second opinions -/

/-- An engine fails on the word of the issue, and those before it do not accept it. -/
def OpinionFails (es : List Engine) (i : Issue) (r : Text) : Prop :=
  needsOpinion i = true ∧ ∃ before e after f, es = before ++ e :: after ∧
    (∀ e' ∈ before, (e'.acceptsWord i.offendingText).outcome = .ok false) ∧
    (e.acceptsWord i.offendingText).outcome = .error f ∧
    r = e.language ++ ": ".toList ++ f.detail

theorem opinionFails_cons {e : Engine} {es : List Engine} {i : Issue} {r : Text}
    (hneeds : needsOpinion i = true) :
    OpinionFails (e :: es) i r ↔
      (∃ f, (e.acceptsWord i.offendingText).outcome = .error f ∧
        r = e.language ++ ": ".toList ++ f.detail) ∨
      ((e.acceptsWord i.offendingText).outcome = .ok false ∧ OpinionFails es i r) := by
  constructor
  · rintro ⟨-, before, e', after, f, hes, hbefore, hf, rfl⟩
    cases before with
    | nil =>
        obtain ⟨rfl, -⟩ := List.cons.inj hes
        exact .inl ⟨f, hf, rfl⟩
    | cons e'' before =>
        obtain ⟨rfl, rfl⟩ := List.cons.inj hes
        rw [List.forall_mem_cons] at hbefore
        exact .inr ⟨hbefore.1, hneeds, before, e', after, f, rfl, hbefore.2, hf, rfl⟩
  · rintro (⟨f, hf, rfl⟩ | ⟨hfirst, -, before, e', after, f, rfl, hbefore, hf, rfl⟩)
    · exact ⟨hneeds, [], e, es, f, rfl, by simp, hf, rfl⟩
    · refine ⟨hneeds, e :: before, e', after, f, rfl, ?_, hf, rfl⟩
      rw [List.forall_mem_cons]
      exact ⟨hfirst, hbefore⟩

theorem verdict_eq_error_iff {es : List Engine} {i : Issue} {x : AnalysisError} :
    verdict es i = .error x ↔ ∃ r, OpinionFails es i r ∧ x = .check ⟨i.file, i.line, r⟩ := by
  unfold verdict
  cases hneeds : needsOpinion i with
  | false => simp [OpinionFails, hneeds]
  | true =>
      rw [if_pos rfl]
      induction es with
      | nil => simp [askAll, OpinionFails]
      | cons e es ih =>
          simp only [opinionFails_cons hneeds, askAll, e.language_acceptsWord]
          cases hfirst : (e.acceptsWord i.offendingText).outcome with
          | error f => simp [eq_comm]
          | ok accepted =>
              cases accepted with
              | true => simp
              | false => simpa using ih

theorem filterAccepted_append {s : Session} {is : List Issue}
    (h : NoneFails asked OpinionFails s.auxiliaries is) :
    let s' : Session := { s with auxiliaries := is.foldl asked s.auxiliaries }
    ∃ kept, ∀ rest,
      (s.filterAccepted (is ++ rest)).outcome =
        (s'.filterAccepted rest).outcome.map (kept ++ ·) ∧
      (s.filterAccepted (is ++ rest)).session = (s'.filterAccepted rest).session := by
  induction is generalizing s with
  | nil =>
      refine ⟨[], fun rest => ⟨?_, rfl⟩⟩
      cases hrest : (s.filterAccepted rest).outcome <;> simp [hrest, Except.map]
  | cons i is ih =>
      rw [noneFails_cons] at h
      obtain ⟨kept, hkept⟩ := ih (s := { s with auxiliaries := asked s.auxiliaries i }) h.2
      cases hverdict : verdict s.auxiliaries i with
      | error x =>
          obtain ⟨r, hr, -⟩ := verdict_eq_error_iff.1 hverdict
          exact absurd hr (h.1 r)
      | ok accepted =>
          refine ⟨(if accepted then [] else [i]) ++ kept, fun rest => ?_⟩
          have hfirst := filterAccepted_cons s i (is ++ rest)
          rw [hverdict] at hfirst
          rw [List.cons_append, hfirst.1, hfirst.2, (hkept rest).1, (hkept rest).2]
          refine ⟨?_, rfl⟩
          simp only [List.foldl_cons]
          cases (filterAccepted _ rest).outcome <;> cases accepted <;> simp [Except.map]

/-! ## Lines -/

abbrev Checkers := Engine × List Engine

def checkers (s : Session) : Checkers := (s.engine, s.auxiliaries)

/-- A line fails: its markup cannot be read, or the check of its text fails, or a second
opinion on one of the issues that survive on it. -/
inductive LineFails : Checkers → ProseLine → AnalysisError → Prop where
  | number {c : Checkers} {p : ProseLine} {x : CharacterReference.Overlong}
      (hread : cleanLine p.location = .error x) : LineFails c p (.number x)
  | text {e : Engine} {es : List Engine} {p : ProseLine} {f : CheckFailure}
      (hread : IsReadable p) (hsome : (checkedText p).isAllBlank = false)
      (hcheck : (e.check (checkedText p)).outcome = .error f) :
      LineFails (e, es) p (.check ⟨p.location.file, p.location.line, f.reason⟩)
  | opinion {e : Engine} {es : List Engine} {p : ProseLine} {before after : List Issue}
      {i : Issue} {r : Text} (hdrafted : drafted e p = .ok (before ++ i :: after))
      (hfirst : FailsFirst asked OpinionFails es before i r) :
      LineFails (e, es) p (.check ⟨p.location.file, p.location.line, r⟩)

def past (c : Checkers) (p : ProseLine) : Checkers :=
  (engineAfter c.1 p, ((drafted c.1 p).toOption.getD []).foldl asked c.2)

theorem lineFails_of_heard {e : Engine} {p : ProseLine} {x : AnalysisError}
    (h : heard e p = .error x) (es : List Engine) : LineFails (e, es) p x := by
  unfold heard at h
  cases hread : cleanLine p.location with
  | error f =>
      simp only [hread] at h
      exact Except.error.inj h ▸ .number hread
  | ok clean =>
      simp only [hread] at h
      cases hblank : (checkedText p).isAllBlank with
      | true => simp [hblank] at h
      | false =>
          cases hcheck : (e.check (checkedText p)).outcome with
          | ok ms => simp [hblank, hcheck, Except.mapError] at h
          | error f =>
              simp only [hblank, hcheck, Except.mapError, Bool.false_eq_true, if_false] at h
              exact Except.error.inj h ▸ .text ⟨clean, hread⟩ hblank hcheck

theorem LineFails.exists_check {c : Checkers} {p : ProseLine} {x : AnalysisError}
    (h : LineFails c p x) (hread : IsReadable p) :
    ∃ r, x = .check ⟨p.location.file, p.location.line, r⟩ := by
  cases h with
  | number hfault =>
      obtain ⟨clean, hclean⟩ := hread
      simp [hclean] at hfault
  | text _ _ _ => exact ⟨_, rfl⟩
  | opinion _ _ => exact ⟨_, rfl⟩

theorem isNamed_engineAfter {e : Engine} (h : e.IsNamed) (p : ProseLine) :
    (engineAfter e p).IsNamed := by
  unfold engineAfter
  split
  · exact h
  · exact h.check (checkedText p)

theorem exists_drafted_ok {e : Engine} (hnamed : e.IsNamed) {p : ProseLine} {ms : List RuleMatch}
    (h : heard e p = .ok ms) : ∃ is, drafted e p = .ok is := by
  have hids : ∀ m ∈ ms, m.ruleId.trim ≠ [] := by
    rcases blank_or_check_of_heard h with ⟨rfl, -⟩ | ⟨hcheck, -⟩
    · simp
    · exact hnamed.ids_of_check hcheck
  have hall : ∀ m ∈ survivors p ms, ∃ i, issueOf p m = .ok i := by
    intro m hm
    have hid := hids m (List.mem_of_mem_filter hm)
    exact ⟨_, by rw [issueOf, Issue.ofMatch, if_neg (by simpa using hid)]⟩
  have hmade := mapM_eq_ok_iff.2 ⟨hall, rfl⟩
  simp only [drafted, h, hmade, Except.mapError]
  exact ⟨_, rfl⟩

theorem location_of_drafted {e : Engine} {p : ProseLine} {is : List Issue}
    (h : drafted e p = .ok is) {i : Issue} (hi : i ∈ is) :
    i.file = p.location.file ∧ i.line = p.location.line := by
  unfold drafted at h
  cases hheard : heard e p with
  | error f => simp [hheard] at h
  | ok ms =>
      simp only [hheard] at h
      cases hmade : (survivors p ms).mapM (issueOf p) with
      | error x => simp [hmade, Except.mapError] at h
      | ok made =>
          obtain rfl : made = is := by simpa [hmade, Except.mapError] using h
          obtain ⟨-, rfl⟩ := mapM_eq_ok_iff.1 hmade
          obtain ⟨m, -, hm⟩ := List.mem_filterMap.1 hi
          have hissue := eq_ok_of_toOption hm
          unfold issueOf Issue.ofMatch at hissue
          split at hissue
          · simp at hissue
          · obtain rfl := Except.ok.inj hissue
            exact ⟨rfl, rfl⟩

theorem checkLine_of_lineFails {s : Session} {p : ProseLine} {x : AnalysisError}
    (h : LineFails s.checkers p x) : (s.checkLine p).outcome = .error x := by
  have hline := checkLine_eq s p
  generalize hc : s.checkers = c at h
  cases h with
  | number hread =>
      simp only [drafted, heard, hread] at hline
      exact hline.1
  | text hread hsome hcheck =>
      obtain ⟨rfl, rfl⟩ := Prod.mk.inj hc
      obtain ⟨clean, hclean⟩ := hread
      simp only [drafted, heard, hclean, hsome, hcheck, Except.mapError, Bool.false_eq_true,
        if_false] at hline
      exact hline.1
  | @opinion e es p before after i r hdrafted hfirst =>
      obtain ⟨rfl, rfl⟩ := Prod.mk.inj hc
      rw [hdrafted] at hline
      rw [hline.1]
      obtain ⟨kept, hkept⟩ := filterAccepted_append
        (s := { s with engine := engineAfter s.engine p }) hfirst.passes
      obtain ⟨hfile, hnumber⟩ := location_of_drafted hdrafted (i := i) (by simp)
      have hlast := filterAccepted_cons { s with
        engine := engineAfter s.engine p
        auxiliaries := before.foldl asked s.auxiliaries } i after
      rw [verdict_eq_error_iff.2 ⟨r, hfirst.fails, rfl⟩, hfile, hnumber] at hlast
      rw [(hkept _).1, hlast.1]
      rfl

theorem checkLine_of_not_lineFails {s : Session} (hnamed : s.engine.IsNamed) {p : ProseLine}
    (h : ∀ x, ¬ LineFails s.checkers p x) :
    ∃ is, (s.checkLine p).outcome = .ok is ∧
      (s.checkLine p).session.checkers = past s.checkers p := by
  have hline := checkLine_eq s p
  cases hheard : heard s.engine p with
  | error x => exact absurd (lineFails_of_heard hheard _) (h x)
  | ok ms =>
      obtain ⟨is, hdrafted⟩ := exists_drafted_ok hnamed hheard
      rw [hdrafted] at hline
      rcases noneFails_or_exists_failsFirst s.auxiliaries is with
        hnone | ⟨before, i, after, r, rfl, hfirst⟩
      · obtain ⟨kept, hkept⟩ := filterAccepted_append
          (s := { s with engine := engineAfter s.engine p }) hnone
        obtain ⟨houtcome, hsession⟩ := hkept []
        rw [List.append_nil] at houtcome hsession
        refine ⟨kept, ?_, ?_⟩
        · rw [hline.1, houtcome]
          simp [filterAccepted, Except.map]
        · rw [hline.2, hsession]
          simp [filterAccepted, checkers, past, hdrafted, Except.toOption]
      · exact absurd (.opinion hdrafted hfirst) (h _)

/-! ## Lines in order -/

theorem checkLines_append {s : Session} (hnamed : s.engine.IsNamed) {lines : List ProseLine}
    (h : NoneFails past LineFails s.checkers lines) :
    ∃ s' : Session, s'.checkers = lines.foldl past s.checkers ∧ ∀ rest,
      (s.checkLines (lines ++ rest)).outcome = (s'.checkLines rest).outcome ∧
      (s.checkLines (lines ++ rest)).session = (s'.checkLines rest).session := by
  induction lines generalizing s with
  | nil => exact ⟨s, rfl, fun rest => ⟨rfl, rfl⟩⟩
  | cons p lines ih =>
      rw [noneFails_cons] at h
      obtain ⟨is, his, hpast⟩ := checkLine_of_not_lineFails hnamed h.1
      have hafter : (s.afterLine p is).checkers = past s.checkers p := hpast
      have hnamed' : (s.afterLine p is).engine.IsNamed := by
        rw [show (s.afterLine p is).engine = _ from s.engine_checkLine p]
        exact isNamed_engineAfter hnamed p
      obtain ⟨s', hs', hrest⟩ := ih hnamed' (hafter ▸ h.2)
      refine ⟨s', by rw [hs', hafter, List.foldl_cons], fun rest => ?_⟩
      obtain ⟨houtcome, hsession⟩ := checkLines_of_ok his (lines ++ rest)
      rw [List.cons_append, houtcome, hsession]
      exact hrest rest

theorem engine_foldl_past (c : Checkers) (lines : List ProseLine) :
    (lines.foldl past c).1 = lines.foldl engineAfter c.1 := by
  induction lines generalizing c with
  | nil => rfl
  | cons p lines ih => exact ih (past c p)

theorem checkLines_of_failsFirst {s : Session} (hnamed : s.engine.IsNamed)
    {before : List ProseLine} {p : ProseLine} {x : AnalysisError}
    (h : FailsFirst past LineFails s.checkers before p x) (after : List ProseLine) :
    (s.checkLines (before ++ p :: after)).outcome = .error x ∧
      (s.checkLines (before ++ p :: after)).session.engine =
        (before ++ [p]).foldl engineAfter s.engine := by
  obtain ⟨s', hs', hrest⟩ := checkLines_append hnamed h.passes
  have hline := checkLine_of_lineFails (s := s') (hs' ▸ h.fails)
  have hengine : s'.engine = before.foldl engineAfter s.engine :=
    (congrArg Prod.fst hs').trans (engine_foldl_past s.checkers before)
  rw [(hrest _).1, (hrest _).2, checkLines]
  simp only [hline, List.foldl_append, List.foldl_cons, List.foldl_nil]
  exact ⟨trivial, by rw [s'.engine_checkLine, hengine]⟩

theorem checkLines_of_noneFails {s : Session} (hnamed : s.engine.IsNamed)
    {lines : List ProseLine} (h : NoneFails past LineFails s.checkers lines) :
    (s.checkLines lines).outcome = .ok () ∧
      (s.checkLines lines).session.engine = lines.foldl engineAfter s.engine := by
  obtain ⟨s', hs', hrest⟩ := checkLines_append hnamed h
  obtain ⟨houtcome, hsession⟩ := hrest []
  rw [List.append_nil] at houtcome hsession
  rw [houtcome, hsession]
  exact ⟨rfl, (congrArg Prod.fst hs').trans (engine_foldl_past s.checkers lines)⟩

end Session

/-! ## Failures that are reported -/

namespace Session

theorem analyze_of_load {s : Session} {path : Path} {source : Text} {t : DocumentTree}
    {lines : List ProseLine} (hload : Document.load path source = .ok t)
    (hwalk : t.walk suppressionAttribute = .ok lines) :
    let s' : Session := { s with issues := [] }
    (s.analyze source path).outcome = (s'.checkLines lines).outcome.map (fun _ =>
        ⟨(s'.checkLines lines).session.issues, (s'.checkLines lines).session.engine.activeRules⟩) ∧
      (s.analyze source path).session = (s'.checkLines lines).session := by
  simp only [analyze, hload, analyzeLoaded, analyzeTree, hwalk, and_self]

end Session

end Proofreader
