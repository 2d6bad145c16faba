import Mathlib.Data.List.Forall2
import Proofreader.Proofs.Document.Lines
import Proofreader.Proofs.Engine.SecondOpinion
import Proofreader.Session

/-!
# Findings

An issue that is reported was built from one match on one line of one node.  The
findings of an analysis keep the node and the match beside the issue.  They can be
given without following the state of the auxiliary engines, since steady engines say
the same about a word whenever they are asked.
-/

namespace Proofreader

/-- An issue with the node and the match that it was built from. -/
structure Finding where
  node : Nat
  found : RuleMatch
  issue : Issue
  deriving DecidableEq, Repr

namespace Session

/-! ## Second opinions -/

abbrev AllAgree (es es' : List Engine) : Prop := List.Forall₂ Engine.Agrees es es'

theorem AllAgree.trans {es es' last : List Engine} (h : AllAgree es es')
    (h' : AllAgree es' last) : AllAgree es last := by
  induction h generalizing last with
  | nil => exact h'
  | cons hfirst _ ih =>
      cases h' with
      | cons hfirst' hrest' => exact .cons (hfirst.trans hfirst') (ih hrest')

theorem allAgree_refl (es : List Engine) : AllAgree es es :=
  List.forall₂_same.2 fun e _ => .refl e

theorem AllAgree.isSteady {es es' : List Engine} (h : AllAgree es es')
    (hsteady : ∀ e ∈ es, e.IsSteady) : ∀ e ∈ es', e.IsSteady := by
  induction h with
  | nil => simp
  | cons hfirst _ ih =>
      simp only [List.forall_mem_cons] at hsteady ⊢
      exact ⟨hfirst.isSteady hsteady.1, ih hsteady.2⟩

theorem askAll_agree (i : Issue) {es : List Engine} (hsteady : ∀ e ∈ es, e.IsSteady) :
    AllAgree es (askAll i es).engines := by
  induction es with
  | nil => exact .nil
  | cons e es ih =>
      simp only [List.forall_mem_cons] at hsteady
      have hfirst := hsteady.1.agrees_acceptsWord i.offendingText
      unfold askAll
      simp only
      split
      · exact .cons hfirst (allAgree_refl es)
      · exact .cons hfirst (allAgree_refl es)
      · exact .cons hfirst (ih hsteady.2)

theorem AllAgree.outcome_askAll {es es' : List Engine} (h : AllAgree es es')
    (hsteady : ∀ e ∈ es, e.IsSteady) (i : Issue) :
    (askAll i es').outcome = (askAll i es).outcome := by
  induction h with
  | nil => rfl
  | @cons e e' es es' hfirst _ ih =>
      simp only [List.forall_mem_cons] at hsteady
      have hlanguage : (e'.acceptsWord i.offendingText).engine.language =
          (e.acceptsWord i.offendingText).engine.language := by
        rw [((hfirst.isSteady hsteady.1).agrees_acceptsWord i.offendingText).language_eq,
          (hsteady.1.agrees_acceptsWord i.offendingText).language_eq, hfirst.language_eq]
      rw [askAll, askAll]
      simp only [hfirst.outcome_acceptsWord hsteady.1, hlanguage]
      split
      · rfl
      · rfl
      · exact ih hsteady.2

def verdict (auxiliaries : List Engine) (i : Issue) : Except AnalysisError Bool :=
  if needsOpinion i then (askAll i auxiliaries).outcome else .ok false

def accepts (auxiliaries : List Engine) (i : Issue) : Bool :=
  (verdict auxiliaries i).toOption.getD false

def asked (es : List Engine) (i : Issue) : List Engine :=
  if needsOpinion i then (askAll i es).engines else es

theorem asked_agree (i : Issue) {es : List Engine} (hsteady : ∀ e ∈ es, e.IsSteady) :
    AllAgree es (asked es i) := by
  unfold asked
  split
  · exact askAll_agree i hsteady
  · exact allAgree_refl es

theorem AllAgree.verdict_eq {es es' : List Engine} (h : AllAgree es es')
    (hsteady : ∀ e ∈ es, e.IsSteady) (i : Issue) : verdict es' i = verdict es i := by
  rw [verdict, h.outcome_askAll hsteady, verdict]

theorem filterAccepted_cons (s : Session) (i : Issue) (is : List Issue) :
    let s' : Session := { s with auxiliaries := asked s.auxiliaries i }
    match verdict s.auxiliaries i with
    | .error e => (s.filterAccepted (i :: is)).outcome = .error e ∧
        (s.filterAccepted (i :: is)).session = s'
    | .ok accepted =>
        (s.filterAccepted (i :: is)).outcome =
            (s'.filterAccepted is).outcome.map (fun is => if accepted then is else i :: is) ∧
          (s.filterAccepted (i :: is)).session = (s'.filterAccepted is).session := by
  simp only [filterAccepted, verdict, asked]
  cases needsOpinion i with
  | false => exact ⟨rfl, rfl⟩
  | true =>
      simp only [if_true]
      cases (askAll i s.auxiliaries).outcome with
      | error e => exact ⟨rfl, rfl⟩
      | ok accepted => exact ⟨rfl, rfl⟩

theorem session_filterAccepted (s : Session) (is : List Issue) :
    ∃ auxiliaries, (s.filterAccepted is).session = { s with auxiliaries } := by
  induction is generalizing s with
  | nil => exact ⟨s.auxiliaries, rfl⟩
  | cons i is ih =>
      have hfirst := filterAccepted_cons s i is
      cases hverdict : verdict s.auxiliaries i with
      | error e =>
          rw [hverdict] at hfirst
          exact ⟨_, hfirst.2⟩
      | ok accepted =>
          rw [hverdict] at hfirst
          rw [hfirst.2]
          exact ih _

theorem engine_filterAccepted (s : Session) (is : List Issue) :
    (s.filterAccepted is).session.engine = s.engine := by
  obtain ⟨auxiliaries, h⟩ := s.session_filterAccepted is
  rw [h]

theorem issues_filterAccepted (s : Session) (is : List Issue) :
    (s.filterAccepted is).session.issues = s.issues := by
  obtain ⟨auxiliaries, h⟩ := s.session_filterAccepted is
  rw [h]

section Analysis

variable {auxiliaries : List Engine}

def Filtered (auxiliaries : List Engine) (is kept : List Issue) : Prop :=
  (∀ i ∈ is, ∃ b, verdict auxiliaries i = .ok b) ∧
    kept = is.filter fun i => !accepts auxiliaries i

theorem filtered_cons {i : Issue} {is : List Issue} {accepted : Bool}
    {x : Except AnalysisError (List Issue)} (hverdict : verdict auxiliaries i = .ok accepted)
    (hrest : ∀ kept, x = .ok kept ↔ Filtered auxiliaries is kept) (kept : List Issue) :
    x.map (fun is => if accepted then is else i :: is) = .ok kept ↔
      Filtered auxiliaries (i :: is) kept := by
  have haccepts : accepts auxiliaries i = accepted := by rw [accepts, hverdict]; rfl
  constructor
  · intro h
    obtain ⟨rest, hx, rfl⟩ := exists_ok_of_map h
    obtain ⟨hall, rfl⟩ := (hrest rest).1 hx
    refine ⟨by simpa [hverdict] using hall, ?_⟩
    cases accepted <;> simp [haccepts]
  · rintro ⟨hall, rfl⟩
    have hx := (hrest _).2 ⟨fun i hi => hall i (List.mem_cons_of_mem _ hi), rfl⟩
    rw [hx]
    cases accepted <;> simp [haccepts, Except.map]

theorem filterAccepted_spec (hsteady : ∀ e ∈ auxiliaries, e.IsSteady) {s : Session}
    (hagree : AllAgree auxiliaries s.auxiliaries) (is : List Issue) :
    AllAgree auxiliaries (s.filterAccepted is).session.auxiliaries ∧
      ∀ kept, (s.filterAccepted is).outcome = .ok kept ↔ Filtered auxiliaries is kept := by
  induction is generalizing s with
  | nil =>
      refine ⟨hagree, fun kept => ?_⟩
      simp [filterAccepted, Filtered, eq_comm]
  | cons i is ih =>
      have hfirst := filterAccepted_cons s i is
      -- The engines that were asked still agree with those at the beginning.
      have hasked := hagree.trans (asked_agree i (hagree.isSteady hsteady))
      obtain ⟨haux, hkept⟩ := ih (s := { s with auxiliaries := asked s.auxiliaries i }) hasked
      rw [hagree.verdict_eq hsteady] at hfirst
      cases hverdict : verdict auxiliaries i with
      | error e =>
          rw [hverdict] at hfirst
          rw [hfirst.1, hfirst.2]
          refine ⟨hasked, fun kept => ?_⟩
          simp [Filtered, hverdict]
      | ok accepted =>
          rw [hverdict] at hfirst
          rw [hfirst.1, hfirst.2]
          exact ⟨haux, filtered_cons hverdict hkept⟩

/-! ## One line -/

def cleaned (p : ProseLine) : Stripped :=
  ((cleanLine p.location).toOption.map Prod.fst).getD ⟨[], []⟩

def checkedText (p : ProseLine) : Text := (cleaned p).text

theorem cleaned_of_ok {p : ProseLine} {clean : Stripped} {remarks : List Remark}
    (h : cleanLine p.location = .ok (clean, remarks)) : cleaned p = clean := by
  rw [cleaned, h]
  rfl

theorem checkedText_of_error {p : ProseLine} {e : CharacterReference.Overlong}
    (h : cleanLine p.location = .error e) : checkedText p = [] := by
  rw [checkedText, cleaned, h]
  rfl

/-- What an engine returns for a line; a blank line is not checked, nor is one that
cannot be read. -/
def heard (e : Engine) (p : ProseLine) : Except AnalysisError (List RuleMatch) :=
  match cleanLine p.location with
  | .error x => .error (.number x)
  | .ok _ =>
      if (checkedText p).isAllBlank then .ok []
      else (e.check (checkedText p)).outcome.mapError fun f =>
        .check ⟨p.location.file, p.location.line, f.reason⟩

def IsReadable (p : ProseLine) : Prop := ∃ clean, cleanLine p.location = .ok clean

theorem heard_eq_ok_iff {e : Engine} {p : ProseLine} {ms : List RuleMatch} :
    heard e p = .ok ms ↔ IsReadable p ∧
      if (checkedText p).isAllBlank then ms = [] else (e.check (checkedText p)).outcome = .ok ms := by
  unfold heard
  cases hread : cleanLine p.location with
  | error x => simp [IsReadable, hread]
  | ok clean =>
      rw [and_iff_right ⟨clean, hread⟩]
      simp only
      split
      · rw [Except.ok.injEq, eq_comm]
      · cases (e.check (checkedText p)).outcome <;> simp [Except.mapError]

def engineAfter (e : Engine) (p : ProseLine) : Engine :=
  if (checkedText p).isAllBlank then e else (e.check (checkedText p)).engine

theorem blank_or_check_of_heard {e : Engine} {p : ProseLine} {ms : List RuleMatch}
    (h : heard e p = .ok ms) :
    (ms = [] ∧ engineAfter e p = e) ∨
      ((e.check (checkedText p)).outcome = .ok ms ∧
        engineAfter e p = (e.check (checkedText p)).engine) := by
  obtain ⟨-, h⟩ := heard_eq_ok_iff.1 h
  unfold engineAfter
  split at h
  · exact .inl ⟨h, if_pos ‹_›⟩
  · exact .inr ⟨h, if_neg ‹_›⟩

def survivors (p : ProseLine) (ms : List RuleMatch) : List RuleMatch :=
  surviving p.ignored (cleaned p).regions defaultMarker ms

def issueOf (p : ProseLine) (m : RuleMatch) : Except BlankId Issue :=
  Issue.ofMatch (p.location.withText (checkedText p)) m

def drafted (e : Engine) (p : ProseLine) : Except AnalysisError (List Issue) :=
  match heard e p with
  | .error x => .error x
  | .ok ms => ((survivors p ms).mapM (issueOf p)).mapError .ruleId

theorem checkLine_eq (s : Session) (p : ProseLine) :
    let s' : Session := { s with engine := engineAfter s.engine p }
    match drafted s.engine p with
    | .error e => (s.checkLine p).outcome = .error e ∧ (s.checkLine p).session = s'
    | .ok is =>
        (s.checkLine p).outcome = (s'.filterAccepted is).outcome ∧
          (s.checkLine p).session = (s'.filterAccepted is).session := by
  unfold checkLine drafted heard engineAfter
  cases hread : cleanLine p.location with
  | error x => simp [checkedText_of_error hread, Text.isAllBlank]
  | ok read =>
      obtain ⟨clean, remarks⟩ := read
      obtain rfl := cleaned_of_ok hread
      simp only [← checkedText.eq_def]
      cases hblank : (checkedText p).isAllBlank with
      | true => exact ⟨rfl, rfl⟩
      | false =>
          simp only [Bool.false_eq_true, if_false]
          cases hchecked : (s.engine.check (checkedText p)).outcome with
          | error f => exact ⟨rfl, rfl⟩
          | ok ms =>
              have hreconcile : reconcile (p.location.withText (checkedText p)) p.ignored
                  (cleaned p).regions defaultMarker ms = (survivors p ms).mapM (issueOf p) := rfl
              simp only [hreconcile, Except.mapError]
              cases (survivors p ms).mapM (issueOf p) with
              | error e => exact ⟨rfl, rfl⟩
              | ok is => exact ⟨rfl, rfl⟩

theorem engine_checkLine (s : Session) (p : ProseLine) :
    (s.checkLine p).session.engine = engineAfter s.engine p := by
  have hline := checkLine_eq s p
  cases hdrafted : drafted s.engine p with
  | error x =>
      rw [hdrafted] at hline
      rw [hline.2]
  | ok is =>
      rw [hdrafted] at hline
      rw [hline.2, engine_filterAccepted]

def Settled (auxiliaries : List Engine) (p : ProseLine) (m : RuleMatch) : Prop :=
  ∃ i, issueOf p m = .ok i ∧ ∃ b, verdict auxiliaries i = .ok b

def lineFindings (auxiliaries : List Engine) (node : Nat) (p : ProseLine) (ms : List RuleMatch) :
    List Finding :=
  ((survivors p ms).filterMap fun m => (issueOf p m).toOption.map (Finding.mk node m)).filter
    fun f => !accepts auxiliaries f.issue

theorem lineFindings_issues (node : Nat) (p : ProseLine) (ms : List RuleMatch) :
    (lineFindings auxiliaries node p ms).map Finding.issue =
      ((survivors p ms).filterMap fun m => (issueOf p m).toOption).filter
        fun i => !accepts auxiliaries i := by
  unfold lineFindings
  induction survivors p ms with
  | nil => rfl
  | cons m ms ih =>
      rw [List.filterMap_cons, List.filterMap_cons]
      cases (issueOf p m).toOption with
      | none => exact ih
      | some i => by_cases hi : accepts auxiliaries i = true <;> simp [hi, ih]

theorem lineFindings_filter {node : Nat} {p p' : ProseLine} {ms ms' : List RuleMatch}
    {q : RuleMatch → Bool} (hissue : issueOf p' = issueOf p)
    (hsurvivors : survivors p' ms' = (survivors p ms).filter q) :
    lineFindings auxiliaries node p' ms' =
      (lineFindings auxiliaries node p ms).filter fun f => q f.found := by
  rw [lineFindings, lineFindings, hsurvivors, hissue, List.filter_filter]
  induction survivors p ms with
  | nil => rfl
  | cons m ms ih =>
      rw [List.filter_cons, List.filterMap_cons]
      cases hkeep : q m with
      | false =>
          cases (issueOf p m).toOption with
          | none => simpa using ih
          | some i => simpa [hkeep] using ih
      | true =>
          rw [if_pos rfl, List.filterMap_cons]
          cases (issueOf p m).toOption with
          | none => simpa using ih
          | some i => simp [List.filter_cons, hkeep, ih]

theorem lineFindings_node {node : Nat} {p : ProseLine} {ms : List RuleMatch} {f : Finding}
    (h : f ∈ lineFindings auxiliaries node p ms) : f.node = node := by
  obtain ⟨m, -, hm⟩ := List.mem_filterMap.1 (List.mem_of_mem_filter h)
  obtain ⟨i, -, rfl⟩ := Option.map_eq_some_iff.1 hm
  rfl

theorem filtered_reconcile {node : Nat} {p : ProseLine} {ms : List RuleMatch} {is : List Issue} :
    (∃ made, (survivors p ms).mapM (issueOf p) = .ok made ∧ Filtered auxiliaries made is) ↔
      (∀ m ∈ survivors p ms, Settled auxiliaries p m) ∧
        is = (lineFindings auxiliaries node p ms).map Finding.issue := by
  rw [lineFindings_issues]
  constructor
  · rintro ⟨made, hmade, hverdicts, rfl⟩
    obtain ⟨hall, rfl⟩ := mapM_eq_ok_iff.1 hmade
    refine ⟨fun m hm => ?_, rfl⟩
    obtain ⟨i, hi⟩ := hall m hm
    exact ⟨i, hi, hverdicts i (List.mem_filterMap.2 ⟨m, hm, by rw [hi]; rfl⟩)⟩
  · rintro ⟨hall, rfl⟩
    refine ⟨_, mapM_eq_ok_iff.2 ⟨fun m hm => ?_, rfl⟩, fun i hi => ?_, rfl⟩
    · obtain ⟨i, hi, -⟩ := hall m hm
      exact ⟨i, hi⟩
    · obtain ⟨m, hm, hmi⟩ := List.mem_filterMap.1 hi
      obtain ⟨j, hj, hverdict⟩ := hall m hm
      obtain rfl : j = i := by simpa [hj, Except.toOption] using hmi
      exact hverdict

theorem checkLine_spec (hsteady : ∀ e ∈ auxiliaries, e.IsSteady) {s : Session}
    (hagree : AllAgree auxiliaries s.auxiliaries) (node : Nat) (p : ProseLine) :
    (s.checkLine p).session.engine = engineAfter s.engine p ∧
      (s.checkLine p).session.issues = s.issues ∧
      AllAgree auxiliaries (s.checkLine p).session.auxiliaries ∧
      ∀ is, (s.checkLine p).outcome = .ok is ↔
        ∃ ms, heard s.engine p = .ok ms ∧ (∀ m ∈ survivors p ms, Settled auxiliaries p m) ∧
          is = (lineFindings auxiliaries node p ms).map Finding.issue := by
  have hline := checkLine_eq s p
  unfold drafted at hline
  cases hheard : heard s.engine p with
  | error f =>
      simp only [hheard] at hline
      simp [hline, hagree]
  | ok ms =>
      simp only [hheard, Except.ok.injEq, exists_eq_left'] at hline ⊢
      cases hmade : (survivors p ms).mapM (issueOf p) with
      | error e =>
          simp only [hmade, Except.mapError] at hline
          rw [hline.1, hline.2]
          refine ⟨rfl, rfl, hagree, fun is => ?_⟩
          rw [← filtered_reconcile]
          simp [hmade]
      | ok made =>
          simp only [hmade, Except.mapError] at hline
          rw [hline.1, hline.2]
          obtain ⟨haux, hkept⟩ := filterAccepted_spec hsteady
            (s := { s with engine := engineAfter s.engine p }) hagree made
          refine ⟨engine_filterAccepted _ _, issues_filterAccepted _ _, haux, fun is => ?_⟩
          rw [← filtered_reconcile]
          simp only [hmade, Except.ok.injEq, exists_eq_left']
          exact hkept is

/-! ## Lines in order -/

/-- What the check of a line keeps, whatever issues were gathered, holds after an analysis,
however it turns out. -/
theorem analyzeBytes_induction {P : Session → Prop}
    (hissues : ∀ {s : Session} (is : List Issue), P s → P { s with issues := is })
    (hline : ∀ {s : Session} (p : ProseLine), P s → P (s.checkLine p).session) {s : Session}
    (h : P s) (bytes : Utf8.Bytes) (path : Path) : P (s.analyzeBytes bytes path).session := by
  have hlines : ∀ {s : Session} (lines : List ProseLine), P s → P (s.checkLines lines).session := by
    intro s lines h
    induction lines generalizing s with
    | nil => exact h
    | cons p lines ih =>
        have hfirst := hline p h
        unfold checkLines
        simp only
        split
        · exact hfirst
        · exact ih (hissues _ hfirst)
  unfold analyzeBytes
  split
  · exact h
  · rename_i text _
    unfold analyze analyzeLoaded
    split
    · exact h
    · unfold analyzeTree
      simp only
      split
      · exact hissues [] h
      · exact hlines _ (hissues [] h)

def findingsFrom (auxiliaries : List Engine) : Engine → List (Nat × ProseLine) → List Finding
  | _, [] => []
  | e, (i, p) :: rest =>
      lineFindings auxiliaries i p ((heard e p).toOption.getD []) ++
        findingsFrom auxiliaries (engineAfter e p) rest

def Passes (auxiliaries : List Engine) : Engine → List (Nat × ProseLine) → Prop
  | _, [] => True
  | e, (_, p) :: rest =>
      (∃ ms, heard e p = .ok ms ∧ ∀ m ∈ survivors p ms, Settled auxiliaries p m) ∧
        Passes auxiliaries (engineAfter e p) rest

def engineAfterAll (e : Engine) (lines : List (Nat × ProseLine)) : Engine :=
  lines.foldl (fun e line => engineAfter e line.2) e

def afterLine (s : Session) (p : ProseLine) (is : List Issue) : Session :=
  { (s.checkLine p).session with issues := (s.checkLine p).session.issues ++ is }

theorem checkLines_of_ok {s : Session} {p : ProseLine} {is : List Issue}
    (h : (s.checkLine p).outcome = .ok is) (rest : List ProseLine) :
    (s.checkLines (p :: rest)).outcome = ((s.afterLine p is).checkLines rest).outcome ∧
      (s.checkLines (p :: rest)).session = ((s.afterLine p is).checkLines rest).session := by
  rw [checkLines]
  simp [h, afterLine]

theorem checkLines_spec (hsteady : ∀ e ∈ auxiliaries, e.IsSteady) {s : Session}
    (hagree : AllAgree auxiliaries s.auxiliaries) (lines : List (Nat × ProseLine)) :
    ((s.checkLines (lines.map Prod.snd)).outcome = .ok () ↔ Passes auxiliaries s.engine lines) ∧
      (Passes auxiliaries s.engine lines →
        (s.checkLines (lines.map Prod.snd)).session.engine = engineAfterAll s.engine lines ∧
        AllAgree auxiliaries (s.checkLines (lines.map Prod.snd)).session.auxiliaries ∧
        (s.checkLines (lines.map Prod.snd)).session.issues =
          s.issues ++ (findingsFrom auxiliaries s.engine lines).map Finding.issue) := by
  induction lines generalizing s with
  | nil => simp [checkLines, Passes, engineAfterAll, findingsFrom, hagree]
  | cons line lines ih =>
      obtain ⟨node, p⟩ := line
      obtain ⟨hengine, hissues, haux, hspec⟩ := checkLine_spec hsteady hagree node p
      rw [List.map_cons]
      cases hline : (s.checkLine p).outcome with
      | error e =>
          have hnot : ¬ Passes auxiliaries s.engine ((node, p) :: lines) := by
            rintro ⟨⟨ms, hheard, hsettled⟩, -⟩
            have hok := (hspec _).2 ⟨ms, hheard, hsettled, rfl⟩
            simp [hline] at hok
          refine ⟨?_, fun h => absurd h hnot⟩
          simp [checkLines, hline, hnot]
      | ok is =>
          obtain ⟨ms, hheard, hsettled, rfl⟩ := (hspec is).1 hline
          obtain ⟨houtcome, hsession⟩ := checkLines_of_ok hline (lines.map Prod.snd)
          obtain ⟨hok, hlast⟩ := ih (s := s.afterLine p _) haux
          rw [show (s.afterLine p _).engine = _ from hengine] at hok hlast
          rw [houtcome, hsession]
          refine ⟨hok.trans (and_iff_right ⟨ms, hheard, hsettled⟩).symm, fun h => ?_⟩
          obtain ⟨hlastEngine, hlastAux, hlastIssues⟩ := hlast h.2
          refine ⟨hlastEngine, hlastAux, ?_⟩
          rw [hlastIssues, afterLine, hissues, findingsFrom, hheard, List.map_append,
            List.append_assoc]
          rfl

def findings (s : Session) (t : DocumentTree) : List Finding :=
  findingsFrom s.auxiliaries s.engine (t.placedLines suppressionAttribute)

theorem analyzeTree_spec (hsteady : ∀ e ∈ auxiliaries, e.IsSteady) {s : Session}
    (hagree : AllAgree auxiliaries s.auxiliaries) {t : DocumentTree}
    (hwalk : ∃ lines, t.walk suppressionAttribute = .ok lines)
    (hpasses : Passes auxiliaries s.engine (t.placedLines suppressionAttribute)) :
    (s.analyzeTree t).session.engine =
        engineAfterAll s.engine (t.placedLines suppressionAttribute) ∧
      AllAgree auxiliaries (s.analyzeTree t).session.auxiliaries ∧
      (s.analyzeTree t).outcome = .ok
        ⟨(findingsFrom auxiliaries s.engine (t.placedLines suppressionAttribute)).map Finding.issue,
          (engineAfterAll s.engine (t.placedLines suppressionAttribute)).activeRules⟩ := by
  obtain ⟨lines, hlines⟩ := hwalk
  obtain ⟨-, -, rfl⟩ := DocumentTree.walk_eq_ok_iff.1 hlines
  obtain ⟨hok, hlast⟩ := checkLines_spec hsteady (s := { s with issues := [] }) hagree
    (t.placedLines suppressionAttribute)
  obtain ⟨hengine, haux, hissues⟩ := hlast hpasses
  rw [analyzeTree, hlines]
  refine ⟨hengine, haux, ?_⟩
  simp [hok.2 hpasses, hengine, hissues, Except.map]

theorem analyzeTree_of_passes {s : Session} (hsteady : ∀ e ∈ s.auxiliaries, e.IsSteady)
    {t : DocumentTree} (hwalk : ∃ lines, t.walk suppressionAttribute = .ok lines)
    (hpasses : Passes s.auxiliaries s.engine (t.placedLines suppressionAttribute)) :
    (s.analyzeTree t).session.engine =
        engineAfterAll s.engine (t.placedLines suppressionAttribute) ∧
      (s.analyzeTree t).outcome = .ok ⟨(s.findings t).map Finding.issue,
        (engineAfterAll s.engine (t.placedLines suppressionAttribute)).activeRules⟩ := by
  obtain ⟨hengine, -, houtcome⟩ :=
    analyzeTree_spec hsteady (allAgree_refl s.auxiliaries) hwalk hpasses
  exact ⟨hengine, houtcome⟩

theorem passes_of_analyzeTree {s : Session} (hsteady : ∀ e ∈ s.auxiliaries, e.IsSteady)
    {t : DocumentTree} {result : AnalysisResult} (h : (s.analyzeTree t).outcome = .ok result) :
    (∃ lines, t.walk suppressionAttribute = .ok lines) ∧
      Passes s.auxiliaries s.engine (t.placedLines suppressionAttribute) := by
  unfold analyzeTree at h
  cases hwalk : t.walk suppressionAttribute with
  | error e => simp [hwalk] at h
  | ok lines =>
      obtain ⟨-, -, rfl⟩ := DocumentTree.walk_eq_ok_iff.1 hwalk
      simp only [hwalk] at h
      obtain ⟨_, houtcome, -⟩ := exists_ok_of_map h
      have hspec := checkLines_spec hsteady (s := { s with issues := [] })
        (allAgree_refl s.auxiliaries) (t.placedLines suppressionAttribute)
      exact ⟨⟨_, rfl⟩, hspec.1.1 houtcome⟩

end Analysis

end Session

end Proofreader
