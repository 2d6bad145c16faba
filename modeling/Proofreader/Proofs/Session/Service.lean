import Proofreader.Opening
import Proofreader.Proofs.Engine.Step
import Proofreader.Proofs.Session.Findings
import Proofreader.Proofs.Tool.Service

/-!
# The tools of a session

Whatever a session does, it asks the tools that were built for it, and it closes each of
them once.  If its opening is broken off, the tools that were built until then are closed
instead.
-/

namespace Proofreader

/-! ## Engines -/

namespace Engine

theorem serves_considerAll (text : Text) (e : Engine) (as : List Answer) :
    e.tool.Serves (considerAll text e as).engine.tool := by
  obtain ⟨rules, htool⟩ := considerAll_tool_eq e text as
  rw [htool]
  exact .ofRules e.tool rules _ _

theorem serves_check (e : Engine) (text : Text) : e.tool.Serves (e.check text).engine.tool := by
  have hasked := Tool.Serves.asked e.tool text
  cases hresponse : (e.tool.check text).1 with
  | fails f =>
      rw [check_of_fails hresponse]
      exact hasked
  | answers as =>
      rw [check_of_answers hresponse]
      exact hasked.trans (serves_considerAll text { e with tool := (e.tool.check text).2 } as)

theorem serves_acceptsWord (e : Engine) (word : Text) :
    e.tool.Serves (e.acceptsWord word).engine.tool := by
  unfold acceptsWord
  split
  · exact .refl e.tool
  · exact e.serves_check word

end Engine

namespace Session

/-! ## Analyses -/

/-- The tools of the session are those that were built for it, after some checks. -/
def Uses (built : List Tool) (s : Session) : Prop := List.Forall₂ Tool.Serves built s.tools

variable {built : List Tool} {s : Session}

theorem serves_askAll (i : Issue) {es : List Engine}
    (h : List.Forall₂ Tool.Serves built (es.map (·.tool))) :
    List.Forall₂ Tool.Serves built ((askAll i es).engines.map (·.tool)) := by
  induction es generalizing built with
  | nil => exact h
  | cons e es ih =>
      cases h with
      | cons hfirst hrest =>
          have hasked := hfirst.trans (e.serves_acceptsWord i.offendingText)
          unfold askAll
          simp only
          split
          · exact .cons hasked hrest
          · exact .cons hasked hrest
          · exact .cons hasked (ih hrest)

namespace Uses

theorem filterAccepted (h : Uses built s) (is : List Issue) :
    Uses built (s.filterAccepted is).session := by
  induction is generalizing s with
  | nil => exact h
  | cons i is ih =>
      unfold Session.filterAccepted
      split
      · have hasked : Uses built { s with auxiliaries := (askAll i s.auxiliaries).engines } := by
          cases h with
          | cons hfirst hrest => exact .cons hfirst (serves_askAll i hrest)
        simp only
        split
        · exact hasked
        · exact ih hasked
      · exact ih h

theorem checkLine (h : Uses built s) (p : ProseLine) : Uses built (s.checkLine p).session := by
  have hasked : Uses built { s with engine := engineAfter s.engine p } := by
    unfold engineAfter
    split
    · exact h
    · cases h with
      | cons hfirst hrest => exact .cons (hfirst.trans (s.engine.serves_check _)) hrest
  have hline := checkLine_eq s p
  cases hdrafted : drafted s.engine p with
  | error x =>
      rw [hdrafted] at hline
      exact hline.2 ▸ hasked
  | ok is =>
      rw [hdrafted] at hline
      exact hline.2 ▸ hasked.filterAccepted is

theorem analyzeBytes (h : Uses built s) (bytes : Utf8.Bytes) (path : Path) :
    Uses built (s.analyzeBytes bytes path).session :=
  analyzeBytes_induction (P := Uses built) (fun _ h => h) (fun p h => h.checkLine p) h bytes path

theorem close (h : Uses built s) (hcloseable : ∀ t ∈ built, t.isCloseable = true) :
    List.Forall₂ Tool.Retires built s.close.tools := by
  have htools : s.close.tools = s.tools.map Tool.close := by
    simp [tools, Session.close, Engine.close]
  rw [htools, List.forall₂_map_right_iff]
  have hboth := (List.forall₂_and_left (p := fun t => t.isCloseable = true) built s.tools).2
    ⟨hcloseable, h⟩
  exact hboth.imp fun t last ht => ht.2.close ht.1

end Uses

/-! ## Openings -/

section Opening

variable (m : ToolManager) (f : ToolFactory)

def requestedAuxiliaries : Nat → List Text → List (Nat × ToolRequest)
  | _, [] => []
  | n, language :: rest =>
      ToolManager.attempts f n ⟨language, m.options none⟩ ++
        match (m.buildSpellingTool f n language).outcome with
        | .error _ => []
        | .ok _ => requestedAuxiliaries (m.buildSpellingTool f n language).requests rest

def requested (n : Nat) (s : Settings) : List (Nat × ToolRequest) :=
  let m := ToolManager.ofSettings s
  ToolManager.attempts f n ⟨s.language, m.options m.newSpellings⟩ ++
    match (m.buildTool f n (some s.language)).outcome with
    | .error _ => []
    | .ok _ =>
        requestedAuxiliaries m f (m.buildTool f n (some s.language)).requests s.auxiliaryLanguages

theorem primaryRequest_ofSettings (s : Settings) :
    let m := ToolManager.ofSettings s
    m.primaryRequest (some s.language) = ⟨s.language, m.options m.newSpellings⟩ := by
  have hlanguage : ((some s.language).filter fun t => !t.isEmpty).getD
      (ToolManager.ofSettings s).baseLanguage = s.language := by
    change ((some s.language).filter fun t => !t.isEmpty).getD s.language = s.language
    cases s.language <;> rfl
  simp only [ToolManager.primaryRequest, hlanguage]

theorem serves_buildTool (n : Nat) (s : Settings) :
    let m := ToolManager.ofSettings s
    List.Forall₂ Tool.Serves
      (f.built (ToolManager.attempts f n ⟨s.language, m.options m.newSpellings⟩))
      (m.buildTool f n (some s.language)).outcome.toOption.toList := by
  intro m
  rw [← primaryRequest_ofSettings]
  exact m.serves_buildTool f n (some s.language)

theorem serves_buildSpellingTool (n : Nat) (language : Text) :
    List.Forall₂ Tool.Serves (f.built (ToolManager.attempts f n ⟨language, m.options none⟩))
      (m.buildSpellingTool f n language).outcome.toOption.toList := by
  rw [ToolManager.built_attempts, ToolManager.buildSpellingTool]
  cases (ToolManager.request f n ⟨language, m.options none⟩).outcome with
  | error e => exact .nil
  | ok t => exact .cons (.ofRules t _ _ _) .nil

theorem serves_buildAuxiliaries (n : Nat) (languages : List Text) :
    List.Forall₂ Tool.Serves (f.built (requestedAuxiliaries m f n languages))
      ((buildAuxiliaries m f n languages).engines.map (·.tool)) := by
  induction languages generalizing n with
  | nil => exact .nil
  | cons language rest ih =>
      have hfirst := serves_buildSpellingTool m f n language
      unfold requestedAuxiliaries buildAuxiliaries
      cases hbuilt : (m.buildSpellingTool f n language).outcome with
      | error e =>
          rw [hbuilt] at hfirst
          simp only [hbuilt, List.append_nil]
          exact hfirst
      | ok t =>
          rw [hbuilt] at hfirst
          simp only [hbuilt, f.built_append]
          exact List.rel_append hfirst (ih _)

theorem uses_start {n : Nat} {s : Settings} {t : Tool} {terms : List Text}
    (hbuilt : ((ToolManager.ofSettings s).buildTool f n (some s.language)).outcome = .ok t) :
    let m := ToolManager.ofSettings s
    Uses (f.built (requested f n s)) (.start (.start t (some s.language) terms false)
      (buildAuxiliaries m f (m.buildTool f n (some s.language)).requests
        s.auxiliaryLanguages).engines) := by
  intro m
  have hfirst := serves_buildTool f n s
  unfold requested
  simp only [hbuilt, f.built_append] at hfirst ⊢
  exact List.rel_append hfirst (serves_buildAuxiliaries m f _ _)

theorem uses_of_openWith {n : Nat} {s : Settings} {session : Session}
    (h : (openWith f n s).outcome = .ok session) : Uses (f.built (requested f n s)) session := by
  unfold openWith openThrough at h
  cases hbuilt : ((ToolManager.ofSettings s).buildTool f n (some s.language)).outcome with
  | error e => simp [hbuilt] at h
  | ok t =>
      simp only [hbuilt] at h
      split at h
      · obtain rfl := Except.ok.inj h
        exact uses_start f hbuilt
      · simp at h

theorem retires_of_openWith (hcloseable : f.BuildsCloseable) {n : Nat} {s : Settings}
    {e : BuildFailure} (h : (openWith f n s).outcome = .error e) :
    List.Forall₂ Tool.Retires (f.built (requested f n s)) (openWith f n s).abandoned := by
  unfold openWith openThrough at h ⊢
  cases hbuilt : ((ToolManager.ofSettings s).buildTool f n (some s.language)).outcome with
  | error e' =>
      have hfirst := serves_buildTool f n s
      unfold requested
      simp only [hbuilt, List.append_nil] at hfirst ⊢
      rw [List.forall₂_nil_right_iff.1 hfirst]
      exact .nil
  | ok t =>
      simp only [hbuilt] at h ⊢
      split at h
      · simp at h
      · simp only
        exact (uses_start f hbuilt).close fun t ht => hcloseable.of_mem_built ht

/-! ## The requests of an opening -/

variable {m f} {g : ToolFactory}

theorem buildAuxiliaries_congr {n : Nat} {languages : List Text}
    (h : f.AgreeOn g (requestedAuxiliaries m f n languages)) :
    buildAuxiliaries m g n languages = buildAuxiliaries m f n languages := by
  induction languages generalizing n with
  | nil => rfl
  | cons language rest ih =>
      unfold requestedAuxiliaries at h
      obtain ⟨hfirst, hrest⟩ := ToolFactory.agreeOn_append.1 h
      have hbuild : m.buildSpellingTool g n language = m.buildSpellingTool f n language := by
        rw [ToolManager.buildSpellingTool, ToolManager.request_congr hfirst,
          ToolManager.buildSpellingTool]
      unfold buildAuxiliaries
      rw [hbuild]
      cases hbuilt : (m.buildSpellingTool f n language).outcome with
      | error e => simp only [hbuilt]
      | ok t =>
          simp only [hbuilt] at hrest ⊢
          rw [ih hrest]

theorem openWith_congr {n : Nat} {s : Settings} (h : f.AgreeOn g (requested f n s)) :
    openWith g n s = openWith f n s := by
  unfold requested at h
  obtain ⟨hfirst, hrest⟩ := ToolFactory.agreeOn_append.1 h
  have hbuild : (ToolManager.ofSettings s).buildTool g n (some s.language) =
      (ToolManager.ofSettings s).buildTool f n (some s.language) := by
    rw [← primaryRequest_ofSettings] at hfirst
    exact ToolManager.buildTool_congr hfirst
  unfold openWith openThrough
  simp only [hbuild]
  cases hbuilt : ((ToolManager.ofSettings s).buildTool f n (some s.language)).outcome with
  | error e => rfl
  | ok t =>
      simp only [hbuilt] at hrest
      rw [buildAuxiliaries_congr hrest]

end Opening

end Session

end Proofreader
