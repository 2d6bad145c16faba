import Proofreader.Proofs.CommandLine.Status
import Proofreader.Proofs.Session.Service

/-!
# The tools of a run

Every document has a session of its own, which is closed before the next one is opened.
So however a run ends, each tool that was built in it has been closed once and was asked
nothing afterwards, and the tools that are not closed belong to one document.
-/

namespace Proofreader.CommandLine

variable (f : ToolFactory) (s : Settings) (d : Disk)

/-! ## Documents -/

/-- The requests that are made for the sessions of documents, up to the first document
that fails. -/
def requested : Nat → List Path → List (Nat × ToolRequest)
  | _, [] => []
  | n, p :: rest =>
      Session.requested f n s ++
        match (checkDocument f s d n p).outcome with
        | .error _ => []
        | .ok _ => requested (checkDocument f s d n p).requests rest

variable {f}

theorem retires_checkDocument (hcloseable : f.BuildsCloseable) (n : Nat) (p : Path) :
    List.Forall₂ Tool.Retires (f.built (Session.requested f n s))
      (checkDocument f s d n p).tools := by
  unfold checkDocument
  cases hopen : (Session.openWith f n s).outcome with
  | error e =>
      simp only [hopen]
      exact Session.retires_of_openWith f hcloseable hopen
  | ok session =>
      have huses := Session.uses_of_openWith f hopen
      have hall : ∀ t ∈ f.built (Session.requested f n s), t.isCloseable = true :=
        fun t ht => hcloseable.of_mem_built ht
      simp only [hopen]
      split
      · exact huses.close hall
      · have hclosed := (huses.analyzeBytes ‹_› p).close hall
        split
        · exact hclosed
        · exact hclosed

theorem retires_checkDocuments (hcloseable : f.BuildsCloseable) (n : Nat) (paths : List Path) :
    List.Forall₂ Tool.Retires (f.built (requested f s d n paths))
      (checkDocuments f s d n paths).tools := by
  induction paths generalizing n with
  | nil => exact .nil
  | cons p rest ih =>
      have hfirst := retires_checkDocument s d hcloseable n p
      unfold requested checkDocuments
      cases hchecked : (checkDocument f s d n p).outcome with
      | error e =>
          simp only [hchecked, List.append_nil]
          exact hfirst
      | ok report =>
          simp only [hchecked, f.built_append]
          exact List.rel_append hfirst (ih _)

variable {s d}

theorem tools_checkDocuments_append {n : Nat} {before : List Path} {rs : List DocumentReport}
    (h : (checkDocuments f s d n before).outcome = .ok rs) (rest : List Path) :
    (checkDocuments f s d n (before ++ rest)).tools =
      (checkDocuments f s d n before).tools ++
        (checkDocuments f s d (checkDocuments f s d n before).requests rest).tools := by
  induction before generalizing n rs with
  | nil => rfl
  | cons p before ih =>
      cases hfirst : (checkDocument f s d n p).outcome with
      | error e => simp [checkDocuments, hfirst] at h
      | ok report =>
          rw [(checkDocuments_cons_ok hfirst).1] at h
          obtain ⟨rs', hrs', -⟩ := exists_ok_of_map h
          rw [(checkDocuments_cons_ok hfirst).2]
          simp [checkDocuments, hfirst, ih hrs']

theorem exists_tools_checkDocuments_cons (f : ToolFactory) (s : Settings) (d : Disk) (n : Nat)
    (p : Path) (rest : List Path) :
    ∃ later, (checkDocuments f s d n (p :: rest)).tools =
      (checkDocument f s d n p).tools ++ later := by
  unfold checkDocuments
  simp only
  split
  · exact ⟨[], by simp⟩
  · exact ⟨_, rfl⟩

theorem checkDocument_congr {g : ToolFactory} {n : Nat} (p : Path)
    (h : f.AgreeOn g (Session.requested f n s)) :
    checkDocument g s d n p = checkDocument f s d n p := by
  rw [checkDocument, Session.openWith_congr h, checkDocument]

theorem checkDocuments_congr {g : ToolFactory} {n : Nat} {paths : List Path}
    (h : f.AgreeOn g (requested f s d n paths)) :
    checkDocuments g s d n paths = checkDocuments f s d n paths := by
  induction paths generalizing n with
  | nil => rfl
  | cons p rest ih =>
      unfold requested at h
      obtain ⟨hfirst, hrest⟩ := ToolFactory.agreeOn_append.1 h
      unfold checkDocuments
      rw [checkDocument_congr p hfirst]
      cases hchecked : (checkDocument f s d n p).outcome with
      | error e => simp only [hchecked]
      | ok report =>
          simp only [hchecked] at hrest ⊢
          rw [ih hrest]

/-! ## Runs -/

def requestedBy (f : ToolFactory) (a : Arguments) (s : Settings) (d : Disk) :
    List (Nat × ToolRequest) :=
  match Discovery.documents d a.paths with
  | .error _ => []
  | .ok paths => requested f s d 0 paths

theorem tools_stopped (e : Stop) (log : List LogEntry) (d : Disk) (tools : List Tool) :
    (Run.stopped e log d tools).tools = tools := by
  cases e <;> rfl

theorem tools_checkAndFile (f : ToolFactory) (a : Arguments) (s : Settings) (log : List LogEntry)
    (d : Disk) :
    (checkAndFile f a s log d).tools =
      match Discovery.documents d a.paths with
      | .error _ => []
      | .ok paths => (checkDocuments f s d 0 paths).tools := by
  unfold checkAndFile
  cases Discovery.documents d a.paths with
  | error m => rfl
  | ok paths =>
      simp only
      split
      · exact tools_stopped _ _ _ _
      · split
        · exact tools_stopped _ _ _ _
        · rfl

theorem checkAndFile_congr {g : ToolFactory} (a : Arguments) (s : Settings) (log : List LogEntry)
    (d : Disk) (h : f.AgreeOn g (requestedBy f a s d)) :
    checkAndFile g a s log d = checkAndFile f a s log d := by
  unfold requestedBy at h
  unfold checkAndFile
  cases hpaths : Discovery.documents d a.paths with
  | error m => rfl
  | ok paths =>
      simp only [hpaths] at h ⊢
      rw [checkDocuments_congr h]

/-- However the run ends, each tool that was built is left closed, once and after its last
check, and there are no requests but the ones that are listed.  When a document is begun,
this holds of all tools that were built before, which are left as they are from then on;
the tools that come next are those of the document. -/
theorem checkAndFile_retires (f : ToolFactory) (hcloseable : f.BuildsCloseable) (a : Arguments)
    (s : Settings) (log : List LogEntry) (d : Disk) :
    List.Forall₂ Tool.Retires (f.built (requestedBy f a s d)) (checkAndFile f a s log d).tools ∧
    (checkAndFile f a s log d).tools.map Tool.closed =
      (f.built (requestedBy f a s d)).map (fun t => t.closed + 1) ∧
    (∀ g, f.AgreeOn g (requestedBy f a s d) →
      checkAndFile g a s log d = checkAndFile f a s log d) ∧
    ∀ before p after rs, Discovery.documents d a.paths = .ok (before ++ p :: after) →
      (checkDocuments f s d 0 before).outcome = .ok rs →
      let earlier := checkDocuments f s d 0 before
      let own := checkDocument f s d earlier.requests p
      List.Forall₂ Tool.Retires (f.built (requested f s d 0 before)) earlier.tools ∧
        List.Forall₂ Tool.Retires (f.built (Session.requested f earlier.requests s)) own.tools ∧
        ∃ later, (checkAndFile f a s log d).tools = earlier.tools ++ (own.tools ++ later) := by
  have hretires : List.Forall₂ Tool.Retires (f.built (requestedBy f a s d))
      (checkAndFile f a s log d).tools := by
    rw [tools_checkAndFile, requestedBy]
    cases Discovery.documents d a.paths with
    | error m => exact .nil
    | ok paths => exact retires_checkDocuments s d hcloseable 0 paths
  refine ⟨hretires, Tool.Retires.map_closed hretires, fun g => checkAndFile_congr a s log d, ?_⟩
  · intro before p after rs hpaths hbefore earlier own
    obtain ⟨later, hlater⟩ := exists_tools_checkDocuments_cons f s d earlier.requests p after
    refine ⟨retires_checkDocuments s d hcloseable 0 before,
      retires_checkDocument s d hcloseable earlier.requests p, later, ?_⟩
    rw [tools_checkAndFile, hpaths]
    simp only
    rw [tools_checkDocuments_append hbefore, hlater]

/-- The builder knows no settings of a server and fails at the eighth request, which is made
for the auxiliary engine of the second document. -/
theorem checkAndFile_retires_broken_off :
    let tool : Tool :=
      { language := none, options := .none, isCloseable := true, disabledRules := []
        enabledCategories := [], isRestricted := false, history := []
        respond := fun _ _ => .answers [] }
    let f : ToolFactory := ⟨fun n r =>
      if r.options.config.isSome then .error .unknownOption
      else if n = 7 then .error (.fails ⟨"failure", "no memory"⟩)
      else .ok tool⟩
    let d : Disk := ⟨[], [([("a.md" : Text)], .file (Utf8.encode "the cat")),
      ([("b.md" : Text)], .file (Utf8.encode "the dog"))]⟩
    let s : Settings := ⟨"en-GB", ["fr"], [], [], none⟩
    let before := [Path.ofText "a.md"]
    ∃ a rs, Arguments.read ["a.md", "b.md"] = .ok a ∧
      (checkAndFile f a s [] d).outcome = .escapes (.tool (.fails ⟨"failure", "no memory"⟩)) ∧
      (checkAndFile f a s [] d).tools.map (·.history) =
        ([[.check "the cat", .close], [.close], [.close]] : List (List ToolCall)) ∧
      List.Forall₂ Tool.Retires (f.built (requestedBy f a s d)) (checkAndFile f a s [] d).tools ∧
      (checkDocuments f s d 0 before).outcome = .ok rs ∧
      List.Forall₂ Tool.Retires (f.built (requested f s d 0 before))
        (checkDocuments f s d 0 before).tools := by
  intro tool f d s before
  obtain ⟨a, ha⟩ : ∃ a, Arguments.read ["a.md", "b.md"] = .ok a := ⟨_, rfl⟩
  have hpaths : a.paths = [Path.ofText "a.md", Path.ofText "b.md"] := by
    obtain rfl := Except.ok.inj ha
    rfl
  have hdocuments : Discovery.documents d [Path.ofText "a.md", Path.ofText "b.md"] =
      .ok (before ++ Path.ofText "b.md" :: []) := by
    decide +kernel
  have hbefore : (checkDocuments f s d 0 before).outcome.toOption.isSome = true := by
    decide +kernel
  have houtcome : (checkAndFile f a s [] d).outcome =
      .escapes (.tool (.fails ⟨"failure", "no memory"⟩)) := by
    obtain rfl := Except.ok.inj ha
    decide +kernel
  have hhistory : (checkAndFile f a s [] d).tools.map (·.history) =
      ([[.check "the cat", .close], [.close], [.close]] : List (List ToolCall)) := by
    obtain rfl := Except.ok.inj ha
    decide +kernel
  have hcloseable : f.BuildsCloseable := by
    intro n r t h
    simp only [f] at h
    split at h
    · simp at h
    · split at h
      · simp at h
      · obtain rfl := Except.ok.inj h
        rfl
  obtain ⟨rs, hrs⟩ := Option.isSome_iff_exists.1 hbefore
  have hok := eq_ok_of_toOption hrs
  obtain ⟨hall, -, -, hdocument⟩ := checkAndFile_retires f hcloseable a s [] d
  obtain ⟨hearlier, -, -⟩ := hdocument before _ [] rs (hpaths ▸ hdocuments) hok
  exact ⟨a, rs, ha, houtcome, hhistory, hall, hok, hearlier⟩

end Proofreader.CommandLine
