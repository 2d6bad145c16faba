import Proofreader.Proofs.CommandLine.Status
import Proofreader.Proofs.Report.Filing

/-!
# The files that a run leaves

A run writes nothing but its reports, and these only after all documents were checked.  So
a run that ends with a failure leaves all files as they were, unless it got as far as the
CSV report.
-/

namespace Proofreader.CommandLine

variable {f : ToolFactory} {env : Environment} {home : Place} {d : Disk}

def AllChecked (f : ToolFactory) (env : Environment) (home : Place) (d : Disk) (a : Arguments)
    (rs : List DocumentReport) : Prop :=
  ∃ s paths, Prepared env home d a s ∧ Discovery.documents d a.paths = .ok paths ∧
    (checkDocuments f s d 0 paths).outcome = .ok rs

theorem disk_stopped (e : Stop) (log : List LogEntry) (d : Disk) (tools : List Tool) :
    (Run.stopped e log d tools).disk = d := by
  cases e <;> rfl

theorem statusFatal_ne (issues : Nat) :
    (if issues = 0 then statusClean else statusIssues) ≠ statusFatal := by
  split <;> decide

theorem disk_checkAndFile (a : Arguments) (s : Settings) (log : List LogEntry) :
    (checkAndFile f a s log d).disk = d ∨
      ∃ paths rs, Discovery.documents d a.paths = .ok paths ∧
        (checkDocuments f s d 0 paths).outcome = .ok rs ∧
        (checkAndFile f a s log d).disk = (Report.file rs a.report d).disk ∧
        ((Report.file rs a.report d).outcome = .ok () →
          (checkAndFile f a s log d).outcome ≠ .exits statusFatal) := by
  unfold checkAndFile
  cases Discovery.documents d a.paths with
  | error m => exact .inl rfl
  | ok paths =>
      simp only
      cases hchecks : (checkDocuments f s d 0 paths).outcome with
      | error e => exact .inl (disk_stopped e _ _ _)
      | ok rs =>
          refine .inr ⟨paths, rs, rfl, hchecks, ?_⟩
          simp only
          cases (Report.file rs a.report d).outcome with
          | error e => exact ⟨rfl, by simp⟩
          | ok _ => exact ⟨rfl, fun _ h => statusFatal_ne _ (Outcome.exits.inj h)⟩

theorem disk_runWith (f : ToolFactory) (env : Environment) (home : Place) (d : Disk)
    (a : Arguments) :
    (runWith f env home d a).disk = d ∨
      ∃ rs, AllChecked f env home d a rs ∧
        (runWith f env home d a).disk = (Report.file rs a.report d).disk ∧
        ((Report.file rs a.report d).outcome = .ok () →
          (runWith f env home d a).outcome ≠ .exits statusFatal) := by
  unfold runWith
  cases hstatements : environmentStatements env home d a with
  | error e => exact .inl (disk_stopped e _ _ _)
  | ok statements =>
      simp only
      cases hload : EnvironmentFile.load env statements with
      | error e => exact .inl rfl
      | ok env' =>
          simp only
          cases hsettings : settings d env' a with
          | error e => exact .inl (disk_stopped e _ _ _)
          | ok s =>
              have hprepared : Prepared env home d a s :=
                ⟨env', ⟨statements, hstatements, hload⟩, hsettings⟩
              rcases disk_checkAndFile (f := f) a s _ with
                hdisk | ⟨paths, rs, hpaths, hchecks, hdisk, hstatus⟩
              · exact .inl hdisk
              · exact .inr ⟨rs, ⟨s, paths, hprepared, hpaths, hchecks⟩, hdisk, hstatus⟩

/-- After a failure all files are as they were, or the CSV report could not be written and
the Markdown report is left behind. -/
theorem run_fatal_files (f : ToolFactory) (env : Environment) (home : Place) (d : Disk)
    (arguments : List Text) (h : (run f env home d arguments).outcome = .exits statusFatal) :
    let d' := (run f env home d arguments).disk
    (∀ place, d'.bytesAt? place = d.bytesAt? place) ∨
      ∃ a rs place, Arguments.read arguments = .ok a ∧ AllChecked f env home d a rs ∧
        Report.LeftBehind rs a.report d d' place := by
  intro d'
  cases ha : Arguments.read arguments with
  | error r =>
      left
      intro place
      simp only [d', run, ha]
  | ok a =>
      have hrun : run f env home d arguments = runWith f env home d a := by rw [run, ha]
      rw [hrun] at h
      simp only [d', hrun]
      rcases disk_runWith f env home d a with hdisk | ⟨rs, hchecked, hdisk, hstatus⟩
      · left
        intro place
        rw [hdisk]
      · rw [hdisk]
        cases hfile : (Report.file rs a.report d).outcome with
        | ok _ => exact absurd h (hstatus hfile)
        | error e =>
            rcases Report.file_of_error hfile with hmade | ⟨place, hleft⟩
            · exact .inl hmade.bytesAt?_eq
            · exact .inr ⟨a, rs, place, rfl, hchecked, hleft⟩

/-- The directories on the way to the report are made, and one of them stands in the place of
the CSV report. -/
theorem run_fatal_files_made_directory :
    let tool : Tool :=
      { language := none, options := .none, isCloseable := true, disabledRules := []
        enabledCategories := [], isRestricted := false, history := []
        respond := fun _ _ => .answers [] }
    let f : ToolFactory := ⟨fun _ _ => .ok tool⟩
    let home : Place := [("program" : Text)]
    let d : Disk := ⟨[], [([("a.md" : Text)], .file (Utf8.encode "ok"))]⟩
    let arguments : List Text := ["a.md", "--report", "out/r.csv/../r.md"]
    let d' := (run f [] home d arguments).disk
    (run f [] home d arguments).outcome = .exits statusFatal ∧
      d'.lookup? ["out", "r.csv"] = some .directory ∧
      (d'.bytesAt? ["out", "r.md"]).isSome = true ∧
      ∃ a rs place, Arguments.read arguments = .ok a ∧ AllChecked f [] home d a rs ∧
        Report.LeftBehind rs a.report d d' place := by
  intro tool f home d arguments d'
  have hrun : (run f [] home d arguments).outcome = .exits statusFatal ∧
      d'.lookup? ["out", "r.csv"] = some .directory ∧
      (d'.bytesAt? ["out", "r.md"]).isSome = true := by
    decide +kernel
  have hmissing : d.bytesAt? ["out", "r.md"] = none := by decide
  obtain ⟨hfatal, hmade, hwritten⟩ := hrun
  rcases run_fatal_files f [] home d arguments hfatal with hsame | hleft
  · rw [hsame, hmissing] at hwritten
    simp at hwritten
  · exact ⟨hfatal, hmade, hwritten, hleft⟩

/-- The directory in the place of the CSV report was there before the run. -/
theorem run_fatal_leaves_report :
    let tool : Tool :=
      { language := none, options := .none, isCloseable := true, disabledRules := []
        enabledCategories := [], isRestricted := false, history := []
        respond := fun _ _ => .answers [] }
    let f : ToolFactory := ⟨fun _ _ => .ok tool⟩
    let home : Place := [("program" : Text)]
    let d : Disk := ⟨[], [([("markup-check-report.csv" : Text)], .directory),
      ([("a.md" : Text)], .file (Utf8.encode "ok"))]⟩
    let place : Place := [("markup-check-report.md" : Text)]
    (run f [] home d ["a.md"]).outcome = .exits statusFatal ∧
      d.lookup? place = none ∧
      ((run f [] home d ["a.md"]).disk.bytesAt? place).isSome = true := by
  decide +kernel

end Proofreader.CommandLine
