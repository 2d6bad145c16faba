import Proofreader.CommandLine.Arguments
import Proofreader.Discovery
import Proofreader.EnvironmentFile
import Proofreader.Opening
import Proofreader.Report.Filing

/-!
# Runs

A run reads its arguments, its environment file and its word list, finds documents,
checks each of them in a session of its own, and files the reports once all of them
were checked.  Whatever happens in a session, its tools are closed.
-/

namespace Proofreader.CommandLine

/-! ## What ends a run early -/

inductive Fatal where
  | missing (m : Discovery.Missing)
  | disk (e : DiskError)
  | load (e : LoadError)
  | check (e : GrammarError)
  deriving DecidableEq, Repr

def Fatal.message : Fatal → Text
  | .missing m => m.message
  | .disk e => e.message
  | .load e => e.message
  | .check e => e.message

inductive Escape where
  /-- A file of settings is no text. -/
  | undecodable (f : Utf8.Fault)
  | variable (f : EnvironmentFile.VariableFault)
  | tool (f : BuildFailure)
  | walk (e : WalkError)
  | number (e : CharacterReference.Overlong)
  | ruleId (e : BlankId)
  deriving DecidableEq, Repr

inductive Stop where
  | fatal (f : Fatal)
  | escape (e : Escape)
  deriving DecidableEq, Repr

def Stop.ofAnalysis : AnalysisError → Stop
  | .load e => .fatal (.load e)
  | .check e => .fatal (.check e)
  | .walk e => .escape (.walk e)
  | .number e => .escape (.number e)
  | .ruleId e => .escape (.ruleId e)

/-! ## Settings -/

def readSettingsFile (d : Disk) (p : Path) : Except Stop Text :=
  match d.read p with
  | .error e => .error (.fatal (.disk e))
  | .ok bytes =>
      match Utf8.decode bytes with
      | .error f => .error (.escape (.undecodable f))
      | .ok t => .ok (Text.unifyBreaks t)

def loadWords (d : Disk) (p : Path) : Except Stop (List Text) :=
  (readSettingsFile d p).map Settings.readWordList

def settings (d : Disk) (env : Environment) (a : Arguments) : Except Stop Settings := do
  let listed ← match a.ignoredWordsFile with
    | some p => loadWords d p
    | none => .ok []
  return Settings.fromEnvironment env
    { language := a.language
      auxiliaryLanguages := a.auxiliaryLanguages
      ignoredWords := a.ignoredWords ++ listed
      usesDefaultWords := a.usesDefaultWords }

/-- The environment file: the one that the arguments name, else the nearest one where the
program stands or above. -/
def environmentFile? (home : Place) (d : Disk) (a : Arguments) : Option Path :=
  a.environmentFile.or (d.nearest? home EnvironmentFile.defaultName)

def environmentStatements (env : Environment) (home : Place) (d : Disk) (a : Arguments) :
    Except Stop (List EnvironmentFile.Statement) :=
  if EnvironmentFile.isTurnedOff env then .ok []
  else
    match environmentFile? home d a with
    | none => .ok []
    | some p =>
        if d.isFile p then (readSettingsFile d p).map EnvironmentFile.statements else .ok []

/-! ## Documents -/

/-- How the check of documents turns out: the tools that were built for it, in the
order of their building and as they were left, and the number of requests for tools. -/
structure Checks (α : Type) where
  outcome : Except Stop α
  remarks : List Remark
  tools : List Tool
  requests : Nat

def checkDocument (f : ToolFactory) (s : Settings) (d : Disk) (requests : Nat) (p : Path) :
    Checks DocumentReport :=
  let opened := Session.openWith f requests s
  match opened.outcome with
  | .error e => ⟨.error (.escape (.tool e)), [], opened.abandoned, opened.requests⟩
  | .ok session =>
      match d.read p with
      | .error e => ⟨.error (.fatal (.disk e)), [], session.close.tools, opened.requests⟩
      | .ok bytes =>
          let r := session.analyzeBytes bytes p
          let tools := r.session.close.tools
          match r.outcome with
          | .error e => ⟨.error (.ofAnalysis e), r.remarks, tools, opened.requests⟩
          | .ok a => ⟨.ok ⟨p, a.issues⟩, r.remarks, tools, opened.requests⟩

def checkDocuments (f : ToolFactory) (s : Settings) (d : Disk) :
    Nat → List Path → Checks (List DocumentReport)
  | requests, [] => ⟨.ok [], [], [], requests⟩
  | requests, p :: rest =>
      let c := checkDocument f s d requests p
      match c.outcome with
      | .error e => ⟨.error e, c.remarks, c.tools, c.requests⟩
      | .ok report =>
          let cs := checkDocuments f s d c.requests rest
          { cs with
            outcome := cs.outcome.map (report :: ·)
            remarks := c.remarks ++ cs.remarks
            tools := c.tools ++ cs.tools }

/-! ## The run -/

inductive Severity where
  | warning
  | error
  deriving DecidableEq, Repr

def Severity.name : Severity → Text
  | .warning => "WARNING"
  | .error => "ERROR"

structure LogEntry where
  severity : Severity
  message : Text
  deriving DecidableEq, Repr

def LogEntry.line (e : LogEntry) : Text := e.severity.name ++ ' ' :: e.message

inductive Outcome where
  | exits (status : Nat)
  | escapes (e : Escape)
  deriving DecidableEq, Repr

structure Run where
  outcome : Outcome
  output : Text
  log : List LogEntry
  disk : Disk
  tools : List Tool

def statusClean : Nat := 0

def statusIssues : Nat := 1

def statusFatal : Nat := 2

def absolute (d : Disk) (p : Path) : Text := (Path.mk 1 (d.resolve p)).text

def closingLines (d : Disk) (report : Path) (rs : List DocumentReport) : List Text :=
  ["Markup check report written to ".toList ++ absolute d report,
    "CSV report written to ".toList ++ absolute d (Report.csvPath report),
    "Found ".toList ++ Numeral.ofNat (Report.totalIssues rs) ++ " issue(s) in ".toList ++
      Numeral.ofNat rs.length ++ " document(s)".toList]

def Run.stopped (s : Stop) (log : List LogEntry) (d : Disk) (tools : List Tool) : Run :=
  match s with
  | .fatal f => ⟨.exits statusFatal, [], log ++ [⟨.error, f.message⟩], d, tools⟩
  | .escape e => ⟨.escapes e, [], log, d, tools⟩

def warnings (remarks : List Text) : List LogEntry := remarks.map fun t => ⟨.warning, t⟩

def checkAndFile (f : ToolFactory) (a : Arguments) (s : Settings) (log : List LogEntry) (d : Disk) :
    Run :=
  match Discovery.documents d a.paths with
  | .error m => .stopped (.fatal (.missing m)) log d []
  | .ok paths =>
      let c := checkDocuments f s d 0 paths
      let log := log ++ warnings (c.remarks.map Remark.message)
      match c.outcome with
      | .error e => .stopped e log d c.tools
      | .ok rs =>
          let filed := Report.file rs a.report d
          match filed.outcome with
          | .error e => .stopped (.fatal (.disk e)) log filed.disk c.tools
          | .ok () =>
              { outcome := .exits (if Report.totalIssues rs = 0 then statusClean else statusIssues)
                output := (closingLines d a.report rs).flatMap (· ++ ['\n'])
                log := log
                disk := filed.disk
                tools := c.tools }

def runWith (f : ToolFactory) (env : Environment) (home : Place) (d : Disk) (a : Arguments) : Run :=
  match environmentStatements env home d a with
  | .error e => .stopped e [] d []
  | .ok statements =>
      let log := warnings (statements.filterMap EnvironmentFile.Statement.remark?)
      match EnvironmentFile.load env statements with
      | .error e => .stopped (.escape (.variable e)) log d []
      | .ok env =>
          match settings d env a with
          | .error e => .stopped e log d []
          | .ok s => checkAndFile f a s log d

def run (f : ToolFactory) (env : Environment) (home : Place) (d : Disk) (arguments : List Text) :
    Run :=
  match Arguments.read arguments with
  | .error r => ⟨.exits r.status, [], [], d, []⟩
  | .ok a => runWith f env home d a

end Proofreader.CommandLine
