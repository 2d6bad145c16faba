import Proofreader.CommandLine.Run
import Proofreader.Proofs.Disk
import Proofreader.Proofs.Report.Printed
import Proofreader.Proofs.Session.Failures

/-!
# The status of a run

A run whose arguments were accepted completes, or is ended by a failure.  Failures of
documents, of checks and of the disk are reported, and the status tells them from
issues.  Nothing takes care of a tool that cannot be built, of a number in markup that has
too many digits, nor of a file of settings that is no text or sets a variable that cannot
be set.
-/

namespace Proofreader

namespace CommandLine

section Run

variable (f : ToolFactory) (env : Environment) (home : Place) (d : Disk) (a : Arguments)

/-! ## What ends a run -/

def Equipped (env' : Environment) : Prop :=
  ∃ statements, environmentStatements env home d a = .ok statements ∧
    EnvironmentFile.load env statements = .ok env'

def Prepared (s : Settings) : Prop := ∃ env', Equipped env home d a env' ∧ settings d env' a = .ok s

end Run

section Documents

variable {f : ToolFactory} {s : Settings} {d : Disk}

/-! ## Documents -/

theorem checkDocuments_cons_ok {requests : Nat} {p : Path} {rest : List Path}
    {r : DocumentReport} (h : (checkDocument f s d requests p).outcome = .ok r) :
    (checkDocuments f s d requests (p :: rest)).outcome =
        (checkDocuments f s d (checkDocument f s d requests p).requests rest).outcome.map
          (r :: ·) ∧
      (checkDocuments f s d requests (p :: rest)).requests =
        (checkDocuments f s d (checkDocument f s d requests p).requests rest).requests := by
  rw [checkDocuments]
  simp [h]

end Documents

section Run

variable {f : ToolFactory} {env : Environment} {home : Place} {d : Disk} {a : Arguments}

/-! ## The run -/

def Stop.outcome : Stop → Outcome
  | .fatal _ => .exits statusFatal
  | .escape e => .escapes e

end Run

end CommandLine

end Proofreader
