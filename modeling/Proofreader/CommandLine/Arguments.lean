import Proofreader.CommandLine.Token
import Proofreader.Path

/-!
# Arguments

The arguments of a command line are options and paths.  All paths stand together:
once an option has followed them, a further word is not recognized.  Faults are found
from left to right, after those of shortened names, and asking for help ends the
reading.
-/

namespace Proofreader.CommandLine

structure Arguments where
  paths : List Path
  report : Path
  language : Option Text
  auxiliaryLanguages : List Text
  ignoredWords : List Text
  ignoredWordsFile : Option Path
  usesDefaultWords : Bool
  environmentFile : Option Path
  isVerbose : Bool
  deriving DecidableEq, Repr

inductive Refusal where
  | help
  | usage (e : UsageError)
  deriving DecidableEq, Repr

def Refusal.status : Refusal → Nat
  | .help => 0
  | .usage _ => 2

namespace Arguments

def defaultReport : Path := Path.ofText "markup-check-report.md"

def blank : Arguments := ⟨[], defaultReport, none, [], [], none, true, none, false⟩

def switch (a : Arguments) : Flag → Arguments
  | .noDefaultWords => { a with usesDefaultWords := false }
  | .verbose => { a with isVerbose := true }
  | _ => a

/-- Takes note of an option with its value.  Options that name a word or an auxiliary
language add to those before, and of the others the last one counts. -/
def assign (a : Arguments) (value : Text) : Flag → Arguments
  | .report => { a with report := Path.ofText value }
  | .language => { a with language := some value }
  | .auxiliaryLanguage => { a with auxiliaryLanguages := a.auxiliaryLanguages ++ [value] }
  | .ignoreWord => { a with ignoredWords := a.ignoredWords ++ [value] }
  | .ignoreWordsFile => { a with ignoredWordsFile := some (Path.ofText value) }
  | .environmentFile => { a with environmentFile := some (Path.ofText value) }
  | _ => a

inductive Phase where
  | before
  | among
  | behind
  deriving DecidableEq, Repr

structure Reading where
  arguments : Arguments
  phase : Phase
  /-- What was not recognized. -/
  extras : List Text

namespace Reading

def leavePaths (r : Reading) : Reading :=
  { r with phase := if r.phase = .among then .behind else r.phase }

def addExtra (r : Reading) (t : Text) : Reading := { r with extras := r.extras ++ [t] }

def addWord (r : Reading) (t : Text) : Reading :=
  if r.phase = .behind then r.addExtra t
  else
    { r with
      phase := .among
      arguments := { r.arguments with paths := r.arguments.paths ++ [Path.ofText t] } }

def addSeparator (r : Reading) : Reading :=
  if r.phase = .behind then r.addExtra ['-', '-'] else r

def finish (r : Reading) : Except Refusal Arguments :=
  if r.phase = .before then .error (.usage .missingPaths)
  else if r.extras ≠ [] then .error (.usage (.unrecognized r.extras))
  else .ok r.arguments

end Reading

/-- Whether the short name for help is repeated, and nothing else stands behind it. -/
def isRepeatedHelp (behind : Option Text) : Bool :=
  match behind with
  | none => true
  | some t => !t.isEmpty && t.all (· == 'h')

def attachedValue (t : Text) : Text := if t = ['-', '-'] then [] else t

def readTokens (r : Reading) : List Token → Except Refusal Arguments
  | [] => r.finish
  | .word t :: rest => readTokens (r.addWord t) rest
  | .separator :: rest => readTokens r.addSeparator rest
  | .unknownFlag t :: rest => readTokens (r.leavePaths.addExtra t) rest
  | .shortHelp behind :: _ =>
      .error (if isRepeatedHelp behind then .help else .usage (.needlessValue .help))
  | .flag f (some value) :: rest =>
      if f.takesValue then
        readTokens { r.leavePaths with arguments := r.arguments.assign (attachedValue value) f } rest
      else .error (.usage (.needlessValue f))
  | .flag f none :: rest =>
      if f = .help then .error .help
      else if f.takesValue then
        match rest with
        | .word t :: rest =>
            readTokens { r.leavePaths with arguments := r.arguments.assign t f } rest
        | _ => .error (.usage (.missingValue f))
      else readTokens { r.leavePaths with arguments := r.arguments.switch f } rest

def read (arguments : List Text) : Except Refusal Arguments :=
  match Token.readAll arguments with
  | .error e => .error (.usage e)
  | .ok tokens => readTokens ⟨blank, .before, []⟩ tokens

end Arguments

end Proofreader.CommandLine
