import Proofreader.Document.Load
import Proofreader.Document.Walk
import Proofreader.Engine
import Proofreader.Fragment.Exemption
import Proofreader.Reconcile

/-!
# Sessions

A session checks documents with an engine of its own and, for second opinions on
spelling, with engines of other languages.  It holds the issues of the document at
hand.  The first failure of an engine ends the analysis of a document.
-/

namespace Proofreader

/-! ## Errors and remarks -/

structure GrammarError where
  path : Path
  line : Int
  reason : Text
  deriving DecidableEq, Repr

def GrammarError.message (e : GrammarError) : Text :=
  "Grammar check failed at ".toList ++ e.path.text ++ ':' :: Numeral.ofInt e.line ++ ": ".toList ++
    e.reason

inductive AnalysisError where
  | load (e : LoadError)
  | walk (e : WalkError)
  | check (e : GrammarError)
  /-- A number in the markup of a line has too many digits. -/
  | number (e : CharacterReference.Overlong)
  /-- A match that the engine returned names no rule. -/
  | ruleId (e : BlankId)
  deriving DecidableEq, Repr

inductive Remark where
  | offset (w : OffsetWarning)
  /-- The markup of a line could not be read, so the line was checked as it is. -/
  | malformed (file : Path) (line : Nat)
  deriving DecidableEq, Repr

def Remark.message : Remark → Text
  | .offset w => w.message
  | .malformed file line =>
      file.text ++ ':' :: Numeral.ofNat line ++ ": malformed inline markup".toList

structure MarkupError where
  fragment : Text
  reason : Text
  deriving DecidableEq, Repr

def MarkupError.message (e : MarkupError) : Text :=
  "Malformed inline markup in ".toList ++ Quoted.quote e.fragment ++
    (if e.reason.isEmpty then [] else ": ".toList ++ e.reason)

/-! ## State -/

structure Session where
  engine : Engine
  auxiliaries : List Engine
  issues : List Issue

structure AnalysisResult where
  issues : List Issue
  catalog : List RuleDescriptor
  deriving DecidableEq, Repr

structure Analyzed (α : Type) where
  outcome : Except AnalysisError α
  session : Session
  remarks : List Remark

namespace Session

def start (engine : Engine) (auxiliaries : List Engine) : Session := ⟨engine, auxiliaries, []⟩

/-! ## Second opinions -/

structure Opinion where
  outcome : Except AnalysisError Bool
  engines : List Engine
  remarks : List Remark

def askAll (i : Issue) : List Engine → Opinion
  | [] => ⟨.ok false, [], []⟩
  | e :: rest =>
      let c := e.acceptsWord i.offendingText
      let remarks := c.warnings.map .offset
      match c.outcome with
      | .error f =>
          ⟨.error (.check ⟨i.file, i.line, c.engine.language ++ ": ".toList ++ f.detail⟩),
            c.engine :: rest, remarks⟩
      | .ok true => ⟨.ok true, c.engine :: rest, remarks⟩
      | .ok false =>
          let o := askAll i rest
          ⟨o.outcome, c.engine :: o.engines, remarks ++ o.remarks⟩

def needsOpinion (i : Issue) : Bool := i.isSpelling && !i.offendingText.isAllBlank

def filterAccepted : Session → List Issue → Analyzed (List Issue)
  | s, [] => ⟨.ok [], s, []⟩
  | s, i :: rest =>
      if needsOpinion i then
        let o := askAll i s.auxiliaries
        let s := { s with auxiliaries := o.engines }
        match o.outcome with
        | .error e => ⟨.error e, s, o.remarks⟩
        | .ok accepted =>
            let r := filterAccepted s rest
            ⟨r.outcome.map fun is => if accepted then is else i :: is, r.session,
              o.remarks ++ r.remarks⟩
      else
        let r := filterAccepted s rest
        ⟨r.outcome.map (i :: ·), r.session, r.remarks⟩

/-! ## Lines -/

/-- The text of a line that is checked, and its exempt regions.  A line whose
markup is malformed is checked as it is. -/
def cleanLine (l : Location) : Except CharacterReference.Overlong (Stripped × List Remark) :=
  match stripMarkup l.text defaultMarker with
  | .ok s => .ok (s, [])
  | .error (.fragment (.number e)) => .error e
  | .error _ => .ok (⟨l.text, []⟩, [.malformed l.file l.line])

def checkLine (s : Session) (p : ProseLine) : Analyzed (List Issue) :=
  match cleanLine p.location with
  | .error e => ⟨.error (.number e), s, []⟩
  | .ok (clean, remarks) =>
      if clean.text.isAllBlank then ⟨.ok [], s, remarks⟩
      else
        let c := s.engine.check clean.text
        let s := { s with engine := c.engine }
        let remarks := remarks ++ c.warnings.map .offset
        match c.outcome with
        | .error f => ⟨.error (.check ⟨p.location.file, p.location.line, f.reason⟩), s, remarks⟩
        | .ok ms =>
            match reconcile (p.location.withText clean.text) p.ignored clean.regions defaultMarker
                ms with
            | .error e => ⟨.error (.ruleId e), s, remarks⟩
            | .ok issues =>
                let r := s.filterAccepted issues
                { r with remarks := remarks ++ r.remarks }

def checkLines : Session → List ProseLine → Analyzed Unit
  | s, [] => ⟨.ok (), s, []⟩
  | s, p :: rest =>
      let r := s.checkLine p
      match r.outcome with
      | .error e => ⟨.error e, r.session, r.remarks⟩
      | .ok issues =>
          let s := { r.session with issues := r.session.issues ++ issues }
          let rs := checkLines s rest
          { rs with remarks := r.remarks ++ rs.remarks }

/-! ## Documents -/

def analyzeTree (s : Session) (t : DocumentTree) : Analyzed AnalysisResult :=
  let s := { s with issues := [] }
  match t.walk suppressionAttribute with
  | .error e => ⟨.error (.walk e), s, []⟩
  | .ok lines =>
      let r := s.checkLines lines
      ⟨r.outcome.map fun _ => ⟨r.session.issues, r.session.engine.activeRules⟩, r.session, r.remarks⟩

/-- Checks a document unless it could not be loaded; in that case the session keeps
the issues it has. -/
def analyzeLoaded (s : Session) : Except LoadError DocumentTree → Analyzed AnalysisResult
  | .error e => ⟨.error (.load e), s, []⟩
  | .ok tree => s.analyzeTree tree

def analyze (s : Session) (source : Text) (path : Path) : Analyzed AnalysisResult :=
  s.analyzeLoaded (Document.load path source)

def analyzeBytes (s : Session) (bytes : Utf8.Bytes) (path : Path) : Analyzed AnalysisResult :=
  match Utf8.decode bytes with
  | .error f =>
      ⟨.error (.load ⟨path, "not valid UTF-8 (".toList ++ f.message ++ [')']⟩), s, []⟩
  | .ok text => s.analyze (Text.unifyBreaks text) path

def close (s : Session) : Session :=
  { s with engine := s.engine.close, auxiliaries := s.auxiliaries.map Engine.close }

def tools (s : Session) : List Tool := s.engine.tool :: s.auxiliaries.map (·.tool)

end Session

end Proofreader
