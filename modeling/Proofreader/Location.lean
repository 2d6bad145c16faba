import Proofreader.Path
import Proofreader.Text.Lines
import Proofreader.Text.Numeral

/-!
# Locations and exempt regions

A location is a text together with the file and the line on which it starts; an
exempt region is a stretch of one line that names the rules it is exempt from.
Lines are numbered from one and characters from zero, and both types carry that
fact.
-/

namespace Proofreader

/-! ## Locations -/

structure Location where
  text : Text
  line : Nat
  file : Path
  one_le_line : 1 ≤ line
  deriving DecidableEq, Repr

inductive PositionError where
  | lineTooSmall (line : Int)
  | startTooSmall (start : Int)
  deriving DecidableEq, Repr

def PositionError.message : PositionError → Text
  | .lineTooSmall line => "line must be >= 1 (got " ++ Numeral.ofInt line ++ ")".toList
  | .startTooSmall start => "start must be >= 0 (got " ++ Numeral.ofInt start ++ ")".toList

namespace Location

def at? (text : Text) (line : Int) (file : Path) : Except PositionError Location :=
  if h : 1 ≤ line then .ok ⟨text, line.toNat, file, by omega⟩ else .error (.lineTooSmall line)

def withText (l : Location) (text : Text) : Location := { l with text }

def below (l : Location) (offset : Nat) (text : Text) : Location :=
  ⟨text, l.line + offset, l.file, by have := l.one_le_line; omega⟩

def placeLines (l : Location) : Nat → List Text → List Location
  | _, [] => []
  | offset, line :: lines => l.below offset line :: placeLines l (offset + 1) lines

def splitLines (l : Location) : List Location := placeLines l 0 (Text.splitLines l.text)

end Location

/-! ## Exempt regions -/

structure Region where
  ruleIds : List Text
  covered : Text
  start : Nat
  deriving DecidableEq, Repr

namespace Region

def at? (ruleIds : List Text) (covered : Text) (start : Int) : Except PositionError Region :=
  if 0 ≤ start then .ok ⟨ruleIds, covered, start.toNat⟩ else .error (.startTooSmall start)

def stop (r : Region) : Nat := r.start + r.covered.length

def namedRules (r : Region) (marker : Text) : List Text := r.ruleIds.filter (· ≠ marker)

/-- A region that names no rule is exempt from all of them. -/
def exempts (r : Region) (ruleId marker : Text) : Bool :=
  let named := r.namedRules marker
  named.isEmpty || named.contains ruleId

end Region

end Proofreader
