import Proofreader.Text.Basic

/-!
# Sets of characters written as ranges of code points

The tables of this library list code points in hexadecimal: `41-5a` is a range,
`100-136/2` takes every second code point of a range, and `aa` is a single one.
-/

namespace Proofreader

structure CodeSpan where
  first : Nat
  last : Nat
  step : Nat
  deriving DecidableEq, Repr

abbrev CodeSet := List CodeSpan

namespace CodeSet

def hexDigit? (c : Char) : Option Nat :=
  if '0' ≤ c ∧ c ≤ '9' then some (c.toNat - 48)
  else if 'a' ≤ c ∧ c ≤ 'f' then some (c.toNat - 87)
  else if 'A' ≤ c ∧ c ≤ 'F' then some (c.toNat - 55)
  else none

def hexValue (t : Text) : Nat :=
  t.foldl (fun n c => 16 * n + (hexDigit? c).getD 0) 0

def readSpan (t : Text) : CodeSpan :=
  let (range, step) := match Text.splitOn (· == '/') t with
    | [range, step] => (range, hexValue step)
    | _ => (t, 1)
  match Text.splitOn (· == '-') range with
  | [first, last] => ⟨hexValue first, hexValue last, step⟩
  | _ => ⟨hexValue range, hexValue range, step⟩

def read (t : Text) : CodeSet := (Text.words t).map readSpan

end CodeSet

def CodeSpan.contains (s : CodeSpan) (n : Nat) : Bool :=
  s.first ≤ n && n ≤ s.last && (n - s.first) % s.step == 0

def CodeSet.contains (s : CodeSet) (c : Char) : Bool := s.any (·.contains c.toNat)

end Proofreader
