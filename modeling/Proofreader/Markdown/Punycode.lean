import Proofreader.Text.Basic

/-!
# Punycode

A host name label with characters outside ASCII is written in ASCII: its ASCII
characters first, then, in order of code points, how far the next character lies
ahead, as numbers in base 36 whose digits have adaptive thresholds.
-/

namespace Proofreader.Markdown.Punycode

/-! ## Digits and thresholds -/

def digitChar (d : Nat) : Char := Char.ofNat (if d < 26 then 97 + d else 22 + d)

def digitValue? (c : Char) : Option Nat :=
  if c.isLower then some (c.toNat - 97)
  else if c.isUpper then some (c.toNat - 65)
  else if c.isDigit then some (c.toNat - 22)
  else none

def threshold (place bias : Nat) : Nat := max 1 (min 26 (36 * (place + 1) - bias))

def scaleDown : Nat → Nat → Nat → Nat × Nat
  | 0, delta, steps => (delta, steps)
  | fuel + 1, delta, steps =>
      if 455 < delta then scaleDown fuel (delta / 35) (steps + 36) else (delta, steps)

def adapt (delta : Nat) (isFirst : Bool) (count : Nat) : Nat :=
  let delta := if isFirst then delta / 700 else delta / 2
  let delta := delta + delta / count
  let (delta, steps) := scaleDown delta delta 0
  steps + 36 * delta / (delta + 38)

/-! ## Writing -/

def writeNumber : Nat → Nat → Nat → Nat → Text
  | 0, _, _, _ => []
  | fuel + 1, n, place, bias =>
      let t := threshold place bias
      if n < t then [digitChar n]
      else digitChar (t + (n - t) % (36 - t)) ::
        writeNumber fuel ((n - t) / (36 - t)) (place + 1) bias

structure Encoder where
  delta : Nat
  bias : Nat
  handled : Nat
  isFirst : Bool
  output : Text

def Encoder.pass (n : Nat) (e : Encoder) (c : Char) : Encoder :=
  if c.toNat < n then { e with delta := e.delta + 1 }
  else if c.toNat = n then
    { delta := 0
      bias := adapt e.delta e.isFirst (e.handled + 1)
      handled := e.handled + 1
      isFirst := false
      output := e.output ++ writeNumber (e.delta + 1) e.delta 0 e.bias }
  else e

def Encoder.round (label : Text) (e : Encoder × Nat) (n : Nat) : Encoder × Nat :=
  let (e, last) := e
  let e := { e with delta := e.delta + (n - last) * (e.handled + 1) }
  let e := label.foldl (Encoder.pass n) e
  ({ e with delta := e.delta + 1 }, n + 1)

def insertPoint (n : Nat) : List Nat → List Nat
  | [] => [n]
  | m :: rest => if n = m then m :: rest else if n < m then n :: m :: rest else m :: insertPoint n rest

def encode (label : Text) : Text :=
  let base := label.filter fun c => c.toNat < 128
  let points := (label.filter fun c => 128 ≤ c.toNat).foldl (fun acc c => insertPoint c.toNat acc) []
  let start : Encoder := ⟨0, 72, base.length, true, []⟩
  let (e, _) := points.foldl (Encoder.round label) (start, 128)
  if base.isEmpty then e.output else base ++ '-' :: e.output

/-! ## Reading -/

def readNumber? (bias : Nat) : Nat → Nat → Nat → Text → Option (Nat × Text)
  | _, _, _, [] => none
  | value, weight, place, c :: rest => do
      let d ← digitValue? c
      let t := threshold place bias
      let value := value + d * weight
      if d < t then some (value, rest) else readNumber? bias value (weight * (36 - t)) (place + 1) rest

/-- Inserts the characters that the numbers describe.  `next` is the position
after the last insertion. -/
def insertAll : Nat → Nat → Nat → Nat → Bool → Text → Text → Option Text
  | 0, _, _, _, _, output, _ => some output
  | _, _, _, _, _, output, [] => some output
  | fuel + 1, n, next, bias, isFirst, output, digits => do
      let (delta, rest) ← readNumber? bias 0 1 0 digits
      let position := next + delta
      let n := n + position / (output.length + 1)
      if n.isValidChar then
        let position := position % (output.length + 1)
        let output := output.take position ++ Char.ofNat n :: output.drop position
        insertAll fuel n (position + 1) (adapt delta isFirst output.length) false output rest
      else none

def decode? (label : Text) : Option Text :=
  let (digits, base) := label.reverse.span (· ≠ '-')
  if label.all fun c => c.toNat < 128 then
    insertAll (label.length + 1) 128 0 72 true (base.drop 1).reverse digits.reverse
  else none

end Proofreader.Markdown.Punycode
