import Proofreader.Text.Numeral

/-!
# Decimal fractions

A decimal fraction is a sign, a whole number of digits and the power of ten that
scales it.  It counts as the nearest number with 53 binary digits, or as infinite if
its binary exponent would need more than eleven.  It is written without an exponent
from a ten thousandth up to ten to the sixteenth, and with at least one digit after
the point.
-/

namespace Proofreader

structure Decimal where
  negative : Bool
  digits : Nat
  scale : Int
  deriving DecidableEq, Repr

namespace Decimal

def isZero (d : Decimal) : Bool := d.digits == 0

/-! ## Whole parts -/

def roundQuotient (n m : Nat) : Nat :=
  let rest := n % m
  if 2 * rest > m ∨ (2 * rest = m ∧ n / m % 2 = 1) then n / m + 1 else n / m

/-- The whole part of the number with 53 binary digits that is nearest to a quotient. -/
def binaryWhole (n m : Nat) : Nat :=
  let width := if n / m = 0 then 0 else Nat.log2 (n / m) + 1
  (roundQuotient (n <<< (53 - width)) (m <<< (width - 53)) <<< (width - 53)) >>> (53 - width)

def whole (d : Decimal) : Nat :=
  match d.scale with
  | .ofNat e => binaryWhole (d.digits * Nat.pow 10 e) 1
  | .negSucc e => binaryWhole d.digits (Nat.pow 10 (e + 1))

/-- The binary exponent has eleven digits; what is beyond its range counts as infinite. -/
def isInfinite (d : Decimal) : Bool := 1 <<< 1024 ≤ d.whole

def truncate? (d : Decimal) : Option Int :=
  if d.isInfinite then none else some (if d.negative then -(d.whole : Int) else d.whole)

/-! ## Written forms -/

def stripZeros : Nat → Nat → Int → Nat × Int
  | 0, digits, scale => (digits, scale)
  | fuel + 1, digits, scale =>
      if digits ≠ 0 ∧ digits % 10 = 0 then stripZeros fuel (digits / 10) (scale + 1)
      else (digits, scale)

def zeros (n : Nat) : Text := List.replicate n '0'

def exponentText (e : Int) : Text :=
  let digits := Numeral.ofNat e.natAbs
  (if e < 0 then '-' else '+') :: (if digits.length < 2 then '0' :: digits else digits)

def placePoint (digits : Text) (point : Int) : Text :=
  if point ≤ 0 then '0' :: '.' :: zeros point.natAbs ++ digits
  else if (digits.length : Int) ≤ point then digits ++ zeros (point - digits.length).toNat ++ ['.', '0']
  else digits.take point.toNat ++ '.' :: digits.drop point.toNat

def text (d : Decimal) : Text :=
  let (number, scale) := stripZeros (Nat.toDigits 10 d.digits).length d.digits d.scale
  let sign : Text := if d.negative then ['-'] else []
  if d.isInfinite then sign ++ "inf".toList
  else if number = 0 then sign ++ ['0', '.', '0']
  else
    let digits := Numeral.ofNat number
    let point := scale + digits.length
    if -4 < point ∧ point ≤ 16 then sign ++ placePoint digits point
    else
      let mantissa := match digits with
        | [] => []
        | [c] => [c]
        | c :: rest => c :: '.' :: rest
      sign ++ mantissa ++ 'e' :: exponentText (point - 1)

end Decimal

end Proofreader
