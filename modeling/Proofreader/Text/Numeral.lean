import Proofreader.Text.Letter

/-!
# Numerals

Whole numbers are written in decimal.  A whole number is read with a sign,
leading zeros and decimal digits of any script; a single underscore may stand
between two digits, and blanks may stand around the whole.
-/

namespace Proofreader.Numeral

def ofNat (n : Nat) : Text := Nat.toDigits 10 n

def ofInt : Int → Text
  | .ofNat n => ofNat n
  | .negSucc n => '-' :: ofNat (n + 1)

/-- Blanks around a numeral; the information separators are not among them. -/
def isPadding (c : Char) : Bool :=
  Text.isBlank c && !(28 ≤ c.toNat && c.toNat ≤ 31)

def readDigits (value : Nat) : Text → Option Nat
  | [] => some value
  | '_' :: c :: rest =>
      match Letter.digitValue? c with
      | some d => readDigits (10 * value + d) rest
      | none => none
  | c :: rest =>
      match Letter.digitValue? c with
      | some d => readDigits (10 * value + d) rest
      | none => none

def maxDigits : Nat := 4300

def readNat? : Text → Option Nat
  | [] => none
  | '_' :: _ => none
  | t => if (t.filter (· ≠ '_')).length ≤ maxDigits then readDigits 0 t else none

def readInt? (t : Text) : Option Int :=
  match ((t.dropWhile isPadding).reverse.dropWhile isPadding).reverse with
  | '-' :: digits => (readNat? digits).map fun n => -(n : Int)
  | '+' :: digits => (readNat? digits).map fun n => (n : Int)
  | digits => (readNat? digits).map fun n => (n : Int)

end Proofreader.Numeral
