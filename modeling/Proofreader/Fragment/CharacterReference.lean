import Proofreader.Entity
import Proofreader.Text.Numeral

/-!
# Character references in fragments

Running text and attribute values read references by different rules.  In
running text a reference ends at the first character that cannot belong to it,
and that character must exist.  In an attribute value the semicolon may be
missing, and a name is understood by its longest known beginning.  Decimal numbers
are read up to a limit of digits.
-/

namespace Proofreader.CharacterReference

/-! ## Numbers -/

/-- What the control characters from 128 to 159 stand for in old documents;
zero where they stand for nothing. -/
def legacyControls : List Nat :=
  [0x20AC, 0, 0x201A, 0x0192, 0x201E, 0x2026, 0x2020, 0x2021, 0x02C6, 0x2030, 0x0160, 0x2039,
    0x0152, 0, 0x017D, 0, 0, 0x2018, 0x2019, 0x201C, 0x201D, 0x2022, 0x2013, 0x2014, 0x02DC,
    0x2122, 0x0161, 0x203A, 0x0153, 0, 0x017E, 0x0178]

def replacement : Char := Char.ofNat 0xFFFD

def charAt? (n : Nat) : Option Char :=
  if n.isValidChar then some (Char.ofNat n) else none

def legacyControl? (n : Nat) : Option Char :=
  match legacyControls[n - 128]? with
  | some m => if 128 ≤ n ∧ m ≠ 0 then some (Char.ofNat m) else none
  | none => none

/-- The character that a number in running text refers to.  There is none for zero,
nor for half of a surrogate pair, which no text can hold. -/
def charOfNumber (n : Nat) : Char :=
  if n = 0 then replacement
  else match legacyControl? n with
    | some c => c
    | none => (charAt? n).getD replacement

def isHexDigit (c : Char) : Bool := (CodeSet.hexDigit? c).isSome

structure Overlong where
  digits : Nat
  deriving DecidableEq, Repr

def Overlong.message (f : Overlong) : Text :=
  "Exceeds the limit (".toList ++ Numeral.ofNat Numeral.maxDigits ++
    " digits) for integer string conversion: value has ".toList ++ Numeral.ofNat f.digits ++
    " digits; use sys.set_int_max_str_digits() to increase the limit".toList

def decimalValue (digits : Text) : Except Overlong Nat :=
  if Numeral.maxDigits < digits.length then .error ⟨digits.length⟩
  else .ok (digits.foldl (fun n c => 10 * n + (c.toNat - 48)) 0)

def hexValue (digits : Text) : Except Overlong Nat := .ok (CodeSet.hexValue digits)

/-! ## Running text -/

/-- A number after an ampersand and a number sign, and what follows the
reference.  Some character must follow the digits and it may not be one
itself. -/
def readNumber? (t : Text) : Option (Except Overlong Nat × Text) :=
  let (digits, rest, value) := match t with
    | 'x' :: t => (t.takeWhile isHexDigit, t.dropWhile isHexDigit, hexValue)
    | 'X' :: t => (t.takeWhile isHexDigit, t.dropWhile isHexDigit, hexValue)
    | t => (t.takeWhile Char.isDigit, t.dropWhile Char.isDigit, decimalValue)
  match digits, rest with
  | [], _ => none
  | _, [] => none
  | _, ';' :: rest => some (value digits, rest)
  | _, c :: rest => if isHexDigit c then none else some (value digits, c :: rest)

def isNameChar (c : Char) : Bool := c.isAlphanum || c == '-' || c == '.'

/-- A name after an ampersand, and what follows the reference.  The name is as
long as it can be with a character after it that is no letter or digit. -/
def readName? : Text → Option (Text × Text)
  | [] => none
  | c :: t =>
      if c.isAlpha then
        match t.dropWhile isNameChar with
        | ';' :: rest => some (c :: t.takeWhile isNameChar, rest)
        | d :: rest => some (c :: t.takeWhile isNameChar, d :: rest)
        | [] =>
            -- the text ends inside the name: go back to its last mark
            match t.reverse.span Char.isAlphanum with
            | (tail, mark :: stem) => some (c :: stem.reverse, mark :: tail.reverse)
            | (_, []) => none
      else none

def textOfName (name : Text) : Text := (Entity.lookup name).getD ('&' :: name)

/-! ## Attribute values -/

def isNoCharacter (n : Nat) : Bool :=
  (0xFDD0 ≤ n && n ≤ 0xFDEF) || (n % 0x10000 == 0xFFFE) || (n % 0x10000 == 0xFFFF)

def isControl (n : Nat) : Bool :=
  (1 ≤ n && n ≤ 8) || n == 11 || (14 ≤ n && n ≤ 31) || (0x7F ≤ n && n ≤ 0x9F)

def attributeTextOfNumber (n : Nat) : Text :=
  if n = 0 then [replacement]
  else match legacyControl? n with
    | some c => [c]
    | none =>
        if 0x80 ≤ n ∧ n ≤ 0x9F then [Char.ofNat n]
        else match charAt? n with
          | none => [replacement]
          | some c => if isControl n || isNoCharacter n then [] else [c]

def bareName? (name : Text) : Nat → Option (Text × Text)
  | 0 => none
  | n + 1 =>
      let stem := name.take (n + 1)
      if Entity.bareNames.contains stem then some (stem, name.drop (n + 1)) else bareName? name n

def attributeTextOfName (name : Text) (closed : Bool) : Text :=
  let written := if closed then name ++ [';'] else name
  match if closed then Entity.lookup name else none with
  | some t => t
  | none =>
      match bareName? name name.length with
      | some (stem, tail) =>
          (Entity.lookup stem).getD [] ++ tail ++ (if closed then [';'] else [])
      | none => '&' :: written

def endsAttributeName (c : Char) : Bool :=
  c == '\t' || c == '\n' || c == Char.ofNat 12 || c == ' ' || c == '<' || c == '&' ||
    c == '#' || c == ';'

def closeReference : Text → Bool × Text
  | ';' :: rest => (true, rest)
  | rest => (false, rest)

def readAttributeReference? (t : Text) : Option (Except Overlong Text × Text) :=
  match t with
  | '#' :: 'x' :: t | '#' :: 'X' :: t =>
      let digits := t.takeWhile isHexDigit
      if digits.isEmpty then none
      else some ((hexValue digits).map attributeTextOfNumber,
        (closeReference (t.dropWhile isHexDigit)).2)
  | '#' :: t =>
      let digits := t.takeWhile Char.isDigit
      if digits.isEmpty then none
      else some ((decimalValue digits).map attributeTextOfNumber,
        (closeReference (t.dropWhile Char.isDigit)).2)
  | t =>
      let name := (t.takeWhile fun c => !endsAttributeName c).take 32
      if name.isEmpty then none
      else
        let (closed, rest) := closeReference (t.drop name.length)
        some (.ok (attributeTextOfName name closed), rest)

def unescapeFrom : Nat → Text → Except Overlong Text
  | 0, t => .ok t
  | _, [] => .ok []
  | fuel + 1, '&' :: t =>
      match readAttributeReference? t with
      | some (.error f, _) => .error f
      | some (.ok value, rest) => (unescapeFrom fuel rest).map (value ++ ·)
      | none => (unescapeFrom fuel t).map ('&' :: ·)
  | fuel + 1, c :: t => (unescapeFrom fuel t).map (c :: ·)

def unescape (t : Text) : Except Overlong Text := unescapeFrom t.length t

end Proofreader.CharacterReference
