import Proofreader.Entity
import Proofreader.Text.Numeral
import Proofreader.Text.Punctuation

/-!
# Escapes and character references

A backslash takes the meaning from a punctuation character.  A reference between
an ampersand and a semicolon stands for a named character or for one given by its
number.  Both are understood in running text as well as in link destinations and
titles, where numbers may have more digits.
-/

namespace Proofreader.Markdown

namespace Reference

def replacement : Char := Char.ofNat 0xFFFD

/-- Numbers that no reference may name: surrogates, code points that are no
characters, and control characters other than blanks. -/
def isRefused (n : Nat) : Bool :=
  (0xD800 ≤ n && n ≤ 0xDFFF) || (0xFDD0 ≤ n && n ≤ 0xFDEF) || n % 0x10000 == 0xFFFE ||
    n % 0x10000 == 0xFFFF || n ≤ 8 || n == 11 || (14 ≤ n && n ≤ 31) ||
    (0x7F ≤ n && n ≤ 0x9F) || 0x10FFFF < n

def isHexDigit (c : Char) : Bool := (CodeSet.hexDigit? c).isSome

def number? (maxHex maxDecimal : Nat) (t : Text) : Option Nat :=
  let hex (digits : Text) : Option Nat :=
    if !digits.isEmpty && digits.length ≤ maxHex && digits.all isHexDigit then
      some (CodeSet.hexValue digits)
    else none
  match t with
  | 'x' :: digits => hex digits
  | 'X' :: digits => hex digits
  | digits =>
      if !digits.isEmpty && digits.length ≤ maxDecimal && digits.all Char.isDigit then
        some (digits.foldl (fun n c => 10 * n + (c.toNat - 48)) 0)
      else none

def cut? (t : Text) : Option (Text × Text) :=
  let name := t.takeWhile fun c => c.isAlphanum || c == '#'
  match t.drop name.length with
  | ';' :: rest => some (name, rest)
  | _ => none

def named? (name : Text) : Option Text :=
  if name.head?.any Char.isAlpha then Entity.lookup name else none

/-- A reference in running text, after its ampersand.  A number that may not be
named stands for the replacement character. -/
def inText? (t : Text) : Option (Text × Text) :=
  match cut? t with
  | some ('#' :: digits, rest) =>
      (number? 6 7 digits).map fun n => ([if isRefused n then replacement else Char.ofNat n], rest)
  | some (name, rest) => (named? name).map fun t => (t, rest)
  | none => none

/-- A reference in a destination or a title, after its ampersand.  One that names
no character is no reference. -/
def inTarget? (t : Text) : Option (Text × Text) :=
  match cut? t with
  | some ('#' :: digits, rest) =>
      match number? 8 8 digits with
      | some n => if isRefused n then none else some ([Char.ofNat n], rest)
      | none => none
  | some (name, rest) => (named? name).map fun t => (t, rest)
  | none => none

end Reference

def unescapeFrom : Nat → Text → Text
  | 0, t => t
  | _, [] => []
  | fuel + 1, '\\' :: c :: t =>
      if Punctuation.isAsciiPunctuation c then c :: unescapeFrom fuel t
      else '\\' :: unescapeFrom fuel (c :: t)
  | fuel + 1, '&' :: t =>
      match Reference.inTarget? t with
      | some (value, rest) => value ++ unescapeFrom fuel rest
      | none => '&' :: unescapeFrom fuel t
  | fuel + 1, c :: t => c :: unescapeFrom fuel t

def unescape (t : Text) : Text := unescapeFrom t.length t

end Proofreader.Markdown
