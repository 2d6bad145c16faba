import Proofreader.Text.Basic

/-!
# UTF-8

A byte sequence is read character by character; the first byte decides how many
follow, and the second byte of a long form is held to the range that rules out
overlong forms, surrogates and numbers above the last code point.
-/

namespace Proofreader.Utf8

abbrev Bytes := List UInt8

inductive Fault where
  | startByte
  | continuationByte
  | endOfData
  deriving DecidableEq, Repr

def Fault.message : Fault → Text
  | .startByte => "invalid start byte"
  | .continuationByte => "invalid continuation byte"
  | .endOfData => "unexpected end of data"

/-- How many bytes follow a first byte, which range the next one lies in, and
the bits that the first byte contributes. -/
structure Lead where
  more : Nat
  low : Nat
  high : Nat
  bits : Nat
  deriving DecidableEq, Repr

def Lead.ofByte? (b : UInt8) : Option Lead :=
  let n := b.toNat
  if n < 0x80 then some ⟨0, 0, 0, n⟩
  else if n < 0xC2 then none
  else if n < 0xE0 then some ⟨1, 0x80, 0xBF, n - 0xC0⟩
  else if n = 0xE0 then some ⟨2, 0xA0, 0xBF, 0⟩
  else if n = 0xED then some ⟨2, 0x80, 0x9F, 13⟩
  else if n < 0xF0 then some ⟨2, 0x80, 0xBF, n - 0xE0⟩
  else if n = 0xF0 then some ⟨3, 0x90, 0xBF, 0⟩
  else if n < 0xF4 then some ⟨3, 0x80, 0xBF, n - 0xF0⟩
  else if n = 0xF4 then some ⟨3, 0x80, 0x8F, 4⟩
  else none

/-- The state between bytes: either a character begins, or `more + 1` bytes of
one are still missing and the next lies between `low` and `high`. -/
inductive Progress where
  | between
  | inside (more low high bits : Nat)
  deriving DecidableEq, Repr

def decodeFrom : Progress → Bytes → Except Fault Text
  | .between, [] => .ok []
  | .inside .., [] => .error .endOfData
  | .between, b :: rest =>
      match Lead.ofByte? b with
      | none => .error .startByte
      | some ⟨0, _, _, bits⟩ => (decodeFrom .between rest).map (Char.ofNat bits :: ·)
      | some ⟨more + 1, low, high, bits⟩ => decodeFrom (.inside more low high bits) rest
  | .inside more low high bits, b :: rest =>
      if low ≤ b.toNat ∧ b.toNat ≤ high then
        let bits := 64 * bits + (b.toNat - 0x80)
        match more with
        | 0 => (decodeFrom .between rest).map (Char.ofNat bits :: ·)
        | more + 1 => decodeFrom (.inside more 0x80 0xBF bits) rest
      else .error .continuationByte

def decode (bytes : Bytes) : Except Fault Text := decodeFrom .between bytes

def encode (t : Text) : Bytes := t.flatMap String.utf8EncodeChar

end Proofreader.Utf8
