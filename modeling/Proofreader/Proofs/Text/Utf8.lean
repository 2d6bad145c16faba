import Proofreader.Proofs.Text.Breaks
import Proofreader.Text.Utf8

/-!
# UTF-8

A text that was encoded is decoded to itself.  A character that is encoded in several bytes is
no control character, so bytes that all belong to such characters are decoded to a text without
line breaks.
-/

namespace Proofreader

open Text

theorem Text.ofNat_ne {n : Nat} {c : Char} (hpos : 0 < c.toNat) (h : c.toNat < n) :
    Char.ofNat n ≠ c := by
  rintro rfl
  by_cases hvalid : n.isValidChar
  · have hn : (Char.ofNat n).toNat = n := by
      rw [Char.ofNat, dif_pos hvalid]
      rfl
    omega
  · have hn : (Char.ofNat n).toNat = 0 := by
      rw [Char.ofNat, dif_neg hvalid]
      rfl
    omega

theorem Text.isBreak_ofNat {n : Nat} (h : 14 ≤ n) : isBreak (Char.ofNat n) = false := by
  have hfeed := ofNat_ne (c := '\n') (by decide) (show 10 < n by omega)
  have hreturn := ofNat_ne (c := '\r') (by decide) (show 13 < n by omega)
  simp [isBreak, hfeed, hreturn]

namespace Utf8

/-! ## Encoded texts -/

theorem toNat_byte {n : Nat} (h : n < 256) : (UInt8.ofNat n).toNat = n := by
  rw [UInt8.toNat_ofNat']
  exact Nat.mod_eq_of_lt h

theorem Lead.ofByte?_ofNat {n : Nat} (h : 0xC2 ≤ n ∧ n < 0xF5) :
    ofByte? (UInt8.ofNat n) = some
      (if n < 0xE0 then ⟨1, 0x80, 0xBF, n - 0xC0⟩
      else if n < 0xF0 then
        ⟨2, if n = 0xE0 then 0xA0 else 0x80, if n = 0xED then 0x9F else 0xBF, n - 0xE0⟩
      else ⟨3, if n = 0xF0 then 0x90 else 0x80, if n = 0xF4 then 0x8F else 0xBF, n - 0xF0⟩) := by
  rw [ofByte?, toNat_byte (by omega)]
  grind

theorem decodeFrom_lead {b : UInt8} {more low high bits : Nat} (rest : Bytes)
    (h : Lead.ofByte? b = some ⟨more + 1, low, high, bits⟩) :
    decodeFrom .between (b :: rest) = decodeFrom (.inside more low high bits) rest := by
  simp [decodeFrom, h]

section Continuation

variable {n low high : Nat} (bits : Nat) (rest : Bytes) (hlow : low ≤ n) (hhigh : n ≤ high)
  (hbyte : n < 256)
include hlow hhigh hbyte

theorem decodeFrom_next (more : Nat) :
    decodeFrom (.inside (more + 1) low high bits) (UInt8.ofNat n :: rest) =
      decodeFrom (.inside more 0x80 0xBF (64 * bits + (n - 0x80))) rest := by
  simp only [decodeFrom, toNat_byte hbyte]
  rw [if_pos ⟨hlow, hhigh⟩]

theorem decodeFrom_last :
    decodeFrom (.inside 0 low high bits) (UInt8.ofNat n :: rest) =
      (decodeFrom .between rest).map (Char.ofNat (64 * bits + (n - 0x80)) :: ·) := by
  simp only [decodeFrom, toNat_byte hbyte]
  rw [if_pos ⟨hlow, hhigh⟩]

end Continuation

theorem decodeFrom_encodeChar (c : Char) (rest : Bytes) :
    decodeFrom .between (String.utf8EncodeChar c ++ rest) =
      (decodeFrom .between rest).map (c :: ·) := by
  have hvalid : c.toNat < 0xD800 ∨ 0xDFFF < c.toNat ∧ c.toNat < 0x110000 := c.valid
  have hchar := Char.ofNat_toNat c
  have hunfold : String.utf8EncodeChar c =
      if c.toNat ≤ 0x7F then [.ofNat c.toNat]
      else if c.toNat ≤ 0x7FF then [.ofNat (c.toNat / 64 % 32 + 192), .ofNat (c.toNat % 64 + 128)]
      else if c.toNat ≤ 0xFFFF then
        [.ofNat (c.toNat / 4096 % 16 + 224), .ofNat (c.toNat / 64 % 64 + 128),
          .ofNat (c.toNat % 64 + 128)]
      else
        [.ofNat (c.toNat / 262144 % 8 + 240), .ofNat (c.toNat / 4096 % 64 + 128),
          .ofNat (c.toNat / 64 % 64 + 128), .ofNat (c.toNat % 64 + 128)] := rfl
  rw [hunfold]
  generalize c.toNat = v at hvalid hchar ⊢
  split
  · have hlead : Lead.ofByte? (UInt8.ofNat v) = some ⟨0, 0, 0, v⟩ := by
      rw [Lead.ofByte?, toNat_byte (by omega), if_pos (by omega)]
    simp [decodeFrom, hlead, hchar]
  · split
    · have hlead := Lead.ofByte?_ofNat (n := v / 64 % 32 + 192) (by omega)
      rw [if_pos (by omega)] at hlead
      have hbits : 64 * (v / 64 % 32 + 192 - 0xC0) + (v % 64 + 128 - 0x80) = v := by omega
      rw [List.cons_append, decodeFrom_lead _ hlead, List.cons_append,
        decodeFrom_last _ _ (by omega) (by omega) (by omega), hbits, hchar]
      rfl
    · split
      · have hlead := Lead.ofByte?_ofNat (n := v / 4096 % 16 + 224) (by omega)
        rw [if_neg (by omega), if_pos (by omega)] at hlead
        have hbits : 64 * (64 * (v / 4096 % 16 + 224 - 0xE0) + (v / 64 % 64 + 128 - 0x80)) +
            (v % 64 + 128 - 0x80) = v := by omega
        rw [List.cons_append, decodeFrom_lead _ hlead, List.cons_append,
          decodeFrom_next _ _ (by split <;> omega) (by split <;> omega) (by omega),
          List.cons_append, decodeFrom_last _ _ (by omega) (by omega) (by omega), hbits, hchar]
        rfl
      · have hlead := Lead.ofByte?_ofNat (n := v / 262144 % 8 + 240) (by omega)
        rw [if_neg (by omega), if_neg (by omega)] at hlead
        have hbits : 64 * (64 * (64 * (v / 262144 % 8 + 240 - 0xF0) +
            (v / 4096 % 64 + 128 - 0x80)) + (v / 64 % 64 + 128 - 0x80)) +
              (v % 64 + 128 - 0x80) = v := by omega
        rw [List.cons_append, decodeFrom_lead _ hlead, List.cons_append,
          decodeFrom_next _ _ (by split <;> omega) (by split <;> omega) (by omega),
          List.cons_append, decodeFrom_next _ _ (by omega) (by omega) (by omega),
          List.cons_append, decodeFrom_last _ _ (by omega) (by omega) (by omega), hbits, hchar]
        rfl

theorem decode_encode (t : Text) : decode (encode t) = .ok t := by
  rw [decode]
  induction t with
  | nil => rfl
  | cons c t ih =>
      have hcons : encode (c :: t) = String.utf8EncodeChar c ++ encode t := List.flatMap_cons
      rw [hcons, decodeFrom_encodeChar, ih]
      rfl

/-! ## Line breaks -/

/-- The numbers that an unfinished character can still become are no control characters. -/
def Progress.IsLong : Progress → Prop
  | .between => True
  | .inside _ low _ bits => 0x80 ≤ low ∧ 16 ≤ 64 * bits + (low - 0x80)

theorem Lead.isLong {b : UInt8} {more low high bits : Nat} (hb : 0x80 ≤ b.toNat)
    (h : ofByte? b = some ⟨more, low, high, bits⟩) :
    0 < more ∧ 0x80 ≤ low ∧ 16 ≤ 64 * bits + (low - 0x80) := by
  simp only [ofByte?, if_neg (show ¬ b.toNat < 0x80 by omega)] at h
  repeat' split at h
  all_goals simp only [Option.some.injEq, mk.injEq, reduceCtorEq] at h
  all_goals omega

theorem breaks_decodeFrom {p : Progress} {bytes : Bytes} {t : Text} (hp : p.IsLong)
    (hbytes : ∀ b ∈ bytes, 0x80 ≤ b.toNat) (h : decodeFrom p bytes = .ok t) : breaks t = 0 := by
  induction p, bytes using decodeFrom.induct generalizing t with
  | case1 =>
      obtain rfl : [] = t := by simpa [decodeFrom] using h
      rfl
  | case2 => simp [decodeFrom] at h
  | case3 b rest hlead => simp [decodeFrom, hlead] at h
  | case4 b rest low high bits hlead ih =>
      have hlong := Lead.isLong (hbytes b (by simp)) hlead
      omega
  | case5 b rest more low high bits hlead ih =>
      rw [List.forall_mem_cons] at hbytes
      simp only [decodeFrom, hlead] at h
      exact ih (Lead.isLong hbytes.1 hlead).2 hbytes.2 h
  | case6 low high bits b rest hrange ih =>
      rw [List.forall_mem_cons] at hbytes
      simp only [decodeFrom, if_pos hrange] at h
      cases hrest : decodeFrom .between rest with
      | error e => simp [hrest, Except.map] at h
      | ok t' =>
          obtain rfl : _ :: t' = t := by simpa [hrest, Except.map] using h
          have hbits : 14 ≤ 64 * bits + (b.toNat - 128) := by
            have := hp.2
            omega
          simp [ih trivial hbytes.2 hrest, isBreak_ofNat hbits]
  | case7 low high bits b rest hrange _ more =>
      rename_i ih
      rw [List.forall_mem_cons] at hbytes
      simp only [decodeFrom, if_pos hrange] at h
      refine ih ⟨Nat.le_refl _, ?_⟩ hbytes.2 h
      have := hp.2
      omega
  | case8 more low high bits b rest hrange => simp [decodeFrom, hrange] at h

theorem breaks_decode {bytes : Bytes} {t : Text} (hbytes : ∀ b ∈ bytes, 0x80 ≤ b.toNat)
    (h : decode bytes = .ok t) : breaks t = 0 :=
  breaks_decodeFrom (p := .between) trivial hbytes h

end Utf8

end Proofreader
