import Mathlib.Data.List.Infix
import Proofreader.Markdown.Link
import Proofreader.Proofs.Text.Breaks

/-!
# Spelled line breaks

A character reference can stand for a line break, and so can an escape in an address.
What is read from a text without such references and escapes has no more line breaks
than the text itself; a link target has none in any case.
-/

namespace Proofreader.Markdown

open Text

/-- No reference in the text stands for a line break, and neither does an escape. -/
structure SpellsNoBreak (t : Text) : Prop where
  reference : ∀ u value rest, '&' :: u <:+: t →
    (Reference.inText? u = some (value, rest) ∨ Reference.inTarget? u = some (value, rest)) →
      breaks value = 0
  escape : ∀ a b, ['%', a, b] <:+: t → Url.isHexDigit a = true → Url.isHexDigit b = true →
    isBreak (Char.ofNat (CodeSet.hexValue [a, b])) = false

theorem SpellsNoBreak.of_isInfix {s t : Text} (h : SpellsNoBreak t) (hs : s <:+: t) :
    SpellsNoBreak s :=
  ⟨fun u value rest hu => h.reference u value rest (hu.trans hs),
    fun a b hab => h.escape a b (hab.trans hs)⟩

theorem SpellsNoBreak.of_isSuffix {s t : Text} (h : SpellsNoBreak t) (hs : s <:+ t) :
    SpellsNoBreak s := h.of_isInfix hs.isInfix

theorem spellsNoBreak_of_not_mem {t : Text} (hreference : '&' ∉ t) (hescape : '%' ∉ t) :
    SpellsNoBreak t := by
  constructor
  · intro u value rest hu
    exact absurd (hu.subset (List.mem_cons_self ..)) hreference
  · intro a b hab
    exact absurd (hab.subset (List.mem_cons_self ..)) hescape

/-! ## References -/

namespace Reference

theorem suffix_of_cut? {t name rest : Text} (h : cut? t = some (name, rest)) : rest <:+ t := by
  simp only [cut?] at h
  split at h
  · rename_i rest' hdrop
    obtain ⟨-, rfl⟩ : _ = name ∧ rest' = rest := by simpa using h
    exact (List.suffix_cons ';' rest').trans (hdrop ▸ List.drop_suffix _ t)
  · simp at h

theorem suffix_of_inText? {t value rest : Text} (h : inText? t = some (value, rest)) :
    rest <:+ t := by
  rw [inText?] at h
  split at h
  · rename_i digits rest' hcut
    obtain ⟨n, -, heq⟩ := Option.map_eq_some_iff.1 h
    exact (Prod.mk.inj heq).2 ▸ suffix_of_cut? hcut
  · rename_i name rest' hname hcut
    obtain ⟨t', -, heq⟩ := Option.map_eq_some_iff.1 h
    exact (Prod.mk.inj heq).2 ▸ suffix_of_cut? hcut
  · simp at h

theorem suffix_of_inTarget? {t value rest : Text} (h : inTarget? t = some (value, rest)) :
    rest <:+ t := by
  rw [inTarget?] at h
  split at h
  · rename_i digits rest' hcut
    split at h
    · split at h
      · simp at h
      · obtain ⟨-, rfl⟩ : _ = value ∧ rest' = rest := by simpa using h
        exact suffix_of_cut? hcut
    · simp at h
  · rename_i name rest' hname hcut
    obtain ⟨t', -, heq⟩ := Option.map_eq_some_iff.1 h
    exact (Prod.mk.inj heq).2 ▸ suffix_of_cut? hcut
  · simp at h

end Reference

theorem breaks_unescapeFrom_le {t : Text} (h : SpellsNoBreak t) (fuel : Nat) :
    breaks (unescapeFrom fuel t) ≤ breaks t := by
  induction fuel, t using unescapeFrom.induct with
  | case1 t => exact Nat.le_refl _
  | case2 fuel => cases fuel <;> exact Nat.le_refl _
  | case3 fuel c t hpunctuation ih =>
      have ih := ih (h.of_isSuffix (List.suffix_append ['\\', c] t))
      rw [unescapeFrom, if_pos hpunctuation, breaks_cons, breaks_cons, breaks_cons]
      omega
  | case4 fuel c t hpunctuation ih =>
      have ih := ih (h.of_isSuffix (List.suffix_cons '\\' (c :: t)))
      rw [unescapeFrom, if_neg hpunctuation, breaks_cons, breaks_cons _ (c :: t)]
      omega
  | case5 fuel t value rest hreference ih =>
      have hrest := Reference.suffix_of_inTarget? hreference
      have ih := ih (h.of_isSuffix (hrest.trans (List.suffix_cons '&' t)))
      have hvalue := h.reference t value rest (List.infix_refl _) (.inr hreference)
      have hle := breaks_mono hrest.sublist
      simp only [unescapeFrom, hreference, breaks_append, breaks_cons, hvalue]
      omega
  | case6 fuel t hreference ih =>
      have ih := ih (h.of_isSuffix (List.suffix_cons '&' t))
      simp only [unescapeFrom, hreference, breaks_cons]
      omega
  | case7 fuel c t hescape hreference ih =>
      have ih := ih (h.of_isSuffix (List.suffix_cons c t))
      rw [unescapeFrom.eq_5 _ _ _ hescape hreference, breaks_cons, breaks_cons]
      omega

theorem breaks_unescape_le {t : Text} (h : SpellsNoBreak t) : breaks (unescape t) ≤ breaks t :=
  breaks_unescapeFrom_le h t.length

/-! ## Link targets -/

namespace Url

theorem isBreak_hexUpper {n : Nat} (h : n < 16) : isBreak (hexUpper n) = false := by
  decide +revert

theorem breaks_percent (b : UInt8) : breaks (percent b) = 0 := by
  have hlt : b.toNat < 256 := b.toNat_lt
  have hmark : isBreak '%' = false := rfl
  have hhigh := isBreak_hexUpper (show b.toNat / 16 < 16 by omega)
  have hlow := isBreak_hexUpper (show b.toNat % 16 < 16 by omega)
  simp [percent, hmark, hhigh, hlow]

theorem breaks_escapeChar (c : Char) : breaks (escapeChar c) = 0 := by
  unfold escapeChar
  split
  · rename_i hplain
    simp [isBreak_of (by decide) hplain]
  · rw [breaks_eq_zero]
    intro d hd
    obtain ⟨b, -, hb⟩ := List.mem_flatMap.1 hd
    exact breaks_eq_zero.1 (breaks_percent b) d hb

theorem breaks_escape (t : Text) : breaks (escape t) = 0 := by
  induction t using escape.induct with
  | case1 => rfl
  | case2 a b t hdigits ih =>
      rw [escape, if_pos hdigits]
      rw [Bool.and_eq_true] at hdigits
      have hmark : isBreak '%' = false := rfl
      have hfirst := isBreak_of (by decide) hdigits.1
      have hsecond := isBreak_of (by decide) hdigits.2
      simp [hmark, hfirst, hsecond, ih]
  | case3 a b t hdigits ih =>
      rw [escape, if_neg hdigits, breaks_append, breaks_escapeChar, ih]
  | case4 c t hescape ih =>
      rw [escape.eq_3 _ _ hescape, breaks_append, breaks_escapeChar, ih]

theorem breaks_target (t : Text) : breaks (target t) = 0 := breaks_escape _

end Url

end Proofreader.Markdown
