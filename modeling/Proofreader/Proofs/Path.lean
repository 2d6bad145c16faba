import Mathlib.Data.List.TakeDrop
import Proofreader.Path

/-!
# Suffixes

A name is its stem and its suffix, and with another suffix it keeps the stem.  So the name
stays the same only if the suffix is the one that it has.
-/

namespace Proofreader.Path

theorem cutAtLastDot_eq_some {name stem tail : Text} (h : cutAtLastDot name = some (stem, tail)) :
    name = stem ++ '.' :: tail := by
  unfold cutAtLastDot at h
  split at h
  · rename_i back front hspan
    obtain ⟨rfl, rfl⟩ : front.reverse = stem ∧ back.reverse = tail := by simpa using h
    rw [List.span_eq_takeWhile_dropWhile, Prod.mk.injEq] at hspan
    have hsplit := name.reverse.takeWhile_append_dropWhile (p := (· ≠ '.'))
    rw [hspan.1, hspan.2] at hsplit
    rw [← name.reverse_reverse, ← hsplit]
    simp
  · simp at h

theorem suffixOf_isSuffix (name : Text) : suffixOf name <:+ name := by
  unfold suffixOf
  split
  · rename_i stem tail hcut
    split
    · exact List.nil_suffix
    · rw [cutAtLastDot_eq_some hcut]
      exact List.suffix_append stem _
  · exact List.nil_suffix

theorem exists_stem {p : Path} {names : List Text} {name : Text} (h : p.parts = names ++ [name]) :
    ∃ stem, name = stem ++ p.suffix ∧
      ∀ s, p.withSuffix s = ⟨p.slashes, names ++ [stem ++ s]⟩ := by
  have hname : p.name = name := by simp [Path.name, h]
  obtain ⟨stem, hstem⟩ := suffixOf_isSuffix p.name
  refine ⟨stem, by rw [← hname, suffix, hstem], fun s => ?_⟩
  have htake : p.name.take (p.name.length - p.suffix.length) = stem := by
    have hlength := congrArg List.length hstem
    rw [List.length_append] at hlength
    rw [suffix, ← hlength, Nat.add_sub_cancel]
    conv_lhs => rw [← hstem, List.take_left]
  rw [withSuffix, htake, h, List.dropLast_concat]

end Proofreader.Path
