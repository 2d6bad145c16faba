import Mathlib.Data.List.TakeWhile
import Proofreader.Proofs.Markdown.Reading

/-!
# Which constructs keep their line ends

Running text, the ends of lines, escapes and raw HTML are shown with all the line breaks
that they have, and code with none.
-/

namespace Proofreader.Markdown

open Text

/-- What becomes of the line breaks of a construct that takes `length` characters; an
address, a link or an image may lose some of them. -/
def Construct.Settles (t : Text) (length : Nat) : Construct → Prop
  | .text run => Text.breaks run = Text.breaks (t.take length)
  | .literal shown => Text.breaks shown = Text.breaks (t.take length)
  | .html source => source = t.take length
  | .lineBreak | .hardBreak => Text.breaks (t.take length) = 1
  | .code shown => Text.breaks shown = 0
  | .link .. | .image .. | .address .. => True

theorem breaks_takeWhile {p : Char → Bool} (hp : p '\n' = false ∧ p '\r' = false) (t : Text) :
    breaks (t.takeWhile p) = 0 :=
  breaks_eq_zero.2 fun _ hc => isBreak_of hp (List.mem_takeWhile_imp hc)

theorem breaks_take_lineEnd (t : Text) :
    breaks (('\n' :: t).take (1 + (t.takeWhile isSpaceOrTab).length)) = 1 := by
  rw [Nat.add_comm, List.take_succ_cons, take_length_takeWhile, breaks_cons,
    breaks_takeWhile (by decide)]
  rfl

namespace Reference

theorem breaks_of_cut? {t name rest : Text} (h : cut? t = some (name, rest)) :
    breaks t = breaks rest := by
  simp only [cut?] at h
  split at h
  · rename_i rest' hdrop
    obtain ⟨rfl, rfl⟩ := Prod.mk.inj (Option.some.inj h)
    rw [drop_length_takeWhile] at hdrop
    have hsplit := congrArg breaks
      (List.takeWhile_append_dropWhile (p := fun c => c.isAlphanum || c == '#') (l := t))
    rw [breaks_append, breaks_takeWhile (by decide), hdrop, breaks_cons] at hsplit
    simpa [isBreak] using hsplit.symm
  · simp at h

theorem breaks_of_inText? {t value rest : Text} (h : inText? t = some (value, rest)) :
    breaks t = breaks rest := by
  rw [inText?] at h
  split at h
  · rename_i digits rest' hcut
    obtain ⟨n, -, heq⟩ := Option.map_eq_some_iff.1 h
    exact (Prod.mk.inj heq).2 ▸ breaks_of_cut? hcut
  · rename_i name rest' hname hcut
    obtain ⟨t', -, heq⟩ := Option.map_eq_some_iff.1 h
    exact (Prod.mk.inj heq).2 ▸ breaks_of_cut? hcut
  · simp at h

end Reference

theorem breaks_content {t : Text} (hreturn : '\r' ∉ t) : breaks (CodeSpan.content t) = 0 := by
  have hmap : breaks (t.map fun c => if c = '\n' then ' ' else c) = 0 := by
    refine breaks_eq_zero.2 fun c hc => ?_
    obtain ⟨d, hd, rfl⟩ := List.mem_map.1 hc
    have hne : d ≠ '\r' := fun heq => hreturn (heq ▸ hd)
    split
    · rfl
    · rename_i hfeed
      simp [isBreak, hfeed, hne]
  unfold CodeSpan.content
  extract_lets spaced
  split
  · exact breaks_eq_zero_of_subset
      (List.Subset.trans (List.dropLast_subset _) (List.tail_subset _)) hmap
  · exact hmap

namespace Construct

variable {definitions : List Link.Definition} {skip : Skipper} {t : Text} {memory : Memory}

theorem readEscape?_settles {length : Nat} {c : Construct}
    (h : readEscape? ('\\' :: t) = some (c, length)) : c.Settles ('\\' :: t) length := by
  rw [readEscape?, List.tail_cons] at h
  split at h
  · simp at h
  · rename_i rest
    obtain ⟨rfl, rfl⟩ := Prod.mk.inj (Option.some.inj h)
    have hend := breaks_take_lineEnd rest
    rw [Settles, show 2 + (rest.takeWhile isSpaceOrTab).length =
      1 + (rest.takeWhile isSpaceOrTab).length + 1 by omega, List.take_succ_cons, breaks_cons, hend]
    rfl
  · rename_i d t hfeed
    obtain ⟨rfl, rfl⟩ := Prod.mk.inj (Option.some.inj h)
    have hescape : isBreak '\\' = false := rfl
    simp only [Settles, List.take_succ_cons, List.take_zero]
    split <;> simp [hescape]

theorem readAngle?_settles {length : Nat} {c : Construct}
    (h : readAngle? t = some (c, length)) : c.Settles t length := by
  rw [readAngle?] at h
  split at h
  · obtain ⟨rfl, rfl⟩ := Prod.mk.inj (Option.some.inj h)
    trivial
  · split at h
    · simp at h
    · obtain ⟨rest, -, heq⟩ := Option.map_eq_some_iff.1 h
      obtain ⟨rfl, rfl⟩ := Prod.mk.inj heq
      rfl

theorem readEntity?_settles (hspells : SpellsNoBreak ('&' :: t)) {length : Nat} {c : Construct}
    (h : readEntity? ('&' :: t) = some (c, length)) : c.Settles ('&' :: t) length := by
  obtain ⟨⟨value, rest⟩, hread, heq⟩ := Option.map_eq_some_iff.1 h
  obtain ⟨rfl, rfl⟩ := Prod.mk.inj heq
  have hvalue := hspells.reference t value rest (List.infix_refl _) (.inl hread)
  have hrest := (Reference.suffix_of_inText? hread).trans (List.suffix_cons '&' t)
  have hsplit := congrArg Text.breaks (List.suffix_iff_eq_append.1 hrest)
  have hone : isBreak '&' = false := rfl
  rw [breaks_append, breaks_cons, hone, ← Reference.breaks_of_inText? hread, List.tail_cons]
    at hsplit
  simp only [Bool.false_eq_true, if_false] at hsplit
  rw [Settles, hvalue]
  omega

theorem readCode_settles (hreturn : '\r' ∉ t) {pos length : Nat} {c : Construct}
    (h : (readCode pos t memory).1 = some (c, length)) : c.Settles t length := by
  rw [readCode] at h
  simp only at h
  split at h
  · rename_i content length' hread
    obtain ⟨rfl, rfl⟩ := Prod.mk.inj (Option.some.inj h)
    rw [CodeSpan.read?] at hread
    simp only at hread
    split at hread
    · simp at hread
    · split at hread
      · obtain ⟨rfl, -⟩ := Prod.mk.inj (Option.some.inj hread)
        exact breaks_content fun hmem =>
          hreturn (List.mem_of_mem_drop (List.mem_of_mem_take hmem))
      · simp at hread
  · obtain ⟨rfl, rfl⟩ := Prod.mk.inj (Option.some.inj h)
    rw [Settles, take_length_takeWhile]

theorem read_settles (hspells : SpellsNoBreak t) (hreturn : '\r' ∉ t) {pos length : Nat}
    {c : Construct} (h : (read definitions skip pos t memory).1 = some (c, length)) :
    c.Settles t length := by
  cases t with
  | nil => simp [read] at h
  | cons b t =>
      rw [read] at h
      split at h
      · obtain ⟨rfl, rfl⟩ := Prod.mk.inj (Option.some.inj h)
        rw [Settles, take_length_takeWhile]
      · split at h
        · rename_i hfeed
          obtain ⟨rfl, rfl⟩ := Prod.mk.inj (Option.some.inj h)
          subst hfeed
          exact breaks_take_lineEnd t
        · repeat' split at h
          · rename_i hescape
            subst hescape
            exact readEscape?_settles h
          · exact readCode_settles hreturn h
          · obtain ⟨label, target, title, rfl, -⟩ := readLink_cases hspells h
            trivial
          · obtain ⟨label, source, title, rfl, -⟩ := readImage_cases h
            trivial
          · exact readAngle?_settles h
          · rename_i hreference
            subst hreference
            exact readEntity?_settles hspells h
          · simp at h

end Construct

end Proofreader.Markdown
