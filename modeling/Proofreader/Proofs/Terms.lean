import Mathlib.Algebra.Order.BigOperators.Group.List
import Mathlib.Algebra.Order.Group.Nat
import Proofreader.Proofs.Text.Words
import Proofreader.Terms

/-!
# Ignored terms side by side

A text that is one ignored term is covered as a whole, any other text word by word.  So a term
of several words is not found again beside another term, and texts of ignored terms can be put
side by side if and only if every term also consists of ignored words.
-/

namespace Proofreader.Terms

open Text (words)

variable {terms : List Text}

theorem coverAll_iff {t : Text} :
    coverAll terms t = true ↔ terms ≠ [] ∧ t.isAllBlank = false ∧
      (t.trim ∈ terms ∨ ∀ w ∈ words t, isIgnoredWord terms w = true) := by
  have hblank : (!t.trim.isEmpty) = true ↔ t.isAllBlank = false := by
    rw [Bool.not_eq_true', List.isEmpty_eq_false_iff, ne_eq, Text.trim_eq_nil_iff,
      Bool.not_eq_true]
  have hterms : (!terms.isEmpty) = true ↔ terms ≠ [] := by simp
  simp only [coverAll, Bool.and_eq_true, hblank, hterms, Bool.or_eq_true, List.contains_iff_mem,
    List.all_eq_true, Text.words_trim]
  constructor
  · rintro ⟨⟨htext, hne⟩, hcovered⟩
    exact ⟨hne, htext, hcovered⟩
  · rintro ⟨hne, htext, hcovered⟩
    exact ⟨⟨htext, hne⟩, hcovered⟩

theorem words_beside (a b : Text) : words (a ++ ' ' :: b) = words a ++ words b :=
  Text.words_append (by decide) a b

theorem coverAll_beside_iff {a : Text} (ha : coverAll terms a = true) (b : Text) :
    coverAll terms (a ++ ' ' :: b) = true ↔
      (a ++ ' ' :: b).trim ∈ terms ∨
        (∀ w ∈ words a, isIgnoredWord terms w = true) ∧
          ∀ w ∈ words b, isIgnoredWord terms w = true := by
  obtain ⟨hterms, hink, -⟩ := coverAll_iff.1 ha
  have hbeside : Text.isAllBlank (a ++ ' ' :: b) = false := by
    rw [Text.isAllBlank, List.all_append, Bool.and_eq_false_iff]
    exact .inl hink
  rw [coverAll_iff, words_beside]
  simp [hterms, hbeside, or_imp, forall_and]

/-- Covered texts stay covered when they are put side by side. -/
def JoinsCovered (terms : List Text) : Prop :=
  ∀ a b, coverAll terms a = true → coverAll terms b = true →
    coverAll terms (a ++ ' ' :: b) = true

/-- Every trimmed term consists of ignored words, so that it is covered word by word as well. -/
def IsWordwise (terms : List Text) : Prop :=
  ∀ t ∈ terms, t.trim = t → ∀ w ∈ words t, isIgnoredWord terms w = true

theorem IsWordwise.of_coverAll (h : IsWordwise terms) {t : Text} (ht : coverAll terms t = true) :
    ∀ w ∈ words t, isIgnoredWord terms w = true := by
  obtain ⟨-, -, hwhole | hwords⟩ := coverAll_iff.1 ht
  · rw [← Text.words_trim]
    exact h t.trim hwhole (Text.trim_trim t)
  · exact hwords

theorem trim_twice {t : Text} (h : t.trim = t) (hink : t.isAllBlank = false) :
    (t ++ ' ' :: t).trim = t ++ ' ' :: t := by
  obtain ⟨hfront, hback⟩ := Text.trim_eq_self_iff.1 h
  have htrim := Text.trim_append hink [' '] hink
  rwa [hfront, hback, List.append_assoc, List.singleton_append] at htrim

/-- A term with a word that is not ignored makes longer and longer ones: it is covered as a
term, so twice the term is covered, and that it can only be as a term again. -/
theorem exists_longer (h : JoinsCovered terms) {t w : Text} (ht : t ∈ terms) (htrim : t.trim = t)
    (hw : w ∈ words t) (hplain : isIgnoredWord terms w = false) (n : Nat) :
    ∃ u ∈ terms, u.trim = u ∧ w ∈ words u ∧ n ≤ u.length := by
  induction n with
  | zero => exact ⟨t, ht, htrim, hw, Nat.zero_le _⟩
  | succ n ih =>
      obtain ⟨u, hu, hutrim, hwu, hlength⟩ := ih
      have hink : u.isAllBlank = false := by
        rw [← Bool.not_eq_true, ← Text.words_eq_nil_iff]
        exact List.ne_nil_of_mem hwu
      have hcovered : coverAll terms u = true :=
        coverAll_iff.2 ⟨List.ne_nil_of_mem hu, hink, .inl (hutrim.symm ▸ hu)⟩
      have htwice := trim_twice hutrim hink
      refine ⟨u ++ ' ' :: u, ?_, htwice, ?_, ?_⟩
      · rcases (coverAll_beside_iff hcovered u).1 (h u u hcovered hcovered) with
          hterm | ⟨hwords, -⟩
        · rwa [htwice] at hterm
        · simp [hwords w hwu] at hplain
      · rw [words_beside]
        exact List.mem_append_left _ hwu
      · rw [List.length_append, List.length_cons]
        omega

theorem isWordwise_of_joinsCovered (h : JoinsCovered terms) : IsWordwise terms := by
  intro t ht htrim w hw
  by_contra hplain
  obtain ⟨u, hu, -, -, hlength⟩ :=
    exists_longer h ht htrim hw (by simpa using hplain) ((terms.map List.length).sum + 1)
  have hbound := List.le_sum_of_mem (List.mem_map_of_mem (f := List.length) hu)
  omega

/-- A covered text is still covered with another one beside it if and only if they make one term
or both consist of ignored words.  So any two covered texts can be put side by side if and only
if every term consists of ignored words. -/
theorem coverAll_beside (terms : List Text) :
    (∀ a b, coverAll terms a = true →
      (coverAll terms (a ++ ' ' :: b) = true ↔
        (a ++ ' ' :: b).trim ∈ terms ∨
          (∀ w ∈ words a, isIgnoredWord terms w = true) ∧
            ∀ w ∈ words b, isIgnoredWord terms w = true)) ∧
      (JoinsCovered terms ↔ IsWordwise terms) := by
  refine ⟨fun a b ha => coverAll_beside_iff ha b, isWordwise_of_joinsCovered, ?_⟩
  intro h a b ha hb
  exact (coverAll_beside_iff ha b).2 (.inr ⟨h.of_coverAll ha, h.of_coverAll hb⟩)

/-- Two terms make a third one if a single space is between them, and nothing with two. -/
theorem coverAll_beside_spaced :
    let terms : List Text := ["New York", "API", "New York API"]
    let city : Text := "New York"
    coverAll terms city = true ∧ coverAll terms "API" = true ∧ coverAll terms " API" = true ∧
      coverAll terms (city ++ ' ' :: "API") = true ∧
      ¬ coverAll terms (city ++ ' ' :: " API") = true ∧ ¬ JoinsCovered terms := by
  intro terms city
  have hcity : coverAll terms city = true := by decide
  have hword : coverAll terms "API" = true := by decide
  have hspaced : coverAll terms " API" = true := by decide
  have hplain : ¬ isIgnoredWord terms "New" = true := by decide
  obtain ⟨hpairs, hall⟩ := coverAll_beside terms
  refine ⟨hcity, hword, hspaced, (hpairs _ _ hcity).2 (.inl (by decide)), ?_, ?_⟩
  · rw [hpairs _ _ hcity]
    rintro (hterm | ⟨hwords, -⟩)
    · revert hterm
      decide
    · exact hplain (hwords "New" (by decide))
  · rw [hall]
    intro h
    exact hplain (h city (by decide) (by decide) "New" (by decide))

/-- A term of two words is covered, and the same term twice is not. -/
theorem coverAll_city_twice :
    let city : Text := "New York"
    coverAll [city] city = true ∧ city.trim = city ∧
      coverAll [city] (city ++ ' ' :: city) = false := by
  decide

end Proofreader.Terms
