import Proofreader.Proofs.Document.Descent
import Proofreader.Proofs.Document.Scope

/-!
# Growing trees

A tree that grows keeps what its first nodes are, apart from their children, and with it
everything that only depends on a node and its ancestors.
-/

namespace Proofreader

open Markdown

/-! ## Attributes that are filled in -/

namespace Markdown.Attributes

theorem get?_cons (n v : Text) (rest : Attributes) (key : Text) :
    get? ((n, v) :: rest) key = if n = key then some v else rest.get? key := by
  by_cases hkey : n = key <;> simp [get?, hkey]

theorem get?_set_of_eq_none {a : Attributes} {name : Text} (h : a.get? name = none)
    (value key : Text) :
    (a.set name value).get? key = (a.get? key).or (if name = key then some value else none) := by
  induction a with
  | nil => rw [set, get?_cons]; rfl
  | cons entry rest ih =>
      obtain ⟨n, v⟩ := entry
      rw [get?_cons] at h
      by_cases hn : n = name
      · simp [hn] at h
      · rw [if_neg hn] at h
        rw [set, if_neg hn, get?_cons, get?_cons, ih h]
        by_cases hkey : n = key <;> simp [hkey]

theorem get?_fill (a b : Attributes) (key : Text) :
    (a.fill b).get? key = (a.get? key).or (b.get? key) := by
  induction b generalizing a with
  | nil => simp [fill, get?]
  | cons entry b ih =>
      obtain ⟨n, v⟩ := entry
      rw [fill, List.foldl_cons, ← fill, ih, get?_cons]
      cases hn : a.get? n with
      | some w =>
          by_cases hkey : n = key
          · simp [← hkey, hn]
          · simp [hkey, hn]
      | none =>
          simp only [hn, Option.isSome_none, Bool.false_eq_true, if_false]
          rw [get?_set_of_eq_none hn]
          by_cases hkey : n = key
          · simp [← hkey, hn]
          · simp [hkey]

end Markdown.Attributes

/-! ## Growing trees -/

namespace DocumentTree

def SameUpTo (k : Nat) (t t' : DocumentTree) : Prop :=
  ∀ i < k, ∃ children, t'.node? i = (t.node? i).map fun n => { n with children }

theorem sameUpTo_add (t : DocumentTree) (n : Node) : SameUpTo t.size t (t.add n) := by
  intro i hi
  obtain ⟨m, hm⟩ := node?_of_lt hi
  rw [node?_add_of_lt hi, hm]
  by_cases hp : n.parent = some i
  · exact ⟨m.children ++ [t.size], by simp [hp]⟩
  · exact ⟨m.children, by simp [hp]⟩

theorem sameUpTo_modify (t : DocumentTree) (i : Nat) (f : Node → Node) :
    SameUpTo i t (t.modify i f) := by
  intro j hj
  rw [node?_modify]
  cases t.node? j with
  | none => exact ⟨[], rfl⟩
  | some n => exact ⟨n.children, by simp [Nat.ne_of_gt hj]⟩

theorem Linked.ignoredRules_eq {t : DocumentTree} (h : Linked t) (key : Text) (i : Nat) :
    t.ignoredRules key i =
      t.declaredRules key i ++ (t.parent? i).elim [] (t.ignoredRules key) := by
  rw [ignoredRules, List.flatMap_cons, h.ancestors_eq]
  cases t.parent? i <;> rfl

namespace SameUpTo

variable {k : Nat} {t t' : DocumentTree} {key : Text} {i : Nat}

theorem parent?_eq (h : SameUpTo k t t') (hi : i < k) : t'.parent? i = t.parent? i := by
  obtain ⟨children, hnode⟩ := h i hi
  rw [parent?, hnode, parent?]
  cases t.node? i <;> rfl

theorem declaredRules_eq (h : SameUpTo k t t') (hi : i < k) :
    t'.declaredRules key i = t.declaredRules key i := by
  obtain ⟨children, hnode⟩ := h i hi
  rw [declaredRules, hnode, declaredRules]
  cases t.node? i <;> rfl

theorem line_eq (h : SameUpTo k t t') (hi : i < k) :
    (t'.node? i).map (·.line) = (t.node? i).map (·.line) := by
  obtain ⟨children, hnode⟩ := h i hi
  rw [hnode]
  cases t.node? i <;> rfl

theorem ownText_eq (h : SameUpTo k t t') (hi : i < k) :
    (t'.node? i).bind Node.ownText = (t.node? i).bind Node.ownText := by
  obtain ⟨children, hnode⟩ := h i hi
  rw [hnode]
  cases t.node? i <;> rfl

theorem ignoredRules_eq (h : SameUpTo k t t') (hlinked : Linked t) (hlinked' : Linked t')
    (hi : i < k) : t'.ignoredRules key i = t.ignoredRules key i := by
  induction i using Nat.strong_induction_on with
  | _ i ih =>
      rw [hlinked'.ignoredRules_eq, hlinked.ignoredRules_eq, h.parent?_eq hi,
        h.declaredRules_eq hi]
      cases hp : t.parent? i with
      | none => rfl
      | some p =>
          have hlt := hlinked.parent_lt i p hp
          simp only [Option.elim_some]
          rw [ih p hlt (by omega)]

end SameUpTo

/-! ## The nodes with a text -/

def speaks (t : DocumentTree) (i : Nat) : Bool := ((t.node? i).bind Node.ownText).isSome

def speakers (t : DocumentTree) : List Nat := (List.range t.size).filter t.speaks

theorem SameUpTo.filter_speaks {k : Nat} {t t' : DocumentTree} (h : SameUpTo k t t') :
    (List.range k).filter t'.speaks = (List.range k).filter t.speaks := by
  apply List.filter_congr
  intro i hi
  rw [speaks, h.ownText_eq (List.mem_range.1 hi), speaks]

theorem speakers_add (t : DocumentTree) (n : Node) :
    (t.add n).speakers = t.speakers ++ if n.ownText.isSome then [t.size] else [] := by
  rw [speakers, size_add, List.range_succ, List.filter_append, (sameUpTo_add t n).filter_speaks,
    speakers]
  cases h : n.ownText <;> simp [speaks, node?_add_self, h]

theorem speakers_modify_last {t : DocumentTree} {i : Nat} {n : Node} {f : Node → Node}
    (hn : t.node? i = some n) (hlast : i + 1 = t.size) (hnone : n.ownText = none)
    (hsome : (f n).ownText.isSome) : (t.modify i f).speakers = t.speakers ++ [i] := by
  rw [speakers, size_modify, ← hlast, List.range_succ, List.filter_append,
    (sameUpTo_modify t i f).filter_speaks, speakers, ← hlast, List.range_succ, List.filter_append]
  simp [speaks, node?_modify, hn, hnone, hsome]

/-- The last node of `t`, without a text so far, has a text and rules in `t'`. -/
structure Absorbs (t t' : DocumentTree) (key : Text) (i : Nat) (text : Text)
    (rules : List Text) : Prop where
  same : SameUpTo i t t'
  parent?_eq : t'.parent? i = t.parent? i
  line_eq : (t'.node? i).map (·.line) = (t.node? i).map (·.line)
  ownText_eq : (t'.node? i).bind Node.ownText = some text
  declaredRules_eq : t'.declaredRules key i = rules
  speakers_eq : t'.speakers = t.speakers ++ [i]

theorem absorbs_modify {t : DocumentTree} {i : Nat} {n : Node} (hn : t.node? i = some n)
    (hlast : i + 1 = t.size) (hkind : n.kind = .listItem) (hnone : n.text = none)
    (hattributes : n.attributes = []) (key text : Text) (e : Event) :
    Absorbs t (t.modify i fun m =>
      { m with text := some text, attributes := m.attributes.fill e.attributes })
      key i text (e.names key) := by
  refine ⟨sameUpTo_modify t i _, parent?_modify (by simp) _ _ _, ?_, ?_, ?_, ?_⟩
  · simp [node?_modify, hn]
  · simp [node?_modify, hn, Node.ownText, hkind]
  · rw [declaredRules, node?_modify, hn]
    simp only [Option.map_some, if_true, Option.getD_some, Node.declaredRules, hattributes,
      Attributes.get?_fill]
    rfl
  · exact speakers_modify_last hn hlast (by simp [Node.ownText, hkind, hnone])
      (by simp [Node.ownText, hkind])

end DocumentTree

end Proofreader
