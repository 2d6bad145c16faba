import Mathlib.Data.List.Basic
import Proofreader.Document.Tree

/-!
# Nodes by number

What adding and changing a node does to the nodes of a tree, to their parents and to
their children.
-/

namespace Proofreader.DocumentTree

def childrenOf (t : DocumentTree) (i : Nat) : List Nat := ((t.node? i).map (·.children)).getD []

theorem parent?_eq_some_iff {t : DocumentTree} {i p : Nat} :
    t.parent? i = some p ↔ ∃ n, t.node? i = some n ∧ n.parent = some p := by
  simp [parent?, Option.bind_eq_some_iff]

theorem lt_size_of_node? {t : DocumentTree} {i : Nat} {n : Node} (h : t.node? i = some n) :
    i < t.size :=
  (List.getElem?_eq_some_iff.1 h).1

theorem lt_size_of_parent? {t : DocumentTree} {i p : Nat} (h : t.parent? i = some p) :
    i < t.size := by
  obtain ⟨n, hn, -⟩ := parent?_eq_some_iff.1 h
  exact lt_size_of_node? hn

theorem node?_of_lt {t : DocumentTree} {i : Nat} (h : i < t.size) : ∃ n, t.node? i = some n :=
  ⟨t.nodes[i], List.getElem?_eq_getElem h⟩

theorem node?_eq_none {t : DocumentTree} {i : Nat} (h : t.size ≤ i) : t.node? i = none :=
  List.getElem?_eq_none h

theorem childrenOf_eq_nil {t : DocumentTree} {i : Nat} (h : t.size ≤ i) : t.childrenOf i = [] := by
  rw [childrenOf, node?_eq_none h]
  rfl

theorem parent?_ne_of_size_le {t : DocumentTree} (h : ∀ i p, t.parent? i = some p → p < i)
    {i : Nat} (hi : t.size ≤ i) (j : Nat) : t.parent? j ≠ some i := by
  intro hp
  have := h j i hp
  have := lt_size_of_parent? hp
  omega

/-! ## Changing a node -/

@[simp] theorem size_modify (t : DocumentTree) (i : Nat) (f : Node → Node) :
    (t.modify i f).size = t.size := by
  simp [modify, size]

theorem node?_modify (t : DocumentTree) (i j : Nat) (f : Node → Node) :
    (t.modify i f).node? j = (t.node? j).map fun n => if i = j then f n else n := by
  simp only [node?, modify, List.getElem?_modify]
  by_cases h : i = j <;> simp [h]

theorem parent?_modify {f : Node → Node} (hf : ∀ n, (f n).parent = n.parent) (t : DocumentTree)
    (i j : Nat) : (t.modify i f).parent? j = t.parent? j := by
  rw [parent?, node?_modify, parent?]
  cases t.node? j with
  | none => rfl
  | some n => by_cases h : i = j <;> simp [h, hf]

theorem childrenOf_modify {f : Node → Node} (hf : ∀ n, (f n).children = n.children)
    (t : DocumentTree) (i j : Nat) : (t.modify i f).childrenOf j = t.childrenOf j := by
  rw [childrenOf, node?_modify, childrenOf]
  cases t.node? j with
  | none => rfl
  | some n => by_cases h : i = j <;> simp [h, hf]

theorem modify_congr {t : DocumentTree} {i : Nat} {n : Node} {f g : Node → Node}
    (hn : t.node? i = some n) (h : f n = g n) : t.modify i f = t.modify i g := by
  have hlt : i < t.nodes.length := lt_size_of_node? hn
  have hget : t.nodes[i] = n := (List.getElem?_eq_some_iff.1 hn).2
  simp only [modify, List.modify_eq_take_cons_drop hlt, hget, h]

/-! ## Adding a node -/

theorem size_add (t : DocumentTree) (n : Node) : (t.add n).size = t.size + 1 := by
  cases h : n.parent <;> simp [add, size, modify, h]

theorem node?_add_self (t : DocumentTree) (n : Node) : (t.add n).node? t.size = some n := by
  cases h : n.parent <;> simp [add, size, modify, node?, h]

theorem node?_add_of_lt {t : DocumentTree} {n : Node} {i : Nat} (h : i < t.size) :
    (t.add n).node? i = (t.node? i).map fun m =>
      if n.parent = some i then { m with children := m.children ++ [t.size] } else m := by
  unfold size at h
  cases hp : n.parent with
  | none => simp [add, node?, hp, List.getElem?_append_left h]
  | some p =>
      have hlt : i <
          (t.modify p fun m => { m with children := m.children ++ [t.size] }).nodes.length := by
        simpa [modify] using h
      have hnode := node?_modify t p i fun m => { m with children := m.children ++ [t.size] }
      simp only [add, node?, hp, List.getElem?_append_left hlt] at hnode ⊢
      rw [hnode]
      simp [eq_comm]

theorem parent?_add (t : DocumentTree) (n : Node) (i : Nat) :
    (t.add n).parent? i = if i = t.size then n.parent else t.parent? i := by
  rcases Nat.lt_trichotomy i t.size with h | rfl | h
  · rw [if_neg (by omega), parent?, node?_add_of_lt h, parent?]
    cases t.node? i with
    | none => rfl
    | some m => by_cases hp : n.parent = some i <;> simp [hp]
  · simp [parent?, node?_add_self]
  · have hsize := size_add t n
    have hold : t.node? i = none := node?_eq_none (by omega)
    have hnew : (t.add n).node? i = none := node?_eq_none (by omega)
    rw [if_neg (by omega), parent?, parent?, hold, hnew]

theorem childrenOf_add_self (t : DocumentTree) (n : Node) :
    (t.add n).childrenOf t.size = n.children := by
  simp [childrenOf, node?_add_self]

theorem childrenOf_add_of_lt {t : DocumentTree} {n : Node} {i : Nat} (h : i < t.size) :
    (t.add n).childrenOf i = t.childrenOf i ++ if n.parent = some i then [t.size] else [] := by
  obtain ⟨m, hm⟩ := node?_of_lt h
  rw [childrenOf, node?_add_of_lt h, childrenOf, hm]
  by_cases hp : n.parent = some i <;> simp [hp]

end Proofreader.DocumentTree
