import Mathlib.Data.List.Sort
import Proofreader.Proofs.Document.Arena

/-!
# Numbers in preorder

A tree that grows only below its last node and that node's ancestors is numbered in
preorder: walking it with a stack visits the numbers in increasing order.  A node
is open while nothing after it stands outside of it; only open nodes may get
children.
-/

namespace Proofreader.DocumentTree

structure IsOpen (t : DocumentTree) (i : Nat) : Prop where
  lt_size : i < t.size
  le_parent : ∀ j p, i < j → t.parent? j = some p → i ≤ p

structure Numbered (t : DocumentTree) : Prop where
  size_pos : 0 < t.size
  parent_root : t.parent? 0 = none
  exists_parent : ∀ i, 0 < i → i < t.size → ∃ p, t.parent? i = some p ∧ p < i
  childrenOf_eq : ∀ i, i < t.size →
    t.childrenOf i = (List.range t.size).filter fun j => t.parent? j = some i
  /-- A node between another one and its parent has all its children between them. -/
  child_lt : ∀ i j p c, t.parent? j = some p → p < i → i < j → t.parent? c = some i → c < j

namespace Numbered

variable {t : DocumentTree}

theorem parent_lt (h : Numbered t) {i p : Nat} (hp : t.parent? i = some p) : p < i := by
  have hi := lt_size_of_parent? hp
  rcases Nat.eq_zero_or_pos i with rfl | hpos
  · simp [h.parent_root] at hp
  · obtain ⟨q, hq, hlt⟩ := h.exists_parent i hpos hi
    obtain rfl : q = p := by simpa [hq] using hp
    exact hlt

theorem mem_childrenOf (h : Numbered t) {i j : Nat} (hi : i < t.size) :
    j ∈ t.childrenOf i ↔ t.parent? j = some i := by
  rw [h.childrenOf_eq i hi, List.mem_filter, List.mem_range]
  simp only [decide_eq_true_eq, and_iff_right_iff_imp]
  exact lt_size_of_parent?

/-! ## Growing -/

theorem start {n : Node} {path : Path} (hparent : n.parent = none) (hchildren : n.children = []) :
    Numbered ((empty path).add n) := by
  have hsize : ((empty path).add n).size = 1 := by rw [size_add]; rfl
  have hroot : ((empty path).add n).parent? 0 = none := by
    rw [parent?_add, if_pos (by rfl), hparent]
  have hnone : ∀ i, ((empty path).add n).parent? i = none := by
    intro i
    rcases Nat.eq_zero_or_pos i with rfl | hpos
    · exact hroot
    · rw [parent?, node?_eq_none (by omega)]
      rfl
  refine ⟨by omega, hroot, fun i hpos hlt => by omega, ?_, ?_⟩
  · intro i hi
    obtain rfl : i = 0 := by omega
    rw [show childrenOf ((empty path).add n) 0 = n.children from childrenOf_add_self _ n, hchildren]
    simp [hnone]
  · intro i j p c hj
    simp [hnone] at hj

theorem add (h : Numbered t) {n : Node} {p : Nat} (hopen : t.IsOpen p) (hparent : n.parent = some p)
    (hchildren : n.children = []) : Numbered (t.add n) := by
  have hp := hopen.lt_size
  have hold : ∀ i, i < t.size → (t.add n).parent? i = t.parent? i := by
    intro i hi
    rw [parent?_add, if_neg (by omega)]
  have hnew : (t.add n).parent? t.size = some p := by rw [parent?_add, if_pos rfl, hparent]
  refine ⟨by rw [size_add]; omega, by rw [hold 0 h.size_pos, h.parent_root], ?_, ?_, ?_⟩
  · intro i hpos hi
    rw [size_add] at hi
    rcases Nat.lt_succ_iff_lt_or_eq.1 hi with hi | rfl
    · rw [hold i hi]
      exact h.exists_parent i hpos hi
    · exact ⟨p, hnew, hp⟩
  · intro i hi
    rw [size_add] at hi
    rw [size_add, List.range_succ, List.filter_append]
    have hrange : (List.range t.size).filter (fun j => (t.add n).parent? j = some i) =
        (List.range t.size).filter fun j => t.parent? j = some i := by
      apply List.filter_congr
      intro j hj
      rw [hold j (List.mem_range.1 hj)]
    rw [hrange]
    rcases Nat.lt_succ_iff_lt_or_eq.1 hi with hi | rfl
    · rw [childrenOf_add_of_lt hi, h.childrenOf_eq i hi, hparent]
      by_cases hpi : p = i <;> simp [hnew, hpi]
    · have hnone : (List.range t.size).filter (fun j => t.parent? j = some t.size) = [] := by
        rw [List.filter_eq_nil_iff]
        intro j hj
        simp only [decide_eq_true_eq]
        intro hparent'
        have := h.parent_lt hparent'
        have := List.mem_range.1 hj
        omega
      rw [childrenOf_add_self, hchildren, hnone]
      simp only [hnew, Option.some.injEq, List.filter_cons]
      rw [if_neg (by simp; omega)]
      rfl
  · intro i j q c hj hqi hij hc
    have hjlt := lt_size_of_parent? hj
    have hclt := lt_size_of_parent? hc
    rw [size_add] at hjlt hclt
    rcases Nat.lt_succ_iff_lt_or_eq.1 hclt with hclt | rfl
    · rw [hold c hclt] at hc
      rcases Nat.lt_succ_iff_lt_or_eq.1 hjlt with hjlt | rfl
      · rw [hold j hjlt] at hj
        exact h.child_lt i j q c hj hqi hij hc
      · exact hclt
    · -- The new node is no child of a node that is closed.
      obtain rfl : p = i := by simpa [hnew] using hc
      rcases Nat.lt_succ_iff_lt_or_eq.1 hjlt with hjlt | rfl
      · rw [hold j hjlt] at hj
        have := hopen.le_parent j q hij hj
        omega
      · obtain rfl : p = q := by simpa [hnew] using hj
        omega

theorem modify (h : Numbered t) {f : Node → Node} (i : Nat)
    (hparent : ∀ n, (f n).parent = n.parent) (hchildren : ∀ n, (f n).children = n.children) :
    Numbered (t.modify i f) := by
  refine ⟨by simpa using h.size_pos, ?_, ?_, ?_, ?_⟩
  · rw [parent?_modify hparent, h.parent_root]
  · simpa only [parent?_modify hparent, size_modify] using h.exists_parent
  · simpa only [parent?_modify hparent, childrenOf_modify hchildren, size_modify]
      using h.childrenOf_eq
  · simpa only [parent?_modify hparent] using h.child_lt

end Numbered

namespace IsOpen

variable {t : DocumentTree} {i : Nat}

theorem add_of_le {n : Node} {p : Nat} (h : t.IsOpen i) (hparent : n.parent = some p)
    (hle : i ≤ p) : (t.add n).IsOpen i := by
  refine ⟨by rw [size_add]; have := h.lt_size; omega, ?_⟩
  intro j q hij hq
  rw [parent?_add] at hq
  split at hq
  · obtain rfl : p = q := by simpa [hparent] using hq
    exact hle
  · exact h.le_parent j q hij hq

theorem add_self (t : DocumentTree) (n : Node) : (t.add n).IsOpen t.size := by
  refine ⟨by rw [size_add]; omega, ?_⟩
  intro j q hlt hq
  have := lt_size_of_parent? hq
  rw [size_add] at this
  omega

theorem modify (h : t.IsOpen i) {f : Node → Node} (j : Nat)
    (hparent : ∀ n, (f n).parent = n.parent) : (t.modify j f).IsOpen i := by
  refine ⟨by simpa using h.lt_size, ?_⟩
  simpa only [parent?_modify hparent] using h.le_parent

theorem eq_last (h : t.IsOpen i) (hnumbered : Numbered t) (hchildren : t.childrenOf i = []) :
    i + 1 = t.size := by
  by_contra hne
  have hi := h.lt_size
  have hnext : i + 1 < t.size := by omega
  obtain ⟨p, hp, hlt⟩ := hnumbered.exists_parent (i + 1) (by omega) hnext
  have hle := h.le_parent (i + 1) p (by omega) hp
  obtain rfl : p = i := by omega
  have hmem := (hnumbered.mem_childrenOf hi).2 hp
  simp [hchildren] at hmem

end IsOpen

/-! ## Walking -/

/-- What the stack holds when `k` nodes have been visited: the other nodes whose
parents have been visited. -/
def pending (t : DocumentTree) (k : Nat) : List Nat :=
  (List.range' k (t.size - k)).filter fun j => (t.parent? j).all (· < k)

theorem mem_pending {t : DocumentTree} {k j : Nat} :
    j ∈ t.pending k ↔ k ≤ j ∧ j < t.size ∧ ∀ p, t.parent? j = some p → p < k := by
  simp only [pending, List.mem_filter, List.mem_range'_1, Option.all_eq_true, decide_eq_true_eq]
  constructor
  · rintro ⟨⟨hk, hj⟩, hp⟩
    exact ⟨hk, by omega, hp⟩
  · rintro ⟨hk, hj, hp⟩
    exact ⟨⟨hk, by omega⟩, hp⟩

theorem pairwise_pending (t : DocumentTree) (k : Nat) : (t.pending k).Pairwise (· < ·) :=
  List.Pairwise.filter _ List.pairwise_lt_range'

namespace Numbered

variable {t : DocumentTree}

theorem pending_eq (h : Numbered t) {k : Nat} (hk : k < t.size) :
    ∃ rest, t.pending k = k :: rest ∧ t.pending (k + 1) = t.childrenOf k ++ rest := by
  have hfirst : (t.parent? k).all (· < k) = true := by
    rw [Option.all_eq_true]
    intro p hp
    simpa using h.parent_lt hp
  refine ⟨(List.range' (k + 1) (t.size - (k + 1))).filter fun j => (t.parent? j).all (· < k),
    ?_, ?_⟩
  · rw [pending, show t.size - k = (t.size - (k + 1)) + 1 by omega, List.range'_succ,
      List.filter_cons, if_pos hfirst]
  · have hchildren : (t.childrenOf k).Pairwise (· < ·) := by
      rw [h.childrenOf_eq k hk]
      exact List.pairwise_lt_range.filter _
    have hrest : ∀ j, j ∈ (List.range' (k + 1) (t.size - (k + 1))).filter
        (fun j => (t.parent? j).all (· < k)) ↔
          (k < j ∧ j < t.size) ∧ ∀ p, t.parent? j = some p → p < k := by
      intro j
      rw [List.mem_filter, List.mem_range'_1, Option.all_eq_true]
      simp only [decide_eq_true_eq]
      refine and_congr_left fun _ => ?_
      omega
    apply (pairwise_pending t (k + 1)).eq_of_mem_iff
    · rw [List.pairwise_append]
      refine ⟨hchildren, List.Pairwise.filter _ List.pairwise_lt_range', ?_⟩
      intro c hc j hj
      obtain ⟨⟨hkj, hj⟩, hearlier⟩ := (hrest j).1 hj
      obtain ⟨p, hp, -⟩ := h.exists_parent j (by omega) hj
      exact h.child_lt k j p c hp (hearlier p hp) hkj ((h.mem_childrenOf hk).1 hc)
    · intro j
      rw [mem_pending, List.mem_append, h.mem_childrenOf hk, hrest]
      constructor
      · rintro ⟨hkj, hj, hearlier⟩
        obtain ⟨p, hp, -⟩ := h.exists_parent j (by omega) hj
        rcases Nat.lt_succ_iff_lt_or_eq.1 (hearlier p hp) with hlt | rfl
        · refine .inr ⟨⟨hkj, hj⟩, ?_⟩
          intro q hq
          obtain rfl : p = q := by simpa [hp] using hq
          exact hlt
        · exact .inl hp
      · rintro (hp | ⟨⟨hkj, hj⟩, hearlier⟩)
        · refine ⟨h.parent_lt hp, lt_size_of_parent? hp, ?_⟩
          intro q hq
          obtain rfl : k = q := by simpa [hp] using hq
          exact Nat.lt_succ_self k
        · exact ⟨hkj, hj, fun p hp => Nat.lt_succ_of_lt (hearlier p hp)⟩

theorem visit_pending (h : Numbered t) (k m extra : Nat) (hm : k + m = t.size) :
    t.visit (m + extra) (t.pending k) = List.range' k m := by
  induction m generalizing k with
  | zero =>
      have hnone : t.pending k = [] := by simp [pending, ← hm]
      rw [hnone]
      cases extra <;> rfl
  | succ m ih =>
      obtain ⟨rest, hpending, hnext⟩ := h.pending_eq (by omega : k < t.size)
      rw [hpending, Nat.add_right_comm, visit, ← childrenOf, ← hnext, ih (k + 1) (by omega),
        List.range'_succ]

theorem pending_zero (h : Numbered t) : t.pending 0 = [0] := by
  apply (pairwise_pending t 0).eq_of_mem_iff (by simp)
  intro j
  rw [mem_pending, List.mem_singleton]
  constructor
  · rintro ⟨-, hj, hearlier⟩
    by_contra hne
    obtain ⟨p, hp, -⟩ := h.exists_parent j (by omega) hj
    exact absurd (hearlier p hp) (by omega)
  · rintro rfl
    exact ⟨Nat.le_refl 0, h.size_pos, by simp [h.parent_root]⟩

/-- A tree that is numbered in preorder is walked in the order of the numbers, and as
many steps as there are nodes are enough. -/
theorem visit_eq (h : Numbered t) {n : Nat} (hn : t.size ≤ n) :
    t.visit n [0] = List.range t.size := by
  obtain ⟨extra, rfl⟩ := Nat.exists_eq_add_of_le hn
  rw [← h.pending_zero, h.visit_pending 0 t.size extra (by omega), List.range_eq_range']

theorem preorder_eq (h : Numbered t) : t.preorder = List.range t.size :=
  h.visit_eq (Nat.le_refl t.size)

end Numbered

end Proofreader.DocumentTree
