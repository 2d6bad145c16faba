import Proofreader.Document.Walk
import Proofreader.Proofs.Document.Folding
import Proofreader.Proofs.Text.Splitting

/-!
# Descent

In a tree whose nodes know their parents and their children alike, the ancestors of a
node are the nodes that it is below.  So a rule that one more node names is ignored at
that node and below it, and nowhere else.
-/

namespace Proofreader

namespace DocumentTree

structure Linked (t : DocumentTree) : Prop where
  parent_lt : ∀ i p, t.parent? i = some p → p < i
  mem_childrenOf : ∀ i j, j ∈ t.childrenOf i ↔ t.parent? j = some i

namespace Linked

variable {t : DocumentTree}

theorem empty (path : Path) : Linked (empty path) := by
  have hparent : ∀ i, (DocumentTree.empty path).parent? i = none := fun i => rfl
  have hchildren : ∀ i, (DocumentTree.empty path).childrenOf i = [] := fun i => rfl
  exact ⟨by simp [hparent], by simp [hparent, hchildren]⟩

theorem add (h : Linked t) {n : Node} (hparent : ∀ p, n.parent = some p → p < t.size)
    (hchildren : n.children = []) : Linked (t.add n) := by
  refine ⟨?_, ?_⟩
  · intro i p hp
    rw [parent?_add] at hp
    split at hp
    · rename_i heq
      exact heq ▸ hparent p hp
    · exact h.parent_lt i p hp
  · intro i j
    rw [parent?_add]
    rcases Nat.lt_trichotomy i t.size with hi | rfl | hi
    · rw [childrenOf_add_of_lt hi, List.mem_append, h.mem_childrenOf]
      by_cases hj : j = t.size
      · have hnone : t.parent? j ≠ some i := fun hp => by
          have := lt_size_of_parent? hp
          omega
        by_cases hp : n.parent = some i <;> simp [hj, hp, hj ▸ hnone]
      · by_cases hp : n.parent = some i <;> simp [hj, hp]
    · rw [childrenOf_add_self, hchildren]
      by_cases hj : j = t.size
      · have hnone : n.parent ≠ some t.size := fun hp => Nat.lt_irrefl _ (hparent _ hp)
        simp [hj, hnone]
      · simp [hj, parent?_ne_of_size_le h.parent_lt (Nat.le_refl t.size) j]
    · have hsize := size_add t n
      have hold := parent?_ne_of_size_le h.parent_lt (show t.size ≤ i by omega) j
      have hnew : n.parent ≠ some i := fun hp => by
        have := hparent i hp
        omega
      rw [childrenOf_eq_nil (by omega)]
      by_cases hj : j = t.size <;> simp [hj, hnew, hold]

end Linked

theorem Numbered.linked {t : DocumentTree} (h : Numbered t) : Linked t := by
  refine ⟨fun i p => h.parent_lt, fun i j => ?_⟩
  by_cases hi : i < t.size
  · exact h.mem_childrenOf hi
  · have hnone := parent?_ne_of_size_le (fun i p => h.parent_lt) (show t.size ≤ i by omega) j
    simp [childrenOf_eq_nil (show t.size ≤ i by omega), hnone]

theorem linked_of_ofEvents? {path : Path} {render : Text → Text} {es : List Markdown.Event}
    {t : DocumentTree} (h : ofEvents? path render es = some t) : Linked t := by
  rw [ofEvents?, Option.map_eq_some_iff] at h
  obtain ⟨last, hrun, rfl⟩ := h
  exact ((TreeBuilder.Invariant.start path).run hrun).numbered.linked

/-! ## Being below -/

inductive Below (t : DocumentTree) (x : Nat) : Nat → Prop where
  | self : Below t x x
  | child {p c : Nat} (hp : Below t x p) (hc : c ∈ t.childrenOf p) : Below t x c

theorem Linked.ancestorsFrom_succ {t : DocumentTree} (h : Linked t) {n i : Nat} (hi : i ≤ n) :
    t.ancestorsFrom (n + 1) i = t.ancestorsFrom n i := by
  induction n generalizing i with
  | zero =>
      have hparent : t.parent? i = none := by
        cases hp : t.parent? i with
        | none => rfl
        | some p =>
            have := h.parent_lt i p hp
            omega
      simp [ancestorsFrom, hparent]
  | succ n ih =>
      rw [ancestorsFrom]
      cases hp : t.parent? i with
      | none => simp [ancestorsFrom, hp]
      | some p =>
          have hlt := h.parent_lt i p hp
          simp only [ih (show p ≤ n by omega)]
          simp [ancestorsFrom, hp]

theorem Linked.ancestors_eq {t : DocumentTree} (h : Linked t) (i : Nat) :
    t.ancestors i = (t.parent? i).elim [] fun p => p :: t.ancestors p := by
  cases hp : t.parent? i with
  | none =>
      unfold ancestors
      cases t.size <;> simp [ancestorsFrom, hp]
  | some p =>
      have hi := lt_size_of_parent? hp
      have hlt := h.parent_lt i p hp
      obtain ⟨n, hn⟩ := Nat.exists_eq_add_one_of_ne_zero (show t.size ≠ 0 by omega)
      have hstable := h.ancestorsFrom_succ (show p ≤ n by omega)
      rw [Option.elim_some, ancestors, ancestors, hn, hstable, ancestorsFrom, hp]

theorem Linked.below_iff {t : DocumentTree} (h : Linked t) {x i : Nat} :
    t.Below x i ↔ x ∈ i :: t.ancestors i := by
  constructor
  · intro hbelow
    induction hbelow with
    | self => exact List.mem_cons_self
    | @child p c _ hc ih =>
        rw [h.ancestors_eq c, (h.mem_childrenOf p c).1 hc]
        exact List.mem_cons_of_mem c ih
  · -- The ancestors of a node are its parent and the ancestors of the parent.
    induction i using Nat.strong_induction_on with
    | _ i ih =>
        intro hmem
        rcases List.mem_cons.1 hmem with rfl | hmem
        · exact .self
        · rw [h.ancestors_eq i] at hmem
          cases hp : t.parent? i with
          | none => simp [hp] at hmem
          | some p =>
              rw [hp] at hmem
              exact .child (ih p (h.parent_lt i p hp) hmem) ((h.mem_childrenOf p i).2 hp)

/-! ## One more rule -/

/-- The trees differ in nothing but the attributes of one node, which names one more
rule. -/
structure AddsRule (t t' : DocumentTree) (key : Text) (x : Nat) (r : Text) : Prop where
  tree_eq : ∃ a, t' = t.modify x fun n => { n with attributes := a }
  declares : ∀ q, q ∈ t'.declaredRules key x ↔ q ∈ t.declaredRules key x ∨ q = r

namespace AddsRule

variable {t t' : DocumentTree} {key : Text} {x : Nat} {r : Text}

theorem size_eq (h : AddsRule t t' key x r) : t'.size = t.size := by
  obtain ⟨a, rfl⟩ := h.tree_eq
  exact size_modify t x _

theorem node?_eq (h : AddsRule t t' key x r) (i : Nat) :
    ∃ f : Markdown.Attributes → Markdown.Attributes,
      t'.node? i = (t.node? i).map fun n => { n with attributes := f n.attributes } := by
  obtain ⟨a, rfl⟩ := h.tree_eq
  by_cases hi : x = i
  · exact ⟨fun _ => a, by simp [node?_modify, hi]⟩
  · exact ⟨id, by simp [node?_modify, hi]⟩

theorem parent?_eq (h : AddsRule t t' key x r) (i : Nat) : t'.parent? i = t.parent? i := by
  obtain ⟨a, rfl⟩ := h.tree_eq
  exact parent?_modify (f := fun n => { n with attributes := a }) (fun _ => rfl) t x i

theorem childrenOf_eq (h : AddsRule t t' key x r) (i : Nat) :
    t'.childrenOf i = t.childrenOf i := by
  obtain ⟨a, rfl⟩ := h.tree_eq
  exact childrenOf_modify (f := fun n => { n with attributes := a }) (fun _ => rfl) t x i

theorem declaredRules_eq (h : AddsRule t t' key x r) {i : Nat} (hi : i ≠ x) :
    t'.declaredRules key i = t.declaredRules key i := by
  obtain ⟨a, rfl⟩ := h.tree_eq
  rw [declaredRules, node?_modify, declaredRules]
  cases t.node? i <;> simp [Ne.symm hi]

theorem ancestors_eq (h : AddsRule t t' key x r) (i : Nat) : t'.ancestors i = t.ancestors i := by
  rw [ancestors, ancestors, h.size_eq]
  generalize t.size = n
  induction n generalizing i with
  | zero => rfl
  | succ n ih => simp only [ancestorsFrom, h.parent?_eq, ih]

theorem preorder_eq (h : AddsRule t t' key x r) : t'.preorder = t.preorder := by
  rw [preorder, preorder, h.size_eq]
  generalize t.size = n
  generalize [0] = stack
  induction n generalizing stack with
  | zero => rfl
  | succ n ih =>
      cases stack with
      | nil => rfl
      | cons i stack => rw [visit, visit, ← childrenOf, ← childrenOf, h.childrenOf_eq, ih]

theorem mem_ignoredRules (h : AddsRule t t' key x r) (hlinked : Linked t) (i : Nat) (q : Text) :
    q ∈ t'.ignoredRules key i ↔ q ∈ t.ignoredRules key i ∨ q = r ∧ t.Below x i := by
  rw [hlinked.below_iff, ignoredRules, ignoredRules, h.ancestors_eq]
  generalize i :: t.ancestors i = is
  simp only [List.mem_flatMap]
  constructor
  · rintro ⟨j, hj, hq⟩
    by_cases hjx : j = x
    · rw [hjx, h.declares] at hq
      rcases hq with hq | rfl
      · exact .inl ⟨x, hjx ▸ hj, hq⟩
      · exact .inr ⟨rfl, hjx ▸ hj⟩
    · exact .inl ⟨j, hj, h.declaredRules_eq hjx ▸ hq⟩
  · rintro (⟨j, hj, hq⟩ | ⟨rfl, hx⟩)
    · by_cases hjx : j = x
      · exact ⟨x, hjx ▸ hj, (h.declares q).2 (.inl (hjx ▸ hq))⟩
      · exact ⟨j, hj, (h.declaredRules_eq hjx).symm ▸ hq⟩
    · exact ⟨x, hx, (h.declares q).2 (.inr rfl)⟩

end AddsRule

end DocumentTree

/-! ## Writing a rule down -/

theorem Markdown.Attributes.get?_set (a : Attributes) (name value : Text) :
    (a.set name value).get? name = some value := by
  induction a with
  | nil => simp [set, get?]
  | cons entry rest ih =>
      obtain ⟨n, v⟩ := entry
      unfold set
      by_cases hn : n = name
      · simp [hn, get?]
      · unfold get? at ih
        simp [hn, get?, ih]

namespace DocumentTree

def nameRule (t : DocumentTree) (key : Text) (x : Nat) (r : Text) : DocumentTree :=
  t.modify x fun n =>
    { n with attributes := n.attributes.set key ((n.attributes.get? key).getD [] ++ ' ' :: r) }

theorem addsRule_nameRule {t : DocumentTree} (key : Text) {x : Nat} (hx : x < t.size) {r : Text}
    (hword : Text.words r = [r]) : t.AddsRule (t.nameRule key x r) key x r := by
  obtain ⟨n, hn⟩ := node?_of_lt hx
  refine ⟨⟨_, modify_congr hn rfl⟩, fun q => ?_⟩
  rw [declaredRules, nameRule, node?_modify, hn, declaredRules, hn]
  simp only [Option.map_some, if_true, Option.getD_some, Node.declaredRules,
    Markdown.Attributes.get?_set]
  rw [Text.words_append (by decide), hword, List.mem_append, List.mem_singleton]

end DocumentTree

end Proofreader
