import Mathlib.Data.List.Nodup
import Mathlib.Data.List.Perm.Subperm
import Mathlib.Tactic.IntervalCases
import Proofreader.Proofs.Document.Growth
import Proofreader.Proofs.Document.Lines

/-!
# Walking by recursion

A tree is walked with a stack, and the rules that a node ignores are gathered on the way
up to the root.  In a tree that was built by adding nodes one after the other, below
whichever earlier nodes, both follow a recursion: the prose of a node is its own, followed
by that of its children in their order, and a node ignores what it names itself and what
its parent ignores.
-/

namespace Proofreader

structure Node.Fits (size : Nat) (n : Node) : Prop where
  parent_lt : ∀ p, n.parent = some p → p < size
  children_eq : n.children = []
  one_le_line : 1 ≤ n.line

def ProseLine.fields (p : ProseLine) : Text × Nat × Path × List Text :=
  (p.location.text, p.location.line, p.location.file, p.ignored)

namespace DocumentTree

/-! ## Trees built by adding -/

def ofNodes (path : Path) (nodes : List Node) : DocumentTree := nodes.foldl add (empty path)

def Buildable (nodes : List Node) : Prop := ∀ (k : Nat) (n : Node), nodes[k]? = some n → n.Fits k

structure Grown (t : DocumentTree) : Prop where
  linked : t.Linked
  grounded : t.Grounded
  sorted : ∀ i, (t.childrenOf i).Pairwise (· < ·)

namespace Grown

variable {t : DocumentTree}

theorem empty (path : Path) : Grown (empty path) := by
  refine ⟨.empty path, fun i n hn => ?_, fun i => ?_⟩
  · simp [DocumentTree.empty, node?] at hn
  · simp [DocumentTree.empty, childrenOf, node?]

theorem add (h : Grown t) {n : Node} (hn : n.Fits t.size) : Grown (t.add n) := by
  refine ⟨h.linked.add hn.parent_lt hn.children_eq, h.grounded.add hn.one_le_line, fun i => ?_⟩
  rcases Nat.lt_trichotomy i t.size with hi | rfl | hi
  · rw [childrenOf_add_of_lt hi, List.pairwise_append]
    refine ⟨h.sorted i, by split <;> simp, fun c hc d hd => ?_⟩
    have hc' := lt_size_of_parent? ((h.linked.mem_childrenOf i c).1 hc)
    split at hd
    · obtain rfl := List.mem_singleton.1 hd
      exact hc'
    · simp at hd
  · rw [childrenOf_add_self, hn.children_eq]
    exact .nil
  · have hsize := size_add t n
    rw [childrenOf_eq_nil (by omega)]
    exact .nil

end Grown

theorem ofNodes_snoc (path : Path) (nodes : List Node) (n : Node) :
    ofNodes path (nodes ++ [n]) = (ofNodes path nodes).add n := by
  simp [ofNodes]

theorem size_ofNodes (path : Path) (nodes : List Node) :
    (ofNodes path nodes).size = nodes.length := by
  induction nodes using List.reverseRecOn with
  | nil => rfl
  | append_singleton nodes n ih => rw [ofNodes_snoc, size_add, ih, List.length_append]; rfl

theorem grown_ofNodes (path : Path) {nodes : List Node} (h : Buildable nodes) :
    Grown (ofNodes path nodes) := by
  induction nodes using List.reverseRecOn with
  | nil => exact .empty path
  | append_singleton nodes n ih =>
      rw [ofNodes_snoc]
      refine (ih fun k m hm => h k m ?_).add (h _ n ?_)
      · rw [List.getElem?_append_left (List.getElem?_eq_some_iff.1 hm).1, hm]
      · rw [size_ofNodes]
        simp

/-! ## The recursion -/

def ownProse (t : DocumentTree) (rules : List Text) (i : Nat) :
    List (Text × Nat × Path × List Text) :=
  match t.node? i with
  | none => []
  | some n =>
      ((n.ownText.elim [] textLines).zipIdx n.line.toNat).map fun (text, number) =>
        (text, number, t.path, rules)

namespace Linked

variable {t : DocumentTree}

theorem lt_of_mem_childrenOf (h : t.Linked) {i c : Nat} (hc : c ∈ t.childrenOf i) :
    i < c ∧ c < t.size := by
  have hp := (h.mem_childrenOf i c).1 hc
  exact ⟨h.parent_lt c i hp, lt_size_of_parent? hp⟩

def rules (h : t.Linked) (key : Text) (i : Nat) : List Text :=
  t.declaredRules key i ++
    match _hp : t.parent? i with
    | none => []
    | some p => h.rules key p
termination_by i
decreasing_by exact h.parent_lt i p _hp

/-- A node and the nodes below it: the node first, then what its children lead. -/
def subtree (h : t.Linked) (i : Nat) : List Nat :=
  i :: (t.childrenOf i).attach.flatMap fun ⟨c, _⟩ => h.subtree c
termination_by t.size - i
decreasing_by
  have := h.lt_of_mem_childrenOf ‹_›
  omega

def prose (h : t.Linked) (key : Text) (i : Nat) : List (Text × Nat × Path × List Text) :=
  t.ownProse (h.rules key i) i ++ (t.childrenOf i).attach.flatMap fun ⟨c, _⟩ => h.prose key c
termination_by t.size - i
decreasing_by
  have := h.lt_of_mem_childrenOf ‹_›
  omega

theorem rules_eq (h : t.Linked) (key : Text) (i : Nat) :
    h.rules key i = t.declaredRules key i ++ (t.parent? i).elim [] (h.rules key) := by
  rw [rules]
  split <;> simp [*]

theorem subtree_eq (h : t.Linked) (i : Nat) :
    h.subtree i = i :: (t.childrenOf i).flatMap h.subtree := by
  rw [subtree, List.flatMap_subtype fun _ _ => rfl, List.unattach_attach]

theorem prose_eq (h : t.Linked) (key : Text) (i : Nat) :
    h.prose key i =
      t.ownProse (h.rules key i) i ++ (t.childrenOf i).flatMap (h.prose key) := by
  rw [prose, List.flatMap_subtype fun _ _ => rfl, List.unattach_attach]

theorem induction_down (h : t.Linked) {motive : Nat → Prop}
    (step : ∀ i, (∀ c ∈ t.childrenOf i, motive c) → motive i) (i : Nat) : motive i := by
  induction hn : t.size - i using Nat.strong_induction_on generalizing i with
  | _ n ih =>
      refine step i fun c hc => ih (t.size - c) ?_ c rfl
      have := h.lt_of_mem_childrenOf hc
      omega

theorem prose_eq_flatMap (h : t.Linked) (key : Text) (i : Nat) :
    h.prose key i = (h.subtree i).flatMap fun j => t.ownProse (h.rules key j) j := by
  induction i using h.induction_down with
  | step i ih =>
      rw [prose_eq, subtree_eq, List.flatMap_cons, List.flatMap_assoc]
      congr 1
      exact List.flatMap_congr ih

theorem ignoredRules_eq_rules (h : t.Linked) (key : Text) (i : Nat) :
    t.ignoredRules key i = h.rules key i := by
  induction i using Nat.strong_induction_on with
  | _ i ih =>
      rw [h.ignoredRules_eq, rules_eq]
      cases hp : t.parent? i with
      | none => rfl
      | some p => rw [Option.elim_some, Option.elim_some, ih p (h.parent_lt i p hp)]

end Linked

/-! ## The nodes of a subtree -/

namespace Below

variable {t : DocumentTree} {x y i : Nat}

theorem le (h : t.Linked) (hbelow : t.Below x i) : x ≤ i := by
  induction hbelow with
  | self => exact Nat.le_refl x
  | child _ hc ih => exact Nat.le_of_lt (Nat.lt_of_le_of_lt ih (h.lt_of_mem_childrenOf hc).1)

theorem total (h : t.Linked) (hx : t.Below x i) (hy : t.Below y i) :
    t.Below x y ∨ t.Below y x := by
  induction hx with
  | self => exact .inr hy
  | @child p c hp hc ih =>
      cases hy with
      | self => exact .inl (.child hp hc)
      | @child q _ hq hc' =>
          obtain rfl : p = q := Option.some.inj
            (((h.mem_childrenOf p c).1 hc).symm.trans ((h.mem_childrenOf q c).1 hc'))
          exact ih hq

theorem eq_of_mem_childrenOf (h : t.Linked) {c d : Nat} (hc : c ∈ t.childrenOf x)
    (hd : d ∈ t.childrenOf x) (hbelow : t.Below c d) : c = d := by
  cases hbelow with
  | self => rfl
  | @child p _ hp hd' =>
      obtain rfl : p = x := Option.some.inj
        (((h.mem_childrenOf p d).1 hd').symm.trans ((h.mem_childrenOf x d).1 hd))
      have hle := hp.le h
      have hlt := (h.lt_of_mem_childrenOf hc).1
      omega

theorem trans (hxy : t.Below x y) (hyi : t.Below y i) : t.Below x i := by
  induction hyi with
  | self => exact hxy
  | child _ hc ih => exact .child ih hc

end Below

namespace Linked

variable {t : DocumentTree}

theorem self_mem_subtree (h : t.Linked) (i : Nat) : i ∈ h.subtree i := by
  rw [h.subtree_eq]
  exact List.mem_cons_self

theorem child_mem_subtree (h : t.Linked) {i p c : Nat} (hp : p ∈ h.subtree i)
    (hc : c ∈ t.childrenOf p) : c ∈ h.subtree i := by
  induction i using h.induction_down with
  | step i ih =>
      rw [h.subtree_eq, List.mem_cons, List.mem_flatMap] at hp ⊢
      rcases hp with rfl | ⟨d, hd, hp⟩
      · exact .inr ⟨c, hc, h.self_mem_subtree c⟩
      · exact .inr ⟨d, hd, ih d hd hp⟩

theorem mem_subtree (h : t.Linked) {i j : Nat} : j ∈ h.subtree i ↔ t.Below i j := by
  constructor
  · intro hj
    induction i using h.induction_down with
    | step i ih =>
        rw [h.subtree_eq, List.mem_cons, List.mem_flatMap] at hj
        rcases hj with rfl | ⟨c, hc, hj⟩
        · exact .self
        · exact Below.trans (.child .self hc) (ih c hc hj)
  · intro hbelow
    induction hbelow with
    | self => exact h.self_mem_subtree i
    | child _ hc ih => exact h.child_mem_subtree ih hc

theorem lt_size_of_mem_subtree (h : t.Linked) {i j : Nat} (hi : i < t.size)
    (hj : j ∈ h.subtree i) : j < t.size := by
  cases h.mem_subtree.1 hj with
  | self => exact hi
  | child _ hc => exact (h.lt_of_mem_childrenOf hc).2

end Linked

theorem Grown.nodup_subtree {t : DocumentTree} (h : t.Grown) (i : Nat) :
    (h.linked.subtree i).Nodup := by
  induction i using h.linked.induction_down with
  | step i ih =>
      rw [h.linked.subtree_eq, List.nodup_cons, List.nodup_flatMap]
      refine ⟨fun hi => ?_, ih, ?_⟩
      · obtain ⟨c, hc, hi⟩ := List.mem_flatMap.1 hi
        have hle := (h.linked.mem_subtree.1 hi).le h.linked
        have hlt := (h.linked.lt_of_mem_childrenOf hc).1
        omega
      · have hpairs := List.Pairwise.and_mem.1 (h.sorted i)
        refine hpairs.imp fun {c d} hcd j hjc hjd => ?_
        obtain ⟨hc, hd, hlt⟩ := hcd
        rcases Below.total h.linked (h.linked.mem_subtree.1 hjc) (h.linked.mem_subtree.1 hjd) with
          hbelow | hbelow
        · exact Nat.ne_of_lt hlt (hbelow.eq_of_mem_childrenOf h.linked hc hd)
        · exact Nat.ne_of_gt hlt (hbelow.eq_of_mem_childrenOf h.linked hd hc)

/-! ## The stack -/

/-- The visit of a stack of nodes comes to its end: the node on top makes way for its
children, until no node is left. -/
inductive Visits (t : DocumentTree) : List Nat → List Nat → Prop where
  | done : Visits t [] []
  | next {i : Nat} {stack is : List Nat} (h : Visits t (t.childrenOf i ++ stack) is) :
      Visits t (i :: stack) (i :: is)

theorem Linked.visits {t : DocumentTree} (h : t.Linked) (stack : List Nat) :
    t.Visits stack (stack.flatMap h.subtree) := by
  induction hn : (stack.flatMap h.subtree).length using Nat.strong_induction_on
    generalizing stack with
  | _ n ih =>
      cases stack with
      | nil => exact .done
      | cons i stack =>
          have hnext : (i :: stack).flatMap h.subtree =
              i :: (t.childrenOf i ++ stack).flatMap h.subtree := by
            rw [List.flatMap_cons, h.subtree_eq, List.flatMap_append]
            rfl
          rw [hnext] at hn ⊢
          exact .next (ih _ (by simp [← hn]) _ rfl)

theorem Visits.visit_eq {t : DocumentTree} {stack is : List Nat} (h : t.Visits stack is) {n : Nat}
    (hn : is.length ≤ n) : t.visit n stack = is := by
  induction h generalizing n with
  | done => cases n <;> rfl
  | next _ ih =>
      obtain ⟨n, rfl⟩ := Nat.exists_eq_add_one_of_ne_zero (show n ≠ 0 by simp at hn; omega)
      rw [visit, ← childrenOf, ih (by simpa using hn)]

theorem Grown.preorder_eq_subtree {t : DocumentTree} (h : t.Grown) (hpos : 0 < t.size) :
    t.preorder = h.linked.subtree 0 := by
  have hvisits := h.linked.visits [0]
  rw [List.flatMap_singleton] at hvisits
  refine hvisits.visit_eq ?_
  have hsub : h.linked.subtree 0 ⊆ List.range t.size := fun j hj =>
    List.mem_range.2 (h.linked.lt_size_of_mem_subtree hpos hj)
  simpa using (List.subperm_of_subset (h.nodup_subtree 0) hsub).length_le

/-! ## The lines -/

theorem fields_placeLines (rules : List Text) (l : Location) (offset : Nat) (lines : List Text) :
    (l.placeLines offset lines).map (fun place => ProseLine.fields ⟨place, rules⟩) =
      (lines.zipIdx (l.line + offset)).map fun (text, number) => (text, number, l.file, rules) := by
  induction lines generalizing offset with
  | nil => rfl
  | cons line lines ih =>
      rw [Location.placeLines, List.map_cons, ih, List.zipIdx_cons, List.map_cons, Nat.add_assoc]
      rfl

theorem nodeLines_fields {t : DocumentTree} (h : t.Grounded) (key : Text) (i : Nat) :
    ∃ lines, t.nodeLines key i = .ok lines ∧
      lines.map ProseLine.fields = t.ownProse (t.ignoredRules key i) i := by
  rw [nodeLines, ownProse]
  cases hn : t.node? i with
  | none => exact ⟨[], rfl, rfl⟩
  | some n =>
      simp only
      cases n.ownText with
      | none => exact ⟨[], rfl, rfl⟩
      | some text =>
          cases text with
          | nil => exact ⟨[], rfl, rfl⟩
          | cons c text =>
              have hline : 1 ≤ n.line := h i n hn
              simp only [Location.at?, dif_pos hline, Except.map]
              refine ⟨_, rfl, ?_⟩
              rw [List.map_map, Location.splitLines]
              exact fields_placeLines _ _ 0 _

theorem Grown.walk_eq {t : DocumentTree} (h : t.Grown) (hpos : 0 < t.size) (key : Text) :
    ∃ lines, t.walk key = .ok lines ∧ lines.map ProseLine.fields = h.linked.prose key 0 := by
  have hnodes : t.nodes ≠ [] := List.ne_nil_of_length_pos hpos
  refine ⟨_, walk_eq_ok_iff.2 ⟨hnodes, fun i _ => ?_, rfl⟩, ?_⟩
  · obtain ⟨lines, hlines, -⟩ := nodeLines_fields h.grounded key i
    exact ⟨lines, hlines⟩
  · rw [placedLines, h.preorder_eq_subtree hpos, h.linked.prose_eq_flatMap, List.map_flatMap,
      List.map_flatMap]
    refine List.flatMap_congr fun i _ => ?_
    obtain ⟨lines, hlines, hfields⟩ := nodeLines_fields h.grounded key i
    rw [hlines, ← h.linked.ignoredRules_eq_rules, ← hfields]
    simp [Except.toOption]

open Classical in
/-- The walk of a tree that was built by adding comes to an end, and what it gives is the
prose of the root.  Each node that can be reached from the root is visited once, and no
other node is.  A tree without nodes has no root to begin with. -/
theorem walk_ofNodes (path : Path) {nodes : List Node} (h : Buildable nodes) (key : Text) :
    let t := ofNodes path nodes
    (nodes = [] → t.walk key = .error .noRoot) ∧
      (nodes ≠ [] →
        (∃ lines, t.walk key = .ok lines ∧
          lines.map ProseLine.fields = (grown_ofNodes path h).linked.prose key 0) ∧
        t.Visits [0] t.preorder ∧
        ∀ i, t.preorder.count i = if t.Below 0 i then 1 else 0) := by
  intro t
  have hgrown : t.Grown := grown_ofNodes path h
  constructor
  · rintro rfl
    rfl
  · intro hnodes
    have hpos : 0 < t.size := by
      rw [size_ofNodes]
      exact List.length_pos_iff.2 hnodes
    have hpreorder := hgrown.preorder_eq_subtree hpos
    refine ⟨hgrown.walk_eq hpos key, ?_, fun i => ?_⟩
    · have hvisits := hgrown.linked.visits [0]
      rwa [List.flatMap_singleton, ← hpreorder] at hvisits
    · rw [hpreorder, (hgrown.nodup_subtree 0).count]
      simp only [hgrown.linked.mem_subtree]

/-- A child is added after the next sibling of its parent, and a node stands below none. -/
theorem walk_ofNodes_out_of_order :
    let path := Path.ofText "figs.md"
    let nodes : List Node :=
      [.bare .document 1 none,
        { Node.bare .container 2 (some 0) with attributes := [("ignore", "RULE")] },
        { Node.bare .content 5 (some 0) with content := some "plums" },
        { Node.bare .content 2 (some 1) with
          content := some "figs\npears"
          attributes := [("ignore", "OTHER")] },
        { Node.bare .content 1 none with content := some "nuts" }]
    let t := ofNodes path nodes
    Buildable nodes ∧
      ∃ h : t.Linked, h.prose suppressionAttribute 0 =
        ([("figs", 2, path, ["OTHER", "RULE"]), ("pears", 3, path, ["OTHER", "RULE"]),
          ("plums", 5, path, [])] : List (Text × Nat × Path × List Text)) ∧
      t.Visits [0] [0, 1, 3, 2] ∧ ¬ t.Below 0 4 := by
  intro path nodes t
  have hbuildable : Buildable nodes := by
    intro k n hn
    obtain ⟨hk, rfl⟩ := List.getElem?_eq_some_iff.1 hn
    change k < 5 at hk
    interval_cases k <;> exact ⟨by simp [nodes, Node.bare], rfl, by simp [nodes, Node.bare]⟩
  have hwalk : (t.walk suppressionAttribute).toOption.map (·.map ProseLine.fields) =
      some ([("figs", 2, path, ["OTHER", "RULE"]), ("pears", 3, path, ["OTHER", "RULE"]),
        ("plums", 5, path, [])] : List (Text × Nat × Path × List Text)) := by
    decide +kernel
  have hpreorder : t.preorder = [0, 1, 3, 2] := by decide +kernel
  obtain ⟨⟨lines, hlines, hprose⟩, hvisits, hcount⟩ :=
    (walk_ofNodes path hbuildable suppressionAttribute).2 (by simp)
  rw [hlines, Except.toOption, Option.map_some, Option.some.injEq] at hwalk
  refine ⟨hbuildable, _, hprose.symm.trans hwalk, hpreorder ▸ hvisits, fun hbelow => ?_⟩
  have hmissing := hcount 4
  rw [if_pos hbelow, hpreorder] at hmissing
  simp at hmissing

end DocumentTree

end Proofreader
