import Proofreader.Document.Builder
import Proofreader.Proofs.Document.Preorder

/-!
# Folding events

While events are folded into a tree, the containers and the sections that are open
are the nodes below which the tree may grow.  So the tree stays numbered in
preorder, and a stream in which containers are balanced is always folded to its end.
-/

namespace Proofreader

open Markdown

/-! ## Balanced streams -/

/-- The events that neither enter nor leave a container.  The levels of headings count
from one. -/
def Markdown.EventKind.IsBlock : EventKind → Prop
  | .heading level _ => 1 ≤ level
  | .paragraph _ | .cell _ | .html _ | .literal | .attributeLine => True
  | .enter _ | .leave _ => False

/-- Streams of blocks in which every container is left again. -/
inductive Balanced : List Event → Prop where
  | nil : Balanced []
  | block {e : Event} {rest : List Event} (hkind : e.kind.IsBlock) (hrest : Balanced rest) :
      Balanced (e :: rest)
  | container {c : Container} {first last : Event} {inside rest : List Event}
      (hfirst : first.kind = .enter c) (hlast : last.kind = .leave c)
      (hinside : Balanced inside) (hrest : Balanced rest) :
      Balanced (first :: inside ++ last :: rest)

namespace Balanced

theorem append {es es' : List Event} (h : Balanced es) (h' : Balanced es') :
    Balanced (es ++ es') := by
  induction h with
  | nil => exact h'
  | block hkind hrest ih => exact .block hkind ih
  | @container c first last inside rest hfirst hlast hinside hrest ihinside ih =>
      rw [List.append_assoc, List.cons_append]
      exact .container hfirst hlast hinside ih

theorem wrap (c : Container) (first stop : Nat) (attributes : Attributes) {inside : List Event}
    (h : Balanced inside) : Balanced (Event.wrap c first stop attributes inside) :=
  .container rfl rfl h .nil

theorem one_le_level {es : List Event} (h : Balanced es) :
    ∀ e ∈ es, ∀ level source, e.kind = .heading level source → 1 ≤ level := by
  induction h with
  | nil => simp
  | @block e rest hkind _ ih =>
      simp only [List.forall_mem_cons]
      refine ⟨fun level source heq => ?_, ih⟩
      simpa [heq, EventKind.IsBlock] using hkind
  | @container c first last inside rest hfirst hlast _ _ ihinside ihrest =>
      simp only [List.cons_append, List.forall_mem_cons, List.forall_mem_append]
      exact ⟨by simp [hfirst], ihinside, by simp [hlast], ihrest⟩

end Balanced

namespace TreeBuilder

/-! ## What is open -/

def stack (b : TreeBuilder) : List Nat := b.top :: b.below

structure Invariant (b : TreeBuilder) : Prop where
  numbered : b.tree.Numbered
  stack_open : ∀ i ∈ b.stack, b.tree.IsOpen i
  stack_sorted : b.stack.Pairwise (· > ·)
  sections_open : ∀ s ∈ b.sections, b.tree.IsOpen s.node
  sections_sorted : b.sections.Pairwise fun s s' => s.node > s'.node
  sections_le : ∀ s ∈ b.sections, ∀ i ∈ b.stack, s.node ≤ i

namespace Invariant

variable {b : TreeBuilder}

theorem top_open (h : Invariant b) : b.tree.IsOpen b.top := h.stack_open b.top (by simp [stack])

theorem le_top (h : Invariant b) {i : Nat} (hi : i ∈ b.stack) : i ≤ b.top := by
  rcases List.mem_cons.1 hi with rfl | hi
  · exact Nat.le_refl _
  · exact Nat.le_of_lt ((List.pairwise_cons.1 h.stack_sorted).1 i hi)

theorem start (path : Path) : Invariant (start path) := by
  have hnumbered : ((DocumentTree.empty path).add (Node.bare .document 1 none)).Numbered :=
    DocumentTree.Numbered.start rfl rfl
  have hopen : ((DocumentTree.empty path).add (Node.bare .document 1 none)).IsOpen 0 :=
    DocumentTree.IsOpen.add_self (DocumentTree.empty path) _
  refine ⟨hnumbered, ?_, by simp [stack, TreeBuilder.start], ?_,
    by simp [TreeBuilder.start], by simp [stack, TreeBuilder.start]⟩
  · intro i hi
    obtain rfl : i = 0 := by simpa [stack, TreeBuilder.start] using hi
    exact hopen
  · intro s hs
    obtain rfl : s = ⟨0, 0⟩ := by simpa [TreeBuilder.start] using hs
    exact hopen

theorem addLeaf (h : Invariant b) {n : Node} (hchildren : n.children = []) :
    Invariant (b.addLeaf n) := by
  have hnumbered : (b.tree.add { n with parent := some b.top }).Numbered :=
    h.numbered.add h.top_open rfl hchildren
  have hkeeps : ∀ i, b.tree.IsOpen i → i ≤ b.top →
      (b.tree.add { n with parent := some b.top }).IsOpen i :=
    fun _ hopen hle => hopen.add_of_le rfl hle
  refine ⟨hnumbered, ?_, h.stack_sorted, ?_, h.sections_sorted, h.sections_le⟩
  · intro i hi
    exact hkeeps i (h.stack_open i hi) (h.le_top hi)
  · intro s hs
    exact hkeeps s.node (h.sections_open s hs) (h.sections_le s hs b.top (by simp [stack]))

theorem enter (h : Invariant b) {n : Node} (hchildren : n.children = []) :
    Invariant (b.enter n) := by
  have hleaf := h.addLeaf hchildren
  have hlt : ∀ i ∈ b.stack, i < b.tree.size := fun i hi => (h.stack_open i hi).lt_size
  refine ⟨hleaf.numbered, ?_, ?_, hleaf.sections_open, h.sections_sorted, ?_⟩
  · intro i hi
    rcases List.mem_cons.1 hi with rfl | hi
    · exact DocumentTree.IsOpen.add_self b.tree { n with parent := some b.top }
    · exact hleaf.stack_open i hi
  · exact List.pairwise_cons.2 ⟨hlt, h.stack_sorted⟩
  · intro s hs i hi
    rcases List.mem_cons.1 hi with rfl | hi
    · exact Nat.le_of_lt (h.sections_open s hs).lt_size
    · exact h.sections_le s hs i hi

theorem leave (h : Invariant b) {last : TreeBuilder} (hleave : b.leave? = some last) :
    Invariant last := by
  unfold leave? at hleave
  cases hbelow : b.below with
  | nil => simp [hbelow] at hleave
  | cons i below =>
      obtain rfl : { b with top := i, below } = last := by simpa [hbelow] using hleave
      have hmem : ∀ j ∈ i :: below, j ∈ b.stack := fun j hj => by simp [stack, hbelow, hj]
      refine ⟨h.numbered, fun j hj => h.stack_open j (hmem j hj), ?_, h.sections_open,
        h.sections_sorted, fun s hs j hj => h.sections_le s hs j (hmem j hj)⟩
      have hsorted := h.stack_sorted
      rw [stack, hbelow] at hsorted
      exact (List.pairwise_cons.1 hsorted).2

theorem closeSections_suffix (level : Nat) (ss : List OpenSection) :
    closeSections level ss <:+ ss := by
  induction ss with
  | nil => exact List.suffix_refl _
  | cons s ss ih =>
      unfold closeSections
      split
      · exact ih.trans (List.suffix_cons s ss)
      · exact List.suffix_refl _

theorem addHeading (h : Invariant b) (level : Nat) {n : Node} (hchildren : n.children = []) :
    Invariant (b.addHeading level n) := by
  unfold TreeBuilder.addHeading
  cases hbelow : b.below.isEmpty with
  | false => simpa [hbelow] using h.addLeaf hchildren
  | true =>
      have hsuffix := closeSections_suffix level b.sections
      have hsorted := h.sections_sorted.sublist hsuffix.sublist
      simp only [if_true]
      generalize closeSections level b.sections = ss at hsuffix hsorted
      have hroot : b.tree.IsOpen 0 := ⟨h.numbered.size_pos, fun _ _ _ _ => Nat.zero_le _⟩
      have hparent : b.tree.IsOpen ((ss.head?.map (·.node)).getD 0) := by
        cases ss with
        | nil => exact hroot
        | cons s ss => exact h.sections_open s (hsuffix.subset (by simp))
      have hle : ∀ s ∈ ss, s.node ≤ (ss.head?.map (·.node)).getD 0 := by
        intro s hs
        cases ss with
        | nil => simp at hs
        | cons s' ss =>
            rcases List.mem_cons.1 hs with rfl | hs
            · exact Nat.le_refl _
            · exact Nat.le_of_lt ((List.pairwise_cons.1 hsorted).1 s hs)
      generalize (ss.head?.map (·.node)).getD 0 = p at hparent hle
      have hnumbered : (b.tree.add { n with parent := some p }).Numbered :=
        h.numbered.add hparent rfl hchildren
      have hnew : (b.tree.add { n with parent := some p }).IsOpen b.tree.size :=
        DocumentTree.IsOpen.add_self b.tree _
      have hkeeps : ∀ s ∈ ss, (b.tree.add { n with parent := some p }).IsOpen s.node :=
        fun s hs => (h.sections_open s (hsuffix.subset hs)).add_of_le rfl (hle s hs)
      refine ⟨hnumbered, ?_, by simp [stack], ?_, ?_, ?_⟩
      · intro i hi
        obtain rfl : i = b.tree.size := by simpa [stack] using hi
        exact hnew
      · intro s hs
        rcases List.mem_cons.1 hs with rfl | hs
        · exact hnew
        · exact hkeeps s hs
      · exact List.pairwise_cons.2
          ⟨fun s hs => (h.sections_open s (hsuffix.subset hs)).lt_size, hsorted⟩
      · intro s hs i hi
        obtain rfl : i = b.tree.size := by simpa [stack] using hi
        rcases List.mem_cons.1 hs with rfl | hs
        · exact Nat.le_refl _
        · exact Nat.le_of_lt (h.sections_open s (hsuffix.subset hs)).lt_size

theorem modify (h : Invariant b) {f : Node → Node} (i : Nat)
    (hparent : ∀ n, (f n).parent = n.parent) (hchildren : ∀ n, (f n).children = n.children) :
    Invariant { b with tree := b.tree.modify i f } :=
  ⟨h.numbered.modify i hparent hchildren, fun j hj => (h.stack_open j hj).modify i hparent,
    h.stack_sorted, fun s hs => (h.sections_open s hs).modify i hparent, h.sections_sorted,
    h.sections_le⟩

theorem addParagraph (h : Invariant b) (text : Text) (attributes : Attributes) {n : Node}
    (hchildren : n.children = []) : Invariant (b.addParagraph text attributes n) := by
  unfold TreeBuilder.addParagraph
  split
  · exact h.modify b.top (fun _ => rfl) fun _ => rfl
  · exact h.addLeaf hchildren

theorem step (h : Invariant b) {render : Text → Text} {e : Event} {last : TreeBuilder}
    (hstep : b.step render e = some last) : Invariant last := by
  unfold TreeBuilder.step at hstep
  cases hkind : e.kind with
  | enter c =>
      cases c <;>
      · simp only [hkind, Option.some.injEq] at hstep
        exact hstep ▸ h.enter rfl
  | leave c =>
      simp only [hkind] at hstep
      exact h.leave hstep
  | heading level source =>
      simp only [hkind, Option.some.injEq] at hstep
      exact hstep ▸ h.addHeading level rfl
  | paragraph source =>
      simp only [hkind, Option.some.injEq] at hstep
      exact hstep ▸ h.addParagraph _ _ rfl
  | cell source | html content | literal =>
      simp only [hkind, Option.some.injEq] at hstep
      exact hstep ▸ h.addLeaf rfl
  | attributeLine =>
      simp only [hkind, Option.some.injEq] at hstep
      exact hstep ▸ h

end Invariant

theorem run_cons (render : Text → Text) (b : TreeBuilder) (e : Event) (es : List Event) :
    b.run render (e :: es) = (b.step render e).bind fun b => b.run render es := by
  simp [run, List.foldlM_cons, bind]

theorem Invariant.run {b last : TreeBuilder} {render : Text → Text} {es : List Event}
    (h : Invariant b) (hrun : b.run render es = some last) : Invariant last := by
  induction es generalizing b with
  | nil =>
      obtain rfl : b = last := by simpa [TreeBuilder.run] using hrun
      exact h
  | cons e es ih =>
      rw [run_cons, Option.bind_eq_some_iff] at hrun
      obtain ⟨b', hstep, hrest⟩ := hrun
      exact ih (h.step hstep) hrest

theorem run_append (render : Text → Text) (b : TreeBuilder) (es es' : List Event) :
    b.run render (es ++ es') = (b.run render es).bind fun b => b.run render es' := by
  simp [run, List.foldlM_append, bind]

/-! ## Balanced streams run to their end -/

structure SameContainers (b last : TreeBuilder) : Prop where
  below_eq : last.below = b.below
  top_eq : b.below ≠ [] → last.top = b.top

theorem SameContainers.trans {b b' last : TreeBuilder} (h : SameContainers b b')
    (h' : SameContainers b' last) : SameContainers b last := by
  refine ⟨h'.below_eq.trans h.below_eq, fun hne => ?_⟩
  rw [h'.top_eq (h.below_eq ▸ hne), h.top_eq hne]

theorem addHeading_sameContainers (b : TreeBuilder) (level : Nat) (n : Node) :
    SameContainers b (b.addHeading level n) := by
  unfold addHeading
  split
  · rename_i hbelow
    rw [List.isEmpty_iff] at hbelow
    exact ⟨hbelow.symm, fun hne => absurd hbelow hne⟩
  · exact ⟨rfl, fun _ => rfl⟩

theorem addParagraph_sameContainers (b : TreeBuilder) (text : Text) (attributes : Attributes)
    (n : Node) : SameContainers b (b.addParagraph text attributes n) := by
  unfold addParagraph
  split
  · exact ⟨rfl, fun _ => rfl⟩
  · exact ⟨rfl, fun _ => rfl⟩

theorem step_of_isBlock (render : Text → Text) (b : TreeBuilder) {e : Event}
    (hkind : e.kind.IsBlock) : ∃ last, b.step render e = some last ∧ SameContainers b last := by
  unfold step
  cases h : e.kind with
  | enter c | leave c => simp [h, EventKind.IsBlock] at hkind
  | heading level source => exact ⟨_, rfl, addHeading_sameContainers b level _⟩
  | paragraph source => exact ⟨_, rfl, addParagraph_sameContainers b _ _ _⟩
  | cell source | html content | literal => exact ⟨_, rfl, rfl, fun _ => rfl⟩
  | attributeLine => exact ⟨b, rfl, rfl, fun _ => rfl⟩

theorem step_of_enter (render : Text → Text) (b : TreeBuilder) {e : Event} {c : Container}
    (hkind : e.kind = .enter c) :
    ∃ last, b.step render e = some last ∧ last.below = b.top :: b.below := by
  rw [step, hkind]
  cases c <;> exact ⟨_, rfl, rfl⟩

theorem run_balanced (render : Text → Text) {es : List Event} (h : Balanced es)
    (b : TreeBuilder) : ∃ last, b.run render es = some last ∧ SameContainers b last := by
  induction h generalizing b with
  | nil => exact ⟨b, rfl, rfl, fun _ => rfl⟩
  | @block e rest hkind hrest ih =>
      obtain ⟨b', hstep, hsame⟩ := step_of_isBlock render b hkind
      obtain ⟨last, hrun, hsame'⟩ := ih b'
      exact ⟨last, by rw [run_cons, hstep]; exact hrun, hsame.trans hsame'⟩
  | @container c first close inside rest hfirst hclose hinside hrest ihinside ihrest =>
      obtain ⟨b₁, hstep, hbelow⟩ := step_of_enter render b hfirst
      -- What is inside leaves the container that was entered on the stack.
      obtain ⟨b₂, hrun, hsame⟩ := ihinside b₁
      have hbelow₂ : b₂.below = b.top :: b.below := by rw [hsame.below_eq, hbelow]
      have hleave : b₂.step render close = some { b₂ with top := b.top, below := b.below } := by
        simp [step, hclose, leave?, hbelow₂]
      obtain ⟨last, hlast, hsame'⟩ := ihrest { b₂ with top := b.top, below := b.below }
      refine ⟨last, ?_, hsame'.below_eq, hsame'.top_eq⟩
      rw [List.cons_append, run_cons, hstep, Option.bind_some, run_append, hrun,
        Option.bind_some, run_cons, hleave, Option.bind_some, hlast]

end TreeBuilder

end Proofreader
