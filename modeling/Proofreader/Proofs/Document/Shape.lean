import Mathlib.Data.List.Nodup
import Proofreader.Proofs.Document.Descent

/-!
# The shape of a document

The nodes of a document make up one tree, and their numbers are the order in which it
is walked.  While events are folded, what lies outermost on the stack is the innermost
open section, and the sections that are open lead down from the document with levels
that grow.  So a balanced stream never leaves more containers than it entered, never
closes the document, and ends outside all containers.
-/

namespace Proofreader

open Markdown

/-! ## The tree -/

namespace DocumentTree

/-- The nodes make up one tree below the first of them, and the walk of the tree meets
them in the order of their numbers. -/
structure IsOrdered (t : DocumentTree) : Prop where
  size_pos : 0 < t.size
  parent?_eq_none_iff : ∀ i, i < t.size → (t.parent? i = none ↔ i = 0)
  parent_lt : ∀ i p, t.parent? i = some p → p < i
  /-- A node is listed once by its parent and by no other node. -/
  count_childrenOf : ∀ i p, (t.childrenOf p).count i = if t.parent? i = some p then 1 else 0
  /-- The way up from a node is followed to its end. -/
  ancestors_eq : ∀ i, t.ancestors i = (t.parent? i).elim [] fun p => p :: t.ancestors p
  /-- The walk is finished after as many steps as there are nodes. -/
  visit_eq : ∀ n, t.size ≤ n → t.visit n [0] = List.range t.size

namespace Numbered

variable {t : DocumentTree}

theorem count_childrenOf (h : Numbered t) (i p : Nat) :
    (t.childrenOf p).count i = if t.parent? i = some p then 1 else 0 := by
  have hmem : i ∈ t.childrenOf p ↔ t.parent? i = some p := h.linked.mem_childrenOf p i
  have hnodup : (t.childrenOf p).Nodup := by
    by_cases hp : p < t.size
    · rw [h.childrenOf_eq p hp]
      exact List.nodup_range.filter _
    · rw [childrenOf_eq_nil (by omega)]
      exact List.nodup_nil
  rw [hnodup.count]
  simp only [hmem]

theorem isOrdered (h : Numbered t) : t.IsOrdered := by
  refine ⟨h.size_pos, fun i hi => ?_, fun i p => h.parent_lt, h.count_childrenOf,
    h.linked.ancestors_eq, fun n => h.visit_eq⟩
  constructor
  · intro hnone
    by_contra hne
    obtain ⟨p, hp, -⟩ := h.exists_parent i (by omega) hi
    simp [hnone] at hp
  · rintro rfl
    exact h.parent_root

end Numbered

end DocumentTree

/-! ## The sections -/

namespace TreeBuilder

/-- The open sections lead down from the document with growing levels, and the stack
stands on the innermost one. -/
structure StandsOnSection (b : TreeBuilder) : Prop where
  root : b.sections.getLast? = some ⟨0, 0⟩
  levels_sorted : b.sections.Pairwise fun s s' => s.level > s'.level
  bottom : b.stack.getLast? = b.sections.head?.map (·.node)

theorem getLast?_closeSections {level : Nat} {ss : List OpenSection} {s : OpenSection}
    (hlast : ss.getLast? = some s) (hlevel : s.level < level) :
    (closeSections level ss).getLast? = some s := by
  induction ss with
  | nil => simp at hlast
  | cons s' ss ih =>
      unfold closeSections
      split
      · rename_i hcloses
        cases ss with
        | nil =>
            obtain rfl : s' = s := by simpa using hlast
            omega
        | cons s'' ss => exact ih (by simpa [List.getLast?_cons_cons] using hlast)
      · exact hlast

theorem level_lt_of_mem_closeSections {level : Nat} {ss : List OpenSection}
    (hsorted : ss.Pairwise fun s s' => s.level > s'.level) :
    ∀ s ∈ closeSections level ss, s.level < level := by
  induction ss with
  | nil => simp [closeSections]
  | cons s ss ih =>
      obtain ⟨hfirst, hrest⟩ := List.pairwise_cons.1 hsorted
      unfold closeSections
      split
      · exact ih hrest
      · rename_i hstays
        intro s' hs'
        rcases List.mem_cons.1 hs' with rfl | hs'
        · omega
        · have := hfirst s' hs'
          omega

namespace StandsOnSection

variable {b last : TreeBuilder}

theorem start (path : Path) : StandsOnSection (start path) := by
  refine ⟨rfl, ?_, rfl⟩
  simp [TreeBuilder.start]

theorem same (h : StandsOnSection b) (hstack : last.stack.getLast? = b.stack.getLast?)
    (hsections : last.sections = b.sections) : StandsOnSection last :=
  ⟨hsections ▸ h.root, hsections ▸ h.levels_sorted, by rw [hstack, hsections, h.bottom]⟩

theorem closeSections_ne_nil (h : StandsOnSection b) {level : Nat} (hlevel : 1 ≤ level) :
    closeSections level b.sections ≠ [] := by
  intro hnil
  have hroot := getLast?_closeSections h.root hlevel
  simp [hnil] at hroot

theorem addHeading (h : StandsOnSection b) {level : Nat} (hlevel : 1 ≤ level) (n : Node) :
    StandsOnSection (b.addHeading level n) := by
  unfold TreeBuilder.addHeading
  split
  · refine ⟨?_, ?_, rfl⟩
    · obtain ⟨s, ss, hss⟩ := List.exists_cons_of_ne_nil (h.closeSections_ne_nil hlevel)
      have hroot := getLast?_closeSections h.root hlevel
      rw [hss] at hroot
      simpa only [hss, List.getLast?_cons_cons] using hroot
    · have hsuffix := Invariant.closeSections_suffix level b.sections
      exact List.pairwise_cons.2 ⟨level_lt_of_mem_closeSections h.levels_sorted,
        h.levels_sorted.sublist hsuffix.sublist⟩
  · exact h.same rfl rfl

theorem addParagraph (h : StandsOnSection b) (text : Text) (attributes : Attributes) (n : Node) :
    StandsOnSection (b.addParagraph text attributes n) := by
  unfold TreeBuilder.addParagraph
  split
  · exact h.same rfl rfl
  · exact h.same rfl rfl

theorem leave (h : StandsOnSection b) (hleave : b.leave? = some last) :
    StandsOnSection last := by
  unfold leave? at hleave
  cases hbelow : b.below with
  | nil => simp [hbelow] at hleave
  | cons i below =>
      obtain rfl : { b with top := i, below } = last := by simpa [hbelow] using hleave
      refine h.same ?_ rfl
      rw [stack, stack, hbelow, List.getLast?_cons_cons]

theorem step (h : StandsOnSection b) {render : Text → Text} {e : Event}
    (hlevel : ∀ level source, e.kind = .heading level source → 1 ≤ level)
    (hstep : b.step render e = some last) : StandsOnSection last := by
  unfold TreeBuilder.step at hstep
  cases hkind : e.kind with
  | enter c =>
      cases c <;>
      · simp only [hkind, Option.some.injEq] at hstep
        refine hstep ▸ h.same ?_ rfl
        exact List.getLast?_cons_cons
  | leave c =>
      simp only [hkind] at hstep
      exact h.leave hstep
  | heading level source =>
      simp only [hkind, Option.some.injEq] at hstep
      exact hstep ▸ h.addHeading (hlevel level source hkind) _
  | paragraph source =>
      simp only [hkind, Option.some.injEq] at hstep
      exact hstep ▸ h.addParagraph _ _ _
  | cell source | html content | literal =>
      simp only [hkind, Option.some.injEq] at hstep
      exact hstep ▸ h.same rfl rfl
  | attributeLine =>
      simp only [hkind, Option.some.injEq] at hstep
      exact hstep ▸ h

theorem run (h : StandsOnSection b) {render : Text → Text} {es : List Event}
    (hlevels : ∀ e ∈ es, ∀ level source, e.kind = .heading level source → 1 ≤ level)
    (hrun : b.run render es = some last) : StandsOnSection last := by
  induction es generalizing b with
  | nil =>
      obtain rfl : b = last := by simpa [TreeBuilder.run] using hrun
      exact h
  | cons e es ih =>
      rw [run_cons, Option.bind_eq_some_iff] at hrun
      obtain ⟨b', hstep, hrest⟩ := hrun
      simp only [List.forall_mem_cons] at hlevels
      exact ih (h.step hlevels.1 hstep) hlevels.2 hrest

theorem exists_stack_eq (h : StandsOnSection b) (hbelow : b.below = []) :
    ∃ s, b.sections.head? = some s ∧ b.stack = [s.node] := by
  have hbottom := h.bottom
  rw [stack, hbelow] at hbottom
  cases hhead : b.sections.head? with
  | none => simp [hhead] at hbottom
  | some s =>
      have htop : b.top = s.node := by simpa [hhead] using hbottom
      exact ⟨s, rfl, by rw [stack, hbelow, htop]⟩

end StandsOnSection

/-! ## Folding balanced streams -/

/-- A container is only left while one is open, and a heading closes sections only as far
as one of them stays open. -/
def Allows (b : TreeBuilder) (e : Event) : Prop :=
  (∀ c, e.kind = .leave c → b.below ≠ []) ∧
    ∀ level source, e.kind = .heading level source → closeSections level b.sections ≠ []

theorem StandsOnSection.allows {b last : TreeBuilder} (h : StandsOnSection b)
    {render : Text → Text} {e : Event}
    (hlevel : ∀ level source, e.kind = .heading level source → 1 ≤ level)
    (hstep : b.step render e = some last) : b.Allows e := by
  refine ⟨fun c hkind hbelow => ?_, fun level source hkind => ?_⟩
  · simp [TreeBuilder.step, hkind, leave?, hbelow] at hstep
  · exact h.closeSections_ne_nil (hlevel level source hkind)

/-- A balanced stream is folded to its end, and each of its events finds open what it
needs.  In the end the innermost section is all that is open, and the nodes make up one
tree that is walked in the order of their numbers. -/
theorem run_isOrdered (path : Path) (render : Text → Text) {es : List Event} (h : Balanced es) :
    (∃ last, (start path).run render es = some last ∧
      DocumentTree.ofEvents? path render es = some last.tree ∧ last.tree.IsOrdered ∧
      ∃ s, last.sections.head? = some s ∧ last.stack = [s.node]) ∧
    ∀ before e after, es = before ++ e :: after →
      ∃ b next, (start path).run render before = some b ∧ b.step render e = some next ∧
        b.Allows e := by
  obtain ⟨last, hrun, hsame⟩ := run_balanced render h (start path)
  have hlevels := h.one_le_level
  have hbelow : last.below = [] := hsame.below_eq
  refine ⟨⟨last, hrun, by rw [DocumentTree.ofEvents?, hrun, Option.map_some],
    ((Invariant.start path).run hrun).numbered.isOrdered,
    ((StandsOnSection.start path).run hlevels hrun).exists_stack_eq hbelow⟩, ?_⟩
  rintro before e after rfl
  -- The run passes through the state in which the event is met.
  rw [run_append, Option.bind_eq_some_iff] at hrun
  obtain ⟨b, hbefore, hrest⟩ := hrun
  rw [run_cons, Option.bind_eq_some_iff] at hrest
  obtain ⟨next, hstep, -⟩ := hrest
  simp only [List.forall_mem_append, List.forall_mem_cons] at hlevels
  have hstands := (StandsOnSection.start path).run hlevels.1 hbefore
  exact ⟨b, next, hbefore, hstep, hstands.allows hlevels.2.1 hstep⟩

/-- Headings of falling and rising levels, one of them in a quotation inside an item. -/
theorem run_isOrdered_nested :
    let quotation : List Event := [.block (.paragraph "figs") 2 3] ++
      Event.wrap .quote 3 5 [] [.block (.heading 1 "pears") 3 4, .block (.paragraph "plums") 4 5]
    let es : List Event := .block (.heading 2 "fruit") 0 1 ::
      (Event.wrap .bulletList 2 5 [] (Event.wrap .item 2 5 [] quotation) ++
        [.block (.heading 1 "trees") 6 7, .block (.heading 3 "oak") 8 9])
    ∃ last, (start (Path.ofText "fruit.md")).run id es = some last ∧ last.tree.IsOrdered ∧
      last.stack = [8] ∧
      (List.range 9).map last.tree.parent? =
        [none, some 0, some 1, some 2, some 3, some 4, some 4, some 0, some 7] := by
  intro quotation es
  have hquote : Balanced
      [.block (.heading 1 "pears") 3 4, .block (.paragraph "plums") 4 5] :=
    .block (Nat.le_refl 1) (.block trivial .nil)
  have hitem : Balanced quotation := .block trivial (hquote.wrap .quote 3 5 [])
  have hsections : Balanced [.block (.heading 1 "trees") 6 7, .block (.heading 3 "oak") 8 9] :=
    .block (Nat.le_refl 1) (.block (show 1 ≤ 3 by decide) .nil)
  have hbalanced : Balanced es := .block (show 1 ≤ 2 by decide)
    (((hitem.wrap .item 2 5 []).wrap .bulletList 2 5 []).append hsections)
  obtain ⟨⟨last, hrun, -, hordered, -⟩, -⟩ :=
    run_isOrdered (Path.ofText "fruit.md") id hbalanced
  have hsummary : ((start (Path.ofText "fruit.md")).run id es).map
      (fun b => (b.stack, (List.range 9).map b.tree.parent?)) =
        some ([8],
          [none, some 0, some 1, some 2, some 3, some 4, some 4, some 0, some 7]) := by
    decide +kernel
  rw [hrun, Option.map_some, Option.some.injEq, Prod.mk.injEq] at hsummary
  exact ⟨last, hrun, hordered, hsummary⟩

end TreeBuilder

end Proofreader
