import Proofreader.Proofs.Document.Folding

/-!
# The outline of a document

The nodes of a document in document order, each with its kind and its own text, can
be read off the events alone: every event adds a node with its text, except that the
paragraph a list item begins with becomes the text of the item.  So folding the
events loses, doubles and moves no text.
-/

namespace Proofreader

open Markdown

/-- The kind of a node and the text that it has of its own. -/
structure Face where
  kind : NodeKind
  text : Option Text
  deriving DecidableEq, Repr

def Node.face (n : Node) : Face := ⟨n.kind, n.ownText⟩

namespace DocumentTree

def faces (t : DocumentTree) : List Face := t.nodes.map Node.face

theorem faces_add (t : DocumentTree) (n : Node) : (t.add n).faces = t.faces ++ [n.face] := by
  cases hparent : n.parent with
  | none => simp [faces, add, hparent]
  | some p =>
      have hmap : (t.nodes.modify p fun m => { m with children := m.children ++ [t.size] }).map
          Node.face = t.nodes.map Node.face := by
        apply List.ext_getElem?
        intro i
        rw [List.getElem?_map, List.getElem?_modify, List.getElem?_map]
        cases t.nodes[i]? with
        | none => rfl
        | some m => by_cases h : p = i <;> simp [h, Node.face, Node.ownText]
      simp [faces, add, modify, hparent, hmap]

theorem faces_modify_last {t : DocumentTree} {i : Nat} {n : Node} (f : Node → Node)
    (hn : t.node? i = some n) (hlast : i + 1 = t.size) :
    (t.modify i f).faces = t.faces.dropLast ++ [(f n).face] := by
  have hlt : i < t.nodes.length := lt_size_of_node? hn
  have hget : t.nodes[i] = n := (List.getElem?_eq_some_iff.1 hn).2
  have hlength : t.nodes.length = i + 1 := hlast.symm
  rw [faces, modify, List.modify_eq_take_cons_drop hlt, hget, faces, List.dropLast_eq_take,
    List.length_map, ← hlength, List.drop_length, hlength]
  simp

def awaits (t : DocumentTree) (i : Nat) : Bool := (t.node? i).any TreeBuilder.takesParagraph

theorem awaits_add {t : DocumentTree} {n : Node} {i : Nat} (hi : i < t.size) :
    (t.add n).awaits i = (t.awaits i && decide (n.parent ≠ some i)) := by
  rw [awaits, node?_add_of_lt hi, awaits]
  cases t.node? i with
  | none => rfl
  | some m => by_cases h : n.parent = some i <;> simp [h, TreeBuilder.takesParagraph]

theorem awaits_add_self (t : DocumentTree) (n : Node) :
    (t.add n).awaits t.size = TreeBuilder.takesParagraph n := by
  rw [awaits, node?_add_self, Option.any_some]

theorem awaits_iff {t : DocumentTree} {i : Nat} : t.awaits i = true ↔
    ∃ n, t.node? i = some n ∧ n.kind = .listItem ∧ n.text = none ∧ n.children = [] := by
  simp [awaits, Option.any_eq_true, TreeBuilder.takesParagraph, and_assoc]

end DocumentTree

/-! ## Reading the outline off the events -/

section Reading

variable (render : Text → Text)

def Markdown.Event.prose (e : Event) : Option Text :=
  match e.kind with
  | .heading _ source | .paragraph source | .cell source => some (render source)
  | .html content => some (TreeBuilder.dropBreaks content)
  | .enter _ | .leave _ | .literal | .attributeLine => none

def leading : List Event → Option Text
  | [] => none
  | e :: es =>
      match e.kind with
      | .paragraph source => some (render source)
      | .attributeLine => leading es
      | _ => none

/-- The faces of the nodes that the events add.  A list item may be awaiting its text
when they begin. -/
def outline : Bool → List Event → List Face
  | _, [] => []
  | awaiting, e :: es =>
      match e.kind with
      | .enter .item => ⟨.listItem, leading render es⟩ :: outline true es
      | .enter _ => ⟨.container, none⟩ :: outline false es
      | .leave _ => outline false es
      | .heading _ source => ⟨.sect, some (render source)⟩ :: outline false es
      | .paragraph source =>
          if awaiting then outline false es
          else ⟨.content, some (render source)⟩ :: outline false es
      | .cell source => ⟨.content, some (render source)⟩ :: outline false es
      | .html content => ⟨.content, some (TreeBuilder.dropBreaks content)⟩ :: outline false es
      | .literal => ⟨.literal, none⟩ :: outline false es
      | .attributeLine => outline awaiting es

def awaited (awaiting : Bool) (es : List Event) : List Face :=
  if awaiting then [⟨.listItem, leading render es⟩] else []

theorem filterMap_text_outline (awaiting : Bool) (es : List Event) :
    (awaited render awaiting es ++ outline render awaiting es).filterMap Face.text =
      es.filterMap (Event.prose render) := by
  induction es generalizing awaiting with
  | nil => cases awaiting <;> rfl
  | cons e es ih =>
      have hfalse := ih false
      have htrue := ih true
      cases hkind : e.kind with
      | enter c =>
          cases c <;> cases awaiting <;>
            simp_all [awaited, outline, leading, Event.prose, List.filterMap_cons]
      | attributeLine =>
          have := ih awaiting
          cases awaiting <;>
            simp_all [awaited, outline, leading, Event.prose, List.filterMap_cons]
      | leave c | heading level source | paragraph source | cell source | html content | literal =>
          cases awaiting <;>
            simp_all [awaited, outline, leading, Event.prose, List.filterMap_cons]

end Reading

/-! ## The outline while folding -/

namespace TreeBuilder

/-- The faces of the tree are `fs`, and after them that of the item which awaits its text;
the containers around the innermost open node have children and await none. -/
structure Outlined (b : TreeBuilder) (awaiting : Bool) (fs : List Face) : Prop where
  invariant : Invariant b
  awaits_top : b.tree.awaits b.top = awaiting
  awaits_below : ∀ i ∈ b.below, b.tree.awaits i = false
  faces_eq : b.tree.faces = fs ++ if awaiting then [⟨.listItem, none⟩] else []

namespace Outlined

variable {b : TreeBuilder} {awaiting : Bool} {fs : List Face}

theorem start (path : Path) : Outlined (start path) false [⟨.document, none⟩] :=
  ⟨Invariant.start path, rfl, by simp [TreeBuilder.start], rfl⟩

theorem awaits_add (h : Outlined b awaiting fs) {i : Nat} (hi : i ∈ b.stack) (n : Node) :
    (b.tree.add { n with parent := some b.top }).awaits i = false := by
  rw [DocumentTree.awaits_add (h.invariant.stack_open i hi).lt_size]
  rcases List.mem_cons.1 hi with rfl | hi
  · simp
  · simp [h.awaits_below i hi]

theorem addLeaf (h : Outlined b awaiting fs) {n : Node} (hchildren : n.children = []) :
    Outlined (b.addLeaf n) false (b.tree.faces ++ [n.face]) := by
  have htop : b.top ∈ b.stack := by simp [stack]
  refine ⟨h.invariant.addLeaf hchildren, h.awaits_add htop n, ?_, ?_⟩
  · intro i hi
    exact h.awaits_add (by simp [stack, show i ∈ b.below from hi]) n
  · simp only [TreeBuilder.addLeaf, DocumentTree.faces_add, Bool.false_eq_true, if_false,
      List.append_nil]
    rfl

theorem awaits_enter (h : Outlined b awaiting fs) (n : Node) :
    ∀ i ∈ (b.enter n).below, (b.enter n).tree.awaits i = false :=
  fun _ hi => h.awaits_add hi n

theorem enter (h : Outlined b awaiting fs) {n : Node} (hchildren : n.children = [])
    (hkind : n.kind ≠ .listItem) : Outlined (b.enter n) false (b.tree.faces ++ [n.face]) := by
  refine ⟨h.invariant.enter hchildren, ?_, h.awaits_enter n, (h.addLeaf hchildren).faces_eq⟩
  rw [show (b.enter n).tree.awaits (b.enter n).top = _ from DocumentTree.awaits_add_self _ _]
  simp [takesParagraph, hkind]

theorem enterItem (h : Outlined b awaiting fs) {n : Node} (hchildren : n.children = [])
    (hkind : n.kind = .listItem) (htext : n.text = none) :
    Outlined (b.enter n) true b.tree.faces := by
  have hface : n.face = ⟨.listItem, none⟩ := by simp [Node.face, Node.ownText, hkind, htext]
  have hfaces := (h.addLeaf hchildren).faces_eq
  refine ⟨h.invariant.enter hchildren, ?_, h.awaits_enter n, ?_⟩
  · rw [show (b.enter n).tree.awaits (b.enter n).top = _ from DocumentTree.awaits_add_self _ _]
    simp [takesParagraph, hkind, htext, hchildren]
  · rw [show (b.enter n).tree.faces = (b.addLeaf n).tree.faces from rfl, hfaces, hface]
    simp

theorem leave (h : Outlined b awaiting fs) {last : TreeBuilder} (hleave : b.leave? = some last) :
    Outlined last false b.tree.faces := by
  have hinvariant := h.invariant.leave hleave
  unfold leave? at hleave
  cases hbelow : b.below with
  | nil => simp [hbelow] at hleave
  | cons i below =>
      obtain rfl : { b with top := i, below } = last := by simpa [hbelow] using hleave
      refine ⟨hinvariant, h.awaits_below i (by simp [hbelow]), ?_, by simp⟩
      intro j hj
      exact h.awaits_below j (by simp [hbelow, show j ∈ below from hj])

theorem addHeading (h : Outlined b awaiting fs) (level : Nat) {n : Node}
    (hchildren : n.children = []) (hkind : n.kind = .sect) :
    Outlined (b.addHeading level n) false (b.tree.faces ++ [n.face]) := by
  have hinvariant := h.invariant.addHeading level hchildren
  revert hinvariant
  unfold TreeBuilder.addHeading
  split
  · intro hinvariant
    refine ⟨hinvariant, ?_, by simp, ?_⟩
    · rw [DocumentTree.awaits_add_self]
      simp [takesParagraph, hkind]
    · simp only [DocumentTree.faces_add, Bool.false_eq_true, if_false, List.append_nil]
      rfl
  · exact fun _ => h.addLeaf hchildren

theorem addParagraph_awaited (h : Outlined b true fs) (text : Text) (attributes : Attributes)
    {n : Node} (hchildren : n.children = []) :
    Outlined (b.addParagraph text attributes n) false (fs ++ [⟨.listItem, some text⟩]) := by
  have hinvariant := h.invariant.addParagraph text attributes hchildren
  obtain ⟨m, hm, hkind, htext, hempty⟩ := DocumentTree.awaits_iff.1 h.awaits_top
  -- An item without children is the last node, so its face is the last one.
  have hchildless : b.tree.childrenOf b.top = [] := by simp [DocumentTree.childrenOf, hm, hempty]
  have hlast : b.top + 1 = b.tree.size :=
    h.invariant.top_open.eq_last h.invariant.numbered hchildless
  have habsorbs : (b.tree.node? b.top).any takesParagraph = true := h.awaits_top
  revert hinvariant
  rw [TreeBuilder.addParagraph, if_pos habsorbs]
  intro hinvariant
  have hawaits : ∀ i, b.tree.awaits i = false ∨ i = b.top →
      (b.tree.modify b.top fun m =>
        { m with text := some text, attributes := m.attributes.fill attributes }).awaits i =
          false := by
    intro i hi
    rw [DocumentTree.awaits, DocumentTree.node?_modify]
    rcases hi with hi | rfl
    · rw [DocumentTree.awaits] at hi
      cases hnode : b.tree.node? i with
      | none => rfl
      | some n' =>
          rw [hnode] at hi
          by_cases htop : b.top = i
          · simp [htop, takesParagraph]
          · simpa [htop] using hi
    · simp [hm, takesParagraph]
  refine ⟨hinvariant, hawaits b.top (.inr rfl), ?_, ?_⟩
  · exact fun i hi => hawaits i (.inl (h.awaits_below i hi))
  · rw [DocumentTree.faces_modify_last _ hm hlast, h.faces_eq]
    simp [Node.face, Node.ownText, hkind]

theorem addParagraph (h : Outlined b false fs) (text : Text) (attributes : Attributes) {n : Node}
    (hchildren : n.children = []) (hkind : n.kind = .content) :
    Outlined (b.addParagraph text attributes n) false (fs ++ [⟨.content, some text⟩]) := by
  have habsorbs : (b.tree.node? b.top).any takesParagraph = false := h.awaits_top
  have hleaf := h.addLeaf (n := { n with content := some text, attributes }) hchildren
  rw [TreeBuilder.addParagraph, habsorbs]
  simpa [h.faces_eq, Node.face, Node.ownText, hkind] using hleaf

theorem step (h : Outlined b awaiting fs) {render : Text → Text} {e : Event}
    {last : TreeBuilder} (hstep : b.step render e = some last) :
    ∃ awaiting' fs', Outlined last awaiting' fs' ∧
      ∀ es, fs' ++ (awaited render awaiting' es ++ outline render awaiting' es) =
        fs ++ (awaited render awaiting (e :: es) ++ outline render awaiting (e :: es)) := by
  have hfaces := h.faces_eq
  unfold TreeBuilder.step at hstep
  cases hkind : e.kind with
  | enter c =>
      cases c with
      | item =>
          simp only [hkind, Option.some.injEq] at hstep
          refine ⟨true, _, hstep ▸ h.enterItem rfl rfl rfl, fun es => ?_⟩
          simp [hfaces, awaited, outline, leading, hkind]
      | _ =>
          simp only [hkind, Option.some.injEq] at hstep
          refine ⟨false, _, hstep ▸ h.enter rfl (by simp [Node.bare]), fun es => ?_⟩
          simp [hfaces, awaited, outline, leading, hkind, Node.face, Node.ownText, Node.bare]
  | leave c =>
      simp only [hkind] at hstep
      refine ⟨false, _, h.leave hstep, fun es => ?_⟩
      simp [hfaces, awaited, outline, leading, hkind]
  | heading level source =>
      simp only [hkind, Option.some.injEq] at hstep
      refine ⟨false, _, hstep ▸ h.addHeading level rfl rfl, fun es => ?_⟩
      simp [hfaces, awaited, outline, leading, hkind, Node.face, Node.ownText, Node.bare]
  | paragraph source =>
      simp only [hkind, Option.some.injEq] at hstep
      cases awaiting with
      | true =>
          refine ⟨false, _, hstep ▸ h.addParagraph_awaited _ _ rfl, fun es => ?_⟩
          simp [awaited, outline, leading, hkind]
      | false =>
          refine ⟨false, _, hstep ▸ h.addParagraph _ _ rfl rfl, fun es => ?_⟩
          simp [awaited, outline, hkind]
  | cell source | html content | literal =>
      simp only [hkind, Option.some.injEq] at hstep
      refine ⟨false, _, hstep ▸ h.addLeaf rfl, fun es => ?_⟩
      simp [hfaces, awaited, outline, leading, hkind, Node.face, Node.ownText, Node.bare]
  | attributeLine =>
      simp only [hkind, Option.some.injEq] at hstep
      refine ⟨awaiting, fs, hstep ▸ h, fun es => ?_⟩
      simp [awaited, outline, leading, hkind]

theorem run (h : Outlined b awaiting fs) {render : Text → Text} {es : List Event}
    {last : TreeBuilder} (hrun : b.run render es = some last) :
    last.tree.faces = fs ++ (awaited render awaiting es ++ outline render awaiting es) := by
  induction es generalizing b awaiting fs with
  | nil =>
      obtain rfl : b = last := by simpa [TreeBuilder.run] using hrun
      rw [h.faces_eq]
      simp [awaited, outline, leading]
  | cons e es ih =>
      rw [run_cons, Option.bind_eq_some_iff] at hrun
      obtain ⟨b', hstep, hrest⟩ := hrun
      obtain ⟨awaiting', fs', h', hstays⟩ := h.step hstep
      rw [ih h' hrest, hstays es]

end Outlined

end TreeBuilder

/-! ## The texts of a document -/

namespace DocumentTree

theorem map_node?_range (t : DocumentTree) :
    (List.range t.size).map t.node? = t.nodes.map some := by
  apply List.ext_getElem (by simp [size])
  intro i hi hi'
  simp only [List.length_map] at hi'
  simp [node?, hi']

theorem filterMap_node?_preorder {α : Type} {t : DocumentTree} (h : t.Numbered)
    (f : Node → Option α) :
    t.preorder.filterMap (fun i => (t.node? i).bind f) = t.nodes.filterMap f := by
  calc t.preorder.filterMap (fun i => (t.node? i).bind f)
      = ((List.range t.size).map t.node?).filterMap (·.bind f) := by
        rw [h.preorder_eq, List.filterMap_map]
        rfl
    _ = (t.nodes.map some).filterMap (·.bind f) := by rw [map_node?_range]
    _ = t.nodes.filterMap f := by
        rw [List.filterMap_map]
        rfl

/-- Folding loses, doubles and moves no text.  The texts of the nodes in document order
are those of the events, and the kinds and the texts of the nodes are read off the
events. -/
theorem preorder_texts (path : Path) (render : Text → Text) {es : List Event}
    (h : Balanced es) :
    ∃ t, ofEvents? path render es = some t ∧
      t.preorder.filterMap (fun i => (t.node? i).bind Node.ownText) =
        es.filterMap (Event.prose render) ∧
      t.preorder.filterMap (fun i => (t.node? i).map Node.face) =
        ⟨.document, none⟩ :: outline render false es := by
  obtain ⟨last, hrun, -⟩ := TreeBuilder.run_balanced render h (TreeBuilder.start path)
  have hnumbered := ((TreeBuilder.Invariant.start path).run hrun).numbered
  have hfaces := (TreeBuilder.Outlined.start path).run hrun
  have htexts : last.tree.nodes.filterMap Node.ownText = last.tree.faces.filterMap Face.text := by
    rw [faces, List.filterMap_map]
    rfl
  have hmap : ∀ i, (last.tree.node? i).map Node.face =
      (last.tree.node? i).bind fun n => some n.face := fun i => by
    cases last.tree.node? i <;> rfl
  refine ⟨last.tree, by rw [ofEvents?, hrun, Option.map_some], ?_, ?_⟩
  · rw [filterMap_node?_preorder hnumbered, htexts, hfaces, List.filterMap_append,
      filterMap_text_outline]
    rfl
  · simp only [hmap]
    rw [filterMap_node?_preorder hnumbered, List.filterMap_eq_map', ← faces, hfaces]
    rfl

/-- A list whose first item begins with code and so takes no paragraph as its text. -/
theorem preorder_texts_code_first :
    ∃ t, ofEvents? (Path.ofText "fruit.md") id
        (.block (.heading 1 "fruit") 0 1 ::
          (Event.wrap .bulletList 1 9 []
            (Event.wrap .item 1 5 [] [.block .literal 1 3, .block (.paragraph "figs") 4 5] ++
              Event.wrap .item 6 9 []
                [.block (.paragraph "pears") 6 7, .block (.paragraph "plums") 8 9]) ++
          [.block (.html "<hr>\n") 9 10])) = some t ∧
      t.preorder.filterMap (fun i => (t.node? i).bind Node.ownText) =
        ["fruit", "figs", "pears", "plums", "<hr>"] ∧
      t.preorder.filterMap (fun i => (t.node? i).map Node.face) =
        [⟨.document, none⟩, ⟨.sect, some "fruit"⟩, ⟨.container, none⟩, ⟨.listItem, none⟩,
          ⟨.literal, none⟩, ⟨.content, some "figs"⟩, ⟨.listItem, some "pears"⟩,
          ⟨.content, some "plums"⟩, ⟨.content, some "<hr>"⟩] := by
  have hfirst : Balanced [.block .literal 1 3, .block (.paragraph "figs") 4 5] :=
    .block trivial (.block trivial .nil)
  have hsecond : Balanced [.block (.paragraph "pears") 6 7, .block (.paragraph "plums") 8 9] :=
    .block trivial (.block trivial .nil)
  have hitems := (hfirst.wrap .item 1 5 []).append (hsecond.wrap .item 6 9 [])
  have hhtml : Balanced [.block (.html "<hr>\n") 9 10] := .block trivial .nil
  exact preorder_texts _ id
    (.block (Nat.le_refl 1) ((hitems.wrap .bulletList 1 9 []).append hhtml))

end DocumentTree

end Proofreader
