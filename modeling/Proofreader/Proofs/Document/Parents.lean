import Proofreader.Proofs.Document.Outline
import Proofreader.Proofs.Document.Scope
import Proofreader.Proofs.Document.Shape

/-!
# Parents

Which node another one hangs under can be read off the stream.  Inside a container it is
the container; outside of all containers it is the section of the latest heading, or for a
heading the section of the latest one of a smaller level; and it is the document where
there is no such heading.  A heading inside a container is no parent, so a block of code
could stand in its place and all nodes would keep theirs.
-/

namespace Proofreader

open Markdown

/-! ## Nodes of events -/

/-- Whether an event adds a node.  A paragraph that an item awaits becomes its text. -/
def Position.adds (p : Position) : Bool :=
  match p.event.kind with
  | .leave _ | .attributeLine => false
  | .paragraph _ => !awaiting p.before
  | .enter _ | .heading _ _ | .cell _ | .html _ | .literal => true

def nodesAdded (es : List Event) : Nat := (positions es).countP Position.adds

def Position.node (p : Position) : Nat := nodesAdded p.before + 1

def nodeNumber (q : Option Position) : Nat := q.elim 0 Position.node

theorem nodesAdded_snoc (es : List Event) (e : Event) :
    nodesAdded (es ++ [e]) = nodesAdded es + if (Position.mk es e).adds then 1 else 0 := by
  rw [nodesAdded, positions_snoc, List.countP_append, List.countP_singleton, nodesAdded]

theorem mem_positions_snoc {es : List Event} {e : Event} {p : Position} :
    p ∈ positions (es ++ [e]) ↔ p ∈ positions es ∨ p = ⟨es, e⟩ := by
  rw [positions_snoc, List.mem_append, List.mem_singleton]

theorem length_before_lt {es : List Event} {p : Position} (h : p ∈ positions es) :
    p.before.length < es.length := by
  induction es using List.reverseRecOn with
  | nil => simp [positions, positionsFrom] at h
  | append_singleton es e ih =>
      rw [List.length_append, List.length_singleton]
      rcases mem_positions_snoc.1 h with h | rfl
      · exact Nat.lt_succ_of_lt (ih h)
      · exact Nat.lt_succ_self _

namespace Markdown

def EventKind.nodeKind : EventKind → NodeKind
  | .enter .item => .listItem
  | .enter _ => .container
  | .heading _ _ => .sect
  | .literal => .literal
  | .leave _ | .paragraph _ | .cell _ | .html _ | .attributeLine => .content

def Event.title (render : Text → Text) (e : Event) : Option Text :=
  match e.kind with
  | .heading _ source => some (render source)
  | _ => none

end Markdown

/-! ## The latest event of a kind -/

def IsLatest (condition : Position → Prop) (es : List Event) : Option Position → Prop
  | some q => q ∈ positions es ∧ condition q ∧
      ∀ r ∈ positions es, condition r → r.before.length ≤ q.before.length
  | none => ∀ r ∈ positions es, ¬ condition r

namespace IsLatest

variable {condition : Position → Prop} {es : List Event} {e : Event} {q : Option Position}

theorem snoc_of_not (h : IsLatest condition es q) (hnot : ¬ condition ⟨es, e⟩) :
    IsLatest condition (es ++ [e]) q := by
  have hold : ∀ r ∈ positions (es ++ [e]), condition r → r ∈ positions es := by
    intro r hr hcondition
    rcases mem_positions_snoc.1 hr with hr | rfl
    · exact hr
    · exact absurd hcondition hnot
  cases q with
  | none => exact fun r hr hcondition => h r (hold r hr hcondition) hcondition
  | some q =>
      obtain ⟨hmem, hq, hlatest⟩ := h
      exact ⟨mem_positions_snoc.2 (.inl hmem), hq,
        fun r hr hcondition => hlatest r (hold r hr hcondition) hcondition⟩

theorem snoc_self (hcondition : condition ⟨es, e⟩) :
    IsLatest condition (es ++ [e]) (some ⟨es, e⟩) := by
  refine ⟨mem_positions_snoc.2 (.inr rfl), hcondition, fun r hr _ => ?_⟩
  rcases mem_positions_snoc.1 hr with hr | rfl
  · exact Nat.le_of_lt (length_before_lt hr)
  · exact Nat.le_refl _

end IsLatest

/-! ## What a node hangs under -/

namespace Position

def OpensSection (q : Position) : Prop := q.topHeading?.isSome = true

def OpensBelow (level : Nat) (q : Position) : Prop :=
  ∃ heading, q.topHeading? = some heading ∧ heading.1 < level

/-- The event under whose node that of `p` hangs; without one it hangs under the document. -/
inductive HangsUnder (p : Position) : Option Position → Prop where
  | container {first : Event} {earlier since : List Event}
      (hsplit : p.before = earlier ++ first :: since)
      (hinnermost : EnclosesAt p.before 0 ⟨first, since⟩) : HangsUnder p (some ⟨earlier, first⟩)
  | heading {heading : Nat × Event} {q : Option Position}
      (htop : p.topHeading? = some heading)
      (hlatest : IsLatest (OpensBelow heading.1) p.before q) : HangsUnder p q
  | block {q : Option Position} (houtside : entered p.before = left p.before)
      (hother : p.topHeading? = none) (hlatest : IsLatest OpensSection p.before q) :
      HangsUnder p q

end Position

def DocumentTree.Hangs (t : DocumentTree) (render : Text → Text) (p : Position) : Prop :=
  ∃ n q, t.node? p.node = some n ∧ n.kind = p.event.kind.nodeKind ∧
    n.title = p.event.title render ∧ p.HangsUnder q ∧ n.parent = some (nodeNumber q)

namespace DocumentTree.Hangs

variable {t : DocumentTree} {render : Text → Text} {p : Position}

theorem add (h : t.Hangs render p) (n : Node) : (t.add n).Hangs render p := by
  obtain ⟨m, q, hm, hkind, htitle, hunder, hparent⟩ := h
  have hnode := node?_add_of_lt (n := n) (lt_size_of_node? hm)
  rw [hm, Option.map_some] at hnode
  refine ⟨_, q, hnode, ?_, ?_, hunder, ?_⟩ <;> split <;> assumption

theorem modify (h : t.Hangs render p) {f : Node → Node} (i : Nat)
    (hf : ∀ n, (f n).kind = n.kind ∧ (f n).title = n.title ∧ (f n).parent = n.parent) :
    (t.modify i f).Hangs render p := by
  obtain ⟨m, q, hm, hkind, htitle, hunder, hparent⟩ := h
  have hnode := node?_modify t i p.node f
  rw [hm, Option.map_some] at hnode
  obtain ⟨hfkind, hftitle, hfparent⟩ := hf m
  refine ⟨_, q, hnode, ?_, ?_, hunder, ?_⟩ <;> split
  · rw [hfkind, hkind]
  · exact hkind
  · rw [hftitle, htitle]
  · exact htitle
  · rw [hfparent, hparent]
  · exact hparent

end DocumentTree.Hangs

/-! ## Folding -/

namespace TreeBuilder

def Seats (before : List Event) (i : Nat) (o : Opening) : Prop :=
  ∃ earlier, before = earlier ++ o.first :: o.since ∧ i = nodesAdded earlier + 1

theorem Seats.push {before : List Event} {i : Nat} {o : Opening} (h : Seats before i o)
    (e : Event) : Seats (before ++ [e]) i (o.push e) := by
  obtain ⟨earlier, hsplit, hi⟩ := h
  exact ⟨earlier, by simp [hsplit, Opening.push], hi⟩

theorem closeSections_closeSections {level level' : Nat} (h : level ≤ level')
    (ss : List OpenSection) :
    closeSections level (closeSections level' ss) = closeSections level ss := by
  induction ss with
  | nil => rfl
  | cons s ss ih =>
      by_cases hlevel' : level' ≤ s.level
      · rw [closeSections, if_pos hlevel', ih, closeSections, if_pos (by omega)]
      · rw [closeSections, if_neg hlevel']

structure Hung (render : Text → Text) (before : List Event) (b : TreeBuilder) : Prop where
  outlined : ∃ fs, Outlined b (awaiting before) fs
  depth : entered before = left before + b.below.length
  size_eq : b.tree.size = nodesAdded before + 1
  bottom : b.stack.getLast? = b.sections.head?.map (·.node)
  containers : List.Forall₂ (Seats before) b.stack.dropLast (openings before)
  latest : ∃ q, IsLatest Position.OpensSection before q ∧
    b.sections.head?.map (·.node) = some (nodeNumber q)
  nearest : ∀ level, 1 ≤ level → ∃ q, IsLatest (Position.OpensBelow level) before q ∧
    (closeSections level b.sections).head?.map (·.node) = some (nodeNumber q)
  hangs : ∀ p ∈ positions before, p.adds = true → b.tree.Hangs render p

namespace Hung

variable {render : Text → Text} {before : List Event} {b : TreeBuilder} {e : Event}

theorem start (render : Text → Text) (path : Path) : Hung render [] (start path) := by
  have hnone : ∀ p : Position, p ∉ positions [] := fun p hp => by
    simp [positions, positionsFrom] at hp
  refine ⟨⟨_, Outlined.start path⟩, rfl, rfl, rfl, .nil, ⟨none, ?_, rfl⟩, fun level hlevel => ?_,
    fun p hp => absurd hp (hnone p)⟩
  · exact fun r hr => absurd hr (hnone r)
  · refine ⟨none, fun r hr => absurd hr (hnone r), ?_⟩
    rw [TreeBuilder.start, closeSections, if_neg (by simp only; omega)]
    rfl

/-- Outside all containers, the innermost section is open, and inside of them the innermost
container. -/
theorem hangsUnder_top (h : Hung render before b)
    (hother : (Position.mk before e).topHeading? = none) :
    ∃ q, (Position.mk before e).HangsUnder q ∧ b.top = nodeNumber q := by
  have hcontainers := h.containers
  rw [stack] at hcontainers
  cases hbelow : b.below with
  | nil =>
      have hbottom := h.bottom
      obtain ⟨q, hlatest, hnode⟩ := h.latest
      rw [stack, hbelow, hnode] at hbottom
      refine ⟨q, .block ?_ hother hlatest, by simpa using hbottom⟩
      simpa [hbelow] using h.depth
  | cons i below =>
      rw [hbelow, List.dropLast_cons_cons] at hcontainers
      cases hopen : openings before with
      | nil => simp [hopen] at hcontainers
      | cons o os =>
          rw [hopen, List.forall₂_cons] at hcontainers
          obtain ⟨⟨earlier, hsplit, htop⟩, -⟩ := hcontainers
          have hinnermost : EnclosesAt before 0 o :=
            getElem?_openings.1 (by rw [hopen]; rfl)
          exact ⟨some ⟨earlier, o.first⟩, .container hsplit hinnermost, htop⟩

theorem topHeading?_eq (h : Hung render before b) (e : Event) :
    Position.topHeading? ⟨before, e⟩ =
      match e.kind with
      | .heading level _ => if b.below.isEmpty then some (level, e) else none
      | _ => none := by
  have hdepth : entered before = left before ↔ b.below.isEmpty = true := by
    rw [h.depth, List.isEmpty_iff, ← List.length_eq_zero_iff]
    omega
  rw [Position.topHeading?]
  cases hkind : e.kind <;> simp [hdepth]

theorem sections_snoc (h : Hung render before b)
    (hother : (Position.mk before e).topHeading? = none) :
    (∃ q, IsLatest Position.OpensSection (before ++ [e]) q ∧
      b.sections.head?.map (·.node) = some (nodeNumber q)) ∧
    ∀ level, 1 ≤ level → ∃ q, IsLatest (Position.OpensBelow level) (before ++ [e]) q ∧
      (closeSections level b.sections).head?.map (·.node) = some (nodeNumber q) := by
  obtain ⟨q, hlatest, hnode⟩ := h.latest
  refine ⟨⟨q, hlatest.snoc_of_not (by simp [Position.OpensSection, hother]), hnode⟩,
    fun level hlevel => ?_⟩
  obtain ⟨q, hlatest, hnode⟩ := h.nearest level hlevel
  exact ⟨q, hlatest.snoc_of_not (by simp [Position.OpensBelow, hother]), hnode⟩

theorem hangs_add (h : Hung render before b) {n : Node} {q : Option Position}
    (hkind : n.kind = e.kind.nodeKind) (htitle : n.title = e.title render)
    (hunder : (Position.mk before e).HangsUnder q) :
    ∀ p ∈ positions (before ++ [e]), p.adds = true →
      (b.tree.add { n with parent := some (nodeNumber q) }).Hangs render p := by
  intro p hp hadds
  rcases mem_positions_snoc.1 hp with hp | rfl
  · exact (h.hangs p hp hadds).add _
  · refine ⟨{ n with parent := some (nodeNumber q) }, q, ?_, hkind, htitle, hunder, rfl⟩
    rw [Position.node, ← h.size_eq]
    exact DocumentTree.node?_add_self _ _

theorem hangs_snoc (h : Hung render before b) (hadds : (Position.mk before e).adds = false) :
    ∀ p ∈ positions (before ++ [e]), p.adds = true → b.tree.Hangs render p := by
  intro p hp hp'
  rcases mem_positions_snoc.1 hp with hp | rfl
  · exact h.hangs p hp hp'
  · simp [hadds] at hp'

theorem containers_push (h : Hung render before b) (e : Event) :
    List.Forall₂ (Seats (before ++ [e])) b.stack.dropLast
      ((openings before).map (Opening.push e)) := by
  rw [List.forall₂_map_right_iff]
  exact h.containers.imp fun _ _ hseats => hseats.push e

theorem addLeaf (h : Hung render before b) {n : Node} (henter : e.kind.isEnter = false)
    (hleave : e.kind.isLeave = false) (hline : e.kind ≠ .attributeLine)
    (hother : (Position.mk before e).topHeading? = none)
    (hadds : (Position.mk before e).adds = true) (hchildren : n.children = [])
    (hkind : n.kind = e.kind.nodeKind) (htitle : n.title = e.title render) :
    Hung render (before ++ [e]) (b.addLeaf n) := by
  obtain ⟨fs, houtlined⟩ := h.outlined
  obtain ⟨q, hunder, htop⟩ := h.hangsUnder_top hother
  obtain ⟨hlatest, hnearest⟩ := h.sections_snoc hother
  have hawaiting : awaiting (before ++ [e]) = false := by
    have hitem : e.kind ≠ .enter .item := fun heq => by simp [heq, EventKind.isEnter] at henter
    simp [awaiting_snoc, hline, hitem]
  refine ⟨⟨_, hawaiting ▸ houtlined.addLeaf hchildren⟩, ?_, ?_, h.bottom, ?_, hlatest, hnearest, ?_⟩
  · rw [entered_snoc, left_snoc, henter, hleave]
    exact h.depth
  · rw [nodesAdded_snoc, hadds, TreeBuilder.addLeaf, DocumentTree.size_add, h.size_eq]
    rfl
  · rw [openings_snoc_of_isBlock henter hleave]
    exact h.containers_push e
  · have hhangs := h.hangs_add hkind htitle hunder
    rw [← htop] at hhangs
    exact hhangs

theorem enter (h : Hung render before b) {c : Container} {n : Node} (henters : e.kind = .enter c)
    (houtlined : ∀ fs, Outlined b (awaiting before) fs →
      ∃ fs', Outlined (b.enter n) (decide (c = .item)) fs')
    (hkind : n.kind = e.kind.nodeKind) (htitle : n.title = none) :
    Hung render (before ++ [e]) (b.enter n) := by
  have hother : (Position.mk before e).topHeading? = none := by
    rw [h.topHeading?_eq, henters]
  obtain ⟨fs, houtline⟩ := h.outlined
  obtain ⟨fs', houtlined'⟩ := houtlined fs houtline
  obtain ⟨q, hunder, htop⟩ := h.hangsUnder_top hother
  obtain ⟨hlatest, hnearest⟩ := h.sections_snoc hother
  refine ⟨⟨fs', ?_⟩, ?_, ?_, ?_, ?_, hlatest, hnearest, ?_⟩
  · rw [awaiting_snoc, henters]
    simpa using houtlined'
  · rw [entered_snoc, left_snoc, henters, h.depth]
    simp [EventKind.isEnter, EventKind.isLeave, TreeBuilder.enter, Nat.add_assoc]
  · have hadds : (Position.mk before e).adds = true := by simp [Position.adds, henters]
    rw [nodesAdded_snoc, hadds, TreeBuilder.enter, TreeBuilder.addLeaf, DocumentTree.size_add,
      h.size_eq]
    rfl
  · exact List.getLast?_cons_cons.trans h.bottom
  · rw [openings_snoc, Opening.after, henters]
    refine .cons ⟨before, rfl, h.size_eq⟩ ?_
    exact h.containers_push e
  · have hhangs := h.hangs_add hkind (by simp [Event.title, henters, htitle]) hunder
    rw [← htop] at hhangs
    exact hhangs

theorem leave (h : Hung render before b) {c : Container} {last : TreeBuilder}
    (hleaves : e.kind = .leave c) (hleave : b.leave? = some last) :
    Hung render (before ++ [e]) last := by
  have hother : (Position.mk before e).topHeading? = none := by
    rw [h.topHeading?_eq, hleaves]
  have hadds : (Position.mk before e).adds = false := by simp [Position.adds, hleaves]
  obtain ⟨fs, houtlined⟩ := h.outlined
  have houtlined' := houtlined.leave hleave
  obtain ⟨hlatest, hnearest⟩ := h.sections_snoc hother
  have hdepth := h.depth
  have hbottom := h.bottom
  have hcontainers := h.containers_push e
  have hhangs := h.hangs_snoc hadds
  unfold leave? at hleave
  cases hbelow : b.below with
  | nil => simp [hbelow] at hleave
  | cons i below =>
      obtain rfl : { b with top := i, below } = last := by simpa [hbelow] using hleave
      rw [stack, hbelow, List.dropLast_cons_cons] at hcontainers
      refine ⟨⟨b.tree.faces, ?_⟩, ?_, ?_, ?_, ?_, hlatest, hnearest, hhangs⟩
      · rw [awaiting_snoc, hleaves]
        simpa using houtlined'
      · rw [hbelow, List.length_cons] at hdepth
        rw [entered_snoc, left_snoc, hleaves, hdepth]
        simp only [EventKind.isEnter, EventKind.isLeave]
        simp
        omega
      · rw [nodesAdded_snoc, hadds, h.size_eq]
        rfl
      · rwa [stack, hbelow, List.getLast?_cons_cons] at hbottom
      · rw [openings_snoc, Opening.after, hleaves, List.map_tail]
        cases hopen : (openings before).map (Opening.push e) with
        | nil => simp [hopen] at hcontainers
        | cons o os =>
            rw [hopen, List.forall₂_cons] at hcontainers
            exact hcontainers.2

theorem addSection (h : Hung render before b) {level : Nat} {source : Text} {n : Node}
    (hheading : e.kind = .heading level source) (hlevel : 1 ≤ level) (hbelow : b.below = [])
    (hchildren : n.children = []) (hsect : n.kind = .sect) (htitle : n.title = some (render source)) :
    Hung render (before ++ [e]) (b.addHeading level n) := by
  obtain ⟨fs, houtlined⟩ := h.outlined
  have houtlined' := houtlined.addHeading level hchildren hsect
  obtain ⟨q, hq, hnode⟩ := h.nearest level hlevel
  have htop : (Position.mk before e).topHeading? = some (level, e) := by
    rw [h.topHeading?_eq, hheading, hbelow]
    rfl
  have hadded : b.addHeading level n =
      { tree := b.tree.add { n with parent := some (nodeNumber q) }
        top := b.tree.size
        below := []
        sections := ⟨level, b.tree.size⟩ :: closeSections level b.sections } := by
    simp [addHeading, hbelow, hnode]
  have hnumber : b.tree.size = nodeNumber (some ⟨before, e⟩) := h.size_eq
  have hopen : openings before = [] := by simpa [stack, hbelow] using h.containers
  rw [hadded] at houtlined' ⊢
  refine ⟨⟨b.tree.faces ++ [n.face], ?_⟩, ?_, ?_, rfl, ?_, ?_, fun level' hlevel' => ?_, ?_⟩
  · rw [awaiting_snoc, hheading]
    exact houtlined'
  · rw [entered_snoc, left_snoc, hheading, h.depth, hbelow]
    rfl
  · have hadds : (Position.mk before e).adds = true := by simp [Position.adds, hheading]
    rw [nodesAdded_snoc, hadds, DocumentTree.size_add, h.size_eq]
    rfl
  · rw [openings_snoc, hopen, Opening.after, hheading]
    exact .nil
  · exact ⟨_, IsLatest.snoc_self (by simp [Position.OpensSection, htop]), by simp [hnumber]⟩
  · -- the new section is the nearest for greater levels, and hides no section from the others
    by_cases hbigger : level < level'
    · refine ⟨_, IsLatest.snoc_self ⟨_, htop, hbigger⟩, ?_⟩
      rw [closeSections, if_neg (by simp only; omega), List.head?_cons, Option.map_some, hnumber]
    · obtain ⟨q', hq', hnode'⟩ := h.nearest level' hlevel'
      refine ⟨q', hq'.snoc_of_not ?_, ?_⟩
      · rintro ⟨heading, hheading', hlt⟩
        obtain rfl : (level, e) = heading := Option.some.inj (htop.symm.trans hheading')
        exact hbigger hlt
      · rw [closeSections, if_pos (by simp only; omega),
          closeSections_closeSections (by omega), hnode']
  · exact h.hangs_add (by rw [hsect, hheading]; rfl) (by simp [Event.title, hheading, htitle])
      (.heading htop hq)

theorem absorb (h : Hung render before b) {source : Text} {n : Node}
    (hkind : e.kind = .paragraph source) (hawaiting : awaiting before = true)
    (hchildren : n.children = []) :
    Hung render (before ++ [e]) (b.addParagraph (render source) e.attributes n) := by
  have hother : (Position.mk before e).topHeading? = none := by rw [h.topHeading?_eq, hkind]
  have hadds : (Position.mk before e).adds = false := by simp [Position.adds, hkind, hawaiting]
  obtain ⟨fs, houtlined⟩ := h.outlined
  rw [hawaiting] at houtlined
  have houtlined' := houtlined.addParagraph_awaited (render source) e.attributes hchildren
  have habsorbs : (b.tree.node? b.top).any takesParagraph = true := houtlined.awaits_top
  obtain ⟨hlatest, hnearest⟩ := h.sections_snoc hother
  rw [addParagraph, if_pos habsorbs] at houtlined' ⊢
  refine ⟨⟨fs ++ [⟨.listItem, some (render source)⟩], ?_⟩, ?_, ?_, h.bottom, ?_, hlatest,
    hnearest, ?_⟩
  · rw [awaiting_snoc, hkind]
    exact houtlined'
  · rw [entered_snoc, left_snoc, hkind, h.depth]
    rfl
  · rw [nodesAdded_snoc, hadds, DocumentTree.size_modify, h.size_eq]
    rfl
  · rw [openings_snoc, Opening.after, hkind]
    exact h.containers_push e
  · exact fun p hp hp' => (h.hangs_snoc hadds p hp hp').modify b.top fun _ => ⟨rfl, rfl, rfl⟩

theorem skip (h : Hung render before b) (hkind : e.kind = .attributeLine) :
    Hung render (before ++ [e]) b := by
  have hother : (Position.mk before e).topHeading? = none := by rw [h.topHeading?_eq, hkind]
  have hadds : (Position.mk before e).adds = false := by simp [Position.adds, hkind]
  obtain ⟨fs, houtlined⟩ := h.outlined
  obtain ⟨hlatest, hnearest⟩ := h.sections_snoc hother
  refine ⟨⟨fs, ?_⟩, ?_, ?_, h.bottom, ?_, hlatest, hnearest, h.hangs_snoc hadds⟩
  · rw [awaiting_snoc, hkind]
    simpa using houtlined
  · rw [entered_snoc, left_snoc, hkind, h.depth]
    rfl
  · rw [nodesAdded_snoc, hadds, h.size_eq]
    rfl
  · rw [openings_snoc, Opening.after, hkind]
    exact h.containers_push e

theorem step (h : Hung render before b) {last : TreeBuilder}
    (hlevel : ∀ level source, e.kind = .heading level source → 1 ≤ level)
    (hstep : b.step render e = some last) : Hung render (before ++ [e]) last := by
  have htop := h.topHeading?_eq e
  unfold TreeBuilder.step at hstep
  cases hkind : e.kind with
  | enter c =>
      cases c with
      | item =>
          simp only [hkind, Option.some.injEq] at hstep
          exact hstep ▸ h.enter hkind
            (fun fs houtlined => ⟨_, houtlined.enterItem rfl rfl rfl⟩) (by rw [hkind]; rfl) rfl
      | _ =>
          simp only [hkind, Option.some.injEq] at hstep
          exact hstep ▸ h.enter hkind
            (fun fs houtlined => ⟨_, houtlined.enter rfl (by simp [Node.bare])⟩)
            (by rw [hkind]; rfl) rfl
  | leave c =>
      simp only [hkind] at hstep
      exact h.leave hkind hstep
  | heading level source =>
      simp only [hkind, Option.some.injEq] at hstep htop
      cases hbelow : b.below with
      | nil => exact hstep ▸ h.addSection hkind (hlevel level source hkind) hbelow rfl rfl rfl
      | cons i below =>
          rw [addHeading, hbelow, List.isEmpty_cons, if_neg Bool.false_ne_true] at hstep
          rw [hbelow] at htop
          exact hstep ▸ h.addLeaf (by simp [hkind, EventKind.isEnter])
            (by simp [hkind, EventKind.isLeave]) (by simp [hkind]) htop
            (by simp [Position.adds, hkind]) rfl (by rw [hkind]; rfl) (by simp [Event.title, hkind])
  | paragraph source =>
      simp only [hkind, Option.some.injEq] at hstep htop
      cases hawaiting : awaiting before with
      | true => exact hstep ▸ h.absorb hkind hawaiting rfl
      | false =>
          obtain ⟨fs, houtlined⟩ := h.outlined
          have habsorbs : (b.tree.node? b.top).any takesParagraph = false := by
            rw [← hawaiting]
            exact houtlined.awaits_top
          rw [addParagraph, habsorbs, if_neg Bool.false_ne_true] at hstep
          exact hstep ▸ h.addLeaf (by simp [hkind, EventKind.isEnter])
            (by simp [hkind, EventKind.isLeave]) (by simp [hkind]) htop
            (by simp [Position.adds, hkind, hawaiting]) rfl (by rw [hkind]; rfl)
            (by simp [Event.title, hkind, Node.bare])
  | cell source | html content | literal =>
      simp only [hkind, Option.some.injEq] at hstep htop
      exact hstep ▸ h.addLeaf (by simp [hkind, EventKind.isEnter])
        (by simp [hkind, EventKind.isLeave]) (by simp [hkind]) htop
        (by simp [Position.adds, hkind]) rfl (by rw [hkind]; rfl)
        (by simp [Event.title, hkind, Node.bare])
  | attributeLine =>
      simp only [hkind, Option.some.injEq] at hstep
      exact hstep ▸ h.skip hkind

theorem run (h : Hung render before b) {es : List Event} {last : TreeBuilder}
    (hlevels : ∀ e ∈ es, ∀ level source, e.kind = .heading level source → 1 ≤ level)
    (hrun : b.run render es = some last) : Hung render (before ++ es) last := by
  induction es generalizing before b with
  | nil =>
      obtain rfl : b = last := by simpa [TreeBuilder.run] using hrun
      simpa using h
  | cons e es ih =>
      rw [run_cons, Option.bind_eq_some_iff] at hrun
      obtain ⟨b', hstep, hrest⟩ := hrun
      simp only [List.forall_mem_cons] at hlevels
      rw [List.append_cons]
      exact ih (h.step hlevels.1 hstep) hlevels.2 hrest

end Hung

/-! ## Documents of one shape -/

/-- The same nodes are open, and all nodes have the same parents and await a text alike. -/
structure SameShape (b b' : TreeBuilder) : Prop where
  size_eq : b'.tree.size = b.tree.size
  parent?_eq : ∀ i, b'.tree.parent? i = b.tree.parent? i
  awaits_eq : ∀ i, b'.tree.awaits i = b.tree.awaits i
  top_eq : b'.top = b.top
  below_eq : b'.below = b.below
  sections_eq : b'.sections = b.sections

theorem awaits_giveText (t : DocumentTree) (i j : Nat) (text : Text) (f : Node → Attributes) :
    (t.modify i fun n => { n with text := some text, attributes := f n }).awaits j =
      (t.awaits j && decide (i ≠ j)) := by
  rw [DocumentTree.awaits, DocumentTree.node?_modify, DocumentTree.awaits]
  cases t.node? j with
  | none => rfl
  | some n => by_cases h : i = j <;> simp [h, takesParagraph]

namespace SameShape

variable {b b' last : TreeBuilder}

theorem add (h : SameShape b b') {n n' : Node} (hparent : n'.parent = n.parent)
    (htakes : takesParagraph n' = takesParagraph n) (i : Nat) :
    (b'.tree.add n').parent? i = (b.tree.add n).parent? i ∧
      (b'.tree.add n').awaits i = (b.tree.add n).awaits i := by
  constructor
  · rw [DocumentTree.parent?_add, DocumentTree.parent?_add, h.size_eq, hparent, h.parent?_eq]
  · rcases Nat.lt_trichotomy i b.tree.size with hi | rfl | hi
    · rw [DocumentTree.awaits_add hi, DocumentTree.awaits_add (by rw [h.size_eq]; exact hi),
        h.awaits_eq, hparent]
    · rw [DocumentTree.awaits_add_self, ← h.size_eq, DocumentTree.awaits_add_self, htakes]
    · have hnone : ∀ (t : DocumentTree) (m : Node), t.size < i → (t.add m).awaits i = false := by
        intro t m ht
        rw [DocumentTree.awaits, DocumentTree.node?_eq_none (by rw [DocumentTree.size_add]; omega)]
        rfl
      rw [hnone _ _ hi, hnone _ _ (by rw [h.size_eq]; exact hi)]

theorem addLeaf (h : SameShape b b') {n n' : Node} (htakes : takesParagraph n' = takesParagraph n) :
    SameShape (b.addLeaf n) (b'.addLeaf n') := by
  have htakes' : takesParagraph { n' with parent := some b'.top } =
      takesParagraph { n with parent := some b.top } := htakes
  have hadd := h.add (by rw [h.top_eq]) htakes'
  refine ⟨?_, fun i => (hadd i).1, fun i => (hadd i).2, h.top_eq, h.below_eq, h.sections_eq⟩
  rw [TreeBuilder.addLeaf, TreeBuilder.addLeaf, DocumentTree.size_add, DocumentTree.size_add,
    h.size_eq]

theorem enter (h : SameShape b b') {n n' : Node} (htakes : takesParagraph n' = takesParagraph n) :
    SameShape (b.enter n) (b'.enter n') := by
  have hleaf := h.addLeaf htakes
  refine ⟨hleaf.size_eq, hleaf.parent?_eq, hleaf.awaits_eq, h.size_eq, ?_, h.sections_eq⟩
  rw [TreeBuilder.enter, TreeBuilder.enter, h.top_eq, h.below_eq]

theorem addHeading (h : SameShape b b') (level : Nat) {n n' : Node}
    (htakes : takesParagraph n' = takesParagraph n) :
    SameShape (b.addHeading level n) (b'.addHeading level n') := by
  unfold TreeBuilder.addHeading
  rw [h.below_eq, h.sections_eq]
  split
  · simp only
    generalize ((closeSections level b.sections).head?.map (·.node)).getD 0 = parent
    have htakes' : takesParagraph { n' with parent := some parent } =
        takesParagraph { n with parent := some parent } := htakes
    have hadd := h.add (by rfl) htakes'
    refine ⟨?_, fun i => (hadd i).1, fun i => (hadd i).2, h.size_eq, rfl, by rw [h.size_eq]⟩
    rw [DocumentTree.size_add, DocumentTree.size_add, h.size_eq]
  · exact h.addLeaf htakes

theorem addParagraph (h : SameShape b b') (text : Text) (attributes : Attributes) {n n' : Node}
    (htakes : takesParagraph n' = takesParagraph n) :
    SameShape (b.addParagraph text attributes n) (b'.addParagraph text attributes n') := by
  have htop : (b'.tree.node? b'.top).any takesParagraph = (b.tree.node? b.top).any takesParagraph :=
    h.top_eq ▸ h.awaits_eq b'.top
  unfold TreeBuilder.addParagraph
  rw [htop]
  split
  · refine ⟨?_, fun i => ?_, fun i => ?_, h.top_eq, h.below_eq, h.sections_eq⟩
    · rw [DocumentTree.size_modify, DocumentTree.size_modify, h.size_eq]
    · rw [DocumentTree.parent?_modify (by simp), DocumentTree.parent?_modify (by simp),
        h.parent?_eq]
    · rw [awaits_giveText, awaits_giveText, h.awaits_eq, h.top_eq]
  · exact h.addLeaf (by simpa [takesParagraph] using htakes)

theorem leave (h : SameShape b b') (hleave : b.leave? = some last) :
    ∃ last', b'.leave? = some last' ∧ SameShape last last' := by
  unfold leave? at hleave ⊢
  rw [h.below_eq]
  cases hbelow : b.below with
  | nil => simp [hbelow] at hleave
  | cons i below =>
      obtain rfl : { b with top := i, below } = last := by simpa [hbelow] using hleave
      exact ⟨_, rfl, h.size_eq, h.parent?_eq, h.awaits_eq, rfl, rfl, h.sections_eq⟩

theorem step (h : SameShape b b') {render : Text → Text} {e : Event}
    (hstep : b.step render e = some last) :
    ∃ last', b'.step render e = some last' ∧ SameShape last last' := by
  unfold TreeBuilder.step at hstep ⊢
  cases hkind : e.kind with
  | enter c =>
      cases c <;>
      · simp only [hkind, Option.some.injEq] at hstep
        exact ⟨_, rfl, hstep ▸ h.enter rfl⟩
  | leave c =>
      simp only [hkind] at hstep
      exact h.leave hstep
  | heading level source =>
      simp only [hkind, Option.some.injEq] at hstep
      exact ⟨_, rfl, hstep ▸ h.addHeading level rfl⟩
  | paragraph source =>
      simp only [hkind, Option.some.injEq] at hstep
      exact ⟨_, rfl, hstep ▸ h.addParagraph _ _ rfl⟩
  | cell source | html content | literal =>
      simp only [hkind, Option.some.injEq] at hstep
      exact ⟨_, rfl, hstep ▸ h.addLeaf rfl⟩
  | attributeLine =>
      simp only [hkind, Option.some.injEq] at hstep
      exact ⟨_, rfl, hstep ▸ h⟩

theorem run (h : SameShape b b') {render : Text → Text} {es : List Event}
    (hrun : b.run render es = some last) :
    ∃ last', b'.run render es = some last' ∧ SameShape last last' := by
  induction es generalizing b b' with
  | nil =>
      obtain rfl : b = last := by simpa [TreeBuilder.run] using hrun
      exact ⟨b', rfl, h⟩
  | cons e es ih =>
      rw [run_cons, Option.bind_eq_some_iff] at hrun
      obtain ⟨next, hstep, hrest⟩ := hrun
      obtain ⟨next', hstep', hnext⟩ := h.step hstep
      obtain ⟨last', hrun', hlast⟩ := ih hnext hrest
      exact ⟨last', by rw [run_cons, hstep', Option.bind_some, hrun'], hlast⟩

end SameShape

theorem step_sameShape_of_nested {b last : TreeBuilder} {render : Text → Text} {e : Event}
    {level : Nat} {source : Text} (hkind : e.kind = .heading level source) (hbelow : b.below ≠ [])
    (hstep : b.step render e = some last) :
    ∃ last', b.step render { e with kind := .literal } = some last' ∧ SameShape last last' := by
  have hsame : SameShape b b := ⟨rfl, fun _ => rfl, fun _ => rfl, rfl, rfl, rfl⟩
  have hnested : b.below.isEmpty = false := by simpa using hbelow
  simp only [TreeBuilder.step, hkind, Option.some.injEq, addHeading, hnested, Bool.false_eq_true,
    if_false] at hstep
  exact ⟨_, rfl, hstep ▸ hsame.addLeaf rfl⟩

end TreeBuilder

namespace DocumentTree

/-- Sections hang under the nearest earlier section of a smaller level, other blocks under
the latest section, and all that is in a container under the innermost one.  A heading in
a container changes no parent. -/
theorem ofEvents?_hangs (path : Path) (render : Text → Text) {es : List Event}
    (h : Balanced es) :
    ∃ t, ofEvents? path render es = some t ∧ t.size = nodesAdded es + 1 ∧
      (∀ p ∈ positions es, p.adds = true → t.Hangs render p) ∧
      ∀ before e after level source, es = before ++ e :: after →
        e.kind = .heading level source → entered before ≠ left before →
          ∃ t', ofEvents? path render (before ++ { e with kind := .literal } :: after) = some t' ∧
            ∀ i, t'.parent? i = t.parent? i := by
  obtain ⟨last, hrun, -⟩ := TreeBuilder.run_balanced render h (TreeBuilder.start path)
  have hlevels := h.one_le_level
  have hhung := (TreeBuilder.Hung.start render path).run hlevels hrun
  refine ⟨last.tree, by rw [ofEvents?, hrun, Option.map_some], hhung.size_eq, hhung.hangs, ?_⟩
  rintro before e after level source rfl hkind hnested
  rw [TreeBuilder.run_append, Option.bind_eq_some_iff] at hrun
  obtain ⟨b, hbefore, hrest⟩ := hrun
  rw [TreeBuilder.run_cons, Option.bind_eq_some_iff] at hrest
  obtain ⟨next, hstep, hafter⟩ := hrest
  simp only [List.forall_mem_append] at hlevels
  have hdepth := ((TreeBuilder.Hung.start render path).run hlevels.1 hbefore).depth
  have hbelow : b.below ≠ [] := by
    rintro heq
    rw [heq] at hdepth
    exact hnested hdepth
  obtain ⟨next', hstep', hnext⟩ := TreeBuilder.step_sameShape_of_nested hkind hbelow hstep
  obtain ⟨last', hrun', hlast⟩ := hnext.run hafter
  refine ⟨last'.tree, ?_, hlast.parent?_eq⟩
  rw [ofEvents?, TreeBuilder.run_append, hbefore, Option.bind_some, TreeBuilder.run_cons, hstep',
    Option.bind_some, hrun', Option.map_some]

/-- Levels are skipped and returned to, around a heading in a quotation. -/
theorem ofEvents?_hangs_quoted :
    let before : List Event :=
      [.block (.heading 2 "fruit") 0 1, .block (.heading 4 "figs") 2 3,
        ⟨.enter .quote, some ⟨4, 5⟩, []⟩]
    let quoted : Event := .block (.heading 1 "pears") 4 5
    let after : List Event :=
      [⟨.leave .quote, none, []⟩, .block (.paragraph "ripe") 6 7,
        .block (.heading 3 "plums") 8 9, .block (.heading 1 "trees") 10 11]
    let es := before ++ quoted :: after
    ∃ t t', ofEvents? (Path.ofText "fruit.md") id es = some t ∧
      (∀ p ∈ positions es, p.adds = true → t.Hangs id p) ∧
      (List.range 8).map t.parent? =
        [none, some 0, some 1, some 2, some 3, some 2, some 1, some 0] ∧
      ofEvents? (Path.ofText "fruit.md") id (before ++ { quoted with kind := .literal } :: after) =
        some t' ∧ ∀ i, t'.parent? i = t.parent? i := by
  intro before quoted after es
  have hquotation : Balanced [quoted] := .block (Nat.le_refl 1) .nil
  have hrest : Balanced [.block (.paragraph "ripe") 6 7, .block (.heading 3 "plums") 8 9,
      .block (.heading 1 "trees") 10 11] :=
    .block trivial (.block (show 1 ≤ 3 by decide) (.block (Nat.le_refl 1) .nil))
  have hbalanced : Balanced es := .block (show 1 ≤ 2 by decide)
    (.block (show 1 ≤ 4 by decide) ((hquotation.wrap .quote 4 5 []).append hrest))
  obtain ⟨t, ht, -, hhangs, hnested⟩ :=
    ofEvents?_hangs (Path.ofText "fruit.md") id hbalanced
  obtain ⟨t', ht', hparents⟩ :=
    hnested before quoted after 1 "pears".toList rfl rfl (by decide)
  have hsummary : (ofEvents? (Path.ofText "fruit.md") id es).map
      (fun t => (List.range 8).map t.parent?) =
        some [none, some 0, some 1, some 2, some 3, some 2, some 1, some 0] := by
    decide +kernel
  rw [ht, Option.map_some, Option.some.injEq] at hsummary
  exact ⟨t, t', ht, hhangs, hsummary, ht', hparents⟩

end DocumentTree

end Proofreader
