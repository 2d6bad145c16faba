import Proofreader.Proofs.Document.Growth
import Proofreader.Proofs.Document.Lines
import Proofreader.Proofs.Document.Outline
import Proofreader.Proofs.Document.Scope

/-!
# Where nodes come from

The nodes that have a text stand for the events that have one, in order.  While events
are folded, the open nodes stand for the containers and the sections that are open in
the stream, so each node ignores what the stream says is ignored at its event.
-/

namespace Proofreader

open Markdown

namespace DocumentTree

/-- The node has the text of an event, stands on its line, and ignores what the stream
says is ignored there. -/
structure Made (t : DocumentTree) (key : Text) (render : Text → Text) (i : Nat) (p : Position) :
    Prop where
  speaks : t.speaks i = true
  ownText_eq : (t.node? i).bind Node.ownText = p.event.prose render
  line_eq : ∀ s, p.token.span = some s → (t.node? i).map (·.line) = some (s.first + 1 : Int)
  mem_ignored : ∀ r, r ∈ t.ignoredRules key i ↔ p.Ignores key r

theorem Made.same {k : Nat} {t t' : DocumentTree} {key : Text} {render : Text → Text} {i : Nat}
    {p : Position} (h : Made t key render i p) (hsame : SameUpTo k t t') (hlinked : Linked t)
    (hlinked' : Linked t') (hi : i < k) : Made t' key render i p := by
  refine ⟨?_, ?_, fun s hs => ?_, fun r => ?_⟩
  · rw [DocumentTree.speaks, hsame.ownText_eq hi]
    exact h.speaks
  · rw [hsame.ownText_eq hi, h.ownText_eq]
  · rw [hsame.line_eq hi, h.line_eq s hs]
  · rw [hsame.ignoredRules_eq hlinked hlinked' hi, h.mem_ignored]

theorem made_add {t : DocumentTree} {key : Text} {render : Text → Text} {n : Node} {parent : Nat}
    {p : Position} (hlinked : (t.add n).Linked) (hparent : n.parent = some parent)
    (hprose : (p.event.prose render).isSome) (htext : n.ownText = p.event.prose render)
    (hrules : n.declaredRules key = p.event.names key)
    (hline : ∀ s, p.token.span = some s → n.line = s.first + 1)
    (hignored : ∀ r, r ∈ p.event.names key ++ (t.add n).ignoredRules key parent ↔
      p.Ignores key r) :
    Made (t.add n) key render t.size p := by
  refine ⟨?_, ?_, fun s hs => ?_, fun r => ?_⟩
  · rw [DocumentTree.speaks, node?_add_self, Option.bind_some, htext, hprose]
  · rw [node?_add_self, Option.bind_some, htext]
  · rw [node?_add_self, Option.map_some, hline s hs]
  · have hdeclares : (t.add n).declaredRules key t.size = p.event.names key := by
      rw [← hrules, declaredRules, node?_add_self]
      rfl
    rw [hlinked.ignoredRules_eq, parent?_add, if_pos rfl, hparent, hdeclares, Option.elim_some,
      hignored]

theorem Made.lt_size {t : DocumentTree} {key : Text} {render : Text → Text} {i : Nat}
    {p : Position} (h : Made t key render i p) : i < t.size := by
  by_contra hi
  have hspeaks := h.speaks
  simp [DocumentTree.speaks, node?_eq_none (Nat.le_of_not_lt hi)] at hspeaks

end DocumentTree

/-! ## What stands for containers and sections -/

namespace TreeBuilder

open DocumentTree

/-- The nodes on a stack stand for containers, the last one for what is outside of them. -/
inductive Stands (t : DocumentTree) (key : Text) (outer : List Text) :
    List Nat → List Opening → Prop where
  | outside {i : Nat} (h : ∀ r, r ∈ t.ignoredRules key i ↔ r ∈ outer) : Stands t key outer [i] []
  | inside {i j : Nat} {is : List Nat} {o : Opening} {os : List Opening}
      (hrules : ∀ r, r ∈ t.declaredRules key i ↔ r ∈ o.names key)
      (hline : ∀ s, o.first.span = some s → (t.node? i).map (·.line) = some (s.first + 1 : Int))
      (hparent : t.parent? i = some j) (hrest : Stands t key outer (j :: is) os) :
      Stands t key outer (i :: j :: is) (o :: os)

namespace Stands

variable {t t' : DocumentTree} {key : Text} {outer : List Text} {is : List Nat}
  {os : List Opening}

theorem mem_ignoredRules (hlinked : Linked t) {i : Nat} (h : Stands t key outer (i :: is) os)
    (r : Text) :
    r ∈ t.ignoredRules key i ↔ r ∈ os.flatMap (Opening.names key) ++ outer := by
  induction os generalizing i is with
  | nil =>
      cases h with
      | outside h => simpa using h r
  | cons o os ih =>
      cases h with
      | inside hrules _ hparent hrest =>
          rw [hlinked.ignoredRules_eq, hparent, Option.elim_some, List.mem_append, hrules,
            ih hrest, List.flatMap_cons, List.append_assoc, ← List.mem_append]

theorem same {k : Nat} (h : Stands t key outer is os) (hsame : SameUpTo k t t')
    (hlinked : Linked t) (hlinked' : Linked t') (his : ∀ i ∈ is, i < k) :
    Stands t' key outer is os := by
  induction h with
  | @outside i h =>
      refine .outside fun r => ?_
      rw [hsame.ignoredRules_eq hlinked hlinked' (his i (by simp)), h]
  | @inside i j is o os hrules hline hparent _ ih =>
      have hi := his i (by simp)
      refine .inside (fun r => ?_) (fun s hs => ?_) ?_ (ih fun i hi => his i (by simp [hi]))
      · rw [hsame.declaredRules_eq hi, hrules]
      · rw [hsame.line_eq hi, hline s hs]
      · rw [hsame.parent?_eq hi, hparent]

theorem push (h : Stands t key outer is os) {e : Event}
    (hnames : ∀ o ∈ os, e.kind.isParagraph = true → o.awaits = false) :
    Stands t key outer is (os.map (Opening.push e)) := by
  induction h with
  | outside h => exact .outside h
  | inside hrules hline hparent _ ih =>
      simp only [List.forall_mem_cons] at hnames
      rw [List.map_cons]
      refine .inside (fun r => ?_) hline hparent (ih hnames.2)
      rw [Opening.names_push hnames.1, hrules]

end Stands

inductive Sectioned (t : DocumentTree) (key : Text) :
    List OpenSection → List (Nat × Event) → Prop where
  | root (h : ∀ r, r ∉ t.ignoredRules key 0) : Sectioned t key [⟨0, 0⟩] []
  | inner {s : OpenSection} {ss : List OpenSection} {level : Nat} {e : Event}
      {hs : List (Nat × Event)} (hlevel : s.level = level)
      (h : ∀ r, r ∈ t.ignoredRules key s.node ↔
        r ∈ ((level, e) :: hs).flatMap (·.2.names key))
      (hrest : Sectioned t key ss hs) : Sectioned t key (s :: ss) ((level, e) :: hs)

namespace Sectioned

variable {t t' : DocumentTree} {key : Text} {ss : List OpenSection} {hs : List (Nat × Event)}

theorem same {k : Nat} (h : Sectioned t key ss hs) (hsame : SameUpTo k t t')
    (hlinked : Linked t) (hlinked' : Linked t') (hss : ∀ s ∈ ss, s.node < k) :
    Sectioned t' key ss hs := by
  induction h with
  | root h =>
      refine .root fun r => ?_
      rw [hsame.ignoredRules_eq hlinked hlinked' (hss ⟨0, 0⟩ (by simp))]
      exact h r
  | @inner s ss level e hs hlevel h _ ih =>
      refine .inner hlevel (fun r => ?_) (ih fun s hs => hss s (by simp [hs]))
      rw [hsame.ignoredRules_eq hlinked hlinked' (hss s (by simp)), h]

theorem close (h : Sectioned t key ss hs) {level : Nat} (hlevel : 1 ≤ level) :
    Sectioned t key (closeSections level ss) (hs.dropWhile fun s => level ≤ s.1) ∧
      ∃ s, (closeSections level ss).head? = some s ∧
        ∀ r, r ∈ t.ignoredRules key s.node ↔
          r ∈ (hs.dropWhile fun s => level ≤ s.1).flatMap (·.2.names key) := by
  induction h with
  | root h =>
      have hclose : closeSections level [⟨0, 0⟩] = [⟨0, 0⟩] := by
        simp [closeSections, show ¬ level ≤ 0 by omega]
      rw [hclose]
      exact ⟨.root h, ⟨0, 0⟩, rfl, by simpa using h⟩
  | @inner s ss l e hs hl h hrest ih =>
      rw [closeSections, List.dropWhile_cons]
      by_cases hle : level ≤ l
      · simpa [hl, hle] using ih
      · simp only [hl, hle, if_false, decide_false, Bool.false_eq_true]
        exact ⟨.inner hl h hrest, s, rfl, h⟩

end Sectioned

/-! ## The invariant -/

def prosePositions (render : Text → Text) (es : List Event) : List Position :=
  (positions es).filter fun p => (p.event.prose render).isSome

theorem prosePositions_snoc (render : Text → Text) (es : List Event) (e : Event) :
    prosePositions render (es ++ [e]) =
      prosePositions render es ++ if (e.prose render).isSome then [⟨es, e⟩] else [] := by
  rw [prosePositions, positions_snoc, List.filter_append, prosePositions]
  cases h : e.prose render <;> simp [h]

def IsBare (n : Node) : Prop := n.kind = .listItem → n.text = none → n.attributes = []

structure Traced (key : Text) (render : Text → Text) (before : List Event) (b : TreeBuilder) :
    Prop where
  outlined : ∃ fs, Outlined b (awaiting before) fs
  depth : entered before = left before + b.below.length
  bare : ∀ i n, b.tree.node? i = some n → IsBare n
  stands : Stands b.tree key (sectionRules key before) b.stack (openings before)
  sectioned : Sectioned b.tree key b.sections (sectionsAround before)
  made : List.Forall₂ (Made b.tree key render) b.tree.speakers (prosePositions render before)

namespace Traced

variable {key : Text} {render : Text → Text} {before : List Event} {b : TreeBuilder}

theorem invariant (h : Traced key render before b) : Invariant b := by
  obtain ⟨fs, houtlined⟩ := h.outlined
  exact houtlined.invariant

theorem linked (h : Traced key render before b) : b.tree.Linked := h.invariant.numbered.linked

theorem start (key : Text) (render : Text → Text) (path : Path) :
    Traced key render [] (start path) := by
  have hinvariant := Invariant.start path
  have hignored : ∀ r, r ∉ (TreeBuilder.start path).tree.ignoredRules key 0 := by
    intro r
    rw [hinvariant.numbered.linked.ignoredRules_eq, hinvariant.numbered.parent_root]
    exact List.not_mem_nil
  refine ⟨⟨_, Outlined.start path⟩, rfl, ?_, .outside ?_, .root hignored, .nil⟩
  · intro i n hn
    obtain rfl : i = 0 := Nat.lt_one_iff.1 (lt_size_of_node? hn)
    obtain rfl := Option.some.inj hn
    exact fun _ _ => rfl
  · intro r
    exact iff_of_false (hignored r) List.not_mem_nil

theorem grows (h : Traced key render before b) {n : Node} (hlinked : (b.tree.add n).Linked)
    (hbare : IsBare n) :
    (∀ i m, (b.tree.add n).node? i = some m → IsBare m) ∧
      Stands (b.tree.add n) key (sectionRules key before) b.stack (openings before) ∧
      Sectioned (b.tree.add n) key b.sections (sectionsAround before) ∧
      List.Forall₂ (Made (b.tree.add n) key render) b.tree.speakers
        (prosePositions render before) := by
  have hsame := sameUpTo_add b.tree n
  refine ⟨fun i m hm => ?_, ?_, ?_, ?_⟩
  · have hi := lt_size_of_node? hm
    rw [size_add] at hi
    rcases Nat.lt_succ_iff_lt_or_eq.1 hi with hi | rfl
    · obtain ⟨children, hnode⟩ := hsame i hi
      obtain ⟨m', hm'⟩ := node?_of_lt hi
      obtain rfl : { m' with children } = m := by simpa [hm, hm'] using hnode.symm
      exact h.bare i m' hm'
    · rw [node?_add_self, Option.some.injEq] at hm
      exact hm ▸ hbare
  · exact h.stands.same hsame h.linked hlinked fun i hi => (h.invariant.stack_open i hi).lt_size
  · exact h.sectioned.same hsame h.linked hlinked fun s hs =>
      (h.invariant.sections_open s hs).lt_size
  · exact h.made.imp fun i p hmade => hmade.same hsame h.linked hlinked hmade.lt_size

theorem lineOf_eq (h : Traced key render before b) {e : Event}
    (hplain : e.kind.isParagraph = true → awaiting before = false) {s : LineSpan}
    (hs : (Position.token ⟨before, e⟩).span = some s) : b.lineOf e = s.first + 1 := by
  have hstands := h.stands
  rw [Position.token] at hs
  simp only at hs
  cases hopen : openings before with
  | nil =>
      simp only [hopen] at hs
      rw [lineOf, hs]
  | cons o os =>
      have hnot : (o.awaits && e.kind.isParagraph) = false := by
        cases hparagraph : e.kind.isParagraph with
        | false => simp
        | true => simpa [awaiting, hopen] using hplain hparagraph
      simp only [hopen, hnot, Bool.false_or] at hs
      cases hspan : e.span with
      | some s' =>
          obtain rfl : s' = s := by simpa [hspan] using hs
          rw [lineOf, hspan]
      | none =>
          simp only [hspan, Option.isNone_none, if_true] at hs
          rw [hopen, stack] at hstands
          generalize b.below = below at hstands
          cases hstands with
          | inside _ hline _ _ => rw [lineOf, hspan, hline s hs, Option.getD_some]

theorem topHeading?_eq (h : Traced key render before b) (e : Event) :
    Position.topHeading? ⟨before, e⟩ =
      match e.kind with
      | .heading level _ => if b.below.isEmpty then some (level, e) else none
      | _ => none := by
  have hdepth : entered before = left before ↔ b.below.isEmpty = true := by
    rw [h.depth, List.isEmpty_iff, ← List.length_eq_zero_iff]
    omega
  rw [Position.topHeading?]
  cases hkind : e.kind <;> simp [hdepth]

theorem addLeaf (h : Traced key render before b) {e : Event} {n : Node}
    (henter : e.kind.isEnter = false) (hleave : e.kind.isLeave = false)
    (hkind : e.kind ≠ .attributeLine)
    (hheading : Position.topHeading? ⟨before, e⟩ = none)
    (hplain : e.kind.isParagraph = true → awaiting before = false)
    (hchildren : n.children = []) (hline : n.line = b.lineOf e)
    (hattributes : n.kind = .listItem → n.text = none → n.attributes = [])
    (htext : n.ownText = e.prose render)
    (hrules : (e.prose render).isSome → n.declaredRules key = e.names key) :
    Traced key render (before ++ [e]) (b.addLeaf n) := by
  obtain ⟨fs, houtlined⟩ := h.outlined
  have houtlined' := houtlined.addLeaf hchildren
  have hlinked' : (b.addLeaf n).tree.Linked := houtlined'.invariant.numbered.linked
  obtain ⟨hbare, hstands, hsectioned, hmade⟩ :=
    h.grows (n := { n with parent := some b.top }) hlinked' hattributes
  have hsections := sectionsAround_other hheading
  have hawaiting : awaiting (before ++ [e]) = false := by
    have hitem : e.kind ≠ .enter .item := fun heq => by simp [heq, EventKind.isEnter] at henter
    simp [awaiting_snoc, hkind, hitem]
  refine ⟨⟨_, hawaiting ▸ houtlined'⟩, ?_, hbare, ?_, ?_, ?_⟩
  · rw [entered_snoc, left_snoc, henter, hleave]
    exact h.depth
  · rw [openings_snoc_of_isBlock henter hleave, sectionRules, hsections]
    refine hstands.push fun o ho hparagraph => ?_
    have hfirst := hplain hparagraph
    rcases hopen : openings before with - | ⟨o', os⟩
    · simp [hopen] at ho
    · rw [awaiting, hopen] at hfirst
      rw [hopen] at ho
      rcases List.mem_cons.1 ho with rfl | ho
      · simpa using hfirst
      · exact awaits_tail_openings before o (by simp [hopen, ho])
  · rw [hsections]
    exact hsectioned
  · rw [show (b.addLeaf n).tree.speakers = _ from speakers_add _ _, prosePositions_snoc]
    refine List.rel_append hmade ?_
    have hown : ({ n with parent := some b.top } : Node).ownText = e.prose render := htext
    rw [hown]
    split
    · rename_i hprose
      refine .cons (made_add hlinked' rfl hprose hown (hrules hprose) (fun s hs => ?_)
        fun r => ?_) .nil
      · rw [← h.lineOf_eq hplain hs, ← hline]
      · have hparent : r ∈ (b.tree.add { n with parent := some b.top }).ignoredRules key b.top ↔ _ :=
          Stands.mem_ignoredRules hlinked' hstands r
        rw [Position.ignores_iff, List.mem_append, List.mem_append, hparent, sectionRules,
          sectionRules, hsections]
    · exact .nil

theorem enter (h : Traced key render before b) {e : Event} {n : Node} {c : Container}
    (hkind : e.kind = .enter c) (hline : n.line = b.lineOf e)
    (hattributes : n.kind = .listItem → n.text = none → n.attributes = [])
    (htext : n.ownText = none) (houtlined : ∀ fs, Outlined b (awaiting before) fs →
      ∃ fs', Outlined (b.enter n) (decide (c = .item)) fs')
    (hrules : n.declaredRules key = (Opening.mk e []).names key) :
    Traced key render (before ++ [e]) (b.enter n) := by
  obtain ⟨fs, houtline⟩ := h.outlined
  obtain ⟨fs', houtlined'⟩ := houtlined fs houtline
  have hlinked' : (b.enter n).tree.Linked := houtlined'.invariant.numbered.linked
  obtain ⟨hbare, hstands, hsectioned, hmade⟩ :=
    h.grows (n := { n with parent := some b.top }) hlinked' hattributes
  have hsections : sectionsAround (before ++ [e]) = sectionsAround before :=
    sectionsAround_of_not_heading (by simp [hkind])
  have hprose : e.prose render = none := by rw [Event.prose, hkind]
  refine ⟨⟨fs', ?_⟩, ?_, hbare, ?_, ?_, ?_⟩
  · rw [awaiting_snoc, hkind]
    simpa using houtlined'
  · rw [entered_snoc, left_snoc, hkind, h.depth]
    simp [EventKind.isEnter, EventKind.isLeave, TreeBuilder.enter, Nat.add_assoc]
  · rw [openings_snoc, Opening.after, hkind, sectionRules, hsections]
    refine .inside (fun r => ?_) (fun s hs => ?_) ?_ (hstands.push ?_)
    · rw [← hrules, declaredRules, TreeBuilder.enter, TreeBuilder.addLeaf, node?_add_self]
      rfl
    · rw [TreeBuilder.enter, TreeBuilder.addLeaf, node?_add_self, Option.map_some, hline, lineOf]
      simp only at hs
      rw [hs]
    · rw [TreeBuilder.enter, TreeBuilder.addLeaf, parent?_add, if_pos rfl]
    · simp [hkind, EventKind.isParagraph]
  · rw [hsections]
    exact hsectioned
  · rw [show (b.enter n).tree.speakers = _ from speakers_add _ _, prosePositions_snoc, hprose,
      show ({ n with parent := some b.top } : Node).ownText = none from htext,
      Option.isSome_none, if_neg Bool.false_ne_true, if_neg Bool.false_ne_true, List.append_nil,
      List.append_nil]
    exact hmade

theorem leave (h : Traced key render before b) {e : Event} {c : Container} {last : TreeBuilder}
    (hkind : e.kind = .leave c) (hleave : b.leave? = some last) :
    Traced key render (before ++ [e]) last := by
  obtain ⟨fs, houtlined⟩ := h.outlined
  have houtlined' := houtlined.leave hleave
  have hsections : sectionsAround (before ++ [e]) = sectionsAround before :=
    sectionsAround_of_not_heading (by simp [hkind])
  have hprose : e.prose render = none := by rw [Event.prose, hkind]
  have hstands := h.stands
  have hdepth := h.depth
  unfold leave? at hleave
  cases hbelow : b.below with
  | nil => simp [hbelow] at hleave
  | cons i below =>
      obtain rfl : { b with top := i, below } = last := by simpa [hbelow] using hleave
      rw [stack, hbelow] at hstands
      rw [hbelow] at hdepth
      refine ⟨⟨b.tree.faces, ?_⟩, ?_, h.bare, ?_, ?_, ?_⟩
      · rw [awaiting_snoc, hkind]
        simpa using houtlined'
      · rw [entered_snoc, left_snoc, hkind, hdepth]
        simp only [EventKind.isEnter, EventKind.isLeave, List.length_cons]
        simp
        omega
      · rw [openings_snoc, Opening.after, hkind, sectionRules, hsections]
        generalize hopen : openings before = os at hstands
        cases hstands with
        | inside _ _ _ hrest =>
            refine hrest.push ?_
            simp [hkind, EventKind.isParagraph]
      · rw [hsections]
        exact h.sectioned
      · rw [prosePositions_snoc, hprose]
        simpa using h.made

theorem skip (h : Traced key render before b) {e : Event} (hkind : e.kind = .attributeLine) :
    Traced key render (before ++ [e]) b := by
  have hsections : sectionsAround (before ++ [e]) = sectionsAround before :=
    sectionsAround_of_not_heading (by simp [hkind])
  have hprose : e.prose render = none := by rw [Event.prose, hkind]
  obtain ⟨fs, houtlined⟩ := h.outlined
  refine ⟨⟨fs, ?_⟩, ?_, h.bare, ?_, ?_, ?_⟩
  · rw [awaiting_snoc, hkind]
    simpa using houtlined
  · rw [entered_snoc, left_snoc, hkind, h.depth]
    rfl
  · rw [openings_snoc, Opening.after, hkind, sectionRules, hsections]
    refine h.stands.push ?_
    simp [hkind, EventKind.isParagraph]
  · rw [hsections]
    exact h.sectioned
  · rw [prosePositions_snoc, hprose]
    simpa using h.made

theorem addSection (h : Traced key render before b) {e : Event} {level : Nat} {source : Text}
    {n : Node} (hkind : e.kind = .heading level source) (hlevel : 1 ≤ level)
    (hbelow : b.below = []) (hchildren : n.children = []) (hsect : n.kind = .sect)
    (hline : n.line = b.lineOf e) (htext : n.ownText = e.prose render)
    (hrules : n.declaredRules key = e.names key) :
    Traced key render (before ++ [e]) (b.addHeading level n) := by
  have hattributes : n.kind = .listItem → n.text = none → n.attributes = [] := by simp [hsect]
  obtain ⟨fs, houtlined⟩ := h.outlined
  have houtlined' := houtlined.addHeading level hchildren hsect
  have hlinked' : (b.addHeading level n).tree.Linked := houtlined'.invariant.numbered.linked
  have hprose : (e.prose render).isSome = true := by rw [Event.prose, hkind]; rfl
  obtain ⟨hclosed, s, hhead, hignored⟩ := h.sectioned.close hlevel
  have hadded : b.addHeading level n =
      { tree := b.tree.add { n with parent := some s.node }
        top := b.tree.size
        below := []
        sections := ⟨level, b.tree.size⟩ :: closeSections level b.sections } := by
    simp [addHeading, hbelow, hhead]
  rw [hadded] at hlinked' houtlined' ⊢
  obtain ⟨hbare, -, -, hmade⟩ :=
    h.grows (n := { n with parent := some s.node }) hlinked' hattributes
  have hsame := sameUpTo_add b.tree { n with parent := some s.node }
  have hmem : s ∈ b.sections :=
    (Invariant.closeSections_suffix level b.sections).subset (List.mem_of_mem_head? hhead)
  have hlt := (h.invariant.sections_open s hmem).lt_size
  have hopen : openings before = [] := by
    have hstands := h.stands
    rw [stack, hbelow] at hstands
    generalize openings before = os at hstands
    cases hstands with
    | outside => rfl
  have hopen' : openings (before ++ [e]) = [] := by
    rw [openings_snoc, hopen, Opening.after, hkind]
    rfl
  have htop : Position.topHeading? ⟨before, e⟩ = some (level, e) := by
    rw [h.topHeading?_eq, hkind, hbelow]
    rfl
  have hsections := sectionsAround_heading htop
  -- The heading is in the sections that it leaves open, and in its own.
  have hmadeHeading : Made (b.tree.add { n with parent := some s.node }) key render b.tree.size
      ⟨before, e⟩ := by
    refine made_add hlinked' rfl hprose htext hrules (fun t ht => ?_) fun r => ?_
    · rw [← h.lineOf_eq (by simp [hkind, EventKind.isParagraph]) ht, ← hline]
    · rw [hsame.ignoredRules_eq h.linked hlinked' hlt, Position.ignores_iff, List.mem_append,
        hignored, List.mem_append, List.mem_append, hopen, sectionRules, hsections,
        List.flatMap_cons, List.mem_append]
      simp
  have hrulesHeading : ∀ r, r ∈ (b.tree.add { n with parent := some s.node }).ignoredRules key
      b.tree.size ↔ r ∈ sectionRules key (before ++ [e]) := by
    intro r
    rw [hmadeHeading.mem_ignored, Position.ignores_iff, hopen, sectionRules, hsections,
      List.flatMap_cons]
    simp
  refine ⟨⟨b.tree.faces ++ [n.face], ?_⟩, ?_, hbare, ?_, ?_, ?_⟩
  · rw [awaiting_snoc, hkind]
    exact houtlined'
  · rw [entered_snoc, left_snoc, hkind, h.depth, hbelow]
    rfl
  · rw [hopen']
    exact .outside hrulesHeading
  · rw [sectionRules, hsections] at hrulesHeading
    rw [hsections]
    refine .inner rfl hrulesHeading (hclosed.same hsame h.linked hlinked' fun s hs => ?_)
    exact (h.invariant.sections_open s
      ((Invariant.closeSections_suffix level b.sections).subset hs)).lt_size
  · rw [speakers_add, prosePositions_snoc, if_pos hprose,
      show ({ n with parent := some s.node } : Node).ownText = _ from htext, if_pos hprose]
    exact List.rel_append hmade (.cons hmadeHeading .nil)

theorem absorb (h : Traced key render before b) {e : Event} {source : Text} {n : Node}
    (hkind : e.kind = .paragraph source) (hawaiting : awaiting before = true)
    (hchildren : n.children = []) :
    Traced key render (before ++ [e]) (b.addParagraph (render source) e.attributes n) := by
  obtain ⟨fs, houtlined⟩ := h.outlined
  rw [hawaiting] at houtlined
  have houtlined' := houtlined.addParagraph_awaited (render source) e.attributes hchildren
  have habsorbs : (b.tree.node? b.top).any takesParagraph = true := houtlined.awaits_top
  rw [addParagraph, if_pos habsorbs] at houtlined' ⊢
  have hlinked' := houtlined'.invariant.numbered.linked
  obtain ⟨m, hm, hitem, htext, hempty⟩ := DocumentTree.awaits_iff.1 houtlined.awaits_top
  have hlast : b.top + 1 = b.tree.size := h.invariant.top_open.eq_last h.invariant.numbered
    (by simp [DocumentTree.childrenOf, hm, hempty])
  have habsorbed := absorbs_modify hm hlast hitem htext
    (h.bare b.top m hm hitem htext) key (render source) e
  have hbare : ∀ i n, (b.tree.modify b.top fun m : Node => { m with
      text := some (render source), attributes := m.attributes.fill e.attributes }).node? i =
        some n → IsBare n := by
    intro i n hn
    rw [node?_modify, Option.map_eq_some_iff] at hn
    obtain ⟨n', hn', rfl⟩ := hn
    split
    · simp [IsBare]
    · exact h.bare i n' hn'
  simp only at hlinked'
  generalize b.tree.modify b.top (fun m : Node => { m with
    text := some (render source), attributes := m.attributes.fill e.attributes }) = t at *
  have hsections : sectionsAround (before ++ [e]) = sectionsAround before :=
    sectionsAround_of_not_heading (by simp [hkind])
  have hparagraph : e.kind.isParagraph = true := by rw [hkind]; rfl
  have hprose : e.prose render = some (render source) := by rw [Event.prose, hkind]
  have hopen' : openings (before ++ [e]) = (openings before).map (Opening.push e) := by
    rw [openings_snoc, Opening.after, hkind]
  -- The item is the innermost container.
  have hstands := h.stands
  rw [stack] at hstands
  generalize hbelow : b.below = below at hstands
  generalize hopen : openings before = os at hstands
  rw [awaiting, hopen] at hawaiting
  cases hstands with
  | outside => simp at hawaiting
  | @inside _ j is o os hrules hline hparent hrest =>
      have hawaits : o.awaits = true := by simpa using hawaiting
      have htail : ∀ o ∈ os, o.awaits = false := by
        simpa [hopen] using awaits_tail_openings before
      have hlower : ∀ i ∈ j :: is, i < b.top := by
        have hsorted := h.invariant.stack_sorted
        rw [stack, hbelow, List.pairwise_cons] at hsorted
        exact hsorted.1
      have hrest' := hrest.same habsorbed.same h.linked hlinked' hlower
      have hsections_lt : ∀ s ∈ b.sections, s.node < b.top := by
        intro s hs
        have := h.invariant.sections_le s hs j (by simp [stack, hbelow])
        have := hlower j (by simp)
        omega
      have hparent' : t.parent? b.top = some j := by rw [habsorbed.parent?_eq, hparent]
      refine ⟨⟨fs ++ [⟨.listItem, some (render source)⟩], ?_⟩, ?_, hbare, ?_, ?_, ?_⟩
      · rw [hbelow] at houtlined'
        rw [awaiting_snoc, hkind]
        exact houtlined'
      · rw [entered_snoc, left_snoc, hkind, h.depth, hbelow]
        rfl
      · rw [hopen', hopen, List.map_cons, stack, sectionRules, hsections]
        refine .inside (fun r => ?_) (fun s hs => ?_) hparent' (hrest'.push fun o ho _ => htail o ho)
        · rw [Opening.names_push_awaited hawaits hparagraph, habsorbed.declaredRules_eq]
        · rw [habsorbed.line_eq, hline s hs]
      · rw [hsections]
        exact h.sectioned.same habsorbed.same h.linked hlinked' hsections_lt
      · rw [habsorbed.speakers_eq, prosePositions_snoc, hprose]
        refine List.rel_append ?_ (.cons ⟨?_, ?_, fun s hs => ?_, fun r => ?_⟩ .nil)
        · refine h.made.imp fun i p hmade => hmade.same habsorbed.same h.linked hlinked' ?_
          have hlt := hmade.lt_size
          have hne : i ≠ b.top := by
            rintro rfl
            have hspeaks := hmade.speaks
            simp [DocumentTree.speaks, hm, Node.ownText, hitem, htext] at hspeaks
          omega
        · rw [DocumentTree.speaks, habsorbed.ownText_eq, Option.isSome_some]
        · rw [habsorbed.ownText_eq, hprose]
        · rw [habsorbed.line_eq]
          apply hline
          simpa [Position.token, hopen, hawaits, hparagraph] using hs
        · rw [hlinked'.ignoredRules_eq, hparent', habsorbed.declaredRules_eq, Option.elim_some,
            List.mem_append, hrest'.mem_ignoredRules hlinked', Position.ignores_iff, hopen,
            List.flatMap_cons, Opening.names_of_awaits hawaits, List.nil_append, sectionRules,
            sectionRules, hsections, ← List.mem_append]

/-- What the events of a well-formed stream satisfy: levels of headings count from one,
and items have no attributes. -/
structure WellFormed (e : Event) : Prop where
  one_le_level : ∀ level source, e.kind = .heading level source → 1 ≤ level
  item_attributes : e.kind = .enter .item → e.attributes = []

theorem step (h : Traced key render before b) {e : Event} (he : WellFormed e)
    {last : TreeBuilder} (hstep : b.step render e = some last) :
    Traced key render (before ++ [e]) last := by
  unfold TreeBuilder.step at hstep
  cases hkind : e.kind with
  | enter c =>
      cases c with
      | item =>
          simp only [hkind, Option.some.injEq] at hstep
          have hattributes := he.item_attributes hkind
          refine hstep ▸ h.enter hkind rfl (fun _ _ => hattributes) rfl
            (fun fs houtlined => ⟨_, houtlined.enterItem rfl rfl rfl⟩) ?_
          simp [Node.declaredRules, hattributes, Opening.names, hkind, leadingParagraph?,
            Attributes.get?]
          rfl
      | _ =>
          simp only [hkind, Option.some.injEq] at hstep
          refine hstep ▸ h.enter hkind rfl (by simp [Node.bare]) rfl
            (fun fs houtlined => ⟨_, houtlined.enter rfl (by simp [Node.bare])⟩) ?_
          simp [Node.declaredRules, Opening.names, hkind, Event.names]
  | leave c =>
      simp only [hkind] at hstep
      exact h.leave hkind hstep
  | heading level source =>
      simp only [hkind, Option.some.injEq] at hstep
      cases hbelow : b.below with
      | nil =>
          exact hstep ▸ h.addSection hkind (he.one_le_level level source hkind) hbelow rfl rfl rfl
            (by simp [Event.prose, hkind, Node.ownText, Node.bare]) rfl
      | cons i below =>
          rw [addHeading, hbelow, List.isEmpty_cons, if_neg Bool.false_ne_true] at hstep
          refine hstep ▸ h.addLeaf (by simp [hkind, EventKind.isEnter])
            (by simp [hkind, EventKind.isLeave]) (by simp [hkind]) ?_
            (by simp [hkind, EventKind.isParagraph]) rfl rfl (by simp [Node.bare])
            (by simp [Event.prose, hkind, Node.ownText, Node.bare]) fun _ => rfl
          rw [h.topHeading?_eq, hkind, hbelow]
          rfl
  | paragraph source =>
      simp only [hkind, Option.some.injEq] at hstep
      cases hawaiting : awaiting before with
      | true => exact hstep ▸ h.absorb hkind hawaiting rfl
      | false =>
          obtain ⟨fs, houtlined⟩ := h.outlined
          have habsorbs : (b.tree.node? b.top).any takesParagraph = false := by
            rw [← hawaiting]
            exact houtlined.awaits_top
          rw [addParagraph, habsorbs, if_neg Bool.false_ne_true] at hstep
          exact hstep ▸ h.addLeaf (by simp [hkind, EventKind.isEnter])
            (by simp [hkind, EventKind.isLeave]) (by simp [hkind])
            (by rw [h.topHeading?_eq, hkind]) (fun _ => hawaiting) rfl rfl (by simp [Node.bare])
            (by simp [Event.prose, hkind, Node.ownText, Node.bare]) fun _ => rfl
  | cell source | html content =>
      simp only [hkind, Option.some.injEq] at hstep
      exact hstep ▸ h.addLeaf (by simp [hkind, EventKind.isEnter])
        (by simp [hkind, EventKind.isLeave]) (by simp [hkind]) (by rw [h.topHeading?_eq, hkind])
        (by simp [hkind, EventKind.isParagraph]) rfl rfl (by simp [Node.bare])
        (by simp [Event.prose, hkind, Node.ownText, Node.bare]) fun _ => rfl
  | literal =>
      simp only [hkind, Option.some.injEq] at hstep
      exact hstep ▸ h.addLeaf (by simp [hkind, EventKind.isEnter])
        (by simp [hkind, EventKind.isLeave]) (by simp [hkind]) (by rw [h.topHeading?_eq, hkind])
        (by simp [hkind, EventKind.isParagraph]) rfl rfl (by simp [Node.bare])
        (by simp [Event.prose, hkind, Node.ownText, Node.bare]) (by simp [Event.prose, hkind])
  | attributeLine =>
      simp only [hkind, Option.some.injEq] at hstep
      exact hstep ▸ h.skip hkind

theorem run (h : Traced key render before b) {es : List Event} (hes : ∀ e ∈ es, WellFormed e)
    {last : TreeBuilder} (hrun : b.run render es = some last) :
    Traced key render (before ++ es) last := by
  induction es generalizing before b with
  | nil =>
      obtain rfl : b = last := by simpa [TreeBuilder.run] using hrun
      simpa using h
  | cons e es ih =>
      rw [run_cons, Option.bind_eq_some_iff] at hrun
      obtain ⟨b', hstep, hrest⟩ := hrun
      simp only [List.forall_mem_cons] at hes
      rw [List.append_cons]
      exact ih (h.step hes.1 hstep) hes.2 hrest

end Traced

end TreeBuilder

/-! ## Walking -/

namespace DocumentTree

def linesAt (t : DocumentTree) (key : Text) (i : Nat) : List ProseLine :=
  (t.nodeLines key i).toOption.getD []

theorem linesAt_eq_nil {t : DocumentTree} {key : Text} {i : Nat} (h : t.speaks i = false) :
    t.linesAt key i = [] := by
  rw [linesAt, nodeLines]
  cases hn : t.node? i with
  | none => rfl
  | some n =>
      have hnone : n.ownText = none := by simpa [speaks, hn] using h
      simp only [hnone]
      rfl

theorem walk_eq_flatMap_speakers {t : DocumentTree} (hnumbered : t.Numbered)
    (hgrounded : t.Grounded) (key : Text) :
    t.walk key = .ok (t.speakers.flatMap (t.linesAt key)) := by
  rw [walk_eq_ok_iff]
  refine ⟨?_, fun i hi => ?_, ?_⟩
  · exact List.length_pos_iff.1 hnumbered.size_pos
  · rw [hnumbered.preorder_eq, List.mem_range] at hi
    obtain ⟨n, hn⟩ := node?_of_lt hi
    obtain ⟨lines, hlines, -⟩ := nodeLines_of_node? key hn (hgrounded i n hn)
    exact ⟨lines, hlines⟩
  · rw [placedLines, hnumbered.preorder_eq, List.map_flatMap, speakers]
    induction List.range t.size with
    | nil => rfl
    | cons i is ih =>
        rw [List.filter_cons, List.flatMap_cons, List.map_map, ← ih]
        cases hspeaks : t.speaks i with
        | false =>
            have hempty : (t.nodeLines key i).toOption.getD [] = [] := linesAt_eq_nil hspeaks
            simp [hempty]
        | true => simp [linesAt, Function.comp_def]

end DocumentTree

/-- The lines that a document has for an event with a text. -/
structure Position.HasLines (key : Text) (render : Text → Text) (p : Position)
    (lines : List ProseLine) : Prop where
  texts_eq : lines.map (·.location.text) =
    (p.event.prose render).elim [] DocumentTree.textLines
  mem_ignored : ∀ line ∈ lines, ∀ r, r ∈ line.ignored ↔ p.Ignores key r
  lines_eq : ∀ s, p.token.span = some s →
    lines.map (·.location.line) = List.range' (s.first + 1) lines.length

namespace DocumentTree

theorem Made.hasLines {t : DocumentTree} {key : Text} {render : Text → Text} {i : Nat}
    {p : Position} (h : Made t key render i p) (hgrounded : t.Grounded) :
    p.HasLines key render (t.linesAt key i) := by
  obtain ⟨n, hn⟩ := node?_of_lt h.lt_size
  obtain ⟨lines, hlines, htexts, hnumbers⟩ := nodeLines_of_node? key hn (hgrounded i n hn)
  have hown := h.ownText_eq
  rw [hn, Option.bind_some] at hown
  have heq : t.linesAt key i = lines := by rw [linesAt, hlines]; rfl
  rw [heq]
  refine ⟨by rw [htexts, hown], fun line hmem r => ?_, fun s hs => ?_⟩
  · rw [ignored_of_mem_nodeLines hlines hmem, h.mem_ignored]
  · have hfirst := h.line_eq s hs
    rw [hn, Option.map_some, Option.some.injEq] at hfirst
    rw [hnumbers, hfirst]
    rfl

theorem exists_groups (path : Path) (render : Text → Text) (key : Text) {es : List Event}
    (h : Balanced es) (hitems : ∀ e ∈ es, e.kind = .enter .item → e.attributes = []) :
    ∃ t groups, ofEvents? path render es = some t ∧ t.walk key = .ok groups.flatten ∧
      List.Forall₂ (Position.HasLines key render) (TreeBuilder.prosePositions render es)
        groups := by
  obtain ⟨last, hrun, -⟩ := TreeBuilder.run_balanced render h (TreeBuilder.start path)
  have htraced := (TreeBuilder.Traced.start key render path).run
    (fun e he => ⟨h.one_le_level e he, hitems e he⟩) hrun
  have hgrounded := (TreeBuilder.grounded_start path).run hrun
  refine ⟨last.tree, last.tree.speakers.map (last.tree.linesAt key), ?_, ?_, ?_⟩
  · rw [ofEvents?, hrun, Option.map_some]
  · rw [walk_eq_flatMap_speakers htraced.invariant.numbered hgrounded, List.flatMap]
  · rw [List.forall₂_map_right_iff]
    have hmade := htraced.made
    rw [List.nil_append] at hmade
    exact hmade.flip.imp fun _ _ hmade => hmade.hasLines hgrounded

/-- The lines of every block ignore what the nesting of the stream prescribes. -/
theorem walk_ignored (path : Path) (render : Text → Text) (key : Text) {es : List Event}
    (h : Balanced es) (hitems : ∀ e ∈ es, e.kind = .enter .item → e.attributes = []) :
    ∃ t groups, ofEvents? path render es = some t ∧ t.walk key = .ok groups.flatten ∧
      List.Forall₂ (fun (p : Position) (lines : List ProseLine) =>
        lines.map (·.location.text) = (p.event.prose render).elim [] textLines ∧
          ∀ line ∈ lines, ∀ r, r ∈ line.ignored ↔ p.Ignores key r)
        (TreeBuilder.prosePositions render es) groups := by
  obtain ⟨t, groups, ht, hwalk, hgroups⟩ := exists_groups path render key h hitems
  exact ⟨t, groups, ht, hwalk,
    hgroups.imp fun _ _ hlines => ⟨hlines.texts_eq, hlines.mem_ignored⟩⟩

/-- Two sections, and a list whose first item holds a quotation with a heading. -/
theorem walk_ignored_nested :
    let naming (rule : Text) (e : Event) : Event := { e with attributes := [("ignore", rule)] }
    let quotation := Event.wrap .quote 4 7 [("ignore", "QUOTE")]
      [naming "INNER" (.block (.heading 1 "figs") 4 5), .block (.paragraph "plums") 6 7]
    let items :=
      Event.wrap .item 3 7 [] (naming "ITEM" (.block (.paragraph "pears") 3 4) :: quotation) ++
        Event.wrap .item 7 8 [] [.block (.paragraph "limes") 7 8]
    let es := naming "TOP" (.block (.heading 1 "fruit") 0 1) ::
      naming "SUB" (.block (.heading 2 "fresh") 1 2) ::
      (Event.wrap .bulletList 3 8 [("ignore", "LIST")] items ++
        [.block (.heading 2 "dried") 8 9, naming "LAST" (.block (.paragraph "dates") 10 11)])
    ∃ t groups, ofEvents? (Path.ofText "fruit.md") id es = some t ∧
      t.walk "ignore" = .ok groups.flatten ∧
      groups.flatten.map (fun line => (line.location.text, line.ignored)) =
        ([("fruit", ["TOP"]), ("fresh", ["SUB", "TOP"]), ("pears", ["ITEM", "LIST", "SUB", "TOP"]),
          ("figs", ["INNER", "QUOTE", "ITEM", "LIST", "SUB", "TOP"]),
          ("plums", ["QUOTE", "ITEM", "LIST", "SUB", "TOP"]), ("limes", ["LIST", "SUB", "TOP"]),
          ("dried", ["TOP"]), ("dates", ["LAST", "TOP"])] : List (Text × List Text)) ∧
      List.Forall₂ (fun (p : Position) (lines : List ProseLine) =>
        lines.map (·.location.text) = (p.event.prose id).elim [] textLines ∧
          ∀ line ∈ lines, ∀ r, r ∈ line.ignored ↔ p.Ignores "ignore" r)
        (TreeBuilder.prosePositions id es) groups := by
  intro naming quotation items es
  have hquotation : Balanced quotation :=
    Balanced.wrap _ _ _ _ (.block (Nat.le_refl 1) (.block trivial .nil))
  have hfirst : Balanced (naming "ITEM" (.block (.paragraph "pears") 3 4) :: quotation) :=
    .block trivial hquotation
  have hitems : Balanced items :=
    (hfirst.wrap .item 3 7 []).append (Balanced.wrap .item 7 8 [] (.block trivial .nil))
  have hlast : Balanced
      [.block (.heading 2 "dried") 8 9, naming "LAST" (.block (.paragraph "dates") 10 11)] := by
    refine .block (Nat.le_succ 1) (.block ?_ .nil)
    trivial
  have hbalanced : Balanced es := .block (Nat.le_refl 1) (.block (Nat.le_succ 1)
    ((hitems.wrap .bulletList 3 8 _).append hlast))
  obtain ⟨t, groups, ht, hwalk, hgroups⟩ :=
    walk_ignored (Path.ofText "fruit.md") id "ignore" hbalanced (by decide)
  have hlines : ((ofEvents? (Path.ofText "fruit.md") id es).bind fun t =>
      (t.walk "ignore").toOption.map fun lines =>
        lines.map fun line => (line.location.text, line.ignored)) =
      some ([("fruit", ["TOP"]), ("fresh", ["SUB", "TOP"]),
        ("pears", ["ITEM", "LIST", "SUB", "TOP"]),
        ("figs", ["INNER", "QUOTE", "ITEM", "LIST", "SUB", "TOP"]),
        ("plums", ["QUOTE", "ITEM", "LIST", "SUB", "TOP"]), ("limes", ["LIST", "SUB", "TOP"]),
        ("dried", ["TOP"]), ("dates", ["LAST", "TOP"])] : List (Text × List Text)) := by
    decide +kernel
  rw [ht, Option.bind_some, hwalk] at hlines
  exact ⟨t, groups, ht, hwalk, Option.some.inj hlines, hgroups⟩

end DocumentTree

end Proofreader
