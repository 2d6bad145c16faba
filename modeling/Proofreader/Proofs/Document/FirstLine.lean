import Proofreader.Proofs.Document.Range
import Proofreader.Proofs.Markdown.Drawn

/-!
# The lines that texts begin on

The lines of a text are counted from the first line of the block that it was rendered
from, and those of a cell from the line of its row.  Only the paragraph that an item
begins with is counted from the line of the item, also where it stands further down.
-/

namespace Proofreader

open Markdown

/-! ## Where texts begin -/

namespace Position

/-- The lines of the block that a text is rendered from; a cell has those of its row. -/
inductive RenderedFrom (p : Position) : LineSpan → Prop where
  | block {s : LineSpan} (hkind : ∀ source, p.event.kind ≠ .cell source)
      (hspan : p.event.span = some s) : RenderedFrom p s
  | cell {source : Text} {row : Opening} {s : LineSpan} (hkind : p.event.kind = .cell source)
      (hinnermost : EnclosesAt p.before 0 row) (hrow : row.first.kind = .enter .row)
      (hspan : row.first.span = some s) : RenderedFrom p s

def Leads (p : Position) (s : LineSpan) : Prop :=
  (∃ source, p.event.kind = .paragraph source) ∧
    ∃ item, EnclosesAt p.before 0 item ∧ item.first.kind = .enter .item ∧
      (∀ e ∈ item.since, e.kind = .attributeLine) ∧ item.first.span = some s

/-- The line that the lines of a text are counted from. -/
inductive CountsFrom (p : Position) : Nat → Prop where
  | own {s : LineSpan} (hfrom : p.RenderedFrom s) (hleads : ∀ item, ¬ p.Leads item) :
      CountsFrom p s.first
  | item {s item : LineSpan} (hfrom : p.RenderedFrom s) (hleads : p.Leads item)
      (hle : item.first ≤ s.first) : CountsFrom p item.first

theorem Leads.awaiting {p : Position} {s : LineSpan} (h : p.Leads s) :
    awaiting p.before = true ∧ p.event.kind.isParagraph = true := by
  obtain ⟨⟨source, hkind⟩, item, hinnermost, hitem, hsince, -⟩ := h
  refine ⟨?_, by rw [hkind]; rfl⟩
  have hopen := getElem?_openings.2 hinnermost
  rw [Proofreader.awaiting, List.head?_eq_getElem?, hopen, Option.any_some, Opening.awaits, hitem]
  simpa using hsince

theorem countsFrom_of_not_awaited {before : List Event} {e : Event} {s : LineSpan}
    (hkind : ∀ source, e.kind ≠ .cell source) (hspan : e.span = some s)
    (hawaits : (awaiting before && e.kind.isParagraph) = false) :
    (Position.token ⟨before, e⟩).span = some s ∧ (Position.mk before e).CountsFrom s.first := by
  refine ⟨?_, .own (.block hkind hspan) fun item hleads => ?_⟩
  · rw [token]
    cases hopen : openings before with
    | nil => exact hspan
    | cons o os =>
        rw [awaiting, hopen, List.head?_cons, Option.any_some] at hawaits
        simp [hawaits, hspan]
  · obtain ⟨hawaiting, hparagraph⟩ := hleads.awaiting
    simp only at hawaiting hparagraph
    simp [hawaiting, hparagraph] at hawaits

theorem countsFrom_of_awaited {before : List Event} {e : Event} {own : LineSpan} {lo hi : Nat}
    (hspan : e.span = some own) (haround : Around before lo hi) (hlo : lo ≤ own.first)
    (hawaits : (awaiting before && e.kind.isParagraph) = true) :
    ∃ s, (Position.token ⟨before, e⟩).span = some s ∧
      (Position.mk before e).CountsFrom s.first := by
  obtain ⟨o, os, s, hopen, hs, hfirst, -⟩ := haround
  obtain ⟨hawaiting, hparagraph⟩ := Bool.and_eq_true_iff.1 hawaits
  rw [awaiting, hopen, List.head?_cons, Option.any_some] at hawaiting
  obtain ⟨hitem, hsince⟩ := Bool.and_eq_true_iff.1 hawaiting
  obtain ⟨source, hkind⟩ : ∃ source, e.kind = .paragraph source := by
    cases hkind : e.kind <;> simp [hkind, EventKind.isParagraph] at hparagraph
    exact ⟨_, rfl⟩
  have hleads : (Position.mk before e).Leads s :=
    ⟨⟨source, hkind⟩, o, getElem?_openings.1 (by rw [hopen]; rfl), by simpa using hitem,
      by simpa using hsince, hs⟩
  refine ⟨s, ?_, .item (.block (by simp [hkind]) hspan) hleads (by omega)⟩
  rw [token, hopen]
  simp [hawaiting, hparagraph, hs]

end Position

def InRow (before : List Event) : Prop :=
  ∃ o os, openings before = o :: os ∧ o.first.kind = .enter .row

theorem Markdown.Laid.exists_countsFrom {m : Content} {lo hi : Nat} {es : List Event}
    (h : Laid m lo hi es) (hdrawn : AllDrawn es) (render : Text → Text) {before : List Event}
    {floor : Nat} (hfloor : floor ≤ lo) (hready : m.Ready floor hi before)
    (hrow : m = .cells → InRow before) :
    ∀ p ∈ textsFrom render before es, ∃ s, p.token.span = some s ∧ p.CountsFrom s.first := by
  induction h generalizing before floor with
  | nil h => simp [textsFrom, positionsFrom]
  | @block lo first stop hi e rest hkind hspan hfirst hlines hrest ih =>
      obtain ⟨henter, hleave⟩ := hkind.stays
      obtain ⟨he, hdrawn⟩ := List.forall_mem_cons.1 hdrawn
      have hcell : ∀ source, e.kind ≠ .cell source := fun source hcell => by
        simp [he.cell source hcell] at hspan
      have hlater : ∀ p ∈ textsFrom render (before ++ [e]) rest,
          ∃ s, p.token.span = some s ∧ p.CountsFrom s.first := by
        refine ih hdrawn (show floor ≤ stop by omega) (fun hawaiting => ?_) (by simp)
        have hitem : e.kind ≠ .enter .item := fun heq => by simp [heq, EventKind.isEnter] at henter
        rw [awaiting_snoc] at hawaiting
        simp only [hitem, decide_false, Bool.false_or, Bool.and_eq_true] at hawaiting
        exact (hready hawaiting.2).snoc henter hleave
      cases hprose : e.prose render with
      | none => exact textsFrom_cons_of_none render hprose before rest ▸ hlater
      | some text =>
          rw [textsFrom_cons_of_isSome render (by rw [hprose]; rfl), List.forall_mem_cons]
          refine ⟨?_, hlater⟩
          cases hawaits : awaiting before && e.kind.isParagraph with
          | false => exact ⟨_, Position.countsFrom_of_not_awaited hcell hspan hawaits⟩
          | true =>
              exact Position.countsFrom_of_awaited hspan
                (hready (Bool.and_eq_true_iff.1 hawaits).1) (by simp only; omega) hawaits
  | @container m c lo first stop hi e last inside rest hplace hkind hspan hattributes hlast hfirst
      hinside hrest ihinside ih =>
      rw [List.cons_append] at hdrawn ⊢
      obtain ⟨-, hdrawn⟩ := List.forall_mem_cons.1 hdrawn
      obtain ⟨hdrawnInside, hdrawn⟩ := List.forall_mem_append.1 hdrawn
      obtain ⟨-, hdrawnRest⟩ := List.forall_mem_cons.1 hdrawn
      subst hplace
      rw [textsFrom_cons_of_none _ (by simp [Event.prose, hkind]), textsFrom_append,
        textsFrom_cons_of_none _ (by simp [Event.prose, hlast]), List.forall_mem_append]
      refine ⟨ihinside hdrawnInside (Nat.le_refl _) (c.ready_enter before hkind hspan) fun hcells => ?_,
        ih hdrawnRest (Nat.le_refl _) (c.ready_leave (before ++ [e] ++ inside) hlast stop hi)
          (by cases c <;> simp [Container.place])⟩
      refine ⟨⟨e, []⟩, _, by rw [openings_snoc, Opening.after, hkind], ?_⟩
      cases c <;> simp [Container.content] at hcells
      exact hkind
  | @cell lo hi e rest source hkind hspan hsource hlt hrest ih =>
      obtain ⟨-, hdrawn⟩ := List.forall_mem_cons.1 hdrawn
      have henter : e.kind.isEnter = false := by simp [hkind, EventKind.isEnter]
      have hleave : e.kind.isLeave = false := by simp [hkind, EventKind.isLeave]
      obtain ⟨o, os, hopen, hinrow⟩ := hrow rfl
      obtain ⟨o', os', s, hopen', hs, -⟩ := id hready
      obtain ⟨rfl, rfl⟩ := List.cons.inj (hopen.symm.trans hopen')
      have hcounts : (Position.mk before e).CountsFrom s.first := by
        refine .own (.cell hkind (getElem?_openings.1 (by rw [hopen]; rfl)) hinrow hs) ?_
        rintro item ⟨⟨source', hparagraph⟩, -⟩
        simp [hkind] at hparagraph
      rw [textsFrom_cons_of_isSome _ (by simp [Event.prose, hkind]), List.forall_mem_cons]
      refine ⟨⟨s, by simp [Position.token, hopen, hspan, hs], hcounts⟩,
        ih hdrawn hfloor (Around.snoc hready henter hleave) fun _ => ?_⟩
      exact ⟨o.push e, os.map (Opening.push e),
        by rw [openings_snoc_of_isBlock henter hleave, hopen, List.map_cons], hinrow⟩

namespace Document

/-- The lines of a text are counted from the first line of the block it was rendered from,
or if an item begins with the block from that of the item, which does not come later. -/
theorem walk_first_lines {path : Path} {source : Text} {t : DocumentTree} (key : Text)
    (h : load path source = .ok t) :
    let read := readSource source
    let render := Inline.renderText read.definitions
    ∃ groups, t.walk key = .ok groups.flatten ∧
      List.Forall₂ (fun (p : Position) (lines : List ProseLine) =>
        lines.map (·.location.text) = (p.event.prose render).elim [] DocumentTree.textLines ∧
          ∃ first, p.CountsFrom first ∧
            lines.map (·.location.line) = List.range' (first + 1) lines.length)
        (TreeBuilder.prosePositions render read.events) groups := by
  intro read render
  obtain ⟨groups, hwalk, hgroups⟩ := exists_groups key h
  have hcounts : ∀ p ∈ TreeBuilder.prosePositions render read.events,
      ∃ s, p.token.span = some s ∧ p.CountsFrom s.first :=
    (readSource_fits source).laid.exists_countsFrom (allDrawn_readSource source) render
      (Nat.le_refl 0) (fun hawaiting => by simp [awaiting, openings] at hawaiting) (by simp)
  refine ⟨groups, hwalk, ((List.forall₂_and_left _ _).2 ⟨hcounts, hgroups⟩).imp ?_⟩
  rintro p lines ⟨⟨s, hs, hfirst⟩, hlines⟩
  exact ⟨hlines.texts_eq, s.first, hfirst, hlines.lines_eq s hs⟩

/-- An item that begins in the line of its mark, one that begins in the next line, and a
table with a row. -/
theorem walk_first_lines_limes :
    let source : Text := "# Figs\n\n* pears\n\n-\n  limes\n\n| a |\n|---|\n| b |\n".toList
    let read := readSource source
    let render := Inline.renderText read.definitions
    ∃ t groups, load (Path.ofText "doc.md") source = .ok t ∧ t.walk "ignore" = .ok groups.flatten ∧
      groups.flatten.map (·.location.line) = [1, 3, 5, 8, 10] ∧
      List.Forall₂ (fun (p : Position) (lines : List ProseLine) =>
        ∃ first, p.CountsFrom first ∧
          lines.map (·.location.line) = List.range' (first + 1) lines.length)
        (TreeBuilder.prosePositions render read.events) groups := by
  intro source read render
  have h : ((load (Path.ofText "doc.md") source).toOption.bind fun t =>
      (t.walk "ignore").toOption.map fun lines => lines.map (·.location.line)) =
      some [1, 3, 5, 8, 10] := by
    decide +kernel
  obtain ⟨t, lines, hload, hlines, hnumbers⟩ := exists_walk h
  obtain ⟨groups, hwalk, hgroups⟩ := walk_first_lines "ignore" hload
  obtain rfl := Except.ok.inj (hlines.symm.trans hwalk)
  exact ⟨t, groups, hload, hwalk, hnumbers, hgroups.imp fun _ _ hlines => hlines.2⟩

/-- A paragraph in the second line that is reported in the first, that of the mark. -/
theorem exists_text_before_block :
    let source : Text := "-\n  foo".toList
    let read := readSource source
    ∃ t lines p, load (Path.ofText "doc.md") source = .ok t ∧ t.walk "ignore" = .ok lines ∧
      lines.map (fun line => (line.location.line, line.location.text)) = [(1, "foo".toList)] ∧
      p ∈ TreeBuilder.prosePositions (Inline.renderText read.definitions) read.events ∧
      p.event.kind = .paragraph "foo" ∧ p.RenderedFrom ⟨1, 2⟩ := by
  intro source read
  have h : ((load (Path.ofText "doc.md") source).toOption.bind fun t =>
      (t.walk "ignore").toOption.map fun lines =>
        lines.map fun line => (line.location.line, line.location.text)) =
      some [(1, "foo".toList)] := by
    decide +kernel
  have hprose : (TreeBuilder.prosePositions (Inline.renderText read.definitions) read.events).map
      (·.event) = [.block (.paragraph "foo") 1 2] := by
    decide +kernel
  obtain ⟨t, lines, hload, hwalk, hlines⟩ := exists_walk h
  obtain ⟨p, hmem, hevent⟩ : ∃ p ∈ TreeBuilder.prosePositions
      (Inline.renderText read.definitions) read.events, p.event = .block (.paragraph "foo") 1 2 := by
    rw [← List.mem_map, hprose]
    exact List.mem_singleton_self _
  refine ⟨t, lines, p, hload, hwalk, hlines, hmem, by rw [hevent]; rfl, .block ?_ ?_⟩
  · simp [hevent, Event.block]
  · rw [hevent]
    rfl

end Document

end Proofreader
