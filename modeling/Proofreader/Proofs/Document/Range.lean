import Proofreader.Document.Load
import Proofreader.Proofs.Document.Provenance
import Proofreader.Proofs.Markdown.Blocks
import Proofreader.Proofs.Markdown.Reading
import Proofreader.Proofs.Text.Lines

/-!
# The range of line numbers

The lines of a text are numbered from the first line of the block on.  In a stream that
is laid out over lines they stay inside of the block and never go back, so long as no text
is rendered with more line breaks than it has.
-/

namespace Proofreader

open Markdown

/-! ## Positions of texts -/

/-- The positions of texts, one below the other between `lo` and `hi`. -/
structure Placed (lo hi : Nat) (ps : List Position) : Prop where
  on_lines : ∀ p ∈ ps, ∃ s, p.token.span = some s ∧ lo ≤ s.first ∧
    s.first + Text.breaks p.event.kind.source < hi ∧
    s.first + Text.breaks p.event.kind.source < s.stop
  ordered : ps.Pairwise fun p q => ∀ s s', p.token.span = some s → q.token.span = some s' →
    s.first + Text.breaks p.event.kind.source ≤ s'.first

namespace Placed

variable {lo mid hi : Nat} {p : Position} {ps qs : List Position}

theorem nil (lo hi : Nat) : Placed lo hi [] := ⟨by simp, .nil⟩

theorem append (hp : Placed lo mid ps) (hq : Placed mid hi qs) (hlo : lo ≤ mid) (hhi : mid ≤ hi) :
    Placed lo hi (ps ++ qs) := by
  constructor
  · intro p hmem
    rcases List.mem_append.1 hmem with hmem | hmem
    · obtain ⟨s, hs, hfirst, hlt, hstop⟩ := hp.on_lines p hmem
      exact ⟨s, hs, hfirst, by omega, hstop⟩
    · obtain ⟨s, hs, hfirst, hlt, hstop⟩ := hq.on_lines p hmem
      exact ⟨s, hs, by omega, hlt, hstop⟩
  · refine List.pairwise_append.2 ⟨hp.ordered, hq.ordered, fun p hpmem q hqmem s s' hs hs' => ?_⟩
    obtain ⟨t, ht, -, hlt, -⟩ := hp.on_lines p hpmem
    obtain ⟨t', ht', hfirst, -, -⟩ := hq.on_lines q hqmem
    obtain rfl : s = t := by simpa [hs] using ht
    obtain rfl : s' = t' := by simpa [hs'] using ht'
    omega

theorem mono {lo' : Nat} (h : Placed lo hi ps) (hlo : lo' ≤ lo) : Placed lo' hi ps :=
  ⟨fun p hp =>
    have ⟨s, hs, hfirst, hlt, hstop⟩ := h.on_lines p hp
    ⟨s, hs, hlo.trans hfirst, hlt, hstop⟩, h.ordered⟩

theorem cons {s : LineSpan} (hs : p.token.span = some s) (hfirst : lo ≤ s.first)
    (hmid : s.first + Text.breaks p.event.kind.source ≤ mid)
    (hhi : s.first + Text.breaks p.event.kind.source < hi)
    (hstop : s.first + Text.breaks p.event.kind.source < s.stop) (hlo : lo ≤ mid)
    (h : Placed mid hi ps) : Placed lo hi (p :: ps) := by
  constructor
  · rw [List.forall_mem_cons]
    refine ⟨⟨s, hs, hfirst, hhi, hstop⟩, fun q hq => ?_⟩
    obtain ⟨t, ht, hle, hlt, hstop'⟩ := h.on_lines q hq
    exact ⟨t, ht, by omega, hlt, hstop'⟩
  · refine List.pairwise_cons.2 ⟨fun q hq s' t hs' ht => ?_, h.ordered⟩
    obtain ⟨t', ht', hle, -, -⟩ := h.on_lines q hq
    obtain rfl : s = s' := by simpa [hs] using hs'
    obtain rfl : t = t' := by simpa [ht] using ht'
    omega

end Placed

/-! ## Stretches of a stream -/

theorem event_mem_of_mem_prosePositions {render : Text → Text} {es : List Event} {p : Position}
    (h : p ∈ TreeBuilder.prosePositions render es) : p.event ∈ es :=
  event_mem_of_mem_positionsFrom (List.mem_filter.1 h).1

section

variable (render : Text → Text)

def textsFrom (before es : List Event) : List Position :=
  (positionsFrom before es).filter fun p => (p.event.prose render).isSome

theorem textsFrom_append (before es es' : List Event) :
    textsFrom render before (es ++ es') =
      textsFrom render before es ++ textsFrom render (before ++ es) es' := by
  rw [textsFrom, positionsFrom_append, List.filter_append, textsFrom, textsFrom]

theorem textsFrom_cons_of_none {e : Event} (h : e.prose render = none) (before es : List Event) :
    textsFrom render before (e :: es) = textsFrom render (before ++ [e]) es := by
  simp [textsFrom, positionsFrom, h]

theorem textsFrom_cons_of_isSome {e : Event} (h : (e.prose render).isSome = true)
    (before es : List Event) :
    textsFrom render before (e :: es) = ⟨before, e⟩ :: textsFrom render (before ++ [e]) es := by
  simp [textsFrom, positionsFrom, h]

end

theorem Markdown.EventKind.IsBlock.stays {kind : EventKind} (h : kind.IsBlock) :
    kind.isEnter = false ∧ kind.isLeave = false := by
  cases kind with
  | enter c | leave c => exact h.elim
  | _ => exact ⟨rfl, rfl⟩

def Around (before : List Event) (lo hi : Nat) : Prop :=
  ∃ o os s, openings before = o :: os ∧ o.first.span = some s ∧ s.first = lo ∧ hi ≤ s.stop

theorem Around.snoc {before : List Event} {lo hi : Nat} (h : Around before lo hi) {e : Event}
    (henter : e.kind.isEnter = false) (hleave : e.kind.isLeave = false) :
    Around (before ++ [e]) lo hi := by
  obtain ⟨o, os, s, hopen, hs, hfirst, hstop⟩ := h
  exact ⟨o.push e, os.map (Opening.push e), s,
    by rw [openings_snoc_of_isBlock henter hleave, hopen, List.map_cons], hs, hfirst, hstop⟩

/-- What has to be open where a stretch of a stream begins: a text that is given the lines
of the container around it finds them there. -/
def Markdown.Content.Ready (lo hi : Nat) (before : List Event) : Content → Prop
  | .blocks => awaiting before = true → Around before lo hi
  | .items => awaiting before = false
  | .cells => Around before lo hi

theorem Markdown.Container.ready_enter (c : Container) (before : List Event) {e : Event}
    {first stop : Nat} (hkind : e.kind = .enter c) (hspan : e.span = some ⟨first, stop⟩) :
    c.content.Ready first stop (before ++ [e]) := by
  have hopen : Around (before ++ [e]) first stop :=
    ⟨⟨e, []⟩, _, ⟨first, stop⟩, by rw [openings_snoc, Opening.after, hkind], hspan, rfl,
      Nat.le_refl _⟩
  have hawaiting : c ≠ .item → awaiting (before ++ [e]) = false := fun hitem => by
    simp [awaiting_snoc, hkind, hitem]
  cases c
  case bulletList | orderedList => exact hawaiting (by simp)
  case row => exact hopen
  all_goals exact fun _ => hopen

theorem Markdown.Container.ready_leave (c : Container) (before : List Event) {c' : Container}
    {e : Event} (hkind : e.kind = .leave c') (lo hi : Nat) :
    c.place.Ready lo hi (before ++ [e]) := by
  have hawaiting : awaiting (before ++ [e]) = false := by
    rw [awaiting_snoc, hkind]
    rfl
  cases c
  case item => exact hawaiting
  all_goals exact fun h => Bool.noConfusion (hawaiting.symm.trans h)

theorem span_token {before : List Event} {lo hi : Nat} {e : Event} {own : LineSpan}
    (hready : Content.Ready lo hi before .blocks) (hspan : e.span = some own)
    (hlo : lo ≤ own.first) (hhi : own.stop ≤ hi) :
    ∃ s, (Position.token ⟨before, e⟩).span = some s ∧ lo ≤ s.first ∧ s.first ≤ own.first ∧
      own.stop ≤ s.stop := by
  rw [Position.token]
  cases hopen : openings before with
  | nil => exact ⟨own, hspan, hlo, Nat.le_refl _, Nat.le_refl _⟩
  | cons o os =>
      by_cases hawaits : (o.awaits && e.kind.isParagraph) = true
      · have hawaiting : awaiting before = true := by
          rw [Bool.and_eq_true] at hawaits
          rw [awaiting, hopen, List.head?_cons, Option.any_some, hawaits.1]
        obtain ⟨o', os', s, hopen', hs, hfirst, hstop⟩ := hready hawaiting
        obtain ⟨rfl, rfl⟩ := List.cons.inj (hopen.symm.trans hopen')
        refine ⟨s, ?_, by omega, by omega, by omega⟩
        simpa [hawaits] using hs
      · refine ⟨own, ?_, hlo, Nat.le_refl _, Nat.le_refl _⟩
        rw [Bool.not_eq_true] at hawaits
        simp [hawaits, hspan]

theorem Markdown.Laid.placed {m : Content} {lo hi : Nat} {es : List Event} (h : Laid m lo hi es)
    (render : Text → Text) {before : List Event} {floor : Nat} (hfloor : floor ≤ lo)
    (hready : m.Ready floor hi before) :
    Placed floor hi (textsFrom render before es) := by
  induction h generalizing before floor with
  | nil h => exact .nil _ _
  | @block lo first stop hi e rest hkind hspan hfirst hlines hrest ih =>
      obtain ⟨henter, hleave⟩ := hkind.stays
      by_cases hline : e.kind = .attributeLine
      · -- an item keeps awaiting its text, so what follows may still be given its lines
        rw [textsFrom_cons_of_none _ (by simp [Event.prose, hline])]
        refine ih (by omega) fun hawaiting => (hready ?_).snoc henter hleave
        simpa [awaiting_snoc, hline] using hawaiting
      · have hdone : awaiting (before ++ [e]) = false := by
          have hitem : e.kind ≠ .enter .item := fun heq => by
            simp [heq, EventKind.isEnter] at henter
          simp [awaiting_snoc, hline, hitem]
        have hbelow : Placed stop hi (textsFrom render (before ++ [e]) rest) :=
          ih (Nat.le_refl _) fun hawaiting => by simp [hdone] at hawaiting
        cases hprose : e.prose render with
        | none =>
            rw [textsFrom_cons_of_none _ hprose]
            exact hbelow.mono (by omega)
        | some text =>
            obtain ⟨s, hs, hlo, hle, hstop⟩ :=
              span_token hready hspan (show floor ≤ first by omega) hrest.le
            have := hrest.le
            simp only at hle hstop
            rw [textsFrom_cons_of_isSome _ (by rw [hprose]; rfl)]
            exact .cons hs hlo (by simp only; omega) (by simp only; omega) (by simp only; omega)
              (by omega) hbelow
  | @container m c lo first stop hi e last inside rest hplace hkind hspan hattributes hlast hfirst
      hinside hrest ihinside ih =>
      rw [List.cons_append, textsFrom_cons_of_none _ (by simp [Event.prose, hkind]),
        textsFrom_append, textsFrom_cons_of_none _ (by simp [Event.prose, hlast])]
      subst hplace
      have hwithin := ihinside (Nat.le_refl _) (c.ready_enter before hkind hspan)
      have hafter := ih (Nat.le_refl _) (c.ready_leave (before ++ [e] ++ inside) hlast stop hi)
      exact (hwithin.append hafter hinside.le hrest.le).mono (by omega)
  | @cell lo hi e rest source hkind hspan hsource hlt hrest ih =>
      -- all cells of a row are given its first line, so the floor stays where it is
      have hsnoc := Around.snoc hready (e := e) (by simp [hkind, EventKind.isEnter])
        (by simp [hkind, EventKind.isLeave])
      obtain ⟨o, os, s, hopen, hs, hfirst, hstop⟩ := hready
      have hbreaks : Text.breaks e.kind.source = 0 := by rw [hkind]; exact hsource
      have htoken : (Position.token ⟨before, e⟩).span = some s := by
        simp [Position.token, hopen, hspan, hs]
      rw [textsFrom_cons_of_isSome _ (by simp [Event.prose, hkind])]
      exact .cons htoken (by omega) (by simp only; omega) (by simp only; omega)
        (by simp only; omega) (Nat.le_refl _) (ih hfloor hsnoc)

/-! ## Numbers -/

def Markdown.Event.Keeps (render : Text → Text) (e : Event) : Prop :=
  ∀ text, e.prose render = some text → Text.breaks text ≤ Text.breaks e.kind.source

namespace Position.HasLines

variable {key : Text} {render : Text → Text} {p : Position} {lines : List ProseLine}
  {s : LineSpan} {line : ProseLine}

theorem lt_line (h : p.HasLines key render lines) (hs : p.token.span = some s)
    (hline : line ∈ lines) : s.first < line.location.line := by
  have hmem := List.mem_map_of_mem (f := (·.location.line)) hline
  rw [h.lines_eq s hs, List.mem_range'_1] at hmem
  exact hmem.1

theorem line_le (h : p.HasLines key render lines) (hs : p.token.span = some s)
    (hkeeps : p.event.Keeps render) (hline : line ∈ lines) :
    line.location.line ≤ s.first + Text.breaks p.event.kind.source + 1 := by
  have hmem := List.mem_map_of_mem (f := (·.location.line)) hline
  rw [h.lines_eq s hs, List.mem_range'_1] at hmem
  have hlength := congrArg List.length h.texts_eq
  rw [List.length_map] at hlength
  have hle : lines.length ≤ Text.breaks p.event.kind.source + 1 := by
    cases hprose : p.event.prose render with
    | none => simp [hlength, hprose]
    | some text =>
        rw [hlength, hprose, Option.elim_some, DocumentTree.textLines]
        split
        · simp
        · exact (Text.length_splitLines_le text).trans (Nat.succ_le_succ (hkeeps text hprose))
  omega

end Position.HasLines

theorem exists_hasLines_of_mem {key : Text} {render : Text → Text} {ps : List Position}
    {groups : List (List ProseLine)} (h : List.Forall₂ (Position.HasLines key render) ps groups)
    {line : ProseLine} (hline : line ∈ groups.flatten) :
    ∃ p ∈ ps, ∃ lines, p.HasLines key render lines ∧ line ∈ lines := by
  induction h with
  | nil => simp at hline
  | @cons p lines ps groups hp _ ih =>
      rw [List.flatten_cons] at hline
      rcases List.mem_append.1 hline with hline | hline
      · exact ⟨p, List.mem_cons_self .., lines, hp, hline⟩
      · obtain ⟨q, hq, h⟩ := ih hline
        exact ⟨q, List.mem_cons_of_mem _ hq, h⟩

theorem Placed.pairwise_lines {key : Text} {render : Text → Text} {lo hi : Nat}
    {ps : List Position} {groups : List (List ProseLine)} (h : Placed lo hi ps)
    (hkeeps : ∀ p ∈ ps, p.event.Keeps render)
    (hgroups : List.Forall₂ (Position.HasLines key render) ps groups) :
    groups.flatten.Pairwise fun line line' => line.location.line ≤ line'.location.line := by
  induction hgroups with
  | nil => exact .nil
  | @cons p lines ps groups hp hrest ih =>
      have hbelow := List.pairwise_cons.1 h.ordered
      have htail : Placed lo hi ps :=
        ⟨fun q hq => h.on_lines q (List.mem_cons_of_mem _ hq), hbelow.2⟩
      rw [List.forall_mem_cons] at hkeeps
      obtain ⟨s, hs, -⟩ := h.on_lines p (List.mem_cons_self ..)
      refine List.pairwise_append.2 ⟨?_, ih htail hkeeps.2, fun line hline line' hline' => ?_⟩
      · have hsorted : (lines.map (·.location.line)).Pairwise (· ≤ ·) :=
          hp.lines_eq s hs ▸ List.pairwise_le_range' 1
        exact List.pairwise_map.1 hsorted
      · obtain ⟨q, hq, lines', hlines', hmem⟩ := exists_hasLines_of_mem hrest hline'
        obtain ⟨s', hs', -⟩ := htail.on_lines q hq
        have hle := hp.line_le hs hkeeps.1 hline
        have hordered := hbelow.1 q hq s s' hs hs'
        have hlt := hlines'.lt_line hs' hmem
        omega

/-! ## Sources -/

/-- A text spells no line break, and no title that it may refer to has one. -/
def Markdown.Event.Quiet (definitions : List Link.Definition) (e : Event) : Prop :=
  (∃ content, e.kind = .html content) ∨
    SpellsNoBreak e.kind.source ∧ ∀ d ∈ definitions, Text.breaks d.title = 0

theorem breaks_dropBreaks_le (t : Text) :
    Text.breaks (TreeBuilder.dropBreaks t) ≤ Text.breaks t := by
  rw [TreeBuilder.dropBreaks, Text.breaks_reverse, ← Text.breaks_reverse t]
  exact Text.breaks_mono (Text.dropWhile_sublist _ _)

theorem Markdown.Event.Quiet.keeps {definitions : List Link.Definition} {e : Event}
    (h : e.Quiet definitions) (htargets : ∀ d ∈ definitions, Text.breaks d.target = 0) :
    e.Keeps (Inline.renderText definitions) := by
  intro text htext
  have hrender (hkind : ∀ content, e.kind ≠ .html content) :
      Text.breaks (Inline.renderText definitions e.kind.source) ≤ Text.breaks e.kind.source := by
    rcases h with ⟨content, hcontent⟩ | ⟨hspells, htitles⟩
    · exact absurd hcontent (hkind content)
    · exact Inline.breaks_renderText_le (fun d hd => ⟨htargets d hd, htitles d hd⟩) hspells
  rw [Event.prose] at htext
  cases hkind : e.kind with
  | heading level source | paragraph source | cell source =>
      simp only [hkind, Option.some.injEq] at htext
      rw [hkind] at hrender
      exact htext ▸ hrender (by simp)
  | html content =>
      simp only [hkind, Option.some.injEq] at htext
      exact htext ▸ breaks_dropBreaks_le content
  | enter c | leave c | literal | attributeLine => simp [hkind] at htext

namespace Document

theorem exists_groups {path : Path} {source : Text} {t : DocumentTree} (key : Text)
    (h : load path source = .ok t) :
    let read := readSource source
    let render := Inline.renderText read.definitions
    ∃ groups, t.walk key = .ok groups.flatten ∧
      List.Forall₂ (Position.HasLines key render)
        (TreeBuilder.prosePositions render read.events) groups := by
  intro read render
  have hfits := readSource_fits source
  obtain ⟨t', groups, ht', hwalk, hgroups⟩ := DocumentTree.exists_groups path render key
    hfits.laid.balanced hfits.laid.item_attributes
  obtain rfl : t' = t := by
    unfold load at h
    simp only at h
    split at h
    · simp at h
    · rw [ht'] at h
      exact Except.ok.inj h
  exact ⟨groups, hwalk, hgroups⟩

/-- The lines of a text are numbered from the first line of its block on.  If the text
spells no line break they stay inside of the block, and if no text does the numbers never
go back. -/
theorem walk_lines {path : Path} {source : Text} {t : DocumentTree} (key : Text)
    (h : load path source = .ok t) :
    let read := readSource source
    let render := Inline.renderText read.definitions
    ∃ groups, t.walk key = .ok groups.flatten ∧
      List.Forall₂ (fun (p : Position) (lines : List ProseLine) =>
        lines.map (·.location.text) = (p.event.prose render).elim [] DocumentTree.textLines ∧
          ∃ s, p.token.span = some s ∧
            lines.map (·.location.line) = List.range' (s.first + 1) lines.length ∧
            (p.event.Quiet read.definitions → ∀ line ∈ lines,
              s.first + 1 ≤ line.location.line ∧ line.location.line ≤ s.stop ∧
                line.location.line ≤ (sourceLines source).length))
        (TreeBuilder.prosePositions render read.events) groups ∧
      ((∀ e ∈ read.events, e.Quiet read.definitions) →
        (groups.flatten.map (·.location.line)).Pairwise (· ≤ ·)) := by
  intro read render
  have hfits := readSource_fits source
  have hkeeps {e : Event} (hquiet : e.Quiet read.definitions) : e.Keeps render :=
    hquiet.keeps hfits.targets
  have hplaced : Placed 0 read.next (TreeBuilder.prosePositions render read.events) :=
    hfits.laid.placed render (Nat.le_refl 0) fun hawaiting => by
      simp [awaiting, openings] at hawaiting
  obtain ⟨groups, hwalk, hgroups⟩ := exists_groups key h
  refine ⟨groups, hwalk, ?_, fun hquiet => ?_⟩
  · refine ((List.forall₂_and_left _ _).2 ⟨hplaced.on_lines, hgroups⟩).imp ?_
    rintro p lines ⟨⟨s, hs, -, hlt, hstop⟩, hlines⟩
    refine ⟨hlines.texts_eq, s, hs, hlines.lines_eq s hs, fun hquiet line hline => ?_⟩
    have hle := hlines.line_le hs (hkeeps hquiet) hline
    have hsize : read.next ≤ (sourceLines source).length := hfits.next_le
    exact ⟨hlines.lt_line hs hline, by omega, by omega⟩
  · refine List.pairwise_map.2 (hplaced.pairwise_lines (fun p hp => ?_) hgroups)
    exact hkeeps (hquiet _ (event_mem_of_mem_prosePositions hp))

theorem exists_load {path : Path} {source : Text} {α : Type} {f : DocumentTree → Option α} {a : α}
    (h : (load path source).toOption.bind f = some a) :
    ∃ t, load path source = .ok t ∧ f t = some a := by
  cases hload : load path source with
  | error e => simp [hload, Except.toOption] at h
  | ok t =>
      rw [hload] at h
      exact ⟨t, rfl, h⟩

theorem exists_walk {path : Path} {source key : Text} {α : Type} {f : List ProseLine → α} {a : α}
    (h : ((load path source).toOption.bind fun t => (t.walk key).toOption.map f) = some a) :
    ∃ t lines, load path source = .ok t ∧ t.walk key = .ok lines ∧ f lines = a := by
  obtain ⟨t, hload, hfound⟩ := exists_load h
  cases hwalk : t.walk key with
  | error e => simp [hwalk, Except.toOption] at hfound
  | ok lines =>
      rw [hwalk] at hfound
      exact ⟨t, lines, hload, hwalk, Option.some.inj hfound⟩

/-- A heading, an item of two lines and a table with a row. -/
theorem walk_lines_figs :
    let source : Text := "# Figs\n\n* pears\n  limes\n\n| a | b |\n|---|---|\n| c | d |\n".toList
    let read := readSource source
    ∃ t groups, load (Path.ofText "doc.md") source = .ok t ∧ t.walk "ignore" = .ok groups.flatten ∧
      groups.flatten.map (·.location.line) = [1, 3, 4, 6, 6, 8, 8] ∧
      List.Forall₂ (fun (p : Position) (lines : List ProseLine) =>
        ∃ s, p.token.span = some s ∧ ∀ line ∈ lines,
          s.first + 1 ≤ line.location.line ∧ line.location.line ≤ s.stop ∧
            line.location.line ≤ (sourceLines source).length)
        (TreeBuilder.prosePositions (Inline.renderText read.definitions) read.events) groups ∧
      (groups.flatten.map (·.location.line)).Pairwise (· ≤ ·) := by
  intro source read
  have hevents : read.definitions = [] ∧
      ∀ e ∈ read.events, '&' ∉ e.kind.source ∧ '%' ∉ e.kind.source := by
    decide +kernel
  have hquiet : ∀ e ∈ read.events, e.Quiet read.definitions := fun e he =>
    .inr ⟨spellsNoBreak_of_not_mem (hevents.2 e he).1 (hevents.2 e he).2, by simp [hevents.1]⟩
  have h : ((load (Path.ofText "doc.md") source).toOption.bind fun t =>
      (t.walk "ignore").toOption.map fun lines => lines.map (·.location.line)) =
      some [1, 3, 4, 6, 6, 8, 8] := by
    decide +kernel
  obtain ⟨t, lines, hload, hlines, hnumbers⟩ := exists_walk h
  obtain ⟨groups, hwalk, hgroups, hordered⟩ := walk_lines "ignore" hload
  obtain rfl := Except.ok.inj (hlines.symm.trans hwalk)
  have hprose : ∀ p ∈ TreeBuilder.prosePositions (Inline.renderText read.definitions) read.events,
      p.event.Quiet read.definitions := fun p hp =>
    hquiet _ (event_mem_of_mem_prosePositions hp)
  refine ⟨t, groups, hload, hwalk, hnumbers, ?_, hordered hquiet⟩
  refine ((List.forall₂_and_left _ _).2 ⟨hprose, hgroups⟩).imp ?_
  rintro p lines ⟨hp, -, s, hs, -, hwithin⟩
  exact ⟨s, hs, hwithin hp⟩

/-- A reference to a line break gives a heading of one line a second line. -/
theorem exists_line_outside :
    ∃ t lines line, load (Path.ofText "doc.md") "# a&#10;b".toList = .ok t ∧
      t.walk "ignore" = .ok lines ∧ line ∈ lines ∧
      (sourceLines "# a&#10;b".toList).length < line.location.line := by
  have h : ((load (Path.ofText "doc.md") "# a&#10;b".toList).toOption.bind fun t =>
      (t.walk "ignore").toOption.map fun lines => lines.any fun line =>
        decide ((sourceLines "# a&#10;b".toList).length < line.location.line)) = some true := by
    decide +kernel
  obtain ⟨t, lines, hload, hwalk, hany⟩ := exists_walk h
  obtain ⟨line, hmem, hlt⟩ := List.any_eq_true.1 hany
  exact ⟨t, lines, line, hload, hwalk, hmem, of_decide_eq_true hlt⟩

end Document

end Proofreader
