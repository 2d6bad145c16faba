import Proofreader.Proofs.Markdown.Blocks

/-!
# What the texts of events are drawn from

The text of a paragraph is that of its lines, joined at their ends and trimmed, and a cell
has no lines of its own.
-/

namespace Proofreader.Markdown

open Text

/-- A cell has no lines of its own, and the lines of a paragraph make up its text. -/
structure Event.Drawn (e : Event) : Prop where
  cell : ∀ source, e.kind = .cell source → e.span = none
  paragraph : ∀ source, e.kind = .paragraph source → ∃ first lines, lines ≠ [] ∧
    e.span = some ⟨first, first + lines.length⟩ ∧ (∀ l ∈ lines, breaks l = 0) ∧
      source = trim (joinWith ['\n'] lines)

theorem Event.Drawn.other {e : Event} (hcell : ∀ source, e.kind ≠ .cell source)
    (hparagraph : ∀ source, e.kind ≠ .paragraph source) : e.Drawn :=
  ⟨fun source h => absurd h (hcell source), fun source h => absurd h (hparagraph source)⟩

def AllDrawn (es : List Event) : Prop := ∀ e ∈ es, e.Drawn

namespace AllDrawn

variable {es es' : List Event}

theorem nil : AllDrawn [] := by simp [AllDrawn]

theorem append (h : AllDrawn es) (h' : AllDrawn es') : AllDrawn (es ++ es') :=
  List.forall_mem_append.2 ⟨h, h'⟩

theorem cons {e : Event} (he : e.Drawn) (h : AllDrawn es) : AllDrawn (e :: es) :=
  List.forall_mem_cons.2 ⟨he, h⟩

theorem wrap {c : Container} {first stop : Nat} {attributes : Attributes} (h : AllDrawn es) :
    AllDrawn (Event.wrap c first stop attributes es) :=
  cons (.other (by simp) (by simp)) (h.append (cons (.other (by simp) (by simp)) nil))

theorem applyAttributeLines (h : AllDrawn es) (pending : Option Attributes) :
    AllDrawn (Event.applyAttributeLines pending es) := by
  induction es generalizing pending with
  | nil => cases pending <;> exact nil
  | cons e es ih =>
      obtain ⟨he, hes⟩ := List.forall_mem_cons.1 h
      by_cases hkind : e.kind = .attributeLine
      · cases pending <;> rw [Event.applyAttributeLines, if_pos hkind] <;> exact ih hes _
      · obtain ⟨attributes, -, heq⟩ := Event.applyAttributeLines_cons pending es hkind
        rw [heq]
        exact List.forall_mem_cons.2 ⟨⟨he.cell, he.paragraph⟩, ih hes none⟩

end AllDrawn

namespace Context

section Readers

variable {ctx : Context} {inner : BlockReader} {i stop : Nat} {p : Passage}

theorem allDrawn_rowEvents (alignments : List Table.Alignment) (cells : List Text) :
    AllDrawn (rowEvents alignments cells) := by
  intro e he
  obtain ⟨⟨a, cell⟩, -, rfl⟩ := List.mem_map.1 he
  exact ⟨fun _ _ => rfl, by simp⟩

theorem allDrawn_rowsFrom (alignments : List Table.Alignment) (i : Nat)
    (rows : List (List Text)) : AllDrawn (rowsFrom alignments i rows) := by
  induction rows generalizing i with
  | nil => exact .nil
  | cons cells rows ih => exact (allDrawn_rowEvents alignments cells).wrap.append (ih (i + 1))

theorem allDrawn_readTable? (hp : ctx.readTable? i stop = some p) : AllDrawn p.events := by
  obtain ⟨⟨header, alignments⟩, -, rfl⟩ := Option.map_eq_some_iff.1 hp
  have hheader : AllDrawn (Event.wrap .row i (i + 1) [] (rowEvents alignments header)) :=
    (allDrawn_rowEvents alignments header).wrap
  refine (hheader.wrap.append ?_).wrap
  split
  · exact .nil
  · exact (allDrawn_rowsFrom alignments (i + 2) _).wrap

theorem drawn_readParagraph (h : ∀ l ∈ ctx.lines, breaks l.text = 0) (i : Nat) :
    AllDrawn (ctx.readParagraph i).events := by
  have hstop := (ctx.paragraphStop_bounds (ctx.limit - (i + 1)) (i + 1)).1
  refine .cons ⟨by simp [Event.block], ?_⟩ .nil
  generalize ctx.paragraphStop (ctx.limit - (i + 1)) (i + 1) = next at hstop
  intro source hsource
  have hlength : (ctx.cutLines i next).length = next - i := by
    rw [cutLines, List.length_map, List.length_range']
  refine ⟨i, ctx.cutLines i next, ?_, ?_, breaks_cutLines h i next, ?_⟩
  · exact List.ne_nil_of_length_pos (by omega)
  · rw [Event.block, hlength, Nat.add_sub_cancel' (by omega)]
  · exact (EventKind.paragraph.inj hsource).symm

def Draws (inner : BlockReader) : Prop :=
  ∀ (ctx : Context) (i stop : Nat), (∀ l ∈ ctx.lines, breaks l.text = 0) →
    AllDrawn (inner ctx i stop).events

theorem allDrawn_readQuote? (h : ∀ l ∈ ctx.lines, breaks l.text = 0) (hinner : Draws inner)
    (hp : ctx.readQuote? inner i stop = some p) : AllDrawn p.events := by
  unfold readQuote? at hp
  split at hp
  · obtain rfl := Option.some.inj hp
    refine AllDrawn.wrap (hinner _ _ _ ?_)
    simp only [List.forall_mem_append, List.forall_mem_cons]
    exact ⟨⟨fun l hl => h l (List.mem_of_mem_take hl), (unquote_spec (breaks_line h i)).1,
      breaks_quoteLines h _ _ _⟩, fun l hl => h l (List.mem_of_mem_drop hl)⟩
  · simp at hp

theorem allDrawn_readItem (h : ∀ l ∈ ctx.lines, breaks l.text = 0) (hinner : Draws inner)
    (m : ListMarker) (i stop : Nat) : AllDrawn (ctx.readItem inner m i stop).events := by
  rw [readItem]
  split
  · exact AllDrawn.nil.wrap
  · refine AllDrawn.wrap (hinner _ _ _ fun l hl => ?_)
    rcases List.mem_or_eq_of_mem_set hl with hl | rfl
    · exact h l hl
    · exact breaks_line h i

theorem allDrawn_readItems (h : ∀ l ∈ ctx.lines, breaks l.text = 0) (hinner : Draws inner)
    (n : Nat) (m : ListMarker) (i : Nat) : AllDrawn (ctx.readItems inner stop n m i).events := by
  induction n generalizing m i with
  | zero => exact .nil
  | succ n ih =>
      have hitem := allDrawn_readItem h hinner m i stop
      rw [readItems]
      repeat' split
      · exact hitem
      · exact hitem.append (ih _ _)
      · exact hitem

theorem allDrawn_readBlock (h : ∀ l ∈ ctx.lines, breaks l.text = 0) (hinner : Draws inner) :
    AllDrawn (ctx.readBlock inner i stop).events := by
  have hblock {e : Event} (hcell : ∀ source, e.kind ≠ .cell source)
      (hparagraph : ∀ source, e.kind ≠ .paragraph source) : AllDrawn [e] :=
    .cons (.other hcell hparagraph) .nil
  apply @readBlock_holds ctx inner i stop fun p => AllDrawn p.events
  · exact fun p => allDrawn_readTable?
  · intro p hp
    unfold readCode? at hp
    split at hp
    · exact Option.some.inj hp ▸ hblock (by simp [Event.block]) (by simp [Event.block])
    · simp at hp
  · intro p hp
    obtain ⟨attributes, -, rfl⟩ := Option.map_eq_some_iff.1 hp
    exact hblock (by simp) (by simp)
  · intro p hp
    obtain ⟨f, -, rfl⟩ := Option.map_eq_some_iff.1 hp
    exact hblock (by simp [Event.block]) (by simp [Event.block])
  · exact fun p => allDrawn_readQuote? h hinner
  · intro p hp
    unfold readBreak? at hp
    split at hp
    · exact Option.some.inj hp ▸ hblock (by simp [Event.block]) (by simp [Event.block])
    · simp at hp
  · intro p hp
    obtain ⟨m, -, rfl⟩ := Option.map_eq_some_iff.1 hp
    simp only
    split <;> exact (allDrawn_readItems h hinner _ m i).wrap
  · intro p hp
    obtain ⟨⟨d, next⟩, -, rfl⟩ := Option.map_eq_some_iff.1 hp
    exact .nil
  · intro p hp
    obtain ⟨kind, -, rfl⟩ := Option.map_eq_some_iff.1 hp
    exact hblock (by simp [Event.block]) (by simp [Event.block])
  · intro p hp
    obtain ⟨level, -, rfl⟩ := Option.map_eq_some_iff.1 hp
    exact hblock (by simp [Event.block]) (by simp [Event.block])
  · intro p hp
    obtain ⟨⟨last, level⟩, -, rfl⟩ := Option.map_eq_some_iff.1 hp
    exact hblock (by simp [Event.block]) (by simp [Event.block])
  · exact drawn_readParagraph h i

theorem draws_readBlocks (fuel : Nat) : Draws (readBlocks fuel) := by
  induction fuel with
  | zero => exact fun _ _ _ _ => .nil
  | succ fuel ih =>
      intro ctx i stop h
      rw [readBlocks]
      generalize (if i < stop then ctx.nextContent i else i) = i'
      simp only
      split
      · exact .nil
      · split
        · exact .nil
        · exact (allDrawn_readBlock h ih).append (ih _ _ _ h)

end Readers

end Context

theorem allDrawn_readSource (source : Text) : AllDrawn (readSource source).events :=
  (Context.draws_readBlocks _ _ _ _ (clean_document source).breaks_eq).applyAttributeLines none

end Proofreader.Markdown
