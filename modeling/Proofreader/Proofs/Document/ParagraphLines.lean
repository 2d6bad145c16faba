import Proofreader.Proofs.Document.Range
import Proofreader.Proofs.Markdown.Drawn
import Proofreader.Proofs.Markdown.Returns

/-!
# The lines of paragraphs

A paragraph is reported in at most as many lines as it has.  It is reported in as many if
trimming it takes away none of them and every stretch of its text keeps its line ends.  Only
code, links and images may lose line ends, and code loses all that it has.
-/

namespace Proofreader

open Markdown

namespace Text

theorem not_mem_of_lines {lines : List Text} (h : ∀ l ∈ lines, breaks l = 0) :
    '\r' ∉ trim (joinWith ['\n'] lines) := by
  intro hmem
  rcases mem_joinWith ((trim_isInfix _).subset hmem) with hmem | ⟨l, hl, hmem⟩
  · simp at hmem
  · have hbreak := breaks_eq_zero.1 (h l hl) _ hmem
    simp [isBreak] at hbreak

theorem breaks_of_lines {lines : List Text} (h : ∀ l ∈ lines, breaks l = 0) :
    breaks (trim (joinWith ['\n'] lines)) ≤ lines.length - 1 :=
  breaks_joinWith_newline h ▸ breaks_mono (trim_isInfix _).sublist

end Text

/-- A paragraph in the source lines `own`, its text, and the HTML of the text part by part. -/
structure Markdown.Event.Paragraph (definitions : List Link.Definition) (e : Event)
    (own : List Text) (text : Text) (parts : List Text) : Prop where
  kind_eq : e.kind = .paragraph text
  span_eq : ∃ first, e.span = some ⟨first, first + own.length⟩
  text_eq : text = Text.trim (Text.joinWith ['\n'] own)
  aligned : Inline.Aligned definitions text parts

namespace Markdown.Event

variable {definitions : List Link.Definition} {e : Event}

/-- What a paragraph has to be for its lines to be told apart: something is shown, trimming
takes no line away, and no stretch loses a line end. -/
def KeepsLines (definitions : List Link.Definition) (own : List Text) (text : Text) : Prop :=
  Inline.renderText definitions text ≠ [] ∧ Text.breaks text + 1 = own.length ∧
    ∀ c ∈ Inline.stretches definitions text, c.Keeps

theorem Drawn.exists_paragraph {text : Text} (h : e.Drawn) (hkind : e.kind = .paragraph text)
    (hquiet : e.Quiet definitions) (htargets : ∀ d ∈ definitions, Text.breaks d.target = 0) :
    ∃ own parts, e.Paragraph definitions own text parts ∧
      (DocumentTree.textLines parts.flatten).length ≤ own.length ∧
      ((DocumentTree.textLines parts.flatten).length = own.length ↔
        KeepsLines definitions own text) := by
  obtain ⟨first, own, hne, hspan, hown, htext⟩ := h.paragraph text hkind
  obtain ⟨hspells, htitles⟩ : SpellsNoBreak text ∧ ∀ d ∈ definitions, Text.breaks d.title = 0 := by
    rcases hquiet with ⟨content, hcontent⟩ | hquiet
    · simp [hkind] at hcontent
    · rwa [hkind] at hquiet
  have hdefinitions : Link.Unbroken definitions := fun d hd => ⟨htargets d hd, htitles d hd⟩
  have hreturn : '\r' ∉ text := htext ▸ Text.not_mem_of_lines hown
  obtain ⟨parts, haligned⟩ := Inline.exists_aligned hdefinitions hspells hreturn
  have hshown : '\r' ∉ parts.flatten :=
    haligned.rendered ▸ Inline.not_mem_renderText hdefinitions hspells hreturn
  have hbreaks : Text.breaks text ≤ own.length - 1 := htext ▸ Text.breaks_of_lines hown
  obtain ⟨hle, hiff⟩ := haligned.breaks_flatten
  refine ⟨own, parts, ⟨hkind, ⟨first, hspan⟩, htext, haligned⟩, ?_⟩
  have hpos := List.length_pos_iff.2 hne
  rw [KeepsLines, haligned.rendered, ← hiff, DocumentTree.textLines]
  split
  · rename_i hnil
    simp only [hnil, List.length_nil, ne_eq, not_true_eq_false, false_and, iff_false]
    omega
  · rename_i hne
    rw [Text.length_splitLines hshown]
    simp only [ne_eq, hne, not_false_eq_true, true_and]
    omega

end Markdown.Event

namespace Document

/-- A paragraph is reported in at most as many lines as it has, and in as many if it keeps
its lines: what it is reported as is the HTML of its text, part by part. -/
theorem walk_paragraph_lines {path : Path} {source : Text} {t : DocumentTree} (key : Text)
    (h : load path source = .ok t) :
    let read := readSource source
    let render := Inline.renderText read.definitions
    ∃ groups, t.walk key = .ok groups.flatten ∧
      List.Forall₂ (fun (p : Position) (lines : List ProseLine) =>
        ∀ text, p.event.kind = .paragraph text → p.event.Quiet read.definitions →
          ∃ own parts, p.event.Paragraph read.definitions own text parts ∧
            lines.map (·.location.text) = DocumentTree.textLines parts.flatten ∧
            lines.length ≤ own.length ∧
            (lines.length = own.length ↔ Event.KeepsLines read.definitions own text))
        (TreeBuilder.prosePositions render read.events) groups := by
  intro read render
  have hdrawn : ∀ p ∈ TreeBuilder.prosePositions render read.events, p.event.Drawn :=
    fun p hp => allDrawn_readSource source _ (event_mem_of_mem_prosePositions hp)
  obtain ⟨groups, hwalk, hgroups⟩ := exists_groups key h
  refine ⟨groups, hwalk, ((List.forall₂_and_left _ _).2 ⟨hdrawn, hgroups⟩).imp ?_⟩
  rintro p lines ⟨hp, hlines⟩ text hkind hquiet
  obtain ⟨own, parts, hparagraph, hle, hiff⟩ :=
    hp.exists_paragraph hkind hquiet (readSource_fits source).targets
  have htexts : lines.map (·.location.text) = DocumentTree.textLines parts.flatten := by
    rw [hlines.texts_eq, Event.prose, hkind, ← hparagraph.aligned.rendered]
    rfl
  have hlength := congrArg List.length htexts
  rw [List.length_map] at hlength
  exact ⟨own, parts, hparagraph, htexts, hlength ▸ hle, hlength ▸ hiff⟩

/-- Emphasis, a tag, a hard break and a link that cross line ends. -/
theorem walk_paragraph_lines_crossed :
    let text : Text := "a *b\nc* <i\nx>d</i>  \ne [f\ng](/h)".toList
    let source := text ++ ['\n']
    let read := readSource source
    let render := Inline.renderText read.definitions
    ∃ t groups, load (Path.ofText "doc.md") source = .ok t ∧ t.walk "ignore" = .ok groups.flatten ∧
      groups.flatten.map (fun line => (line.location.line, line.location.text)) =
        [(1, "a <em>b".toList), (2, "c</em> <i".toList), (3, "x>d</i><br />".toList),
          (4, "e <a href=\"/h\">f".toList), (5, "g</a>".toList)] ∧
      List.Forall₂ (fun (p : Position) (lines : List ProseLine) =>
        ∃ own parts, p.event.Paragraph read.definitions own text parts ∧
          Event.KeepsLines read.definitions own text ∧ lines.length = own.length)
        (TreeBuilder.prosePositions render read.events) groups := by
  intro text source read render
  have h : ((load (Path.ofText "doc.md") source).toOption.bind fun t =>
      (t.walk "ignore").toOption.map fun lines =>
        lines.map fun line => (line.location.line, line.location.text)) =
      some [(1, "a <em>b".toList), (2, "c</em> <i".toList), (3, "x>d</i><br />".toList),
        (4, "e <a href=\"/h\">f".toList), (5, "g</a>".toList)] := by
    decide +kernel
  have hprose : (TreeBuilder.prosePositions render read.events).map (·.event) =
      [.block (.paragraph text) 0 5] := by
    decide +kernel
  have hevent : ∀ p ∈ TreeBuilder.prosePositions render read.events,
      p.event = .block (.paragraph text) 0 5 := fun p hp =>
    List.mem_singleton.1 (hprose ▸ List.mem_map_of_mem hp)
  have hquiet : '&' ∉ text ∧ '%' ∉ text ∧ ∀ d ∈ read.definitions, Text.breaks d.title = 0 := by
    decide +kernel
  have hkeeps : render text ≠ [] ∧ Text.breaks text + 1 = 5 ∧
      ∀ c ∈ Inline.stretches read.definitions text, c.Keeps := by
    decide +kernel
  obtain ⟨t, lines, hload, hlines, hnumbers⟩ := exists_walk h
  obtain ⟨groups, hwalk, hgroups⟩ := walk_paragraph_lines "ignore" hload
  obtain rfl := Except.ok.inj (hlines.symm.trans hwalk)
  refine ⟨t, groups, hload, hwalk, hnumbers, ?_⟩
  refine ((List.forall₂_and_left _ _).2 ⟨hevent, hgroups⟩).imp ?_
  rintro p lines ⟨hp, hlines⟩
  have hkind : p.event.kind = .paragraph text := by rw [hp]; rfl
  obtain ⟨own, parts, hparagraph, -, -, hiff⟩ := hlines text hkind
    (.inr ⟨hkind ▸ spellsNoBreak_of_not_mem hquiet.1 hquiet.2.1, hquiet.2.2⟩)
  have hown : own.length = 5 := by
    obtain ⟨first, hspan⟩ := hparagraph.span_eq
    rw [hp] at hspan
    have hspan := LineSpan.mk.inj (Option.some.inj hspan)
    omega
  have hkept : Event.KeepsLines read.definitions own text :=
    ⟨hkeeps.1, hkeeps.2.1.trans hown.symm, hkeeps.2.2⟩
  exact ⟨own, parts, hparagraph, hkept, hiff.2 hkept⟩

/-- A code span over two lines is shown in one, and the line after it is reported as the second. -/
theorem exists_line_pulled_up :
    let source : Text := "\x60a\nb\x60\nc".toList
    let read := readSource source
    ∃ t lines p, load (Path.ofText "doc.md") source = .ok t ∧ t.walk "ignore" = .ok lines ∧
      p ∈ TreeBuilder.prosePositions (Inline.renderText read.definitions) read.events ∧
      p.event = .block (.paragraph source) 0 3 ∧
      lines.map (fun line => (line.location.line, line.location.text)) =
        [(1, "<code>a b</code>".toList), (2, ['c'])] := by
  intro source read
  have h : ((load (Path.ofText "doc.md") source).toOption.bind fun t =>
      (t.walk "ignore").toOption.map fun lines =>
        lines.map fun line => (line.location.line, line.location.text)) =
      some [(1, "<code>a b</code>".toList), (2, ['c'])] := by
    decide +kernel
  have hprose : (TreeBuilder.prosePositions (Inline.renderText read.definitions) read.events).map
      (·.event) = [.block (.paragraph source) 0 3] := by
    decide +kernel
  obtain ⟨t, lines, hload, hwalk, hlines⟩ := exists_walk h
  obtain ⟨p, hmem, hevent⟩ : ∃ p ∈ TreeBuilder.prosePositions
      (Inline.renderText read.definitions) read.events,
        p.event = .block (.paragraph source) 0 3 := by
    rw [← List.mem_map, hprose]
    exact List.mem_singleton_self _
  exact ⟨t, lines, p, hload, hwalk, hmem, hevent, hlines⟩

end Document

end Proofreader
