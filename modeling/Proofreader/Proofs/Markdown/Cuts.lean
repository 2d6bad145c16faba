import Mathlib.Data.List.DropRight
import Mathlib.Data.List.Forall2
import Proofreader.Proofs.Markdown.Kept
import Proofreader.Proofs.Markdown.RawHtml

/-!
# How a text is cut

Inline content is read from left to right, and each character belongs to a stretch that is
read as one: running text, a run of marks, the end of a line, or an element.  The HTML of a
text is what its stretches are shown as, one after the other.
-/

namespace Proofreader.Markdown

open Text

inductive Reading where
  | text (t : Text)
  | marks (m : Mark)
  | lineEnd
  | element (i : Inline)

structure Cut where
  source : Text
  reading : Reading

namespace Inline

/-- The stretches that `readPieces` cuts a text into. -/
def cuts (definitions : List Link.Definition) :
    Nat → Nat → Nat → Char → Text → Memory → List Cut × Memory
  | 0, _, _, _, _, memory => ([], memory)
  | _, _, _, _, [], memory => ([], memory)
  | fuel + 1, depth, pos, before, c :: t, memory =>
      let cut (length : Nat) (reading : Reading) (memory : Memory) : List Cut × Memory :=
        let (rest, memory) := cuts definitions fuel depth (pos + length)
          (((c :: t).take length).getLastD before) ((c :: t).drop length) memory
        (⟨(c :: t).take length, reading⟩ :: rest, memory)
      if c = '*' ∨ c = '_' then
        let length := ((c :: t).takeWhile (· == c)).length
        cut length (.marks (Mark.ofRun c length before (((c :: t).drop length).headD ' '))) memory
      else
        match Construct.read definitions (Construct.skip definitions depth) pos (c :: t) memory with
        | (none, memory) => cut 1 (.text [c]) memory
        | (some (.text run, length), memory) => cut length (.text run) memory
        | (some (.lineBreak, length), memory) => cut length .lineEnd memory
        | (some (.hardBreak, length), memory) => cut length (.element .hardBreak) memory
        | (some (.literal t, length), memory) => cut length (.element (.text t)) memory
        | (some (.code t, length), memory) => cut length (.element (.code t)) memory
        | (some (.html t, length), memory) => cut length (.element (.html t)) memory
        | (some (.address target shown, length), memory) =>
            cut length (.element (.link target [] [.text shown])) memory
        | (some (.link label target title, length), memory) =>
            let (inside, memory) :=
              readPieces definitions fuel (depth - 1) (pos + 1) '[' label [] memory
            cut length (.element (.link target title (Piece.resolve inside))) memory
        | (some (.image label source title, length), memory) =>
            let (inside, _) :=
              readPieces definitions fuel Construct.maxDepth 0 ' ' label [] Memory.empty
            cut length (.element (.image source title (Piece.resolve inside))) memory

inductive ReadAs (definitions : List Link.Definition) (fuel : Nat) : Construct → Reading → Prop
  | text (run : Text) : ReadAs definitions fuel (.text run) (.text run)
  | lineBreak : ReadAs definitions fuel .lineBreak .lineEnd
  | hardBreak : ReadAs definitions fuel .hardBreak (.element .hardBreak)
  | literal (t : Text) : ReadAs definitions fuel (.literal t) (.element (.text t))
  | code (t : Text) : ReadAs definitions fuel (.code t) (.element (.code t))
  | html (t : Text) : ReadAs definitions fuel (.html t) (.element (.html t))
  | address (target shown : Text) :
      ReadAs definitions fuel (.address target shown) (.element (.link target [] [.text shown]))
  | link (label target title : Text) (depth pos : Nat) (before : Char) (memory : Memory) :
      ReadAs definitions fuel (.link label target title) (.element (.link target title
        (Piece.resolve (readPieces definitions fuel depth pos before label [] memory).1)))
  | image (label source title : Text) (depth pos : Nat) (before : Char) (memory : Memory) :
      ReadAs definitions fuel (.image label source title) (.element (.image source title
        (Piece.resolve (readPieces definitions fuel depth pos before label [] memory).1)))

inductive First (definitions : List Link.Definition) (fuel : Nat) (c : Char) (t : Text) :
    Nat → Reading → Prop
  | marks (before after : Char) (hmark : c = '*' ∨ c = '_') :
      First definitions fuel c t ((c :: t).takeWhile (· == c)).length
        (.marks (Mark.ofRun c ((c :: t).takeWhile (· == c)).length before after))
  | char : First definitions fuel c t 1 (.text [c])
  | construct {construct : Construct} {reading : Reading} {length pos : Nat} {skip : Skipper}
      {memory : Memory}
      (hread : (Construct.read definitions skip pos (c :: t) memory).1 = some (construct, length))
      (hreading : ReadAs definitions fuel construct reading) :
      First definitions fuel c t length reading

theorem exists_first (definitions : List Link.Definition) (fuel depth pos : Nat) (before : Char)
    (c : Char) (t : Text) (memory : Memory) :
    ∃ length reading pos' before' memory', First definitions fuel c t length reading ∧
      (cuts definitions (fuel + 1) depth pos before (c :: t) memory).1 =
        ⟨(c :: t).take length, reading⟩ ::
          (cuts definitions fuel depth pos' before' ((c :: t).drop length) memory').1 := by
  rw [cuts]
  simp only
  split
  · rename_i hmark
    exact ⟨_, _, _, _, _, .marks _ _ hmark, rfl⟩
  · generalize hread : Construct.read definitions (Construct.skip definitions depth) pos (c :: t)
      memory = found
    obtain ⟨construct | ⟨construct, length⟩, memory'⟩ := found
    · exact ⟨_, _, _, _, _, .char, rfl⟩
    · have hfirst : ∀ {reading : Reading}, ReadAs definitions fuel construct reading →
          First definitions fuel c t length reading :=
        .construct (congrArg Prod.fst hread)
      cases construct with
      | text run => exact ⟨_, _, _, _, _, hfirst (.text run), rfl⟩
      | lineBreak => exact ⟨_, _, _, _, _, hfirst .lineBreak, rfl⟩
      | hardBreak => exact ⟨_, _, _, _, _, hfirst .hardBreak, rfl⟩
      | literal t => exact ⟨_, _, _, _, _, hfirst (.literal t), rfl⟩
      | code t => exact ⟨_, _, _, _, _, hfirst (.code t), rfl⟩
      | html t => exact ⟨_, _, _, _, _, hfirst (.html t), rfl⟩
      | link label target title =>
          exact ⟨_, _, _, _, _, hfirst (.link label target title _ _ _ _), rfl⟩
      | image label source title =>
          exact ⟨_, _, _, _, _, hfirst (.image label source title _ _ _ _), rfl⟩
      | address target shown => exact ⟨_, _, _, _, _, hfirst (.address target shown), rfl⟩

def piecesOf : Pending → List Cut → List Piece
  | pending, [] => flush pending []
  | pending, ⟨_, .text t⟩ :: rest => piecesOf (t.reverse ++ pending) rest
  | pending, ⟨_, .marks m⟩ :: rest =>
      flush pending (List.replicate m.length (.mark m) ++ piecesOf [] rest)
  | pending, ⟨_, .lineEnd⟩ :: rest => endLine pending (piecesOf [] rest)
  | pending, ⟨_, .element i⟩ :: rest => flush pending (.inline i :: piecesOf [] rest)

theorem readPieces_eq (definitions : List Link.Definition) (fuel depth pos : Nat) (before : Char)
    (t : Text) (pending : Pending) (memory : Memory) :
    readPieces definitions fuel depth pos before t pending memory =
      (piecesOf pending (cuts definitions fuel depth pos before t memory).1,
        (cuts definitions fuel depth pos before t memory).2) := by
  induction fuel generalizing t depth pos before pending memory with
  | zero => rw [readPieces, cuts, piecesOf]
  | succ fuel ih =>
      cases t with
      | nil => rw [readPieces, cuts, piecesOf] <;> simp
      | cons c t =>
          rw [readPieces, cuts]
          simp only [ih]
          split
          · rfl
          · generalize Construct.read definitions (Construct.skip definitions depth) pos (c :: t)
              memory = found
            obtain ⟨construct | ⟨construct, length⟩, memory'⟩ := found
            · rfl
            · cases construct <;> rfl

end Inline

/-! ## What stretches are shown as -/

/-- The HTML that a stretch may be shown as.  Spaces at the end of a line vanish, and a mark
is the end of an emphasised stretch or stands for itself. -/
inductive Reading.Shows : Reading → Text → Prop where
  | text (kept : Text) (n : Nat) :
      Shows (.text (kept ++ List.replicate n ' ')) (Inline.escape kept)
  | marks {m : Mark} {inlines : List Inline}
      (h : ∀ i ∈ inlines, i = .text [m.char] ∨ ∃ isStrong opens, i = .emphasis isStrong opens) :
      Shows (.marks m) (Inline.renderAll inlines)
  | softBreak : Shows .lineEnd ['\n']
  | hardBreak : Shows .lineEnd "<br />\n".toList
  | element (i : Inline) : Shows (.element i) i.render

theorem Reading.shows_text (t : Text) : (Reading.text t).Shows (Inline.escape t) := by
  simpa using Reading.Shows.text t 0

theorem Reading.shows_kept (t : Text) :
    (Reading.text t).Shows (Inline.escape (t.rdropWhile (· == ' '))) := by
  have hspaces := List.eq_replicate_of_mem (l := t.rtakeWhile (· == ' ')) (a := ' ')
    fun c hc => by simpa using List.mem_rtakeWhile_imp hc
  have hsplit := List.rdropWhile_append_rtakeWhile (l := t) (p := (· == ' '))
  rw [hspaces] at hsplit
  have hshows := Reading.Shows.text (t.rdropWhile (· == ' ')) (t.rtakeWhile (· == ' ')).length
  rwa [hsplit] at hshows

namespace Inline

theorem escape_append (s t : Text) : escape (s ++ t) = escape s ++ escape t :=
  List.flatMap_append

theorem renderAll_append (is is' : List Inline) :
    renderAll (is ++ is') = renderAll is ++ renderAll is' := by
  induction is with
  | nil => rfl
  | cons i is ih => rw [List.cons_append, renderAll_cons, renderAll_cons, ih, List.append_assoc]

theorem exists_shows_texts (ts : List Text) :
    ∃ parts, List.Forall₂ Reading.Shows (ts.map Reading.text) parts ∧
      escape ts.flatten = parts.flatten := by
  induction ts with
  | nil => exact ⟨[], .nil, rfl⟩
  | cons t ts ih =>
      obtain ⟨parts, hparts, heq⟩ := ih
      exact ⟨_, .cons (Reading.shows_text t) hparts, by
        rw [List.flatten_cons, escape_append, heq, List.flatten_cons]⟩

theorem exists_shows_kept (ts : List Text) :
    ∃ parts, List.Forall₂ Reading.Shows (ts.map Reading.text) parts ∧
      escape (ts.flatten.rdropWhile (· == ' ')) = parts.flatten := by
  induction ts with
  | nil => exact ⟨[], .nil, rfl⟩
  | cons t ts ih =>
      obtain ⟨parts, hparts, hkept⟩ := ih
      rw [List.rdropWhile, List.flatten_cons, List.reverse_append, List.dropWhile_append]
      split
      · rename_i hempty
        rw [List.rdropWhile, List.isEmpty_iff.1 hempty] at hkept
        refine ⟨_, .cons (Reading.shows_kept t) hparts, ?_⟩
        rw [List.flatten_cons, ← hkept]
        exact (List.append_nil _).symm
      · refine ⟨_, .cons (Reading.shows_text t) hparts, ?_⟩
        rw [List.reverse_append, List.reverse_reverse, escape_append, ← List.rdropWhile, hkept,
          List.flatten_cons]

end Inline

namespace Piece

theorem exists_resolveFrom_marks {vs : List Verdict}
    (hvs : ∀ v ∈ vs, ∀ i ∈ v.inlines, ∃ isStrong opens, i = .emphasis isStrong opens)
    (m : Mark) (n i : Nat) (rest : List Piece) :
    ∃ inlines, (Reading.marks m).Shows (Inline.renderAll inlines) ∧
      resolveFrom vs i (List.replicate n (.mark m) ++ rest) =
        inlines ++ resolveFrom vs (i + n) rest := by
  suffices h : ∃ inlines : List Inline,
      (∀ i ∈ inlines, i = .text [m.char] ∨ ∃ isStrong opens, i = .emphasis isStrong opens) ∧
        resolveFrom vs i (List.replicate n (.mark m) ++ rest) =
          inlines ++ resolveFrom vs (i + n) rest by
    obtain ⟨inlines, hinlines, heq⟩ := h
    exact ⟨inlines, .marks hinlines, heq⟩
  induction n generalizing i with
  | zero => exact ⟨[], by simp, rfl⟩
  | succ n ih =>
      obtain ⟨inlines, hinlines, heq⟩ := ih (i + 1)
      rw [List.replicate_succ, List.cons_append, resolveFrom, heq, Nat.add_right_comm,
        ← List.append_assoc]
      refine ⟨_, List.forall_mem_append.2 ⟨fun e he => ?_, hinlines⟩, rfl⟩
      split at he
      · rename_i v hv
        exact .inr (hvs v (List.mem_of_find?_eq_some hv) e he)
      · exact .inl (List.mem_singleton.1 he)

end Piece

namespace Inline

theorem exists_renderAll_flush (vs : List Piece.Verdict) (i : Nat) (pending : Pending)
    (rest : List Piece) :
    ∃ j, renderAll (Piece.resolveFrom vs i (flush pending rest)) =
      escape pending.reverse ++ renderAll (Piece.resolveFrom vs j rest) := by
  unfold flush
  split
  · rename_i h
    exact ⟨i, by rw [List.isEmpty_iff.1 h]; rfl⟩
  · exact ⟨i + 1, rfl⟩

theorem exists_shows_piecesOf {vs : List Piece.Verdict}
    (hvs : ∀ v ∈ vs, ∀ i ∈ v.inlines, ∃ isStrong opens, i = .emphasis isStrong opens)
    (i : Nat) (ts : List Text) (cs : List Cut) :
    ∃ parts, List.Forall₂ Reading.Shows (ts.map Reading.text ++ cs.map Cut.reading) parts ∧
      renderAll (Piece.resolveFrom vs i (piecesOf ts.flatten.reverse cs)) = parts.flatten := by
  induction cs generalizing i ts with
  | nil =>
      obtain ⟨parts, hparts, heq⟩ := exists_shows_texts ts
      obtain ⟨j, hflush⟩ := exists_renderAll_flush vs i ts.flatten.reverse []
      refine ⟨parts, by simpa using hparts, ?_⟩
      rw [piecesOf, hflush, List.reverse_reverse, heq]
      exact List.append_nil _
  | cons c cs ih =>
      obtain ⟨source, reading⟩ := c
      -- what stands before the stretch is shown in full, or without the spaces at its end
      have hafter : ∀ {reading : Reading} {shown : Text} {rest : Text}, reading.Shows shown →
          (∃ parts, List.Forall₂ Reading.Shows (cs.map Cut.reading) parts ∧
            rest = parts.flatten) →
          ∀ {before : Text}, (∃ parts, List.Forall₂ Reading.Shows (ts.map Reading.text) parts ∧
            before = parts.flatten) →
          ∃ parts, List.Forall₂ Reading.Shows
            (ts.map Reading.text ++ reading :: cs.map Cut.reading) parts ∧
              before ++ (shown ++ rest) = parts.flatten := by
        rintro reading shown _ hshown ⟨parts, hparts, rfl⟩ _ ⟨parts', hparts', rfl⟩
        exact ⟨_, List.rel_append hparts' (.cons hshown hparts), by simp⟩
      have hrest := fun j => ih j []
      cases reading with
      | text t =>
          obtain ⟨parts, hparts, heq⟩ := ih i (ts ++ [t])
          refine ⟨parts, by simpa using hparts, ?_⟩
          rw [piecesOf, ← heq]
          simp
      | marks m =>
          obtain ⟨j, hflush⟩ := exists_renderAll_flush vs i ts.flatten.reverse
            (List.replicate m.length (.mark m) ++ piecesOf [] cs)
          obtain ⟨inlines, hshows, hmarks⟩ :=
            Piece.exists_resolveFrom_marks hvs m m.length j (piecesOf [] cs)
          rw [piecesOf, hflush, hmarks, renderAll_append, List.reverse_reverse]
          exact hafter hshows (hrest _) (exists_shows_texts ts)
      | lineEnd =>
          rw [piecesOf, endLine]
          split
          · obtain ⟨j, hflush⟩ := exists_renderAll_flush vs i
              (ts.flatten.reverse.dropWhile (· == ' ')) (.inline .hardBreak :: piecesOf [] cs)
            rw [hflush, Piece.resolveFrom, renderAll_cons]
            exact hafter .hardBreak (hrest _) (exists_shows_kept ts)
          · obtain ⟨j, hflush⟩ := exists_renderAll_flush vs i
              (ts.flatten.reverse.dropWhile (· == ' ')) (.inline .softBreak :: piecesOf [] cs)
            rw [hflush, Piece.resolveFrom, renderAll_cons]
            exact hafter .softBreak (hrest _) (exists_shows_kept ts)
      | element e =>
          obtain ⟨j, hflush⟩ := exists_renderAll_flush vs i ts.flatten.reverse
            (.inline e :: piecesOf [] cs)
          rw [piecesOf, hflush, Piece.resolveFrom, renderAll_cons, List.reverse_reverse]
          exact hafter (.element e) (hrest _) (exists_shows_texts ts)

end Inline

/-! ## Progress -/

namespace Construct

variable {definitions : List Link.Definition} {skip : Skipper} {t : Text} {memory : Memory}

theorem lt_of_suffix_tail {rest : Text} (hne : t ≠ []) (h : rest <:+ t.tail) :
    0 < t.length - rest.length := by
  have hle := h.length_le
  have hpos := List.length_pos_iff.2 hne
  rw [List.length_tail] at hle
  omega

theorem Labelled.pos {label target title : Text} {length : Nat}
    (h : Labelled definitions t label target title length) (hne : t ≠ [])
    (hdefinitions : Link.Unbroken definitions) (hspells : SpellsNoBreak t) : 0 < length := by
  obtain ⟨after, rest, -, hafter, -, hrefers, rfl⟩ := h
  have hspells' := hspells.of_isSuffix (hafter.trans (List.tail_suffix t))
  exact lt_of_suffix_tail hne ((hrefers.spec hdefinitions hspells').1.trans hafter)

theorem readAngle?_pos (hspells : SpellsNoBreak t) {length : Nat} {c : Construct}
    (h : readAngle? t = some (c, length)) : 0 < length := by
  rw [readAngle?] at h
  split at h
  · rename_i target shown rest hread
    obtain ⟨-, rfl⟩ := Prod.mk.inj (Option.some.inj h)
    have hrest := (Autolink.read?_spec (hspells.of_isSuffix (List.tail_suffix t)) hread).1
    refine lt_of_suffix_tail ?_ hrest
    rintro rfl
    simp [Autolink.read?, Autolink.hasScheme, Autolink.isMailbox] at hread
  · split at h
    · simp at h
    · rename_i hlength
      obtain ⟨rest, hrest, heq⟩ := Option.map_eq_some_iff.1 h
      obtain ⟨-, rfl⟩ := Prod.mk.inj heq
      refine lt_of_suffix_tail ?_ (RawHtml.suffix_tail_of_rawHtml hrest)
      rintro rfl
      simp at hlength

theorem readEscape?_pos {length : Nat} {c : Construct} (h : readEscape? t = some (c, length)) :
    0 < length := by
  unfold readEscape? at h
  split at h
  · simp at h
  · obtain ⟨-, rfl⟩ := Prod.mk.inj (Option.some.inj h)
    omega
  · obtain ⟨-, rfl⟩ := Prod.mk.inj (Option.some.inj h)
    exact Nat.two_pos

theorem le_start_of_mem_runsFrom {pos openMarks : Nat} {r : Run}
    (hle : openMarks ≤ pos) (h : r ∈ CodeSpan.runsFrom pos openMarks t) :
    pos - openMarks ≤ r.start := by
  induction t generalizing pos openMarks with
  | nil =>
      rw [CodeSpan.runsFrom] at h
      split at h
      · simp at h
      · exact List.mem_singleton.1 h ▸ Nat.le_refl _
  | cons c t ih =>
      rw [CodeSpan.runsFrom] at h
      split at h
      · have := ih (by omega) h
        omega
      · split at h
        · have := ih (Nat.zero_le _) h
          omega
        · rcases List.mem_cons.1 h with rfl | h
          · exact Nat.le_refl _
          · have := ih (Nat.zero_le _) h
            omega

theorem readCode_pos {pos length : Nat} {b : Char} {rest : Text} {c : Construct}
    (hmark : CodeSpan.isMark b = true)
    (h : (readCode pos (b :: rest) memory).1 = some (c, length)) : 0 < length := by
  have hmarks : 0 < ((b :: rest).takeWhile CodeSpan.isMark).length := by
    rw [List.takeWhile_cons_of_pos hmark]
    exact Nat.succ_pos _
  rw [readCode] at h
  simp only at h
  split at h
  · rename_i content length' hread
    obtain ⟨-, rfl⟩ := Prod.mk.inj (Option.some.inj h)
    rw [CodeSpan.read?] at hread
    simp only at hread
    generalize ((b :: rest).takeWhile CodeSpan.isMark).length = marks at hmarks hread
    split at hread
    · simp at hread
    · split at hread
      · rename_i closer closers hcloser
        obtain ⟨-, rfl⟩ := Prod.mk.inj (Option.some.inj hread)
        have hmem : closer ∈ CodeSpan.runsFrom (pos + marks) 0 ((b :: rest).drop marks) :=
          (List.dropWhile_sublist _).subset (hcloser ▸ List.mem_cons_self ..)
        have := le_start_of_mem_runsFrom (Nat.zero_le _) hmem
        omega
      · simp at hread
  · obtain ⟨-, rfl⟩ := Prod.mk.inj (Option.some.inj h)
    exact hmarks

theorem read_pos (hdefinitions : Link.Unbroken definitions) (hspells : SpellsNoBreak t)
    {pos length : Nat} {c : Construct}
    (h : (read definitions skip pos t memory).1 = some (c, length)) : 0 < length := by
  cases t with
  | nil => simp [read] at h
  | cons b t =>
      rw [read] at h
      split at h
      · rename_i hplain
        obtain ⟨-, rfl⟩ := Prod.mk.inj (Option.some.inj h)
        simp [hplain]
      · split at h
        · obtain ⟨-, rfl⟩ := Prod.mk.inj (Option.some.inj h)
          omega
        · repeat' split at h
          · exact readEscape?_pos h
          · rename_i hmark
            exact readCode_pos hmark h
          · obtain ⟨label, target, title, -, hlabelled⟩ := readLink_cases hspells h
            exact hlabelled.pos (List.cons_ne_nil _ _) hdefinitions hspells
          · obtain ⟨label, source, title, -, hlabelled⟩ := readImage_cases h
            exact hlabelled.pos (List.cons_ne_nil _ _) hdefinitions hspells
          · exact readAngle?_pos hspells h
          · obtain ⟨⟨value, rest⟩, hread, heq⟩ := Option.map_eq_some_iff.1 h
            obtain ⟨-, rfl⟩ := Prod.mk.inj heq
            exact lt_of_suffix_tail (List.cons_ne_nil _ _) (Reference.suffix_of_inText? hread)
          · simp at h

end Construct

/-! ## Line breaks of stretches -/

def Reading.breaks : Reading → Nat
  | .text t => Text.breaks t
  | .marks _ => 0
  | .lineEnd => 1
  | .element i => Text.breaks i.render

def Cut.Keeps (c : Cut) : Prop := c.reading.breaks = Text.breaks c.source

instance : DecidablePred Cut.Keeps := fun _ => inferInstanceAs (Decidable (_ = _))

/-- Only code, links and images may lose line breaks, and code loses all that it has. -/
def Cut.Settles (c : Cut) : Prop :=
  match c.reading with
  | .element (.code shown) => Text.breaks shown = 0
  | .element (.link ..) | .element (.image ..) => True
  | _ => c.Keeps

structure Cut.Fits (c : Cut) : Prop where
  breaks_le : c.reading.breaks ≤ Text.breaks c.source
  mark : ∀ m, c.reading = .marks m → isBreak m.char = false
  settles : c.Settles

namespace Inline

section First

variable {definitions : List Link.Definition} {fuel length : Nat} {c : Char} {t : Text}
  {reading : Reading}

theorem First.pos (h : First definitions fuel c t length reading)
    (hdefinitions : Link.Unbroken definitions) (hspells : SpellsNoBreak (c :: t)) :
    0 < length := by
  cases h with
  | marks before after hmark => simp
  | char => exact Nat.one_pos
  | construct hread hreading => exact Construct.read_pos hdefinitions hspells hread

theorem ReadAs.mark_unbroken {construct : Construct} (h : ReadAs definitions fuel construct reading)
    (m : Mark) (hm : reading = .marks m) : isBreak m.char = false := by
  cases h <;> simp at hm

theorem ReadAs.breaks_le {construct : Construct} (h : ReadAs definitions fuel construct reading)
    (hdefinitions : Link.Unbroken definitions) (hspells : SpellsNoBreak t)
    (hfits : construct.Fits t length) : reading.breaks ≤ Text.breaks (t.take length) := by
  have hinside : ∀ {label : Text}, label <:+: t → ∀ depth pos before memory,
      Piece.breaksAll (readPieces definitions fuel depth pos before label [] memory).1 ≤
        Text.breaks label := by
    intro label hlabel depth pos before memory
    have h := breaks_readPieces_le hdefinitions (hspells.of_isInfix hlabel) fuel depth pos before []
      memory
    simpa using h
  cases h with
  | text run => exact hfits.breaks_le
  | lineBreak => exact hfits.breaks_le
  | hardBreak => exact hfits.breaks_le
  | literal t =>
      rw [Reading.breaks, breaks_render_text]
      exact hfits.breaks_le
  | code t =>
      rw [Reading.breaks, breaks_render_code]
      exact hfits.breaks_le
  | html t => exact hfits.breaks_le
  | address target shown => exact hfits.breaks_address_le
  | link label target title =>
      exact hfits.breaks_link_le (hinside hfits.inner_isInfix _ _ _ _)
  | image label source title =>
      exact hfits.breaks_image_le (hinside hfits.inner_isInfix _ _ _ _)

theorem ReadAs.settles {construct : Construct} (h : ReadAs definitions fuel construct reading)
    (hsettles : construct.Settles t length) : (⟨t.take length, reading⟩ : Cut).Settles := by
  cases h with
  | text run => exact hsettles
  | lineBreak => exact hsettles.symm
  | hardBreak => exact hsettles.symm
  | literal t => exact (breaks_render_text _).trans hsettles
  | code t => exact hsettles
  | html t => exact congrArg Text.breaks hsettles
  | address target shown => trivial
  | link label target title => trivial
  | image label source title => trivial

theorem First.fits (h : First definitions fuel c t length reading)
    (hdefinitions : Link.Unbroken definitions) (hspells : SpellsNoBreak (c :: t))
    (hreturn : '\r' ∉ c :: t) : (⟨(c :: t).take length, reading⟩ : Cut).Fits := by
  cases h with
  | marks before after hmark =>
      refine ⟨Nat.zero_le _, ?_, ?_⟩
      · rintro m hm
        obtain rfl := Reading.marks.inj hm
        rcases hmark with rfl | rfl <;> rfl
      · rw [Cut.Settles, Cut.Keeps, take_length_takeWhile, breaks_takeWhile]
        · rfl
        · rcases hmark with rfl | rfl <;> decide
  | char => exact ⟨Nat.le_refl _, by simp, rfl⟩
  | construct hread hreading =>
      have hfits := Construct.read_fits hdefinitions hspells hread
      have hsettles := Construct.read_settles hspells hreturn hread
      exact ⟨hreading.breaks_le hdefinitions hspells hfits, hreading.mark_unbroken,
        hreading.settles hsettles⟩

end First

theorem cuts_spec {definitions : List Link.Definition} (hdefinitions : Link.Unbroken definitions)
    {t : Text} (hspells : SpellsNoBreak t) (hreturn : '\r' ∉ t) (fuel depth pos : Nat)
    (before : Char) (memory : Memory) :
    (∀ c ∈ (cuts definitions fuel depth pos before t memory).1, c.Fits) ∧
      (t.length ≤ fuel →
        ((cuts definitions fuel depth pos before t memory).1.map Cut.source).flatten = t) := by
  induction fuel generalizing t depth pos before memory with
  | zero =>
      rw [cuts]
      refine ⟨by simp, fun hlength => ?_⟩
      rw [List.eq_nil_of_length_eq_zero (Nat.le_zero.1 hlength)]
      rfl
  | succ fuel ih =>
      cases t with
      | nil => rw [cuts] <;> simp
      | cons c t =>
          obtain ⟨length, reading, pos', before', memory', hfirst, heq⟩ :=
            exists_first definitions fuel depth pos before c t memory
          obtain ⟨hrest, hsources⟩ := ih (hspells.of_isSuffix (List.drop_suffix length (c :: t)))
            (fun hmem => hreturn (List.mem_of_mem_drop hmem)) depth pos' before' memory'
          have hpos := hfirst.pos hdefinitions hspells
          rw [heq]
          refine ⟨List.forall_mem_cons.2 ⟨hfirst.fits hdefinitions hspells hreturn, hrest⟩,
            fun hlength => ?_⟩
          rw [List.length_cons] at hlength
          rw [List.map_cons, List.flatten_cons,
            hsources (by rw [List.length_drop, List.length_cons]; omega), List.take_append_drop]

def stretches (definitions : List Link.Definition) (t : Text) : List Cut :=
  (cuts definitions (t.length + 1) Construct.maxDepth 0 ' ' t Memory.empty).1

theorem exists_shows_resolve (cs : List Cut) :
    ∃ parts, List.Forall₂ (fun (c : Cut) part => c.reading.Shows part) cs parts ∧
      renderAll (Piece.resolve (piecesOf [] cs)) = parts.flatten := by
  rw [Piece.resolve]
  generalize Pairing.run (Piece.slotsFrom 0 (piecesOf [] cs)) = slots
  obtain ⟨parts, hparts, heq⟩ := exists_shows_piecesOf
    (Piece.emphasis_of_verdicts slots slots.length) 0 [] cs
  exact ⟨parts, List.forall₂_map_left_iff.1 hparts, heq⟩

theorem exists_shows (definitions : List Link.Definition) (t : Text) :
    ∃ parts, List.Forall₂ (fun (c : Cut) part => c.reading.Shows part) (stretches definitions t)
      parts ∧ renderText definitions t = parts.flatten := by
  rw [renderText, read, readPieces_eq, ← stretches]
  exact exists_shows_resolve (stretches definitions t)

end Inline

theorem Reading.Shows.breaks_eq {r : Reading} {part : Text} (h : r.Shows part)
    (hmark : ∀ m, r = .marks m → isBreak m.char = false) : Text.breaks part = r.breaks := by
  cases h with
  | text kept n =>
      have hspaces : Text.breaks (List.replicate n ' ') = 0 :=
        breaks_eq_zero.2 fun c hc => List.eq_of_mem_replicate hc ▸ rfl
      rw [Inline.breaks_escape, Reading.breaks, breaks_append, hspaces, Nat.add_zero]
  | @marks m inlines h =>
      rw [Reading.breaks]
      induction inlines with
      | nil => rfl
      | cons i inlines ih =>
          rw [List.forall_mem_cons] at h
          rw [Inline.breaks_renderAll_cons, ih h.2]
          rcases h.1 with rfl | ⟨isStrong, opens, rfl⟩
          · rw [Inline.breaks_render_text, breaks_cons, hmark m rfl]
            rfl
          · rw [Inline.breaks_render_emphasis]
  | softBreak | hardBreak => decide
  | element i => rfl

namespace Inline

/-- A text beside its HTML, stretch by stretch. -/
structure Aligned (definitions : List Link.Definition) (t : Text) (parts : List Text) : Prop where
  sources : ((stretches definitions t).map Cut.source).flatten = t
  rendered : renderText definitions t = parts.flatten
  shows : List.Forall₂ (fun (c : Cut) part => c.reading.Shows part ∧ c.Settles ∧
    breaks part ≤ breaks c.source ∧ (breaks part = breaks c.source ↔ c.Keeps))
      (stretches definitions t) parts

section Aligned

variable {definitions : List Link.Definition} {t : Text}

theorem exists_aligned (hdefinitions : Link.Unbroken definitions) (hspells : SpellsNoBreak t)
    (hreturn : '\r' ∉ t) : ∃ parts, Aligned definitions t parts := by
  obtain ⟨parts, hparts, hshown⟩ := exists_shows definitions t
  obtain ⟨hfits, hsources⟩ := cuts_spec hdefinitions hspells hreturn (t.length + 1)
    Construct.maxDepth 0 ' ' Memory.empty
  refine ⟨parts, hsources (Nat.le_succ _), hshown, ?_⟩
  refine ((List.forall₂_and_left _ _).2 ⟨hfits, hparts⟩).imp fun c part ⟨hc, hpart⟩ => ?_
  have heq := hpart.breaks_eq hc.mark
  exact ⟨hpart, hc.settles, heq ▸ hc.breaks_le, heq ▸ Iff.rfl⟩

theorem breaks_flatten_of_forall₂ {cs : List Cut} {parts : List Text}
    (h : List.Forall₂ (fun (c : Cut) part =>
      breaks part ≤ breaks c.source ∧ (breaks part = breaks c.source ↔ c.Keeps)) cs parts) :
    breaks parts.flatten ≤ breaks (cs.map Cut.source).flatten ∧
      (breaks parts.flatten = breaks (cs.map Cut.source).flatten ↔ ∀ c ∈ cs, c.Keeps) := by
  induction h with
  | nil => simp
  | cons hpart _ ih =>
      obtain ⟨hle, hiff⟩ := hpart
      obtain ⟨hle', hiff'⟩ := ih
      rw [List.forall_mem_cons, ← hiff, ← hiff', List.map_cons, List.flatten_cons,
        List.flatten_cons, breaks_append, breaks_append]
      omega

theorem Aligned.breaks_flatten {parts : List Text} (h : Aligned definitions t parts) :
    breaks parts.flatten ≤ breaks t ∧
      (breaks parts.flatten = breaks t ↔ ∀ c ∈ stretches definitions t, c.Keeps) := by
  have hbreaks := breaks_flatten_of_forall₂ (h.shows.imp fun _ _ hpart => hpart.2.2)
  rwa [h.sources] at hbreaks

end Aligned

end Inline

end Proofreader.Markdown
