import Proofreader.Markdown.Block.Reader
import Proofreader.Proofs.Markdown.Laid
import Proofreader.Proofs.Markdown.Spelling

/-!
# The lines that blocks are read from

Every block takes the line it begins in, and as many more as it has lines of text; what
is inside a quote or an item is read from lines of its own.  So the whole stream of a
source is laid out over the lines of the source.
-/

namespace Proofreader.Markdown

open Text

/-! ## Lines -/

namespace Line

theorem breaks_content {l : Line} (h : breaks l.text = 0) : breaks l.content = 0 :=
  breaks_eq_zero_of_subset (List.drop_subset _ _) h

theorem breaks_cutColumns (indent base shift column : Nat) {t : Text} (h : breaks t = 0) :
    breaks (cutColumns indent base shift column t) = 0 := by
  induction shift, column, t using cutColumns.induct indent base with
  | case1 shift column t hcolumn =>
      have hspaces : breaks (List.replicate (column - indent) ' ') = 0 :=
        breaks_eq_zero.2 fun c hc => List.eq_of_mem_replicate hc ▸ rfl
      rw [cutColumns.eq_def]
      simp only [if_pos hcolumn]
      rw [breaks_append, hspaces, h]
  | case2 shift column hcolumn =>
      rw [cutColumns.eq_def]
      simp only [if_neg hcolumn]
      rfl
  | case3 shift column hcolumn t ih =>
      rw [cutColumns.eq_def]
      simp only [if_neg hcolumn]
      exact ih (breaks_eq_zero_of_subset (List.subset_cons_self _ _) h)
  | case4 shift column hcolumn c t htab hcut ih =>
      rw [cutColumns.eq_def]
      simp only [if_neg hcolumn, if_pos hcut]
      exact ih (breaks_eq_zero_of_subset (List.subset_cons_self _ _) h)
  | case5 shift column hcolumn c t htab hcut =>
      rw [cutColumns.eq_def]
      simp only [if_neg hcolumn, if_neg hcut]
      exact h

theorem breaks_cut {l : Line} (h : breaks l.text = 0) (indent : Nat) : breaks (l.cut indent) = 0 :=
  breaks_cutColumns _ _ _ _ h

theorem le_indentation (base column : Nat) (t : Text) : column ≤ (indentation base column t).2 := by
  induction column, t using indentation.induct base with
  | case1 column t n column' hread ih =>
      rw [indentation, hread]
      rw [hread] at ih
      exact Nat.le_trans (Nat.le_add_right _ _) ih
  | case2 column t n column' hread ih =>
      rw [indentation, hread]
      rw [hread] at ih
      exact Nat.le_trans (Nat.le_add_right _ _) ih
  | case3 t column hspace htab =>
      rw [indentation.eq_3 _ _ _ hspace htab]

end Line

namespace Context

structure Clean (ctx : Context) : Prop where
  breaks_eq : ∀ l ∈ ctx.lines, breaks l.text = 0
  limit_le : ctx.limit ≤ ctx.lines.length

section Unbroken

variable {ctx : Context} (h : ∀ l ∈ ctx.lines, breaks l.text = 0)

include h

theorem breaks_line (i : Nat) : breaks (ctx.line i).text = 0 := by
  rw [line, List.getD]
  cases hl : ctx.lines[i]? with
  | none => rfl
  | some l => exact h l (List.mem_of_getElem? hl)

theorem breaks_cutLines (first stop : Nat) : ∀ t ∈ ctx.cutLines first stop, breaks t = 0 := by
  rw [cutLines, List.forall_mem_map]
  exact fun i _ => Line.breaks_cut (breaks_line h i) _

end Unbroken

namespace Clean

variable {ctx : Context}

theorem breaks_line (h : ctx.Clean) (i : Nat) : breaks (ctx.line i).text = 0 :=
  Context.breaks_line h.breaks_eq i

theorem breaks_content (h : ctx.Clean) (i : Nat) : breaks (ctx.content i) = 0 :=
  Line.breaks_content (h.breaks_line i)

theorem breaks_text (h : ctx.Clean) (first stop : Nat) :
    breaks (ctx.text first stop) = stop - first - 1 := by
  rw [text, breaks_joinWith_newline (breaks_cutLines h.breaks_eq first stop), cutLines,
    List.length_map, List.length_range']

theorem breaks_prose_le (h : ctx.Clean) (first stop : Nat) :
    breaks (ctx.prose first stop) ≤ stop - first - 1 :=
  h.breaks_text first stop ▸ breaks_mono (trim_isInfix _).sublist

end Clean

/-! ## Where blocks end -/

section Stops

variable (ctx : Context)

theorem skipEmptyLines_bounds (n i : Nat) :
    i ≤ ctx.skipEmptyLines n i ∧ ctx.skipEmptyLines n i ≤ i + n := by
  induction n generalizing i with
  | zero => simp [skipEmptyLines]
  | succ n ih =>
      rw [skipEmptyLines]
      have := ih (i + 1)
      split <;> omega

theorem codeStop_bounds (n : Nat) {i last : Nat} (h : last ≤ i) :
    last ≤ ctx.codeStop n i last ∧ ctx.codeStop n i last ≤ i + n := by
  induction n generalizing i last with
  | zero => simp [codeStop, h]
  | succ n ih =>
      rw [codeStop]
      have hempty := ih (i := i + 1) (Nat.le_succ_of_le h)
      have hcode := ih (Nat.le_refl (i + 1))
      split
      · omega
      · split <;> omega

theorem fenceStop_bounds (f : Fence) (n i : Nat) :
    i ≤ ctx.fenceStop f n i ∧ ctx.fenceStop f n i ≤ i + n := by
  induction n generalizing i with
  | zero => simp [fenceStop]
  | succ n ih =>
      rw [fenceStop]
      have := ih (i + 1)
      repeat' split
      all_goals omega

theorem htmlStop_bounds (kind : RawHtml.BlockKind) (n i : Nat) :
    i ≤ ctx.htmlStop kind n i ∧ ctx.htmlStop kind n i ≤ i + n := by
  induction n generalizing i with
  | zero => simp [htmlStop]
  | succ n ih =>
      rw [htmlStop]
      have := ih (i + 1)
      repeat' split
      all_goals omega

theorem paragraphStop_bounds (n i : Nat) :
    i ≤ ctx.paragraphStop n i ∧ ctx.paragraphStop n i ≤ i + n := by
  induction n generalizing i with
  | zero => simp [paragraphStop]
  | succ n ih =>
      rw [paragraphStop]
      have := ih (i + 1)
      repeat' split
      all_goals omega

theorem one_le_underlineLevel {t : Text} {level : Nat} (h : underlineLevel? t = some level) :
    1 ≤ level := by
  unfold underlineLevel? at h
  split at h
  · simp at h
  · split at h
    · have := Option.some.inj h
      split at this <;> omega
    · simp at h

theorem underline?_bounds (stop n : Nat) {i last level : Nat}
    (h : ctx.underline? stop n i = some (last, level)) :
    i ≤ last ∧ last < i + n ∧ 1 ≤ level := by
  induction n generalizing i with
  | zero => simp [underline?] at h
  | succ n ih =>
      have hnext : ctx.underline? stop n (i + 1) = some (last, level) →
          i ≤ last ∧ last < i + (n + 1) ∧ 1 ≤ level := by
        intro hrest
        have := ih hrest
        omega
      rw [underline?] at h
      split at h
      · simp at h
      · split at h
        · exact hnext h
        · split at h
          · rename_i level' hlevel
            obtain ⟨rfl, rfl⟩ : i = last ∧ level' = level := by simpa using h
            split at hlevel
            · simp at hlevel
            · exact ⟨Nat.le_refl _, by omega, one_le_underlineLevel hlevel⟩
          · split at h
            · exact hnext h
            · split at h
              · simp at h
              · exact hnext h

theorem length_bodyRows_le (count n i : Nat) (missing : Int) :
    (ctx.bodyRows count n i missing).1.length ≤ n := by
  induction n generalizing i missing with
  | zero => simp [bodyRows]
  | succ n ih =>
      rw [bodyRows]
      simp only
      repeat' split
      · exact Nat.zero_le _
      · exact Nat.zero_le _
      · exact Nat.zero_le _
      · exact Nat.succ_le_succ (ih _ _)

theorem length_definitionLines_le (n i : Nat) : (ctx.definitionLines n i).length ≤ n := by
  induction n generalizing i with
  | zero => simp [definitionLines]
  | succ n ih =>
      rw [definitionLines]
      split
      · exact Nat.zero_le _
      · exact Nat.succ_le_succ (ih _)

theorem length_quoteLines_le (n i : Nat) (lastIsEmpty : Bool) :
    (ctx.quoteLines n i lastIsEmpty).lines.length ≤ n := by
  induction n generalizing i lastIsEmpty with
  | zero => simp [quoteLines]
  | succ n ih =>
      rw [quoteLines]
      simp only
      repeat' split
      · exact Nat.zero_le _
      · exact Nat.succ_le_succ (ih _ _)
      · exact Nat.zero_le _
      · exact Nat.zero_le _
      · exact Nat.succ_le_succ (ih _ _)

end Stops

end Context

/-! ## Passages -/

/-- A passage over lines of a source that has `size` lines, from line `lo` on. -/
structure Passage.Fits (m : Content) (lo size : Nat) (p : Passage) : Prop where
  laid : Laid m lo p.next p.events
  next_le : p.next ≤ size
  targets : ∀ d ∈ p.definitions, breaks d.target = 0

namespace Passage.Fits

variable {m : Content} {lo size : Nat} {p q : Passage}

theorem nothing {next : Nat} (hlo : lo ≤ next) (hsize : next ≤ size) :
    (Passage.nothing next).Fits m lo size := ⟨.nil hlo, hsize, by simp [Passage.nothing]⟩

theorem block {kind : EventKind} {next : Nat} (hkind : kind.IsBlock)
    (hlines : lo + breaks kind.source < next) (hsize : next ≤ size) :
    (Passage.ofEvents [.block kind lo next] next).Fits .blocks lo size :=
  ⟨.block hkind rfl (Nat.le_refl _) hlines (.nil (Nat.le_refl _)), hsize,
    by simp [Passage.ofEvents]⟩

theorem wrap {c : Container} {attributes : Attributes} (h : p.Fits c.content lo size)
    (hattributes : c = .item → attributes = []) :
    (p.wrap c lo p.next attributes).Fits c.place lo size :=
  ⟨h.laid.wrap hattributes, h.next_le, h.targets⟩

theorem append {mid : Nat} (hp : p.Fits m lo size) (hmid : p.next ≤ mid) (hq : q.Fits m mid size) :
    (p.append q).Fits m lo size := by
  refine ⟨hp.laid.append (hq.laid.mono hmid (Nat.le_refl _)), hq.next_le, ?_⟩
  rw [Passage.append, List.forall_mem_append]
  exact ⟨hp.targets, hq.targets⟩

end Passage.Fits

theorem Definition.breaks_target_of_read? {first : Text} {lines : List Text}
    {d : Link.Definition} {p : Definition.Position}
    (h : Definition.read? first lines = some (d, p)) : breaks d.target = 0 := by
  unfold Definition.read? at h
  simp only [Option.bind_eq_bind, Option.bind_eq_some_iff] at h
  obtain ⟨⟨label, q⟩, -, h⟩ := h
  simp only at h
  split at h
  · obtain ⟨⟨destination, rest⟩, -, h⟩ := Option.bind_eq_some_iff.1 h
    simp only at h
    split at h
    · simp at h
    · obtain ⟨⟨title, q'⟩, -, h⟩ := Option.bind_eq_some_iff.1 h
      simp only at h
      split at h
      · simp at h
      · obtain ⟨rfl, rfl⟩ := Prod.mk.inj (Option.some.inj h)
        simp only [Url.breaks_target]
  · simp at h

structure Context.Takes (ctx : Context) (m : Content) (i : Nat) (p : Passage) : Prop where
  fits : p.Fits m i ctx.lines.length
  lt_next : i < p.next

/-! ## Table rows -/

namespace Table

theorem subset_of_mem_consCell {c : Char} {cells : List Text} {t cell : Text}
    (h : ∀ cell ∈ cells, cell ⊆ t) (hcell : cell ∈ consCell c cells) : cell ⊆ c :: t := by
  cases cells with
  | nil =>
      obtain rfl : cell = [c] := by simpa [consCell] using hcell
      exact List.cons_subset_cons c (List.nil_subset t)
  | cons first cells =>
      rw [List.forall_mem_cons] at h
      rcases List.mem_cons.1 hcell with rfl | hcell
      · exact List.cons_subset_cons c h.1
      · exact List.Subset.trans (h.2 cell hcell) (List.subset_cons_self c t)

theorem subset_of_mem_splitCells {t cell : Text} (h : cell ∈ splitCells t) : cell ⊆ t := by
  induction t using splitCells.induct generalizing cell with
  | case1 =>
      obtain rfl : cell = [] := by simpa [splitCells] using h
      exact List.nil_subset _
  | case2 t ih =>
      rw [splitCells] at h
      exact List.Subset.trans (subset_of_mem_consCell (fun _ => ih) h)
        (List.subset_cons_self '\\' ('|' :: t))
  | case3 t hescape ih =>
      rw [splitCells.eq_3 _ _ hescape, if_pos rfl] at h
      rcases List.mem_cons.1 h with rfl | h
      · exact List.nil_subset _
      · exact List.Subset.trans (ih h) (List.subset_cons_self '|' t)
  | case4 c t hescape hpipe ih =>
      rw [splitCells.eq_3 _ _ hescape, if_neg hpipe] at h
      exact subset_of_mem_consCell (fun _ => ih) h

theorem mem_of_mem_dropEmptyFirst {cells : List Text} {cell : Text}
    (h : cell ∈ dropEmptyFirst cells) : cell ∈ cells := by
  unfold dropEmptyFirst at h
  split at h
  · exact List.mem_cons_of_mem _ h
  · exact h

theorem subset_of_mem_cells {t cell : Text} (h : cell ∈ cells t) : cell ⊆ t := by
  have hlast := mem_of_mem_dropEmptyFirst (List.mem_reverse.1 h)
  exact subset_of_mem_splitCells (mem_of_mem_dropEmptyFirst (List.mem_reverse.1 hlast))

end Table

namespace Context

theorem laid_rowEvents (i : Nat) (alignments : List Table.Alignment) {cells : List Text}
    (h : ∀ cell ∈ cells, breaks cell = 0) : Laid .cells i (i + 1) (rowEvents alignments cells) := by
  induction alignments generalizing cells with
  | nil => exact .nil (Nat.le_succ i)
  | cons a alignments ih =>
      cases cells with
      | nil => exact .nil (Nat.le_succ i)
      | cons cell cells =>
          rw [List.forall_mem_cons] at h
          refine .cell rfl rfl ?_ (Nat.lt_succ_self i) (ih h.2)
          exact Nat.le_zero.1 (h.1 ▸ breaks_mono (trim_isInfix cell).sublist)

theorem laid_row (i : Nat) (alignments : List Table.Alignment) {cells : List Text}
    (h : ∀ cell ∈ cells, breaks cell = 0) :
    Laid .blocks i (i + 1) (Event.wrap .row i (i + 1) [] (rowEvents alignments cells)) :=
  (laid_rowEvents i alignments h).wrap (c := .row) (fun _ => rfl)

theorem laid_rowsFrom (alignments : List Table.Alignment) {rows : List (List Text)}
    (h : ∀ cells ∈ rows, ∀ cell ∈ cells, breaks cell = 0) (i : Nat) :
    Laid .blocks i (i + rows.length) (rowsFrom alignments i rows) := by
  induction rows generalizing i with
  | nil => exact .nil (Nat.le_refl i)
  | cons cells rows ih =>
      rw [List.forall_mem_cons] at h
      have hrest := ih h.2 (i + 1)
      rw [List.length_cons, show i + (rows.length + 1) = i + 1 + rows.length by omega]
      exact (laid_row i alignments h.1).append hrest

namespace Clean

variable {ctx : Context}

theorem breaks_cells (h : ctx.Clean) (i : Nat) :
    ∀ cell ∈ Table.cells (Text.trim (ctx.content i)), breaks cell = 0 := fun _ hcell =>
  breaks_eq_zero_of_subset
    (List.Subset.trans (Table.subset_of_mem_cells hcell) (trim_isInfix _).subset)
    (h.breaks_content i)

theorem breaks_bodyRows (h : ctx.Clean) (count n i : Nat) (missing : Int) :
    ∀ cells ∈ (ctx.bodyRows count n i missing).1, ∀ cell ∈ cells, breaks cell = 0 := by
  induction n generalizing i missing with
  | zero => simp [bodyRows]
  | succ n ih =>
      have hfit : ∀ cell ∈ Table.fit count (Table.cells (Text.trim (ctx.content i))),
          breaks cell = 0 := by
        intro cell hcell
        rcases List.mem_append.1 (List.mem_of_mem_take hcell) with hcell | hcell
        · exact h.breaks_cells i cell hcell
        · rw [List.eq_of_mem_replicate hcell]
          rfl
      rw [bodyRows]
      simp only
      repeat' split
      · simp
      · simp
      · simp
      · rw [List.forall_mem_cons]
        exact ⟨hfit, ih _ _⟩

theorem table?_spec (h : ctx.Clean) {i stop : Nat} {header : List Text}
    {alignments : List Table.Alignment} (htable : ctx.table? i stop = some (header, alignments)) :
    i + 2 ≤ stop ∧ ∀ cell ∈ header, breaks cell = 0 := by
  unfold table? at htable
  split at htable
  · simp at htable
  · rename_i hlines
    simp only [Bool.or_eq_true, decide_eq_true_eq, not_or] at hlines
    split at htable
    · simp at htable
    · simp only at htable
      split at htable
      · obtain ⟨rfl, rfl⟩ := Prod.mk.inj (Option.some.inj htable)
        exact ⟨by omega, h.breaks_cells i⟩
      · simp at htable

/-! ## Blocks without blocks inside -/

variable {i stop : Nat} {p : Passage}

theorem readTable?_takes (h : ctx.Clean) (hstop : stop ≤ ctx.lines.length)
    (hp : ctx.readTable? i stop = some p) : ctx.Takes .blocks i p := by
  obtain ⟨⟨header, alignments⟩, htable, heq⟩ := Option.map_eq_some_iff.1 hp
  obtain ⟨hlines, hheader⟩ := h.table?_spec htable
  have hrows := h.breaks_bodyRows header.length (stop - (i + 2)) (i + 2) 0
  have hlength := ctx.length_bodyRows_le header.length (stop - (i + 2)) (i + 2) 0
  simp only at heq
  generalize ctx.bodyRows header.length (stop - (i + 2)) (i + 2) 0 = body at heq hrows hlength
  obtain ⟨rows, isFaulty⟩ := body
  simp only at hrows hlength
  subst heq
  have hhead := (laid_row i alignments hheader).wrap (c := .tableHead) (fun _ => rfl)
  have hbody : Laid .blocks (i + 1) (i + 2 + rows.length) (if rows.isEmpty then []
      else Event.wrap .tableBody (i + 2) (i + 2 + rows.length) []
        (rowsFrom alignments (i + 2) rows)) := by
    split
    · exact .nil (by omega)
    · exact ((laid_rowsFrom alignments hrows (i + 2)).wrap (c := .tableBody) fun _ => rfl).mono
        (Nat.le_succ _) (Nat.le_refl _)
  refine ⟨⟨(hhead.append hbody).wrap (c := .table) fun _ => rfl, ?_,
    by simp [Passage.ofEvents]⟩, ?_⟩
  · simp only [Passage.ofEvents]
    omega
  · simp only [Passage.ofEvents]
    omega

theorem readCode?_takes (hi : i < stop) (hstop : stop ≤ ctx.lines.length)
    (hp : ctx.readCode? i stop = some p) : ctx.Takes .blocks i p := by
  unfold readCode? at hp
  split at hp
  · obtain rfl := Option.some.inj hp
    have := ctx.codeStop_bounds (stop - (i + 1)) (Nat.le_refl (i + 1))
    refine ⟨.block trivial ?_ (by omega), ?_⟩
    · simp only [EventKind.source, breaks_nil]
      omega
    · simp only [Passage.ofEvents]
      omega
  · simp at hp

theorem readAttributeLine?_takes (hi : i < ctx.lines.length)
    (hp : ctx.readAttributeLine? i = some p) :
    ctx.Takes .blocks i p := by
  obtain ⟨attributes, -, rfl⟩ := Option.map_eq_some_iff.1 hp
  refine ⟨⟨.block trivial rfl (Nat.le_refl _) ?_ (.nil (Nat.le_refl _)), hi, ?_⟩,
    Nat.lt_succ_self i⟩
  · exact Nat.lt_succ_self i
  · simp [Passage.ofEvents]

theorem readFence?_takes (hi : i < stop) (hstop : stop ≤ ctx.lines.length)
    (hp : ctx.readFence? i stop = some p) : ctx.Takes .blocks i p := by
  obtain ⟨f, -, rfl⟩ := Option.map_eq_some_iff.1 hp
  have := ctx.fenceStop_bounds f (stop - (i + 1)) (i + 1)
  refine ⟨.block trivial ?_ (by omega), ?_⟩
  · simp only [EventKind.source, breaks_nil]
    omega
  · simp only [Passage.ofEvents]
    omega

theorem readBreak?_takes (hi : i < ctx.lines.length) (hp : ctx.readBreak? i = some p) :
    ctx.Takes .blocks i p := by
  unfold readBreak? at hp
  split at hp
  · obtain rfl := Option.some.inj hp
    exact ⟨.block trivial (Nat.lt_succ_self i) hi, Nat.lt_succ_self i⟩
  · simp at hp

theorem breaks_target_of_definition? {d : Link.Definition} {next : Nat}
    (hd : ctx.definition? i = some (d, next)) :
    breaks d.target = 0 ∧ i < next ∧ next ≤ i + 1 + (ctx.limit - (i + 1)) := by
  unfold definition? at hd
  split at hd
  · simp at hd
  · split at hd
    · rename_i first hfirst
      simp only [Option.map_eq_some_iff] at hd
      obtain ⟨⟨d', rest⟩, hread, heq⟩ := hd
      obtain ⟨rfl, rfl⟩ := Prod.mk.inj heq
      have hlength := ctx.length_definitionLines_le (ctx.limit - (i + 1)) (i + 1)
      exact ⟨Definition.breaks_target_of_read? hread, by omega, by omega⟩
    · simp at hd

theorem readDefinition?_takes (h : ctx.Clean) (hi : i < ctx.limit)
    (hp : ctx.readDefinition? i = some p) : ctx.Takes .blocks i p := by
  obtain ⟨⟨d, next⟩, hd, rfl⟩ := Option.map_eq_some_iff.1 hp
  obtain ⟨htarget, hlt, hle⟩ := breaks_target_of_definition? hd
  have hlimit := h.limit_le
  refine ⟨⟨.nil (Nat.le_of_lt hlt), ?_, by simpa using htarget⟩, hlt⟩
  simp only
  omega

theorem readHtml?_takes (h : ctx.Clean) (hi : i < stop) (hstop : stop ≤ ctx.lines.length)
    (hp : ctx.readHtml? i stop = some p) : ctx.Takes .blocks i p := by
  obtain ⟨kind, -, rfl⟩ := Option.map_eq_some_iff.1 hp
  have := ctx.htmlStop_bounds kind (stop - (i + 1)) (i + 1)
  generalize hnext : (if kind.endsAt (ctx.content i) then i + 1
    else ctx.htmlStop kind (stop - (i + 1)) (i + 1)) = next
  have hbounds : i < next ∧ next ≤ stop := by
    rw [← hnext]
    split <;> omega
  refine ⟨.block trivial ?_ (by omega), hbounds.1⟩
  rw [EventKind.source, h.breaks_text]
  omega

theorem breaks_headingText_le (t : Text) : breaks (headingText t) ≤ breaks t := by
  have hbody : ((t.dropWhile isNumberSign).reverse.dropWhile isSpaceOrTab).Sublist t.reverse :=
    (dropWhile_sublist _ _).trans (dropWhile_sublist _ _).reverse
  have hcore := (dropWhile_sublist isNumberSign _).trans hbody
  unfold headingText
  refine Nat.le_trans (breaks_mono (trim_isInfix _).sublist) ?_
  rw [breaks_reverse, ← breaks_reverse t]
  split
  · exact breaks_mono hcore
  · exact breaks_mono hbody

theorem readHeading?_takes (h : ctx.Clean) (hi : i < ctx.lines.length)
    (hp : ctx.readHeading? i = some p) : ctx.Takes .blocks i p := by
  obtain ⟨level, hlevel, rfl⟩ := Option.map_eq_some_iff.1 hp
  refine ⟨.block ?_ ?_ hi, Nat.lt_succ_self i⟩
  · unfold heading? at hlevel
    split at hlevel
    · simp at hlevel
    · unfold headingLevel? at hlevel
      simp only at hlevel
      split at hlevel
      · rename_i hrange
        exact Option.some.inj hlevel ▸ hrange.1
      · simp at hlevel
  · have hle := breaks_headingText_le (ctx.content i)
    have hcontent := h.breaks_content i
    rw [EventKind.source]
    omega

theorem readUnderlined?_takes (h : ctx.Clean) (hi : i < stop) (hstop : stop ≤ ctx.lines.length)
    (hp : ctx.readUnderlined? i stop = some p) :
    ctx.Takes .blocks i p := by
  obtain ⟨⟨last, level⟩, hunderline, rfl⟩ := Option.map_eq_some_iff.1 hp
  obtain ⟨hfirst, hlast, hlevel⟩ := ctx.underline?_bounds _ _ hunderline
  have hprose := h.breaks_prose_le i last
  refine ⟨.block hlevel ?_ (by omega), ?_⟩
  · rw [EventKind.source]
    omega
  · simp only [Passage.ofEvents]
    omega

theorem readParagraph_takes (h : ctx.Clean) (hi : i < ctx.limit) :
    ctx.Takes .blocks i (ctx.readParagraph i) := by
  have := ctx.paragraphStop_bounds (ctx.limit - (i + 1)) (i + 1)
  have hlimit := h.limit_le
  have hprose := h.breaks_prose_le i (ctx.paragraphStop (ctx.limit - (i + 1)) (i + 1))
  refine ⟨.block trivial ?_ (by omega), ?_⟩
  · rw [EventKind.source]
    omega
  · simp only [readParagraph, Passage.ofEvents]
    omega

end Clean

/-! ## Quotes -/

structure Reads (ctx : Context) (i stop : Nat) (p : Passage) : Prop where
  fits : p.Fits .blocks i ctx.lines.length
  lt_next : i < stop → ctx.isEmpty i = true ∨ ctx.isOutside i = false → i < p.next

structure Site (ctx : Context) (inner : BlockReader) (i stop : Nat) : Prop where
  clean : ctx.Clean
  lt_stop : i < stop
  stop_le : stop ≤ ctx.limit
  reads : ∀ (ctx' : Context) (i' stop' : Nat), ctx'.Clean →
    ctx'.lines.length = ctx.lines.length → ctx.level < ctx'.level → i ≤ i' →
    i' < stop' → stop' ≤ ctx'.limit → ctx'.Reads i' stop' (inner ctx' i' stop')

theorem Site.stop_le_length {ctx : Context} {inner : BlockReader} {i stop : Nat}
    (h : Site ctx inner i stop) : stop ≤ ctx.lines.length :=
  Nat.le_trans h.stop_le h.clean.limit_le

theorem unquote_spec {l : Line} (h : breaks l.text = 0) :
    breaks (unquote l).text = 0 ∧ 0 ≤ (unquote l).column := by
  have htail : breaks l.content.tail = 0 := breaks_eq_zero_of_subset
    (fun c hc => List.mem_of_mem_drop (List.mem_of_mem_tail hc)) h
  unfold unquote
  simp only
  split
  · rename_i t ht
    rw [ht] at htail
    have := Line.le_indentation l.base (l.column.toNat + 1 + 1) t
    refine ⟨breaks_eq_zero_of_subset (List.subset_cons_self _ _) htail, ?_⟩
    simp only
    omega
  · rename_i t ht
    rw [ht] at htail
    split
    · have := Line.le_indentation l.base (l.column.toNat + 1 + 1) t
      refine ⟨breaks_eq_zero_of_subset (List.subset_cons_self _ _) htail, ?_⟩
      simp only
      omega
    · have := Line.le_indentation (l.base + 1) (l.column.toNat + 1) ('\t' :: t)
      refine ⟨htail, ?_⟩
      simp only
      omega
  · exact ⟨htail, Int.le_refl 0⟩

theorem breaks_quoteLines {ctx : Context} (h : ∀ l ∈ ctx.lines, breaks l.text = 0) (n i : Nat)
    (lastIsEmpty : Bool) :
    ∀ l ∈ (ctx.quoteLines n i lastIsEmpty).lines, breaks l.text = 0 := by
  induction n generalizing i lastIsEmpty with
  | zero => simp [quoteLines]
  | succ n ih =>
      rw [quoteLines]
      simp only
      repeat' split
      · simp
      · rw [QuoteLines.cons, List.forall_mem_cons]
        exact ⟨(unquote_spec (breaks_line h i)).1, ih _ _⟩
      · simp
      · simp
      · rw [QuoteLines.cons, List.forall_mem_cons]
        exact ⟨breaks_line h i, ih _ _⟩

section Containers

variable {ctx : Context} {inner : BlockReader} {i stop : Nat} {p : Passage}

theorem readQuote?_takes (h : Site ctx inner i stop) (hp : ctx.readQuote? inner i stop = some p) :
    ctx.Takes .blocks i p := by
  unfold readQuote? at hp
  split at hp
  · obtain rfl := Option.some.inj hp
    have hfirst := unquote_spec (h.clean.breaks_line i)
    have hrest := breaks_quoteLines h.clean.breaks_eq (stop - (i + 1)) (i + 1)
      (unquote (ctx.line i)).isEmpty
    have hlength := ctx.length_quoteLines_le (stop - (i + 1)) (i + 1) (unquote (ctx.line i)).isEmpty
    generalize ctx.quoteLines (stop - (i + 1)) (i + 1) (unquote (ctx.line i)).isEmpty = found
      at hrest hlength
    generalize unquote (ctx.line i) = first at hfirst
    have hstop := h.stop_le_length
    have hlt := h.lt_stop
    simp only [List.length_cons]
    generalize hctx : ({ ctx with
      lines := ctx.lines.take i ++ first :: found.lines ++
        ctx.lines.drop (i + (found.lines.length + 1))
      limit := if found.isCutOff then i + (found.lines.length + 1) else ctx.limit
      indent := 0
      level := ctx.level + 1 } : Context) = ctx'
    have hsize : ctx'.lines.length = ctx.lines.length := by
      rw [← hctx]
      simp
      omega
    have hlimit : i + (found.lines.length + 1) ≤ ctx'.limit ∧ ctx'.limit ≤ ctx'.lines.length := by
      have := h.stop_le
      have := h.clean.limit_le
      rw [hsize, ← hctx]
      simp only
      split <;> omega
    have hclean : ctx'.Clean := by
      refine ⟨?_, hlimit.2⟩
      rw [← hctx]
      simp only [List.forall_mem_append, List.forall_mem_cons]
      exact ⟨⟨fun l hl => h.clean.breaks_eq l (List.mem_of_mem_take hl), hfirst.1, hrest⟩,
        fun l hl => h.clean.breaks_eq l (List.mem_of_mem_drop hl)⟩
    have hreads := h.reads ctx' i (i + (found.lines.length + 1)) hclean hsize
      (by rw [← hctx]; exact Nat.lt_succ_self _) (Nat.le_refl _) (by omega) hlimit.1
    have hinside : ctx'.isOutside i = false := by
      have hline : ctx'.line i = first := by
        rw [← hctx]
        simp [line, show min i ctx.lines.length = i by omega]
      simp only [isOutside, column, hline]
      rw [← hctx]
      simpa using hfirst.2
    refine ⟨hsize ▸ hreads.fits.wrap (c := .quote) (fun _ => rfl), ?_⟩
    exact hreads.lt_next (by omega) (.inr hinside)
  · simp at hp

/-! ## Lists -/

theorem itemContext_spec (h : ctx.Clean) (m : ListMarker) (hi : i < ctx.lines.length) :
    (ctx.itemContext m i).Clean ∧ (ctx.itemContext m i).lines.length = ctx.lines.length ∧
      ((ctx.itemContext m i).isEmpty i = true ∨ (ctx.itemContext m i).isOutside i = false) := by
  unfold itemContext
  simp only
  have hcolumn := Line.le_indentation (ctx.line i).base ((ctx.line i).column.toNat + m.width)
    ((ctx.line i).content.drop m.width)
  have hline := h.breaks_line i
  generalize ctx.line i = l at hcolumn hline
  generalize Line.indentation l.base (l.column.toNat + m.width) (l.content.drop m.width) = found
    at hcolumn
  obtain ⟨blanks, column⟩ := found
  simp only at hcolumn ⊢
  refine ⟨⟨fun l hl => ?_, ?_⟩, List.length_set, ?_⟩
  · rcases List.mem_or_eq_of_mem_set hl with hl | rfl
    · exact h.breaks_eq l hl
    · exact hline
  · rw [List.length_set]
    exact h.limit_le
  · by_cases hempty : blanks = (l.content.drop m.width).length
    · left
      simp only [isEmpty, line, List.getD_eq_getElem?_getD, List.getElem?_set_self hi,
        Option.getD_some, Line.isEmpty, List.isEmpty_iff, Line.content]
      rw [← List.drop_drop, ← List.drop_drop, hempty]
      exact List.drop_length
    · right
      simp only [isOutside, Context.column, line, List.getD_eq_getElem?_getD,
        List.getElem?_set_self hi, Option.getD_some, decide_eq_false_iff_not]
      split
      · rename_i hwidth
        have := hwidth.resolve_left hempty
        omega
      · omega

theorem readItem_takes (h : Site ctx inner i stop) (m : ListMarker) :
    ctx.Takes .items i (ctx.readItem inner m i stop) := by
  have hstop := h.stop_le_length
  have hlt := h.lt_stop
  obtain ⟨hclean, hsize, hinside⟩ := itemContext_spec h.clean m (show i < ctx.lines.length by omega)
  have hreads := h.reads (ctx.itemContext m i) i stop hclean hsize
    (Nat.lt_add_of_pos_right Nat.two_pos) (Nat.le_refl _) hlt h.stop_le
  rw [readItem]
  split
  · exact ⟨(Passage.Fits.nothing (by omega) (by omega)).wrap (c := .item) fun _ => rfl,
      by simp only [Passage.wrap, Passage.nothing]; omega⟩
  · exact ⟨hsize ▸ hreads.fits.wrap (c := .item) fun _ => rfl, hreads.lt_next hlt hinside⟩

theorem Site.later (h : Site ctx inner i stop) {j : Nat} (hi : i ≤ j) (hj : j < stop) :
    Site ctx inner j stop :=
  ⟨h.clean, hj, h.stop_le, fun ctx' i' stop' hclean hsize hlevel hi' =>
    h.reads ctx' i' stop' hclean hsize hlevel (Nat.le_trans hi hi')⟩

theorem readItems_takes (h : Site ctx inner i stop) (n : Nat) (m : ListMarker) :
    ctx.Takes .items i (ctx.readItems inner stop (n + 1) m i) := by
  induction n generalizing i m with
  | zero =>
      obtain ⟨hitem, hlt⟩ := readItem_takes h m
      rw [readItems]
      repeat' split
      · exact ⟨hitem, hlt⟩
      · exact ⟨hitem.append (Nat.le_refl _) (.nothing (Nat.le_refl _) hitem.next_le), hlt⟩
      · exact ⟨hitem, hlt⟩
  | succ n ih =>
      obtain ⟨hitem, hlt⟩ := readItem_takes h m
      rw [readItems]
      repeat' split
      · exact ⟨hitem, hlt⟩
      · rename_i hnext m' hmarker
        obtain ⟨hrest, hlt'⟩ := ih (h.later (Nat.le_of_lt hlt) (by omega)) m'
        exact ⟨hitem.append (Nat.le_refl _) hrest, Nat.lt_trans hlt hlt'⟩
      · exact ⟨hitem, hlt⟩

theorem readList?_takes (h : Site ctx inner i stop) (hp : ctx.readList? inner i stop = some p) :
    ctx.Takes .blocks i p := by
  obtain ⟨m, hm, rfl⟩ := Option.map_eq_some_iff.1 hp
  obtain ⟨n, hn⟩ : ∃ n, stop - i = n + 1 := ⟨stop - i - 1, by have := h.lt_stop; omega⟩
  obtain ⟨hitems, hlt⟩ := readItems_takes h n m
  rw [hn]
  simp only
  split
  · exact ⟨hitems.wrap (c := .orderedList) nofun, hlt⟩
  · exact ⟨hitems.wrap (c := .bulletList) nofun, hlt⟩

/-! ## All blocks -/

theorem readBlock_holds {holds : Passage → Prop}
    (htable : ∀ p, ctx.readTable? i stop = some p → holds p)
    (hcode : ∀ p, ctx.readCode? i stop = some p → holds p)
    (hattributes : ∀ p, ctx.readAttributeLine? i = some p → holds p)
    (hfence : ∀ p, ctx.readFence? i stop = some p → holds p)
    (hquote : ∀ p, ctx.readQuote? inner i stop = some p → holds p)
    (hbreak : ∀ p, ctx.readBreak? i = some p → holds p)
    (hlist : ∀ p, ctx.readList? inner i stop = some p → holds p)
    (hdefinition : ∀ p, ctx.readDefinition? i = some p → holds p)
    (hhtml : ∀ p, ctx.readHtml? i stop = some p → holds p)
    (hheading : ∀ p, ctx.readHeading? i = some p → holds p)
    (hunderlined : ∀ p, ctx.readUnderlined? i stop = some p → holds p)
    (hparagraph : holds (ctx.readParagraph i)) : holds (ctx.readBlock inner i stop) := by
  have hor : ∀ {x y : Option Passage}, (∀ p, x = some p → holds p) →
      (∀ p, y = some p → holds p) → ∀ p, x.or y = some p → holds p := by
    intro x y hx hy p hp
    rcases Option.or_eq_some_iff.1 hp with hp | ⟨-, hp⟩
    · exact hx p hp
    · exact hy p hp
  have hgetD : ∀ {x : Option Passage}, (∀ p, x = some p → holds p) →
      holds (x.getD (ctx.readParagraph i)) := by
    intro x hx
    cases x with
    | none => exact hparagraph
    | some p => exact hx p rfl
  rw [readBlock]
  refine hgetD (hor htable (hor hcode (hor hattributes (hor hfence (hor hquote ?_)))))
  exact hor hbreak (hor hlist (hor hdefinition (hor hhtml (hor hheading hunderlined))))

theorem readBlock_takes (h : Site ctx inner i stop) :
    ctx.Takes .blocks i (ctx.readBlock inner i stop) := by
  have hi := h.lt_stop
  have hstop := h.stop_le_length
  have hlimit := h.stop_le
  have hline : i < ctx.lines.length := by omega
  have hbefore : i < ctx.limit := by omega
  apply readBlock_holds
  · exact fun p => h.clean.readTable?_takes hstop
  · exact fun p => Clean.readCode?_takes hi hstop
  · exact fun p => Clean.readAttributeLine?_takes hline
  · exact fun p => Clean.readFence?_takes hi hstop
  · exact fun p => readQuote?_takes h
  · exact fun p => Clean.readBreak?_takes hline
  · exact fun p => readList?_takes h
  · exact fun p => h.clean.readDefinition?_takes hbefore
  · exact fun p => h.clean.readHtml?_takes hi hstop
  · exact fun p => h.clean.readHeading?_takes hline
  · exact fun p => h.clean.readUnderlined?_takes hi hstop
  · exact h.clean.readParagraph_takes hbefore

end Containers

section Content

variable {ctx : Context} {i : Nat}

theorem nextContent_bounds (h : ctx.Clean) (hi : i ≤ ctx.lines.length) :
    i ≤ ctx.nextContent i ∧ ctx.nextContent i ≤ ctx.lines.length := by
  have := h.limit_le
  have := ctx.skipEmptyLines_bounds (ctx.limit - i) i
  rw [nextContent]
  omega

theorem lt_nextContent (hi : i < ctx.limit) (hline : ctx.isEmpty i = true) :
    i < ctx.nextContent i := by
  obtain ⟨n, hn⟩ : ∃ n, ctx.limit - i = n + 1 := ⟨ctx.limit - i - 1, by omega⟩
  have := ctx.skipEmptyLines_bounds n (i + 1)
  rw [nextContent, hn, skipEmptyLines, if_pos hline]
  omega

theorem nextContent_eq_self (hline : ctx.isEmpty i = false) : ctx.nextContent i = i := by
  rw [nextContent]
  cases ctx.limit - i with
  | zero => rfl
  | succ n => simp [skipEmptyLines, hline]

end Content

/-- The fuel is enough: each time that blocks are read in a block, fewer lines are left or more
containers are open. -/
theorem readBlocks_reads (fuel : Nat) {ctx : Context} {i stop : Nat} (h : ctx.Clean)
    (hi : i ≤ ctx.lines.length) (hstop : stop ≤ ctx.limit)
    (hfuel : ctx.lines.length - i + (maxLevel - ctx.level) < fuel) :
    ctx.Reads i stop (readBlocks fuel ctx i stop) := by
  induction fuel generalizing ctx i stop with
  | zero => exact absurd hfuel (Nat.not_lt_zero _)
  | succ fuel ih =>
      have hlimit := h.limit_le
      have hcontent := nextContent_bounds h hi
      generalize hj : (if i < stop then ctx.nextContent i else i) = j
      have hbounds : i ≤ j ∧ j ≤ ctx.lines.length := by
        rw [← hj]
        split
        · exact hcontent
        · exact ⟨Nat.le_refl i, hi⟩
      have hempty : i < stop → ctx.isEmpty i = true → i < j := fun hlt hline => by
        rw [← hj, if_pos hlt]
        exact lt_nextContent (by omega) hline
      have hfull : ctx.isEmpty i = false → j = i := fun hline => by
        rw [← hj, nextContent_eq_self hline, ite_self]
      rw [readBlocks, hj]
      simp only
      split
      · rename_i hend
        refine ⟨.nothing hbounds.1 hbounds.2, fun hlt hline => ?_⟩
        cases hblank : ctx.isEmpty i with
        | true => exact hempty hlt hblank
        | false =>
            have hinside : ctx.isOutside i = false := by simpa [hblank] using hline
            simp [hfull hblank, hinside] at hend
            omega
      · rename_i hend
        simp only [Bool.or_eq_true, decide_eq_true_eq, not_or] at hend
        split
        · exact ⟨.nothing (by omega) (by omega), fun hlt _ => hlt⟩
        · rename_i hlevel
          have hsite : Site ctx (readBlocks fuel) j stop :=
            ⟨h, by omega, hstop, fun ctx' i' stop' hclean hsize hlevel' hi' hlt' hstop' => by
              have := hclean.limit_le
              exact ih hclean (by omega) hstop' (by omega)⟩
          obtain ⟨hblock, hlt⟩ := readBlock_takes hsite
          generalize ctx.readBlock (readBlocks fuel) j stop = block at hblock hlt
          generalize hnext : (if (block.next < stop && ctx.isEmpty block.next) = true
            then block.next + 1 else block.next) = next
          have hnext' : block.next ≤ next ∧ next ≤ ctx.lines.length := by
            have := hblock.next_le
            rw [← hnext]
            split
            · rename_i hskipped
              simp only [Bool.and_eq_true, decide_eq_true_eq] at hskipped
              omega
            · omega
          have hrest := (ih h hnext'.2 hstop (by omega)).fits
          refine ⟨?_, fun _ _ => ?_⟩
          · exact Passage.Fits.append ⟨hblock.laid.mono hbounds.1 (Nat.le_refl _), hblock.next_le,
              hblock.targets⟩ hnext'.1 hrest
          · have := hrest.laid.le
            simp only [Passage.append]
            omega

end Context

/-! ## Sources -/

theorem not_mem_cleanSource (source : Text) : '\r' ∉ cleanSource source := by
  induction source using cleanSource.induct with
  | case1 => simp [cleanSource]
  | case2 t ih => simp [cleanSource, ih]
  | case3 c t hfeed ih =>
      rw [cleanSource.eq_3 _ _ hfeed, List.mem_cons, not_or]
      refine ⟨?_, ih⟩
      split
      · decide
      · split
        · decide
        · rename_i hreturn _
          exact fun heq => hreturn heq.symm

theorem text_mem_of_mem_placeLines {ts : List Text} {l : Line} (h : l ∈ placeLines ts) :
    l.text ∈ ts := by
  induction ts using placeLines.induct with
  | case1 => simp [placeLines] at h
  | case2 t hblank => simp [placeLines, hblank] at h
  | case3 t hblank =>
      obtain rfl : l = Line.ofText t true := by simpa [placeLines, hblank] using h
      exact List.mem_singleton.2 rfl
  | case4 t rest hrest ih =>
      rw [placeLines.eq_3 _ _ hrest] at h
      rcases List.mem_cons.1 h with rfl | h
      · exact List.mem_cons_self ..
      · exact List.mem_cons_of_mem _ (ih h)

theorem clean_document (source : Text) : (Context.document (sourceLines source)).Clean := by
  refine ⟨fun l hl => breaks_eq_zero.2 fun c hc => ?_, Nat.le_refl _⟩
  have hpiece := text_mem_of_mem_placeLines hl
  have hfeed := not_of_mem_splitOn hpiece c hc
  have hreturn : c ≠ '\r' := by
    rintro rfl
    exact not_mem_cleanSource source (subset_of_mem_splitOn hpiece hc)
  simpa [isBreak, hreturn] using hfeed

theorem readSource_fits (source : Text) :
    (readSource source).Fits .blocks 0 (sourceLines source).length := by
  have hreads := Context.readBlocks_reads ((sourceLines source).length + 2 * Context.maxLevel)
    (clean_document source) (Nat.zero_le _) (Nat.le_refl _) ?_
  · exact ⟨hreads.fits.laid.applyAttributeLines none fun _ => rfl, hreads.fits.next_le,
      hreads.fits.targets⟩
  · simp only [Context.document, Context.maxLevel]
    omega

end Proofreader.Markdown
