import Proofreader.Proofs.Markdown.Cuts

/-!
# Carriage returns

A source has no carriage return once its lines are told apart.  The HTML of a text without
one has none either, unless a reference or an escape stands for one.
-/

namespace Proofreader.Markdown

open Text

theorem not_mem_of_breaks {t : Text} (h : breaks t = 0) : '\r' ∉ t := (breaks_eq_zero_iff.1 h).1

/-! ## Titles -/

theorem not_mem_unescapeFrom {t : Text} (h : SpellsNoBreak t) (hreturn : '\r' ∉ t) (fuel : Nat) :
    '\r' ∉ unescapeFrom fuel t := by
  induction fuel, t using unescapeFrom.induct with
  | case1 t => exact hreturn
  | case2 fuel => cases fuel <;> simp [unescapeFrom]
  | case3 fuel c t hpunctuation ih =>
      simp only [List.mem_cons, not_or] at hreturn
      rw [unescapeFrom, if_pos hpunctuation, List.mem_cons, not_or]
      exact ⟨hreturn.2.1, ih (h.of_isSuffix (List.suffix_append ['\\', c] t)) hreturn.2.2⟩
  | case4 fuel c t hpunctuation ih =>
      rw [List.mem_cons, not_or] at hreturn
      rw [unescapeFrom, if_neg hpunctuation, List.mem_cons, not_or]
      exact ⟨hreturn.1, ih (h.of_isSuffix (List.suffix_cons '\\' (c :: t))) hreturn.2⟩
  | case5 fuel t value rest hreference ih =>
      have hrest := (Reference.suffix_of_inTarget? hreference).trans (List.suffix_cons '&' t)
      have hvalue := h.reference t value rest (List.infix_refl _) (.inr hreference)
      simp only [unescapeFrom, hreference, List.mem_append, not_or]
      exact ⟨not_mem_of_breaks hvalue, ih (h.of_isSuffix hrest) fun hmem =>
        hreturn (hrest.subset hmem)⟩
  | case6 fuel t hreference ih =>
      rw [List.mem_cons, not_or] at hreturn
      simp only [unescapeFrom, hreference, List.mem_cons, not_or]
      exact ⟨hreturn.1, ih (h.of_isSuffix (List.suffix_cons '&' t)) hreturn.2⟩
  | case7 fuel c t hescape hreference ih =>
      rw [List.mem_cons, not_or] at hreturn
      rw [unescapeFrom.eq_5 _ _ _ hescape hreference, List.mem_cons, not_or]
      exact ⟨hreturn.1, ih (h.of_isSuffix (List.suffix_cons c t)) hreturn.2⟩

namespace Link

variable {t title rest : Text}

theorem not_mem_title (hspells : SpellsNoBreak t) (hreturn : '\r' ∉ t)
    (h : readTitle? t = some (title, rest)) : '\r' ∉ title := by
  cases t with
  | nil => simp [readTitle?] at h
  | cons c t =>
      simp only [readTitle?] at h
      split at h
      · simp at h
      · rename_i close hmark
        split at h
        · rename_i raw rest' hread
          obtain ⟨rfl, rfl⟩ : unescape raw = title ∧ rest' = rest := by simpa using h
          obtain rfl := eq_of_readTitleTo hread
          have hraw : raw <:+: c :: (raw ++ close :: rest') := ⟨[c], close :: rest', rfl⟩
          exact not_mem_unescapeFrom (hspells.of_isInfix hraw)
            (fun hmem => hreturn (hraw.subset hmem)) raw.length
        · simp at h

theorem not_mem_of_readTarget (hspells : SpellsNoBreak t) (hreturn : '\r' ∉ t) {target : Text}
    (h : readTarget t = .complete target title rest) : '\r' ∉ title := by
  unfold readTarget at h
  split at h
  · simp at h
  · split at h
    rename_i d after hdestination
    have hafter : after <:+ t := by
      refine List.IsSuffix.trans ?_ (List.dropWhile_suffix isSpaceOrBreak)
      split at hdestination
      · rename_i hread
        simp only at hdestination
        split at hdestination
        · exact (Prod.mk.inj hdestination).2 ▸ suffix_of_readDestination? hread
        · exact (Prod.mk.inj hdestination).2 ▸ List.suffix_refl _
      · exact (Prod.mk.inj hdestination).2 ▸ List.suffix_refl _
    have hnext : after.dropWhile isSpaceOrBreak <:+ t := (List.dropWhile_suffix _).trans hafter
    simp only at h
    cases hread : (if after.head?.any isSpaceOrBreak then
        readTitle? (after.dropWhile isSpaceOrBreak) else none) with
    | none =>
        rw [hread] at h
        simp only at h
        split at h
        · exact (TargetReading.complete.inj h).2.1 ▸ List.not_mem_nil
        · simp at h
    | some part =>
        rw [hread] at h
        simp only at h
        split at hread
        · have hpart := not_mem_title (hspells.of_isSuffix hnext)
            (fun hmem => hreturn (hnext.subset hmem)) hread
          split at h
          · exact (TargetReading.complete.inj h).2.1 ▸ hpart
          · simp at h
        · simp at hread

end Link

/-! ## Constructs -/

namespace Construct

def Unreturned : Construct → Prop
  | .text t | .literal t | .code t | .html t => '\r' ∉ t
  | .lineBreak | .hardBreak => True
  | .link label target title | .image label target title =>
      '\r' ∉ label ∧ '\r' ∉ target ∧ '\r' ∉ title
  | .address target shown => '\r' ∉ target ∧ '\r' ∉ shown

variable {definitions : List Link.Definition} {skip : Skipper} {t : Text} {memory : Memory}

theorem Refers.not_mem {after target title rest : Text}
    (h : Refers definitions after target title rest) (hdefinitions : Link.Unbroken definitions)
    (hspells : SpellsNoBreak after) (hreturn : '\r' ∉ after) : '\r' ∉ target ∧ '\r' ∉ title := by
  refine ⟨not_mem_of_breaks (h.spec hdefinitions hspells).2.1, ?_⟩
  cases h with
  | @target inside _ _ _ hopen hread =>
      subst hopen
      rw [List.mem_cons, not_or] at hreturn
      exact Link.not_mem_of_readTarget (hspells.of_isSuffix (List.suffix_cons '(' inside))
        hreturn.2 hread
  | definition hd hrest => exact not_mem_of_breaks (hdefinitions _ hd).2

theorem Labelled.not_mem {label target title : Text} {length : Nat}
    (h : Labelled definitions t label target title length)
    (hdefinitions : Link.Unbroken definitions) (hspells : SpellsNoBreak t) (hreturn : '\r' ∉ t) :
    '\r' ∉ label ∧ '\r' ∉ target ∧ '\r' ∉ title := by
  obtain ⟨after, rest, hlabel, hafter, -, hrefers, -⟩ := h
  have hafter' := hafter.trans (List.tail_suffix t)
  exact ⟨fun hmem => hreturn (List.mem_of_mem_tail (hlabel.subset hmem)),
    hrefers.not_mem hdefinitions (hspells.of_isSuffix hafter')
      fun hmem => hreturn (hafter'.subset hmem)⟩

theorem not_mem_content (hreturn : '\r' ∉ t) : '\r' ∉ CodeSpan.content t := by
  have hmap : '\r' ∉ t.map fun c => if c = '\n' then ' ' else c := by
    intro hmem
    obtain ⟨c, hc, heq⟩ := List.mem_map.1 hmem
    split at heq
    · simp at heq
    · exact hreturn (heq ▸ hc)
  unfold CodeSpan.content
  extract_lets spaced
  split
  · exact fun hmem => hmap (List.mem_of_mem_tail (List.mem_of_mem_dropLast hmem))
  · exact hmap

theorem readCode_unreturned (hreturn : '\r' ∉ t) {pos length : Nat} {c : Construct}
    (h : (readCode pos t memory).1 = some (c, length)) : c.Unreturned := by
  rw [readCode] at h
  simp only at h
  split at h
  · rename_i content length' hread
    obtain ⟨rfl, rfl⟩ := Prod.mk.inj (Option.some.inj h)
    rw [CodeSpan.read?] at hread
    simp only at hread
    split at hread
    · simp at hread
    · split at hread
      · obtain ⟨rfl, -⟩ := Prod.mk.inj (Option.some.inj hread)
        exact not_mem_content fun hmem =>
          hreturn (List.mem_of_mem_drop (List.mem_of_mem_take hmem))
      · simp at hread
  · obtain ⟨rfl, -⟩ := Prod.mk.inj (Option.some.inj h)
    exact fun hmem => hreturn ((List.takeWhile_prefix _).subset hmem)

theorem readEscape?_unreturned (hreturn : '\r' ∉ t) {length : Nat} {c : Construct}
    (h : readEscape? t = some (c, length)) : c.Unreturned := by
  unfold readEscape? at h
  split at h
  · simp at h
  · obtain ⟨rfl, -⟩ := Prod.mk.inj (Option.some.inj h)
    trivial
  · rename_i d rest _ htail
    obtain ⟨rfl, -⟩ := Prod.mk.inj (Option.some.inj h)
    have hd : d ≠ '\r' := by
      rintro rfl
      exact hreturn (List.mem_of_mem_tail (htail ▸ List.mem_cons_self ..))
    rw [Unreturned]
    split <;> simp [hd.symm]

theorem readAngle?_unreturned (hspells : SpellsNoBreak t) (hreturn : '\r' ∉ t) {length : Nat}
    {c : Construct} (h : readAngle? t = some (c, length)) : c.Unreturned := by
  rw [readAngle?] at h
  split at h
  · rename_i target shown rest hread
    obtain ⟨rfl, -⟩ := Prod.mk.inj (Option.some.inj h)
    obtain ⟨-, htarget, hshown⟩ :=
      Autolink.read?_spec (hspells.of_isSuffix (List.tail_suffix t)) hread
    exact ⟨not_mem_of_breaks htarget, not_mem_of_breaks hshown⟩
  · split at h
    · simp at h
    · obtain ⟨rest, -, heq⟩ := Option.map_eq_some_iff.1 h
      obtain ⟨rfl, -⟩ := Prod.mk.inj heq
      exact fun hmem => hreturn (List.mem_of_mem_take hmem)

theorem read_unreturned (hdefinitions : Link.Unbroken definitions) (hspells : SpellsNoBreak t)
    (hreturn : '\r' ∉ t) {pos length : Nat} {c : Construct}
    (h : (read definitions skip pos t memory).1 = some (c, length)) : c.Unreturned := by
  cases t with
  | nil => simp [read] at h
  | cons b t =>
      rw [read] at h
      split at h
      · obtain ⟨rfl, -⟩ := Prod.mk.inj (Option.some.inj h)
        exact fun hmem => hreturn ((List.takeWhile_prefix _).subset hmem)
      · split at h
        · obtain ⟨rfl, -⟩ := Prod.mk.inj (Option.some.inj h)
          trivial
        · repeat' split at h
          · exact readEscape?_unreturned hreturn h
          · exact readCode_unreturned hreturn h
          · obtain ⟨label, target, title, rfl, hlabelled⟩ := readLink_cases hspells h
            exact hlabelled.not_mem hdefinitions hspells hreturn
          · obtain ⟨label, source, title, rfl, hlabelled⟩ := readImage_cases h
            exact hlabelled.not_mem hdefinitions hspells hreturn
          · exact readAngle?_unreturned hspells hreturn h
          · rename_i hreference
            subst hreference
            obtain ⟨⟨value, rest⟩, hread, heq⟩ := Option.map_eq_some_iff.1 h
            obtain ⟨rfl, -⟩ := Prod.mk.inj heq
            exact not_mem_of_breaks
              (hspells.reference t value rest (List.infix_refl _) (.inl hread))
          · simp at h

end Construct

/-! ## Elements -/

namespace Inline

theorem mem_escape {t : Text} : '\r' ∈ escape t ↔ '\r' ∈ t := by
  have hchar : ∀ c : Char, '\r' ∈ escapeChar c ↔ c = '\r' := by
    intro c
    by_cases hmark : c = '&' ∨ c = '<' ∨ c = '>' ∨ c = '"'
    · rcases hmark with rfl | rfl | rfl | rfl <;> decide
    · simp only [not_or] at hmark
      simp [escapeChar, hmark, eq_comm]
  simp [escape, List.mem_flatMap, hchar]

theorem mem_attributeText {name value : Text} :
    '\r' ∈ attributeText name value ↔ '\r' ∈ name ∨ '\r' ∈ value := by
  simp [attributeText, mem_escape]

theorem mem_titleText {title : Text} : '\r' ∈ titleText title ↔ '\r' ∈ title := by
  unfold titleText
  split
  · rename_i h
    rw [List.isEmpty_iff.1 h]
  · rw [mem_attributeText]
    simp

theorem mem_render_code {t : Text} : '\r' ∈ render (.code t) ↔ '\r' ∈ t := by
  have hopen : '\r' ∉ "<code>".toList := by decide
  have hclose : '\r' ∉ "</code>".toList := by decide
  simp only [render_code, List.mem_append, mem_escape, hopen, hclose, or_false, false_or]

theorem mem_render_link {target title : Text} {content : List Inline} :
    '\r' ∈ render (.link target title content) ↔
      '\r' ∈ target ∨ '\r' ∈ title ∨ '\r' ∈ renderAll content := by
  have hopen : '\r' ∉ "<a".toList := by decide
  have hname : '\r' ∉ "href".toList := by decide
  have hclose : '\r' ∉ "</a>".toList := by decide
  have hend : ('\r' : Char) ≠ '>' := by decide
  simp only [render_link, List.mem_append, List.mem_cons, mem_attributeText, mem_titleText, hopen,
    hname, hclose, hend, or_false, false_or, or_assoc]

theorem mem_render_image {source title : Text} {content : List Inline} :
    '\r' ∈ render (.image source title content) ↔
      '\r' ∈ source ∨ '\r' ∈ plainAll content ∨ '\r' ∈ title := by
  have hopen : '\r' ∉ "<img".toList := by decide
  have hsource : '\r' ∉ "src".toList := by decide
  have halt : '\r' ∉ "alt".toList := by decide
  have hclose : '\r' ∉ " />".toList := by decide
  simp only [render_image, List.mem_append, mem_attributeText, mem_titleText, hopen, hsource, halt,
    hclose, or_false, false_or, or_assoc]

mutual

theorem mem_render_of_mem_plain (i : Inline) (h : '\r' ∈ plain i) : '\r' ∈ render i := by
  match i with
  | .text t => exact mem_escape.2 h
  | .code t => exact mem_render_code.2 h
  | .html t => exact h
  | .softBreak | .hardBreak => simp [plain] at h
  | .emphasis _ _ => simp [plain] at h
  | .link target title content =>
      rw [plain] at h
      exact mem_render_link.2 (.inr (.inr (mem_renderAll_of_mem_plainAll content h)))
  | .image source title content =>
      rw [plain] at h
      exact mem_render_image.2 (.inr (.inl h))

theorem mem_renderAll_of_mem_plainAll (is : List Inline) (h : '\r' ∈ plainAll is) :
    '\r' ∈ renderAll is := by
  match is with
  | [] => simp [plainAll] at h
  | i :: is =>
      rw [plainAll, List.mem_append] at h
      rw [renderAll_cons, List.mem_append]
      exact h.imp (mem_render_of_mem_plain i) (mem_renderAll_of_mem_plainAll is)

end

end Inline

/-! ## Stretches -/

def Reading.Unreturned : Reading → Prop
  | .text t => '\r' ∉ t
  | .marks m => m.char ≠ '\r'
  | .lineEnd => True
  | .element i => '\r' ∉ i.render

theorem Reading.Shows.not_mem {r : Reading} {part : Text} (h : r.Shows part)
    (hr : r.Unreturned) : '\r' ∉ part := by
  cases h with
  | text kept n =>
      rw [Inline.mem_escape]
      exact fun hmem => hr (List.mem_append_left _ hmem)
  | @marks m inlines h =>
      induction inlines with
      | nil => exact List.not_mem_nil
      | cons i inlines ih =>
          rw [List.forall_mem_cons] at h
          rw [Inline.renderAll_cons, List.mem_append, not_or]
          refine ⟨?_, ih h.2⟩
          rcases h.1 with rfl | ⟨isStrong, opens, rfl⟩
          · intro hmem
            exact hr (List.mem_singleton.1 (Inline.mem_escape.1 hmem)).symm
          · cases isStrong <;> cases opens <;> decide
  | softBreak | hardBreak => decide
  | element i => exact hr

namespace Inline

theorem not_mem_resolve {cs : List Cut} (h : ∀ c ∈ cs, c.reading.Unreturned) :
    '\r' ∉ renderAll (Piece.resolve (piecesOf [] cs)) := by
  obtain ⟨parts, hparts, heq⟩ := exists_shows_resolve cs
  rw [heq]
  clear heq
  induction hparts with
  | nil => exact List.not_mem_nil
  | cons hpart _ ih =>
      rw [List.forall_mem_cons] at h
      rw [List.flatten_cons, List.mem_append, not_or]
      exact ⟨hpart.not_mem h.1, ih h.2⟩

theorem ReadAs.unreturned {definitions : List Link.Definition} {fuel : Nat} {construct : Construct}
    {reading : Reading} (h : ReadAs definitions fuel construct reading)
    (hinside : ∀ depth pos before memory, '\r' ∉ construct.inner →
      '\r' ∉ renderAll (Piece.resolve
        (readPieces definitions fuel depth pos before construct.inner [] memory).1))
    (hconstruct : construct.Unreturned) : reading.Unreturned := by
  cases h with
  | text run => exact hconstruct
  | lineBreak => trivial
  | hardBreak =>
      show '\r' ∉ render .hardBreak
      decide
  | literal t => exact fun hmem => hconstruct (mem_escape.1 hmem)
  | code t => exact fun hmem => hconstruct (mem_render_code.1 hmem)
  | html t => exact hconstruct
  | address target shown =>
      obtain ⟨htarget, hshown⟩ := hconstruct
      rw [Reading.Unreturned, mem_render_link, renderAll_cons]
      simp only [renderAll, List.append_nil, List.not_mem_nil, false_or, not_or]
      exact ⟨htarget, fun hmem => hshown (mem_escape.1 hmem)⟩
  | link label target title =>
      obtain ⟨hlabel, htarget, htitle⟩ := hconstruct
      rw [Reading.Unreturned, mem_render_link, not_or, not_or]
      exact ⟨htarget, htitle, hinside _ _ _ _ hlabel⟩
  | image label source title =>
      obtain ⟨hlabel, hsource, htitle⟩ := hconstruct
      rw [Reading.Unreturned, mem_render_image, not_or, not_or]
      exact ⟨hsource, fun hmem => hinside _ _ _ _ hlabel (mem_renderAll_of_mem_plainAll _ hmem),
        htitle⟩

theorem cuts_unreturned {definitions : List Link.Definition}
    (hdefinitions : Link.Unbroken definitions) {t : Text} (hspells : SpellsNoBreak t)
    (hreturn : '\r' ∉ t) (fuel depth pos : Nat) (before : Char) (memory : Memory) :
    ∀ c ∈ (cuts definitions fuel depth pos before t memory).1, c.reading.Unreturned := by
  induction fuel generalizing t depth pos before memory with
  | zero => simp [cuts]
  | succ fuel ih =>
      cases t with
      | nil => rw [cuts] <;> simp
      | cons c t =>
          obtain ⟨length, reading, pos', before', memory', hfirst, heq⟩ :=
            exists_first definitions fuel depth pos before c t memory
          rw [heq]
          refine List.forall_mem_cons.2 ⟨?_, ih
            (hspells.of_isSuffix (List.drop_suffix length (c :: t)))
            (fun hmem => hreturn (List.mem_of_mem_drop hmem)) depth pos' before' memory'⟩
          cases hfirst with
          | marks before after hmark =>
              rcases hmark with rfl | rfl <;> simp [Reading.Unreturned, Mark.ofRun]
          | char => exact fun hmem => hreturn (List.mem_singleton.1 hmem ▸ List.mem_cons_self ..)
          | @construct construct _ _ _ _ _ hread hreading =>
              have hfits := Construct.read_fits hdefinitions hspells hread
              refine hreading.unreturned (fun depth pos before memory hlabel => ?_)
                (Construct.read_unreturned hdefinitions hspells hreturn hread)
              rw [readPieces_eq]
              exact not_mem_resolve
                (ih (hspells.of_isInfix hfits.inner_isInfix) hlabel depth pos before memory)

theorem not_mem_renderText {definitions : List Link.Definition}
    (hdefinitions : Link.Unbroken definitions) {t : Text} (hspells : SpellsNoBreak t)
    (hreturn : '\r' ∉ t) : '\r' ∉ renderText definitions t := by
  rw [renderText, read, readPieces_eq]
  exact not_mem_resolve (cuts_unreturned hdefinitions hspells hreturn _ _ _ _ _)

end Inline

end Proofreader.Markdown
