import Proofreader.Markdown.Inline.Reader
import Proofreader.Proofs.Markdown.Addresses
import Proofreader.Proofs.Markdown.Links
import Proofreader.Proofs.Markdown.Rendering

/-!
# Line breaks of inline content

Each construct that is read shows at most as many line breaks as the characters that it
takes hold.  So the HTML of a text has at most as many as the text, unless a reference or
an escape in it stands for one, or the title of a definition has one.
-/

namespace Proofreader.Markdown

open Text

def Link.Unbroken (definitions : List Link.Definition) : Prop :=
  ∀ d ∈ definitions, breaks d.target = 0 ∧ breaks d.title = 0

namespace Construct

def breaks : Construct → Nat
  | .text t | .literal t | .code t | .html t => Text.breaks t
  | .lineBreak | .hardBreak => 1
  | .link label target title | .image label target title =>
      Text.breaks label + Text.breaks target + Text.breaks title
  | .address target shown => Text.breaks target + Text.breaks shown

def inner : Construct → Text
  | .link label _ _ | .image label _ _ => label
  | _ => []

structure Fits (t : Text) (c : Construct) (length : Nat) : Prop where
  breaks_le : c.breaks ≤ Text.breaks (t.take length)
  inner_isInfix : c.inner <:+: t

theorem Fits.of_rest {t rest : Text} {c : Construct} (hrest : rest <:+ t)
    (hbreaks : c.breaks + Text.breaks rest ≤ Text.breaks t) (hinner : c.inner <:+: t) :
    c.Fits t (t.length - rest.length) := by
  refine ⟨?_, hinner⟩
  have hsplit := congrArg Text.breaks (List.suffix_iff_eq_append.1 hrest)
  rw [breaks_append] at hsplit
  omega

variable {definitions : List Link.Definition} {skip : Skipper} {t : Text} {memory : Memory}

/-! ## Links and images -/

theorem readLabel?_spec {refusesLinks : Bool} {pos : Nat} {label after : Text}
    (h : (readLabel? skip refusesLinks pos t memory).1 = some (label, after)) :
    label <:+: t ∧ after <:+ t ∧ Text.breaks label + Text.breaks after ≤ Text.breaks t := by
  rw [readLabel?] at h
  split at h
  · rename_i stop memory' hend
    obtain ⟨rfl, rfl⟩ := Prod.mk.inj (Option.some.inj h)
    exact ⟨(List.take_prefix _ _).isInfix, List.drop_suffix _ _,
      breaks_take_add_drop t (by omega)⟩
  · simp at h

/-- What a label is followed by: a target in parentheses, or the place where `rest` begins
if a definition gives the target. -/
inductive Refers (definitions : List Link.Definition) (after : Text) : Text → Text → Text → Prop where
  | target {inside target title rest : Text} (hopen : after = '(' :: inside)
      (hread : Link.readTarget inside = .complete target title rest) :
      Refers definitions after target title rest
  | definition {d : Link.Definition} {rest : Text} (hd : d ∈ definitions) (hrest : rest <:+ after) :
      Refers definitions after d.target d.title rest

theorem Refers.spec {after target title rest : Text} (h : Refers definitions after target title rest)
    (hdefinitions : Link.Unbroken definitions) (hspells : SpellsNoBreak after) :
    rest <:+ after ∧ Text.breaks target = 0 ∧
      Text.breaks title + Text.breaks rest ≤ Text.breaks after := by
  cases h with
  | @target inside _ _ _ hopen hread =>
      subst hopen
      have hinside : inside <:+ '(' :: inside := List.suffix_cons '(' inside
      have hfits := Link.readTarget_fits (hspells.of_isSuffix hinside)
      rw [hread] at hfits
      obtain ⟨htarget, hrest, hsum⟩ := hfits
      have hle := breaks_mono hinside.sublist
      exact ⟨hrest.trans hinside, htarget, by omega⟩
  | @definition d _ hd hrest =>
      have hle := breaks_mono hrest.sublist
      obtain ⟨htarget, htitle⟩ := hdefinitions d hd
      exact ⟨hrest, htarget, by omega⟩

theorem refers_of_reference {label after second rest : Text} {stop : Nat} {d : Link.Definition}
    (hsecond : second <:+ after)
    (h : (reference definitions skip label after second stop memory).1 = some (d, rest)) :
    Refers definitions after d.target d.title rest := by
  unfold reference at h
  split at h
  · simp at h
  · split at h
    rename_i found memory' hread
    have hfound : ∀ part, found = some part → part.2 <:+ after := by
      rintro part rfl
      split at hread
      · rename_i inside
        obtain ⟨-, hsuffix, -⟩ := readLabel?_spec (congrArg Prod.fst hread)
        exact hsuffix.trans ((List.suffix_cons '[' inside).trans hsecond)
      · simp at hread
    simp only [Option.map_eq_some_iff, Prod.mk.injEq] at h
    obtain ⟨d', hfind, rfl, rfl⟩ := h
    refine .definition (List.mem_of_find?_eq_some hfind) ?_
    cases found with
    | none => exact List.suffix_refl _
    | some part => exact hfound part rfl

def Labelled (definitions : List Link.Definition) (t label target title : Text) (length : Nat) :
    Prop :=
  ∃ after rest, label <:+: t.tail ∧ after <:+ t.tail ∧
    Text.breaks label + Text.breaks after ≤ Text.breaks t.tail ∧
    Refers definitions after target title rest ∧ length = t.length - rest.length

theorem readLink_cases (hspells : SpellsNoBreak t) {pos length : Nat} {c : Construct}
    (h : (readLink definitions skip pos t memory).1 = some (c, length)) :
    ∃ label target title, c = .link label target title ∧
      Labelled definitions t label target title length := by
  unfold readLink at h
  split at h
  · simp at h
  · rename_i label after memory' hread
    obtain ⟨hlabel, hafter, hbreaks⟩ := readLabel?_spec (congrArg Prod.fst hread)
    have hrefer : ∀ second, second <:+ after → ∀ found, (reference definitions skip label after
        second (pos + t.length) memory').1 = some found →
        Labelled definitions t label found.1.target found.1.title (t.length - found.2.length) :=
      fun second hsecond found hfound =>
        ⟨after, found.2, hlabel, hafter, hbreaks, refers_of_reference hsecond hfound, rfl⟩
    simp only at h
    split at h
    · rename_i inside
      split at h
      · rename_i target title rest hcomplete
        obtain ⟨rfl, rfl⟩ := Prod.mk.inj (Option.some.inj h)
        exact ⟨_, _, _, rfl, _, rest, hlabel, hafter, hbreaks, .target rfl hcomplete, rfl⟩
      · simp at h
      · rename_i rest hbroken
        have hinside := (List.suffix_cons '(' inside).trans hafter
        have hfits := Link.readTarget_fits (hspells.of_isSuffix (hinside.trans (List.tail_suffix t)))
        rw [hbroken] at hfits
        have hsecond : rest.tail <:+ '(' :: inside :=
          (List.tail_suffix rest).trans (hfits.trans (List.suffix_cons '(' inside))
        simp only [Option.map_eq_some_iff] at h
        obtain ⟨found, hfound, heq⟩ := h
        obtain ⟨rfl, rfl⟩ := Prod.mk.inj heq
        exact ⟨_, _, _, rfl, hrefer rest.tail hsecond found hfound⟩
    · simp only [Option.map_eq_some_iff] at h
      obtain ⟨found, hfound, heq⟩ := h
      obtain ⟨rfl, rfl⟩ := Prod.mk.inj heq
      exact ⟨_, _, _, rfl, hrefer _ (List.suffix_refl _) found hfound⟩

theorem readImage_cases {pos length : Nat} {c : Construct}
    (h : (readImage definitions skip pos t memory).1 = some (c, length)) :
    ∃ label source title, c = .image label source title ∧
      Labelled definitions t label source title length := by
  unfold readImage at h
  split at h
  · rename_i inside
    have hopen : inside <:+ ('!' :: '[' :: inside).tail := List.suffix_cons '[' inside
    have hle := breaks_mono hopen.sublist
    split at h
    · simp at h
    · rename_i label after memory' hread
      obtain ⟨hlabel, hafter, hbreaks⟩ := readLabel?_spec (congrArg Prod.fst hread)
      have hlabel' := hlabel.trans hopen.isInfix
      split at h
      · split at h
        · rename_i address title rest hcomplete
          obtain ⟨rfl, rfl⟩ := Prod.mk.inj (Option.some.inj h)
          exact ⟨_, _, _, rfl, _, rest, hlabel', hafter.trans hopen, by omega,
            .target rfl hcomplete, rfl⟩
        · simp at h
      · simp only [Option.map_eq_some_iff] at h
        obtain ⟨found, hfound, heq⟩ := h
        obtain ⟨rfl, rfl⟩ := Prod.mk.inj heq
        exact ⟨_, _, _, rfl, after, found.2, hlabel', hafter.trans hopen, by omega,
          refers_of_reference (List.suffix_refl _) hfound, rfl⟩
  · simp at h

theorem Labelled.fits {label target title : Text} {length : Nat}
    (h : Labelled definitions t label target title length)
    (hdefinitions : Link.Unbroken definitions) (hspells : SpellsNoBreak t) :
    Fits t (.link label target title) length ∧ Fits t (.image label target title) length := by
  obtain ⟨after, rest, hlabel, hafter, hbreaks, hrefers, rfl⟩ := h
  have htail : t.tail <:+ t := List.tail_suffix t
  obtain ⟨hrest, htarget, hsum⟩ :=
    hrefers.spec hdefinitions (hspells.of_isSuffix (hafter.trans htail))
  have hle := breaks_mono htail.sublist
  have hrest' := hrest.trans (hafter.trans htail)
  have hinner := hlabel.trans htail.isInfix
  exact ⟨.of_rest hrest' (by rw [breaks]; omega) hinner,
    .of_rest hrest' (by rw [breaks]; omega) hinner⟩

theorem readLink_fits (hdefinitions : Link.Unbroken definitions) (hspells : SpellsNoBreak t)
    {pos length : Nat} {c : Construct}
    (h : (readLink definitions skip pos t memory).1 = some (c, length)) : c.Fits t length := by
  obtain ⟨label, target, title, rfl, hlabelled⟩ := readLink_cases hspells h
  exact (hlabelled.fits hdefinitions hspells).1

theorem readImage_fits (hdefinitions : Link.Unbroken definitions) (hspells : SpellsNoBreak t)
    {pos length : Nat} {c : Construct}
    (h : (readImage definitions skip pos t memory).1 = some (c, length)) : c.Fits t length := by
  obtain ⟨label, source, title, rfl, hlabelled⟩ := readImage_cases h
  exact (hlabelled.fits hdefinitions hspells).2

/-! ## Other constructs -/

theorem readEscape?_fits {length : Nat} {c : Construct} (h : readEscape? t = some (c, length)) :
    c.Fits t length := by
  cases t with
  | nil => simp [readEscape?] at h
  | cons b t =>
      simp only [readEscape?, List.tail_cons] at h
      split at h
      · simp at h
      · rename_i rest
        obtain ⟨rfl, rfl⟩ := Prod.mk.inj (Option.some.inj h)
        refine ⟨?_, List.nil_infix⟩
        have hfeed : isBreak '\n' = true := rfl
        rw [Nat.add_comm 2, List.take_succ_cons, List.take_succ_cons]
        simp only [breaks, breaks_cons, hfeed]
        simp
        omega
      · rename_i d t hfeed
        obtain ⟨rfl, rfl⟩ := Prod.mk.inj (Option.some.inj h)
        refine ⟨?_, List.nil_infix⟩
        have hescape : isBreak '\\' = false := rfl
        simp only [breaks, List.take_succ_cons, List.take_zero]
        split <;> simp [hescape]

theorem readAngle?_fits (hspells : SpellsNoBreak t) {length : Nat} {c : Construct}
    (h : readAngle? t = some (c, length)) : c.Fits t length := by
  rw [readAngle?] at h
  split at h
  · rename_i target shown rest hread
    obtain ⟨rfl, rfl⟩ := Prod.mk.inj (Option.some.inj h)
    have htail : t.tail <:+ t := List.tail_suffix t
    obtain ⟨hrest, htarget, hshown⟩ := Autolink.read?_spec (hspells.of_isSuffix htail) hread
    have hle := breaks_mono (hrest.trans htail).sublist
    refine .of_rest (hrest.trans htail) ?_ List.nil_infix
    rw [breaks, htarget, hshown]
    omega
  · split at h
    · simp at h
    · obtain ⟨rest, -, heq⟩ := Option.map_eq_some_iff.1 h
      obtain ⟨rfl, rfl⟩ := Prod.mk.inj heq
      exact ⟨Nat.le_refl _, List.nil_infix⟩

theorem readEntity?_fits (hspells : SpellsNoBreak ('&' :: t)) {length : Nat} {c : Construct}
    (h : readEntity? ('&' :: t) = some (c, length)) : c.Fits ('&' :: t) length := by
  obtain ⟨⟨value, rest⟩, hread, heq⟩ := Option.map_eq_some_iff.1 h
  obtain ⟨rfl, rfl⟩ := Prod.mk.inj heq
  have hvalue := hspells.reference t value rest (List.infix_refl _) (.inl hread)
  have hrest := (Reference.suffix_of_inText? hread).trans (List.suffix_cons '&' t)
  have hle := breaks_mono hrest.sublist
  refine .of_rest hrest ?_ List.nil_infix
  rw [breaks, hvalue]
  omega

theorem breaks_content_le (t : Text) : Text.breaks (CodeSpan.content t) ≤ Text.breaks t := by
  have hmap : Text.breaks (t.map fun c => if c = '\n' then ' ' else c) ≤ Text.breaks t := by
    rw [Text.breaks, Text.breaks, List.countP_map]
    refine List.countP_mono_left fun c _ hc => ?_
    simp only [Function.comp_apply] at hc
    split at hc
    · simp [isBreak] at hc
    · exact hc
  unfold CodeSpan.content
  extract_lets spaced
  split
  · exact Nat.le_trans (breaks_mono ((List.dropLast_sublist _).trans (List.tail_sublist _))) hmap
  · exact hmap

theorem readCode_fits {pos length : Nat} {c : Construct}
    (h : (readCode pos t memory).1 = some (c, length)) : c.Fits t length := by
  rw [readCode] at h
  simp only at h
  split at h
  · rename_i content length' hread
    obtain ⟨rfl, rfl⟩ := Prod.mk.inj (Option.some.inj h)
    refine ⟨?_, List.nil_infix⟩
    rw [CodeSpan.read?] at hread
    simp only at hread
    split at hread
    · simp at hread
    · split at hread
      · rename_i closer closers hcloser
        obtain ⟨rfl, rfl⟩ := Prod.mk.inj (Option.some.inj hread)
        generalize (t.takeWhile CodeSpan.isMark).length = marks
        refine Nat.le_trans (breaks_content_le _) ?_
        rcases Nat.lt_or_ge (pos + marks) closer.start with hlt | hge
        · have hinside := List.drop_suffix marks (t.take (closer.start - pos))
          rw [List.drop_take, Nat.sub_sub] at hinside
          have htake := List.take_prefix_take_left (l := t)
            (show closer.start - pos ≤ closer.start + marks - pos by omega)
          exact breaks_mono (hinside.sublist.trans htake.sublist)
        · rw [Nat.sub_eq_zero_of_le hge]
          exact Nat.zero_le _
      · simp at hread
  · obtain ⟨rfl, rfl⟩ := Prod.mk.inj (Option.some.inj h)
    exact ⟨(take_length_takeWhile CodeSpan.isMark t).symm ▸ Nat.le_refl _, List.nil_infix⟩

theorem read_fits (hdefinitions : Link.Unbroken definitions) (hspells : SpellsNoBreak t)
    {pos length : Nat} {c : Construct}
    (h : (read definitions skip pos t memory).1 = some (c, length)) : c.Fits t length := by
  cases t with
  | nil => simp [read] at h
  | cons b t =>
      rw [read] at h
      split at h
      · obtain ⟨rfl, rfl⟩ := Prod.mk.inj (Option.some.inj h)
        refine ⟨?_, List.nil_infix⟩
        rw [take_length_takeWhile]
        exact Nat.le_refl _
      · split at h
        · rename_i hfeed
          obtain ⟨rfl, rfl⟩ := Prod.mk.inj (Option.some.inj h)
          subst hfeed
          refine ⟨?_, List.nil_infix⟩
          have hfeed : isBreak '\n' = true := rfl
          rw [Nat.add_comm, List.take_succ_cons, breaks_cons, hfeed]
          exact Nat.le_add_left 1 _
        · repeat' split at h
          · exact readEscape?_fits h
          · exact readCode_fits h
          · exact readLink_fits hdefinitions hspells h
          · exact readImage_fits hdefinitions hspells h
          · exact readAngle?_fits hspells h
          · rename_i hreference
            subst hreference
            exact readEntity?_fits hspells h
          · simp at h

/-! ## Elements -/

section Elements

variable {label target title source : Text} {length : Nat} {inside : List Piece}

theorem Fits.breaks_link_le (h : Fits t (.link label target title) length)
    (hinside : Piece.breaksAll inside ≤ Text.breaks label) :
    Text.breaks (Inline.render (.link target title (Piece.resolve inside))) ≤
      Text.breaks (t.take length) := by
  have hle := h.breaks_le
  have hresolve := Piece.breaks_resolve_le inside
  rw [breaks] at hle
  rw [Inline.breaks_render_link]
  omega

theorem Fits.breaks_image_le (h : Fits t (.image label source title) length)
    (hinside : Piece.breaksAll inside ≤ Text.breaks label) :
    Text.breaks (Inline.render (.image source title (Piece.resolve inside))) ≤
      Text.breaks (t.take length) := by
  have hle := h.breaks_le
  have hresolve := Piece.breaks_resolve_le inside
  have hplain := Inline.breaks_plainAll_le (Piece.resolve inside)
  rw [breaks] at hle
  rw [Inline.breaks_render_image]
  omega

theorem Fits.breaks_address_le {shown : Text} (h : Fits t (.address target shown) length) :
    Text.breaks (Inline.render (.link target [] [.text shown])) ≤ Text.breaks (t.take length) := by
  have hle := h.breaks_le
  rw [breaks] at hle
  rw [Inline.breaks_render_link, Inline.breaks_renderAll_cons, Inline.breaks_render_text]
  exact hle

end Elements

end Construct

namespace Inline

theorem breaksAll_flush (pending : Pending) (rest : List Piece) :
    Piece.breaksAll (flush pending rest) = breaks pending + Piece.breaksAll rest := by
  unfold flush
  split
  · rename_i h
    rw [List.isEmpty_iff.1 h, breaks_nil, Nat.zero_add]
  · have hpiece : Piece.breaks (.inline (.text pending.reverse)) = breaks pending := by
      rw [Piece.breaks, breaks_render_text, breaks_reverse]
    rw [Piece.breaksAll, List.map_cons, List.sum_cons, hpiece, ← Piece.breaksAll]

theorem breaksAll_endLine_le (pending : Pending) (rest : List Piece) :
    Piece.breaksAll (endLine pending rest) ≤ breaks pending + 1 + Piece.breaksAll rest := by
  have hkept : breaks (pending.dropWhile (· == ' ')) ≤ breaks pending :=
    breaks_mono (dropWhile_sublist _ _)
  have hhard : Piece.breaks (.inline .hardBreak) = 1 := by decide
  have hsoft : Piece.breaks (.inline .softBreak) = 1 := by decide
  unfold endLine
  simp only
  split
  · rw [breaksAll_flush, Piece.breaksAll, List.map_cons, List.sum_cons, hhard, ← Piece.breaksAll]
    omega
  · rw [breaksAll_flush, Piece.breaksAll, List.map_cons, List.sum_cons, hsoft, ← Piece.breaksAll]
    omega

theorem breaksAll_replicate_mark (n : Nat) {m : Mark} (h : isBreak m.char = false) :
    Piece.breaksAll (List.replicate n (.mark m)) = 0 := by
  simp [Piece.breaksAll, Piece.breaks, h]

theorem breaks_readPieces_le {definitions : List Link.Definition}
    (hdefinitions : Link.Unbroken definitions) {t : Text} (hspells : SpellsNoBreak t)
    (fuel depth pos : Nat) (before : Char) (pending : Pending) (memory : Memory) :
    Piece.breaksAll (readPieces definitions fuel depth pos before t pending memory).1 ≤
      breaks pending + breaks t := by
  induction fuel generalizing t depth pos before pending memory with
  | zero =>
      rw [readPieces, breaksAll_flush]
      exact Nat.add_le_add_left (Nat.zero_le _) _
  | succ fuel ih =>
      cases t with
      | nil =>
          rw [readPieces, breaksAll_flush]
          · exact Nat.add_le_add_left (Nat.zero_le _) _
          · simp
      | cons c t =>
          have hgo : ∀ length pos before pending memory, Piece.breaksAll (readPieces definitions
              fuel depth pos before ((c :: t).drop length) pending memory).1 ≤
                breaks pending + breaks ((c :: t).drop length) :=
            fun length => ih (hspells.of_isSuffix (List.drop_suffix length (c :: t))) depth
          have hsplit : ∀ length, breaks ((c :: t).take length) + breaks ((c :: t).drop length) =
              breaks (c :: t) := fun length => by
            rw [← breaks_append, List.take_append_drop]
          -- An element in the place of the characters it was read from.
          have hplace : ∀ length pos before memory i,
              Piece.breaks (.inline i) ≤ breaks ((c :: t).take length) →
              Piece.breaksAll (flush pending (.inline i :: (readPieces definitions fuel depth pos
                before ((c :: t).drop length) [] memory).1)) ≤
                  breaks pending + breaks (c :: t) := by
            intro length pos before memory i hi
            have hrest := hgo length pos before [] memory
            have := hsplit length
            rw [breaks_nil] at hrest
            rw [breaksAll_flush, Piece.breaksAll, List.map_cons, List.sum_cons, ← Piece.breaksAll]
            omega
          rw [readPieces]
          simp only
          split
          · rename_i hmark
            have hchar : isBreak c = false := by rcases hmark with rfl | rfl <;> rfl
            have hrest := hgo ((c :: t).takeWhile (· == c)).length
              (pos + ((c :: t).takeWhile (· == c)).length)
              (((c :: t).take ((c :: t).takeWhile (· == c)).length).getLastD before) [] memory
            have := hsplit ((c :: t).takeWhile (· == c)).length
            rw [breaks_nil] at hrest
            rw [breaksAll_flush, Piece.breaksAll_append, breaksAll_replicate_mark _ hchar]
            omega
          · have hfits : ∀ {construct length memory'}, Construct.read definitions
                (Construct.skip definitions depth) pos (c :: t) memory =
                  (some (construct, length), memory') → construct.Fits (c :: t) length :=
              fun h => Construct.read_fits hdefinitions hspells (congrArg Prod.fst h)
            split
            · rename_i memory' hread
              refine Nat.le_trans (hgo 1 _ _ _ _) ?_
              have := hsplit 1
              simp only [List.take_succ_cons, List.take_zero, breaks_cons, breaks_nil] at this
              rw [breaks_cons, breaks_cons]
              omega
            · rename_i run length memory' hread
              have hrun := (hfits hread).breaks_le
              refine Nat.le_trans (hgo length _ _ _ _) ?_
              have := hsplit length
              rw [breaks_append, breaks_reverse]
              rw [Construct.breaks] at hrun
              omega
            · rename_i length memory' hread
              have hline := (hfits hread).breaks_le
              refine Nat.le_trans (breaksAll_endLine_le _ _) ?_
              have hrest := hgo length (pos + length) (((c :: t).take length).getLastD before) []
                memory'
              have := hsplit length
              rw [breaks_nil] at hrest
              rw [Construct.breaks] at hline
              omega
            · rename_i length memory' hread
              exact hplace _ _ _ _ _ (hfits hread).breaks_le
            · rename_i literal length memory' hread
              refine hplace _ _ _ _ _ ?_
              rw [Piece.breaks, breaks_render_text]
              exact (hfits hread).breaks_le
            · rename_i code length memory' hread
              refine hplace _ _ _ _ _ ?_
              rw [Piece.breaks, breaks_render_code]
              exact (hfits hread).breaks_le
            · rename_i html length memory' hread
              exact hplace _ _ _ _ _ (hfits hread).breaks_le
            · rename_i target shown length memory' hread
              exact hplace _ _ _ _ _ (hfits hread).breaks_address_le
            · rename_i label target title length memory' hread
              have hlabel : SpellsNoBreak label := hspells.of_isInfix (hfits hread).inner_isInfix
              have hinside := ih hlabel (depth - 1) (pos + 1) '[' [] memory'
              exact hplace _ _ _ _ _ ((hfits hread).breaks_link_le (by simpa using hinside))
            · rename_i label source title length memory' hread
              have hlabel : SpellsNoBreak label := hspells.of_isInfix (hfits hread).inner_isInfix
              have hinside := ih hlabel Construct.maxDepth 0 ' ' [] Memory.empty
              exact hplace _ _ _ _ _ ((hfits hread).breaks_image_le (by simpa using hinside))

theorem breaks_renderText_le {definitions : List Link.Definition}
    (hdefinitions : Link.Unbroken definitions) {t : Text} (hspells : SpellsNoBreak t) :
    breaks (renderText definitions t) ≤ breaks t := by
  refine Nat.le_trans (Piece.breaks_resolve_le _) ?_
  have h := breaks_readPieces_le hdefinitions hspells (t.length + 1) Construct.maxDepth 0 ' ' []
    Memory.empty
  simpa using h

end Inline

end Proofreader.Markdown
