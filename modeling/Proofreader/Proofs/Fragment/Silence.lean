import Mathlib.Data.List.Basic
import Proofreader.Fragment.Basic

/-!
# What is running text

The running text of a fragment is what its pieces show, one after the other, and what a piece
shows depends on the names of the open elements alone.  Where a line begins inside no silent
element, it does not even depend on those that were opened before, unless an end tag in a
silent element of the line closes one of them.  An empty section shows a blank or nothing,
which is for the elements around it to say.
-/

namespace Proofreader.Fragment

/-! ## Nesting -/

/-- The names of the open elements, innermost first, and of the elements without content whose
end tags are to be passed over. -/
structure Nesting where
  names : List Text
  early : List Text
  deriving DecidableEq, Repr

def afterFirst? (name : Text) : List Text → Option (List Text)
  | [] => none
  | found :: rest => if found == name then some rest else afterFirst? name rest

theorem suffix_of_afterFirst? {name : Text} {names rest : List Text}
    (h : afterFirst? name names = some rest) : rest <:+ names ∧ name ∈ names := by
  induction names with
  | nil => simp [afterFirst?] at h
  | cons found names ih =>
      rw [afterFirst?] at h
      split at h
      · rename_i heq
        obtain rfl := Option.some.inj h
        exact ⟨List.suffix_cons found names, by simp [eq_of_beq heq]⟩
      · obtain ⟨hsuffix, hmem⟩ := ih h
        exact ⟨hsuffix.trans (List.suffix_cons found names), List.mem_cons_of_mem found hmem⟩

theorem afterFirst?_append {name : Text} {names rest : List Text}
    (h : afterFirst? name names = some rest) (others : List Text) :
    afterFirst? name (names ++ others) = some (rest ++ others) := by
  induction names with
  | nil => simp [afterFirst?] at h
  | cons found names ih =>
      rw [List.cons_append, afterFirst?]
      rw [afterFirst?] at h
      split at h
      · rename_i heq
        obtain rfl := Option.some.inj h
        exact if_pos heq
      · rename_i hne
        rw [if_neg hne]
        exact ih h

theorem afterFirst?_filter {p : Text → Bool} {name : Text} (hp : p name = true)
    (names : List Text) :
    afterFirst? name (names.filter p) = (afterFirst? name names).map (·.filter p) := by
  induction names with
  | nil => rfl
  | cons found names ih =>
      rw [afterFirst?]
      by_cases heq : (found == name) = true
      · rw [if_pos heq, List.filter_cons_of_pos (eq_of_beq heq ▸ hp), afterFirst?, if_pos heq]
        rfl
      · rw [if_neg heq, ← ih]
        by_cases hfound : p found = true
        · rw [List.filter_cons_of_pos hfound, afterFirst?, if_neg heq]
        · rw [List.filter_cons_of_neg hfound]

namespace Nesting

def outside : Nesting := ⟨[], []⟩

def isSilent (σ : Nesting) : Bool := σ.names.any silentElements.contains

def keepsBlanks (σ : Nesting) : Bool := σ.names.any blankKeepers.contains

def close (σ : Nesting) (name : Text) : Nesting :=
  { σ with names := (afterFirst? name σ.names).getD σ.names }

def endTag (σ : Nesting) (name : Text) : Nesting :=
  if σ.early.contains name then { σ with early := σ.early.erase name } else σ.close name

def take (σ : Nesting) : Piece → Nesting
  | .text _ | .verbatim _ => σ
  | .opening name _ selfClosing =>
      let opened : Nesting := { σ with names := name :: σ.names }
      if selfClosing then opened.endTag name
      else if emptyElements.contains name then { σ with early := σ.early ++ [name] }
      else opened
  | .closing name => σ.endTag name

def shown (σ : Nesting) : Piece → Text
  | .text t => if σ.isSilent then [] else t
  | .verbatim t => sectionText σ.keepsBlanks t
  | .opening .. | .closing _ => []

def run (σ : Nesting) (ps : List Piece) : Nesting := ps.foldl take σ

def plain : Nesting → List Piece → Text
  | _, [] => []
  | σ, p :: ps => σ.shown p ++ (σ.take p).plain ps

theorem plain_append (σ : Nesting) (ps qs : List Piece) :
    σ.plain (ps ++ qs) = σ.plain ps ++ (σ.run ps).plain qs := by
  induction ps generalizing σ with
  | nil => rfl
  | cons p ps ih => rw [List.cons_append, plain, plain, ih, List.append_assoc]; rfl

theorem close_opened (σ : Nesting) (name : Text) :
    ({ σ with names := name :: σ.names } : Nesting).close name = σ := by
  simp [close, afterFirst?]

theorem plain_text_append (σ : Nesting) (s t : Text) (ps : List Piece) :
    σ.plain (.text (s ++ t) :: ps) = σ.plain (.text s :: .text t :: ps) := by
  simp only [plain, shown, take]
  by_cases hsilent : σ.isSilent = true <;> simp [hsilent]

end Nesting

/-! ## Builders -/

theorem plain_append (f g : Fragment) : (f.append g).plain = f.plain ++ g.plain := by
  induction f with
  | nil => rfl
  | text t rest ih => simp [append, plain, ih]
  | element classes inside rest _ ih => simp [append, plain, ih]

namespace Builder

def nesting (b : Builder) : Nesting := ⟨b.frames.map (·.name), b.closedEarly⟩

def plain (b : Builder) : Text :=
  b.outside.plain ++ b.frames.reverse.flatMap fun frame => frame.inside.plain

theorem isSilent_nesting (b : Builder) : b.nesting.isSilent = b.isSilent := by
  rw [Nesting.isSilent, nesting, List.any_map]
  rfl

theorem keepsBlanks_nesting (b : Builder) : b.nesting.keepsBlanks = b.keepsBlanks := by
  rw [Nesting.keepsBlanks, nesting, List.any_map]
  rfl

theorem nesting_add (b : Builder) (f : Fragment) : (b.add f).nesting = b.nesting := by
  unfold add
  split <;> simp [nesting, *]

theorem plain_add (b : Builder) (f : Fragment) : (b.add f).plain = b.plain ++ f.plain := by
  unfold add
  split <;> simp [plain, plain_append, *]

theorem nesting_closeInnermost (b : Builder) :
    b.closeInnermost.nesting = { b.nesting with names := b.nesting.names.tail } := by
  unfold closeInnermost
  split
  · simp [nesting, *]
  · rw [nesting_add]
    simp [nesting, *]

theorem plain_closeInnermost (b : Builder) : b.closeInnermost.plain = b.plain := by
  unfold closeInnermost
  split
  · rfl
  · rw [plain_add]
    simp [plain, Fragment.plain, *]

theorem nesting_closeFrames (n : Nat) (b : Builder) :
    (closeFrames n b).nesting = { b.nesting with names := b.nesting.names.drop n } := by
  induction n generalizing b with
  | zero => rfl
  | succ n ih => rw [closeFrames, ih, nesting_closeInnermost, List.drop_tail]

theorem plain_closeFrames (n : Nat) (b : Builder) : (closeFrames n b).plain = b.plain := by
  induction n generalizing b with
  | zero => rfl
  | succ n ih => rw [closeFrames, ih, plain_closeInnermost]

theorem afterFirst?_map_name (name : Text) (frames : List Frame) :
    afterFirst? name (frames.map (·.name)) =
      (frames.findIdx? (·.name == name)).map fun n => (frames.map (·.name)).drop (n + 1) := by
  induction frames with
  | nil => rfl
  | cons frame frames ih =>
      rw [List.map_cons, afterFirst?, List.findIdx?_cons]
      split
      · rfl
      · rw [ih, Option.map_map]
        rfl

theorem nesting_closeNamed (b : Builder) (name : Text) :
    (b.closeNamed name).nesting = b.nesting.close name := by
  have hfirst : afterFirst? name b.nesting.names =
      (b.frames.findIdx? (·.name == name)).map fun n => b.nesting.names.drop (n + 1) :=
    afterFirst?_map_name name b.frames
  unfold closeNamed
  rw [Nesting.close, hfirst]
  split
  · rename_i hfind
    rw [nesting_closeFrames, hfind]
    rfl
  · rename_i hfind
    rw [hfind]
    rfl

theorem plain_closeNamed (b : Builder) (name : Text) : (b.closeNamed name).plain = b.plain := by
  unfold closeNamed
  split
  · exact plain_closeFrames _ b
  · rfl

theorem nesting_endTag (b : Builder) (name : Text) :
    (b.endTag name).nesting = b.nesting.endTag name := by
  unfold endTag Nesting.endTag
  change (if b.nesting.early.contains name then _ else _ : Builder).nesting = _
  split
  · rfl
  · exact nesting_closeNamed b name

theorem plain_endTag (b : Builder) (name : Text) : (b.endTag name).plain = b.plain := by
  unfold endTag
  split
  · rfl
  · exact plain_closeNamed b name

theorem nesting_take (b : Builder) (p : Piece) : (b.take p).nesting = b.nesting.take p := by
  cases p with
  | text t =>
      simp only [take]
      split
      · rfl
      · exact nesting_add b _
  | verbatim t => exact nesting_add b _
  | opening name classes selfClosing =>
      simp only [take, Nesting.take]
      split
      · exact nesting_endTag _ name
      · split
        · have hclosed := (nesting_closeNamed
            { b with frames := ⟨name, classes, .nil⟩ :: b.frames } name).trans
              (Nesting.close_opened b.nesting name)
          exact congrArg (fun σ : Nesting => { σ with early := σ.early ++ [name] }) hclosed
        · rfl
  | closing name => exact nesting_endTag b name

theorem plain_take (b : Builder) (p : Piece) :
    (b.take p).plain = b.plain ++ b.nesting.shown p := by
  cases p with
  | text t =>
      rw [Nesting.shown, isSilent_nesting]
      simp only [take]
      split
      · simp
      · simp [plain_add, Fragment.plain]
  | verbatim t => simp [take, Nesting.shown, keepsBlanks_nesting, plain_add, Fragment.plain]
  | opening name classes selfClosing =>
      have hopened : ({ b with frames := ⟨name, classes, .nil⟩ :: b.frames } : Builder).plain =
          b.plain := by simp [plain, Fragment.plain]
      simp only [take, Nesting.shown, List.append_nil]
      split
      · rw [plain_endTag, hopened]
      · split
        · exact (plain_closeNamed _ name).trans hopened
        · exact hopened
  | closing name => simp [take, Nesting.shown, plain_endTag]

theorem plain_foldl_take (b : Builder) (ps : List Piece) :
    (ps.foldl take b).plain = b.plain ++ b.nesting.plain ps := by
  induction ps generalizing b with
  | nil => simp [Nesting.plain]
  | cons p ps ih =>
      rw [List.foldl_cons, ih, plain_take, nesting_take, Nesting.plain, List.append_assoc]

theorem plain_finish (b : Builder) : b.finish.plain = b.plain := by
  have hframes : (closeFrames b.frames.length b).frames = [] := by
    have h := congrArg Nesting.names (nesting_closeFrames b.frames.length b)
    have hlength : b.frames.length = b.nesting.names.length := (List.length_map _).symm
    rw [hlength, List.drop_length] at h
    exact List.map_eq_nil_iff.1 (hlength ▸ h)
  rw [← plain_closeFrames b.frames.length b, plain, hframes]
  simp [finish]

end Builder

theorem plain_ofPieces (ps : List Piece) : (ofPieces ps).plain = Nesting.outside.plain ps := by
  rw [ofPieces, Builder.plain_finish, Builder.plain_foldl_take]
  rfl

/-! ## Empty sections -/

/-- Either elements may keep blanks, and then no section is empty, or no element does. -/
def Piece.settles (keeps : Bool) : Piece → Bool
  | .text _ | .closing _ => true
  | .verbatim t => !(keeps && t.isEmpty)
  | .opening name _ _ => keeps || !blankKeepers.contains name

namespace Nesting

def Settled (keeps : Bool) (σ : Nesting) : Prop := keeps = false → σ.keepsBlanks = false

theorem settled_outside (keeps : Bool) : outside.Settled keeps := fun _ => rfl

theorem names_close_subset (σ : Nesting) (name : Text) : (σ.close name).names ⊆ σ.names := by
  rw [close]
  cases hfirst : afterFirst? name σ.names with
  | none => exact List.Subset.refl _
  | some rest => exact (suffix_of_afterFirst? hfirst).1.subset

theorem names_endTag_subset (σ : Nesting) (name : Text) : (σ.endTag name).names ⊆ σ.names := by
  unfold endTag
  split
  · exact List.Subset.refl _
  · exact σ.names_close_subset name

theorem Settled.mono {keeps : Bool} {σ τ : Nesting} (h : σ.Settled keeps)
    (hsubset : τ.names ⊆ σ.names) : τ.Settled keeps := by
  intro hkeeps
  have hnone := h hkeeps
  rw [keepsBlanks, List.any_eq_false] at hnone ⊢
  exact fun name hname => hnone name (hsubset hname)

theorem Settled.take {keeps : Bool} {σ : Nesting} {p : Piece} (h : σ.Settled keeps)
    (hp : p.settles keeps = true) : (σ.take p).Settled keeps := by
  cases p with
  | text t => exact h
  | verbatim t => exact h
  | opening name classes selfClosing =>
      have hopened : ({ σ with names := name :: σ.names } : Nesting).Settled keeps := by
        intro hkeeps
        simp only [Piece.settles, hkeeps, Bool.false_or, Bool.not_eq_true'] at hp
        have hnone := h hkeeps
        rw [keepsBlanks] at hnone ⊢
        rw [List.any_cons, hp, hnone]
        rfl
      simp only [Nesting.take]
      split
      · exact hopened.mono (names_endTag_subset _ name)
      · split
        · exact h
        · exact hopened
  | closing name => exact h.mono (σ.names_endTag_subset name)

theorem Settled.sectionText_eq {keeps : Bool} {σ τ : Nesting} {t : Text} (hσ : σ.Settled keeps)
    (hτ : τ.Settled keeps) (ht : (Piece.verbatim t).settles keeps = true) :
    sectionText σ.keepsBlanks t = sectionText τ.keepsBlanks t := by
  cases keeps with
  | false => rw [hσ rfl, hτ rfl]
  | true =>
      have hcontent : t.isEmpty = false := by simpa [Piece.settles] using ht
      simp [sectionText, hcontent]

end Nesting

/-! ## One line -/

/-- The elements with content that a line has opened so far, innermost first, after one more
piece of it.  An end tag in a silent element must be that of an element of the line. -/
def openedBy (inner : List Text) : Piece → Option (List Text)
  | .text _ | .verbatim _ => some inner
  | .opening name _ selfClosing =>
      some (if selfClosing || emptyElements.contains name then inner else name :: inner)
  | .closing name =>
      match afterFirst? name inner with
      | some rest => some rest
      | none => if inner.any silentElements.contains then none else some []

def hasContent (name : Text) : Bool := !emptyElements.contains name

/-- Of the open elements the line has opened the inner ones, and none of the others is
silent. -/
structure Nesting.Over (σ : Nesting) (inner : List Text) : Prop where
  early : ∀ name ∈ σ.early, hasContent name = false
  names : ∃ outer, σ.names.filter hasContent = inner ++ outer ∧
    outer.any silentElements.contains = false

namespace Nesting.Over

variable {inner : List Text} {σ : Nesting}

theorem outside : Nesting.outside.Over [] :=
  ⟨by simp [Nesting.outside], [], rfl, rfl⟩

theorem any_filter (names : List Text) :
    (names.filter hasContent).any silentElements.contains = names.any silentElements.contains := by
  have hsilent : ∀ name ∈ silentElements, hasContent name = true := by decide
  rw [List.any_filter]
  congr 1
  funext name
  cases h : silentElements.contains name with
  | false => simp
  | true => simp [hsilent name (List.contains_iff_mem.1 h)]

theorem isSilent (h : σ.Over inner) : σ.isSilent = inner.any silentElements.contains := by
  obtain ⟨-, outer, hnames, houter⟩ := h
  rw [Nesting.isSilent, ← any_filter, hnames, List.any_append, houter, Bool.or_false]

theorem restart (h : σ.Over inner) (hinner : inner.any silentElements.contains = false) :
    σ.Over [] := by
  obtain ⟨hearly, outer, hnames, houter⟩ := h
  refine ⟨hearly, inner ++ outer, hnames, ?_⟩
  rw [List.any_append, hinner, houter]
  rfl

theorem close {name : Text} {inner' : List Text} (h : σ.Over inner)
    (hopened : openedBy inner (.closing name) = some inner') : (σ.close name).Over inner' := by
  obtain ⟨hearly, outer, hnames, houter⟩ := h
  simp only [openedBy] at hopened
  split at hopened
  · rename_i rest hfirst
    obtain rfl := Option.some.inj hopened
    have hmem : name ∈ σ.names.filter hasContent := by
      rw [hnames]
      exact List.mem_append_left outer (suffix_of_afterFirst? hfirst).2
    have hafter := afterFirst?_append hfirst outer
    rw [← hnames, afterFirst?_filter (List.mem_filter.1 hmem).2, Option.map_eq_some_iff] at hafter
    obtain ⟨names, hclosed, hrest⟩ := hafter
    refine ⟨hearly, outer, ?_, houter⟩
    rw [Nesting.close, hclosed]
    exact hrest
  · split at hopened
    · simp at hopened
    · rename_i hsilent
      obtain rfl := Option.some.inj hopened
      rw [Bool.not_eq_true] at hsilent
      refine ⟨hearly, (σ.close name).names.filter hasContent, rfl, ?_⟩
      have hall : (σ.names.filter hasContent).any silentElements.contains = false := by
        rw [hnames, List.any_append, hsilent, houter]
        rfl
      rw [List.any_eq_false] at hall ⊢
      intro found hfound
      obtain ⟨hmem, hcontent⟩ := List.mem_filter.1 hfound
      exact hall found (List.mem_filter.2 ⟨σ.names_close_subset name hmem, hcontent⟩)

theorem endTag {name : Text} {inner' : List Text} (h : σ.Over inner)
    (hopened : openedBy inner (.closing name) = some inner') : (σ.endTag name).Over inner' := by
  unfold Nesting.endTag
  split
  · rename_i hpassed
    have hname := h.early name (List.contains_iff_mem.1 hpassed)
    obtain ⟨hearly, outer, hnames, houter⟩ := h
    have herased : ({ σ with early := σ.early.erase name } : Nesting).Over inner :=
      ⟨fun found hfound => hearly found (List.mem_of_mem_erase hfound), outer, hnames, houter⟩
    simp only [openedBy] at hopened
    split at hopened
    · -- the line opens elements with content only
      rename_i hfirst
      have hmem : name ∈ σ.names.filter hasContent := by
        rw [hnames]
        exact List.mem_append_left outer (suffix_of_afterFirst? hfirst).2
      simp [hname] at hmem
    · split at hopened
      · simp at hopened
      · rename_i hsilent
        obtain rfl := Option.some.inj hopened
        exact herased.restart (by simpa using hsilent)
  · exact h.close hopened

theorem opening {name : Text} {classes : List Text} {selfClosing : Bool} (h : σ.Over inner) :
    (σ.take (.opening name classes selfClosing)).Over
      (if selfClosing || emptyElements.contains name then inner else name :: inner) := by
  obtain ⟨hearly, outer, hnames, houter⟩ := h
  simp only [Nesting.take]
  cases selfClosing with
  | true =>
      simp only [Bool.true_or, if_true, Nesting.endTag]
      split
      · rename_i hpassed
        have hname : hasContent name = false := hearly name (List.contains_iff_mem.1 hpassed)
        refine ⟨fun found hfound => hearly found (List.mem_of_mem_erase hfound), outer, ?_, houter⟩
        rw [List.filter_cons_of_neg (by simp [hname]), hnames]
      · rw [close_opened]
        exact ⟨hearly, outer, hnames, houter⟩
  | false =>
      simp only [Bool.false_or, Bool.false_eq_true, if_false]
      split
      · rename_i hempty
        refine ⟨fun found hfound => ?_, outer, hnames, houter⟩
        rcases List.mem_append.1 hfound with hfound | hfound
        · exact hearly found hfound
        · obtain rfl := List.mem_singleton.1 hfound
          rw [hasContent, hempty]
          rfl
      · rename_i hcontent
        refine ⟨hearly, outer, ?_, houter⟩
        rw [List.filter_cons_of_pos (by simpa [hasContent] using hcontent), hnames]
        rfl

theorem take {p : Piece} {inner' : List Text} (h : σ.Over inner)
    (hopened : openedBy inner p = some inner') : (σ.take p).Over inner' := by
  cases p with
  | text t => exact Option.some.inj hopened ▸ h
  | verbatim t => exact Option.some.inj hopened ▸ h
  | opening name classes selfClosing => exact Option.some.inj hopened ▸ h.opening
  | closing name => exact h.endTag hopened

end Nesting.Over

theorem plain_eq_of_over {keeps : Bool} {ps : List Piece} {inner inner' : List Text}
    {σ τ : Nesting} (hσ : σ.Over inner) (hτ : τ.Over inner) (hσkeeps : σ.Settled keeps)
    (hτkeeps : τ.Settled keeps) (hopened : ps.foldlM openedBy inner = some inner')
    (hsettles : ∀ p ∈ ps, p.settles keeps = true) :
    σ.plain ps = τ.plain ps ∧ (σ.run ps).Over inner' ∧ (σ.run ps).Settled keeps := by
  induction ps generalizing inner σ τ with
  | nil =>
      obtain rfl := Option.some.inj hopened
      exact ⟨rfl, hσ, hσkeeps⟩
  | cons p ps ih =>
      rw [List.foldlM_cons, Option.bind_eq_bind, Option.bind_eq_some_iff] at hopened
      obtain ⟨between, hfirst, hrest⟩ := hopened
      rw [List.forall_mem_cons] at hsettles
      obtain ⟨hplain, hrun⟩ := ih (hσ.take hfirst) (hτ.take hfirst) (hσkeeps.take hsettles.1)
        (hτkeeps.take hsettles.1) hrest hsettles.2
      have hshown : σ.shown p = τ.shown p := by
        cases p with
        | text t => simp [Nesting.shown, hσ.isSilent, hτ.isSilent]
        | verbatim t => exact hσkeeps.sectionText_eq hτkeeps hsettles.1
        | opening name classes selfClosing => rfl
        | closing name => rfl
      exact ⟨by rw [Nesting.plain, Nesting.plain, hshown, hplain], hrun⟩

end Proofreader.Fragment
