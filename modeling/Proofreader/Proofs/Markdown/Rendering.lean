import Mathlib.Algebra.GroupWithZero.Nat
import Proofreader.Markdown.Inline.Reader
import Proofreader.Proofs.Text.Breaks

/-!
# Line breaks in rendered elements

The markup around an element adds no line break, and neither does emphasis: what is
rendered has the line breaks of the pieces it was put together from.
-/

namespace Proofreader.Markdown

open Text

namespace Inline

theorem breaks_escapeChar (c : Char) : breaks (escapeChar c) = breaks [c] := by
  by_cases hmark : c = '&' ∨ c = '<' ∨ c = '>' ∨ c = '"'
  · rcases hmark with rfl | rfl | rfl | rfl <;> decide
  · simp only [not_or] at hmark
    simp [escapeChar, hmark]

theorem breaks_escape (t : Text) : breaks (escape t) = breaks t := by
  induction t with
  | nil => rfl
  | cons c t ih =>
      rw [escape, List.flatMap_cons, breaks_append, breaks_escapeChar, ← escape, ih,
        ← breaks_append]
      rfl

theorem breaks_attributeText (name value : Text) :
    breaks (attributeText name value) = breaks name + breaks value := by
  have hspace : isBreak ' ' = false := rfl
  have hopen : breaks ['=', '"'] = 0 := rfl
  have hclose : breaks ['"'] = 0 := rfl
  simp only [attributeText, List.cons_append, breaks_cons, breaks_append, hspace, hopen, hclose,
    breaks_escape]
  simp

theorem breaks_titleText (title : Text) : breaks (titleText title) = breaks title := by
  unfold titleText
  split
  · rename_i h
    rw [List.isEmpty_iff.1 h]
  · have hname : breaks "title".toList = 0 := by decide
    rw [breaks_attributeText, hname, Nat.zero_add]

theorem breaks_render_text (t : Text) : breaks (render (.text t)) = breaks t := breaks_escape t

theorem render_code (t : Text) :
    render (.code t) = "<code>".toList ++ escape t ++ "</code>".toList := rfl

theorem render_link (target title : Text) (content : List Inline) :
    render (.link target title content) = "<a".toList ++ attributeText "href" target ++
      titleText title ++ '>' :: renderAll content ++ "</a>".toList := rfl

theorem render_image (source title : Text) (content : List Inline) :
    render (.image source title content) = "<img".toList ++ attributeText "src" source ++
      attributeText "alt" (plainAll content) ++ titleText title ++ " />".toList := rfl

theorem renderAll_cons (i : Inline) (is : List Inline) :
    renderAll (i :: is) = render i ++ renderAll is := rfl

theorem breaks_render_code (t : Text) : breaks (render (.code t)) = breaks t := by
  have hopen : breaks "<code>".toList = 0 := by decide
  have hclose : breaks "</code>".toList = 0 := by decide
  rw [render_code, breaks_append, breaks_append, hopen, hclose, breaks_escape]
  omega

theorem breaks_render_emphasis (isStrong opens : Bool) :
    breaks (render (.emphasis isStrong opens)) = 0 := by
  cases isStrong <;> cases opens <;> decide

theorem breaks_render_link (target title : Text) (content : List Inline) :
    breaks (render (.link target title content)) =
      breaks target + breaks title + breaks (renderAll content) := by
  have hopen : breaks "<a".toList = 0 := by decide
  have hname : breaks "href".toList = 0 := by decide
  have hclose : breaks "</a>".toList = 0 := by decide
  have hend : isBreak '>' = false := rfl
  simp only [render_link, breaks_append, breaks_cons, breaks_attributeText, breaks_titleText, hopen,
    hname, hclose, hend]
  simp

theorem breaks_render_image (source title : Text) (content : List Inline) :
    breaks (render (.image source title content)) =
      breaks source + breaks title + breaks (plainAll content) := by
  have hopen : breaks "<img".toList = 0 := by decide
  have hsource : breaks "src".toList = 0 := by decide
  have halt : breaks "alt".toList = 0 := by decide
  have hclose : breaks " />".toList = 0 := by decide
  simp only [render_image, breaks_append, breaks_attributeText, breaks_titleText, hopen, hsource,
    halt, hclose]
  omega

theorem breaks_renderAll_cons (i : Inline) (is : List Inline) :
    breaks (renderAll (i :: is)) = breaks (render i) + breaks (renderAll is) := by
  rw [renderAll_cons, breaks_append]

theorem breaks_renderAll_append (is is' : List Inline) :
    breaks (renderAll (is ++ is')) = breaks (renderAll is) + breaks (renderAll is') := by
  induction is with
  | nil => exact (Nat.zero_add _).symm
  | cons i is ih =>
      rw [List.cons_append, breaks_renderAll_cons, breaks_renderAll_cons, ih, Nat.add_assoc]

mutual

theorem breaks_plain_le (i : Inline) : breaks (plain i) ≤ breaks (render i) := by
  match i with
  | .text t => exact Nat.le_of_eq (breaks_render_text t).symm
  | .code t => exact Nat.le_of_eq (breaks_render_code t).symm
  | .html t => exact Nat.le_refl _
  | .softBreak => exact Nat.le_refl _
  | .hardBreak => decide
  | .emphasis _ _ => exact Nat.zero_le _
  | .link target title content =>
      have := breaks_plainAll_le content
      rw [plain, breaks_render_link]
      omega
  | .image source title content =>
      rw [plain, breaks_render_image]
      omega

theorem breaks_plainAll_le (is : List Inline) : breaks (plainAll is) ≤ breaks (renderAll is) := by
  match is with
  | [] => exact Nat.le_refl _
  | i :: is =>
      have := breaks_plain_le i
      have := breaks_plainAll_le is
      rw [plainAll, breaks_append, breaks_renderAll_cons]
      omega

end

end Inline

/-! ## Pieces -/

namespace Piece

def breaks : Piece → Nat
  | .inline i => Text.breaks i.render
  | .mark m => Text.breaks [m.char]

def breaksAll (ps : List Piece) : Nat := (ps.map breaks).sum

theorem breaksAll_append (ps qs : List Piece) :
    breaksAll (ps ++ qs) = breaksAll ps + breaksAll qs := by
  simp [breaksAll]

theorem emphasis_of_verdicts (slots : List Slot) (n : Nat) :
    ∀ v ∈ verdicts slots n, ∀ i ∈ v.inlines, ∃ isStrong opens, i = .emphasis isStrong opens := by
  induction n using Nat.strongRecOn with
  | ind n ih =>
      cases n with
      | zero => simp [verdicts]
      | succ n =>
          rw [verdicts.eq_def]
          simp only
          split
          · exact ih n (Nat.lt_succ_self n)
          · split
            · simp only [List.forall_mem_cons]
              refine ⟨by simp, by simp, by simp, by simp, ?_⟩
              cases n with
              | zero => simp
              | succ m => exact ih m (by omega)
            · simp only [List.forall_mem_cons]
              exact ⟨by simp, by simp, ih n (Nat.lt_succ_self n)⟩

theorem breaks_verdicts (slots : List Slot) (n : Nat) :
    ∀ v ∈ verdicts slots n, Text.breaks (Inline.renderAll v.inlines) = 0 := by
  intro v hv
  have hemphasis := emphasis_of_verdicts slots n v hv
  generalize v.inlines = inlines at hemphasis
  induction inlines with
  | nil => rfl
  | cons i is ih =>
      obtain ⟨isStrong, opens, rfl⟩ := hemphasis i (List.mem_cons_self ..)
      rw [Inline.breaks_renderAll_cons, Inline.breaks_render_emphasis, Nat.zero_add]
      exact ih fun j hj => hemphasis j (List.mem_cons_of_mem _ hj)

theorem breaks_resolveFrom_le {vs : List Verdict}
    (h : ∀ v ∈ vs, Text.breaks (Inline.renderAll v.inlines) = 0) (i : Nat) (ps : List Piece) :
    Text.breaks (Inline.renderAll (resolveFrom vs i ps)) ≤ breaksAll ps := by
  induction ps generalizing i with
  | nil => exact Nat.le_refl _
  | cons p ps ih =>
      have ih := ih (i + 1)
      have hsplit : breaksAll (p :: ps) = p.breaks + breaksAll ps := rfl
      cases p with
      | inline e =>
          rw [resolveFrom, Inline.breaks_renderAll_cons, hsplit, breaks]
          omega
      | mark m =>
          rw [resolveFrom, Inline.breaks_renderAll_append, hsplit, breaks]
          split
          · rename_i v hv
            rw [h v (List.mem_of_find?_eq_some hv)]
            omega
          · rw [Inline.breaks_renderAll_cons, Inline.breaks_render_text]
            exact Nat.add_le_add_left ih _

theorem breaks_resolve_le (ps : List Piece) :
    Text.breaks (Inline.renderAll (resolve ps)) ≤ breaksAll ps :=
  breaks_resolveFrom_le (breaks_verdicts _ _) 0 ps

end Piece

end Proofreader.Markdown
