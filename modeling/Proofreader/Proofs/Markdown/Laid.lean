import Proofreader.Proofs.Document.Folding
import Proofreader.Proofs.Text.Breaks

/-!
# Streams laid out over lines

The blocks of a stream stand one below the other, each on at least as many lines as its
text has, and those inside a container on lines of the container.  Such a stream is
balanced, and stays laid out when the attributes of attribute lines are moved.
-/

namespace Proofreader.Markdown

inductive Content where
  | blocks
  | items
  | cells
  deriving DecidableEq, Repr

namespace Container

def content : Container → Content
  | .bulletList | .orderedList => .items
  | .row => .cells
  | .item | .quote | .table | .tableHead | .tableBody => .blocks

def place : Container → Content
  | .item => .items
  | _ => .blocks

end Container

def EventKind.source : EventKind → Text
  | .heading _ source | .paragraph source | .cell source | .html source => source
  | .enter _ | .leave _ | .literal | .attributeLine => []

inductive Laid : Content → Nat → Nat → List Event → Prop where
  | nil {m : Content} {lo hi : Nat} (h : lo ≤ hi) : Laid m lo hi []
  | block {lo first stop hi : Nat} {e : Event} {rest : List Event} (hkind : e.kind.IsBlock)
      (hspan : e.span = some ⟨first, stop⟩) (hfirst : lo ≤ first)
      (hlines : first + Text.breaks e.kind.source < stop) (hrest : Laid .blocks stop hi rest) :
      Laid .blocks lo hi (e :: rest)
  | container {m : Content} {c : Container} {lo first stop hi : Nat} {e last : Event}
      {inside rest : List Event} (hplace : c.place = m) (hkind : e.kind = .enter c)
      (hspan : e.span = some ⟨first, stop⟩) (hattributes : c = .item → e.attributes = [])
      (hlast : last.kind = .leave c) (hfirst : lo ≤ first)
      (hinside : Laid c.content first stop inside) (hrest : Laid m stop hi rest) :
      Laid m lo hi (e :: inside ++ last :: rest)
  | cell {lo hi : Nat} {e : Event} {rest : List Event} {source : Text}
      (hkind : e.kind = .cell source) (hspan : e.span = none) (hsource : Text.breaks source = 0)
      (hlt : lo < hi) (hrest : Laid .cells lo hi rest) : Laid .cells lo hi (e :: rest)

namespace Laid

variable {m : Content} {lo mid hi : Nat} {es es' : List Event}

theorem le (h : Laid m lo hi es) : lo ≤ hi := by
  induction h with
  | nil h => exact h
  | block _ _ hfirst hlines _ ih => omega
  | container _ _ _ _ _ hfirst _ _ ihinside ih => omega
  | cell _ _ _ hlt _ _ => exact Nat.le_of_lt hlt

theorem mono {lo' hi' : Nat} (h : Laid m lo hi es) (hlo : lo' ≤ lo) (hhi : hi ≤ hi') :
    Laid m lo' hi' es := by
  induction h generalizing lo' with
  | nil h => exact .nil (by omega)
  | block hkind hspan hfirst hlines _ ih =>
      exact .block hkind hspan (by omega) hlines (ih (Nat.le_refl _) hhi)
  | container hplace hkind hspan hattributes hlast hfirst hinside _ _ ih =>
      exact .container hplace hkind hspan hattributes hlast (by omega) hinside
        (ih (Nat.le_refl _) hhi)
  | cell hkind hspan hsource hlt _ ih => exact .cell hkind hspan hsource (by omega) (ih hlo hhi)

theorem append (h : Laid m lo mid es) (h' : Laid m mid hi es') : Laid m lo hi (es ++ es') := by
  induction h with
  | nil h => exact h'.mono h (Nat.le_refl _)
  | block hkind hspan hfirst hlines _ ih => exact .block hkind hspan hfirst hlines (ih h')
  | container hplace hkind hspan hattributes hlast hfirst hinside _ _ ih =>
      rw [List.append_assoc, List.cons_append]
      exact .container hplace hkind hspan hattributes hlast hfirst hinside (ih h')
  | cell hkind hspan hsource hlt _ ih =>
      exact .cell hkind hspan hsource (Nat.lt_of_lt_of_le hlt h'.le) (ih h')

theorem wrap {c : Container} {attributes : Attributes} (h : Laid c.content lo hi es)
    (hattributes : c = .item → attributes = []) :
    Laid c.place lo hi (Event.wrap c lo hi attributes es) :=
  .container rfl rfl rfl hattributes rfl (Nat.le_refl _) h (.nil (Nat.le_refl _))

theorem balanced (h : Laid m lo hi es) : Balanced es := by
  induction h with
  | nil h => exact .nil
  | block hkind _ _ _ _ ih => exact .block hkind ih
  | container _ hkind _ _ hlast _ _ _ ihinside ih => exact .container hkind hlast ihinside ih
  | cell hkind _ _ _ _ ih => exact .block (by rw [hkind]; trivial) ih

theorem item_attributes (h : Laid m lo hi es) :
    ∀ e ∈ es, e.kind = .enter .item → e.attributes = [] := by
  induction h with
  | nil h => simp
  | block hkind _ _ _ _ ih =>
      rw [List.forall_mem_cons]
      exact ⟨fun hitem => by simp [hitem, EventKind.IsBlock] at hkind, ih⟩
  | container _ hkind _ hattributes hlast _ _ _ ihinside ih =>
      rw [List.cons_append, List.forall_mem_cons, List.forall_mem_append, List.forall_mem_cons]
      refine ⟨fun hitem => hattributes ?_, ihinside, fun hitem => by simp [hlast] at hitem, ih⟩
      rw [hkind] at hitem
      exact EventKind.enter.inj hitem
  | cell hkind _ _ _ _ ih =>
      rw [List.forall_mem_cons]
      exact ⟨fun hitem => by simp [hkind] at hitem, ih⟩

end Laid

/-! ## Attribute lines -/

namespace Event

theorem applyAttributeLines_cons (pending : Option Attributes) {e : Event} (rest : List Event)
    (hkind : e.kind ≠ .attributeLine) :
    ∃ attributes, (pending = none → attributes = e.attributes) ∧
      applyAttributeLines pending (e :: rest) =
        { e with attributes } :: applyAttributeLines none rest := by
  cases pending with
  | none => exact ⟨e.attributes, fun _ => rfl, by rw [applyAttributeLines, if_neg hkind]⟩
  | some line => exact ⟨_, by simp, by rw [applyAttributeLines, if_neg hkind]⟩

theorem applyAttributeLines_append (pending : Option Attributes) (es es' : List Event) :
    ∃ pending', applyAttributeLines pending (es ++ es') =
      applyAttributeLines pending es ++ applyAttributeLines pending' es' := by
  induction es generalizing pending with
  | nil => exact ⟨pending, by cases pending <;> simp [applyAttributeLines]⟩
  | cons e es ih =>
      by_cases hkind : e.kind = .attributeLine
      · cases pending with
        | none =>
            obtain ⟨pending', h⟩ := ih (some e.attributes)
            exact ⟨pending', by simp [applyAttributeLines, hkind, h]⟩
        | some line =>
            obtain ⟨pending', h⟩ := ih (some (mergeLines line e.attributes))
            exact ⟨pending', by simp [applyAttributeLines, hkind, h]⟩
      · obtain ⟨pending', h⟩ := ih none
        refine ⟨pending', ?_⟩
        cases pending with
        | none => simp [applyAttributeLines, hkind, h]
        | some line => simp [applyAttributeLines, hkind, h]

end Event

/-- No attribute line stands before an item, so an item stays without attributes. -/
theorem Laid.applyAttributeLines {m : Content} {lo hi : Nat} {es : List Event}
    (h : Laid m lo hi es) (pending : Option Attributes) (hpending : m = .items → pending = none) :
    Laid m lo hi (Event.applyAttributeLines pending es) := by
  induction h generalizing pending with
  | nil h => cases pending <;> exact .nil h
  | @block lo first stop hi e rest hkind hspan hfirst hlines _ ih =>
      by_cases hline : e.kind = .attributeLine
      · have hrest := fun pending => (ih pending (by simp)).mono (by omega : lo ≤ stop)
          (Nat.le_refl hi)
        cases pending with
        | none =>
            rw [Event.applyAttributeLines, if_pos hline]
            exact hrest _
        | some line =>
            rw [Event.applyAttributeLines, if_pos hline]
            exact hrest _
      · obtain ⟨attributes, -, heq⟩ := Event.applyAttributeLines_cons pending rest hline
        rw [heq]
        exact .block hkind hspan hfirst hlines (ih none (by simp))
  | @container m c lo first stop hi e last inside rest hplace hkind hspan hattributes hlast hfirst
      _ _ ihinside ih =>
      obtain ⟨attributes, hnone, heq⟩ := Event.applyAttributeLines_cons pending
        (inside ++ last :: rest) (by simp [hkind] : e.kind ≠ .attributeLine)
      obtain ⟨pending', happend⟩ := Event.applyAttributeLines_append none inside (last :: rest)
      obtain ⟨attributes', -, heq'⟩ := Event.applyAttributeLines_cons pending' rest
        (by simp [hlast] : last.kind ≠ .attributeLine)
      rw [List.cons_append, heq, happend, heq']
      refine .container hplace hkind hspan (fun hitem => ?_) hlast hfirst
        (ihinside none fun _ => rfl) (ih none fun _ => rfl)
      subst hitem
      rw [← hattributes rfl]
      exact hnone (hpending hplace.symm)
  | @cell lo hi e rest source hkind hspan hsource hlt _ ih =>
      obtain ⟨attributes, -, heq⟩ := Event.applyAttributeLines_cons pending rest
        (by simp [hkind] : e.kind ≠ .attributeLine)
      rw [heq]
      exact .cell hkind hspan hsource hlt (ih none (by simp))

end Proofreader.Markdown
