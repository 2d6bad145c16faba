import Mathlib.Data.List.Basic
import Proofreader.Document.Builder
import Proofreader.Document.Walk
import Proofreader.Proofs.Document.Folding
import Proofreader.Proofs.Location
import Proofreader.Proofs.Outcome

/-!
# Lines and their nodes

The lines of a document are those of its nodes, in document order.  The lines of a node
are the lines of its text, numbered from the line of the node.
-/

namespace Proofreader

namespace DocumentTree

def placedLines (t : DocumentTree) (key : Text) : List (Nat × ProseLine) :=
  t.preorder.flatMap fun i => ((t.nodeLines key i).toOption.getD []).map (i, ·)

theorem walk_eq_ok_iff {t : DocumentTree} {key : Text} {lines : List ProseLine} :
    t.walk key = .ok lines ↔
      t.nodes ≠ [] ∧ (∀ i ∈ t.preorder, ∃ ls, t.nodeLines key i = .ok ls) ∧
        lines = (t.placedLines key).map Prod.snd := by
  have hplaced : (t.placedLines key).map Prod.snd =
      (t.preorder.filterMap fun i => (t.nodeLines key i).toOption).flatten := by
    unfold placedLines
    induction t.preorder with
    | nil => rfl
    | cons i is ih =>
        rw [List.flatMap_cons, List.map_append, ih, List.filterMap_cons]
        cases (t.nodeLines key i).toOption with
        | none => simp
        | some ls => simp [Function.comp_def]
  rw [hplaced, walk]
  cases hnodes : t.nodes with
  | nil => simp
  | cons n ns =>
      rw [if_neg (by simp)]
      cases hlines : t.preorder.mapM (t.nodeLines key) with
      | error e =>
          constructor
          · intro h
            simp at h
          · rintro ⟨-, hall, -⟩
            have hok := mapM_eq_ok_iff.2 ⟨hall, rfl⟩
            simp [hlines] at hok
      | ok lss =>
          obtain ⟨hall, rfl⟩ := mapM_eq_ok_iff.1 hlines
          constructor
          · intro h
            exact ⟨by simp, hall, (Except.ok.inj h).symm⟩
          · rintro ⟨-, -, rfl⟩
            rfl

theorem ignored_of_mem_nodeLines {t : DocumentTree} {key : Text} {i : Nat}
    {lines : List ProseLine} (h : t.nodeLines key i = .ok lines) {p : ProseLine}
    (hp : p ∈ lines) : p.ignored = t.ignoredRules key i := by
  unfold nodeLines at h
  cases hn : t.node? i with
  | none =>
      obtain rfl : [] = lines := by simpa [hn] using h
      simp at hp
  | some n =>
      simp only [hn] at h
      split at h
      · obtain rfl : [] = lines := Except.ok.inj h
        simp at hp
      · obtain rfl : [] = lines := Except.ok.inj h
        simp at hp
      · obtain ⟨l, -, rfl⟩ := exists_ok_of_map h
        obtain ⟨l', -, rfl⟩ := List.mem_map.1 hp
        rfl

def textLines (text : Text) : List Text := if text = [] then [] else text.splitLines

theorem nodeLines_of_node? {t : DocumentTree} (key : Text) {i : Nat} {n : Node}
    (hn : t.node? i = some n) (hline : 1 ≤ n.line) :
    ∃ lines, t.nodeLines key i = .ok lines ∧
      lines.map (·.location.text) = n.ownText.elim [] textLines ∧
      lines.map (·.location.line) = List.range' n.line.toNat lines.length := by
  rw [nodeLines, hn]
  cases htext : n.ownText with
  | none => exact ⟨[], by simp [htext], rfl, rfl⟩
  | some text =>
      cases text with
      | nil => exact ⟨[], by simp [htext], rfl, rfl⟩
      | cons c text =>
          simp only [htext, Location.at?, dif_pos hline, Except.map, Option.elim_some]
          refine ⟨_, rfl, ?_, ?_⟩
          · rw [List.map_map]
            exact Location.map_text_placeLines _ 0 _
          · rw [List.map_map, List.length_map, Location.splitLines, Location.length_placeLines]
            exact Location.map_line_placeLines _ 0 _

def Grounded (t : DocumentTree) : Prop := ∀ i n, t.node? i = some n → 1 ≤ n.line

theorem Grounded.add {t : DocumentTree} (h : Grounded t) {n : Node} (hline : 1 ≤ n.line) :
    Grounded (t.add n) := by
  intro i m hm
  have hi := lt_size_of_node? hm
  rw [size_add] at hi
  rcases Nat.lt_succ_iff_lt_or_eq.1 hi with hi | rfl
  · rw [node?_add_of_lt hi, Option.map_eq_some_iff] at hm
    obtain ⟨m', hm', rfl⟩ := hm
    split
    · exact h i m' hm'
    · exact h i m' hm'
  · rw [node?_add_self, Option.some.injEq] at hm
    exact hm ▸ hline

theorem Grounded.modify {t : DocumentTree} (h : Grounded t) {f : Node → Node}
    (hf : ∀ n, (f n).line = n.line) (i : Nat) : Grounded (t.modify i f) := by
  intro j m hm
  rw [node?_modify, Option.map_eq_some_iff] at hm
  obtain ⟨m', hm', rfl⟩ := hm
  split
  · rw [hf]
    exact h j m' hm'
  · exact h j m' hm'

end DocumentTree

namespace TreeBuilder

open DocumentTree

variable {b : TreeBuilder}

theorem grounded_start (path : Path) : (start path).tree.Grounded := by
  intro i n hn
  obtain rfl : i = 0 := Nat.lt_one_iff.1 (lt_size_of_node? hn)
  obtain rfl := Option.some.inj hn
  exact Int.le_refl 1

theorem one_le_lineOf (h : b.tree.Grounded) (e : Markdown.Event) : 1 ≤ b.lineOf e := by
  unfold lineOf
  cases e.span with
  | some s =>
      simp only
      omega
  | none =>
      cases hn : b.tree.node? b.top with
      | none => simp
      | some n => simpa using h b.top n hn

end TreeBuilder

namespace DocumentTree.Grounded

open TreeBuilder

variable {b last : TreeBuilder} {render : Text → Text}

theorem step (h : b.tree.Grounded) {e : Markdown.Event} (hstep : b.step render e = some last) :
    last.tree.Grounded := by
  have hline := one_le_lineOf h e
  unfold TreeBuilder.step at hstep
  cases hkind : e.kind with
  | enter c =>
      cases c <;>
      · simp only [hkind, Option.some.injEq] at hstep
        exact hstep ▸ h.add hline
  | leave c =>
      simp only [hkind] at hstep
      unfold leave? at hstep
      split at hstep
      · simp at hstep
      · exact Option.some.inj hstep ▸ h
  | heading level source =>
      simp only [hkind, Option.some.injEq] at hstep
      subst hstep
      unfold addHeading
      split
      · exact h.add hline
      · exact h.add hline
  | paragraph source =>
      simp only [hkind, Option.some.injEq] at hstep
      subst hstep
      unfold addParagraph
      split
      · apply h.modify
        simp
      · exact h.add hline
  | cell source | html content | literal =>
      simp only [hkind, Option.some.injEq] at hstep
      exact hstep ▸ h.add hline
  | attributeLine =>
      simp only [hkind, Option.some.injEq] at hstep
      exact hstep ▸ h

theorem run (h : b.tree.Grounded) {es : List Markdown.Event} (hrun : b.run render es = some last) :
    last.tree.Grounded := by
  induction es generalizing b with
  | nil =>
      obtain rfl : b = last := by simpa [TreeBuilder.run] using hrun
      exact h
  | cons e es ih =>
      rw [run_cons, Option.bind_eq_some_iff] at hrun
      obtain ⟨b', hstep, hrest⟩ := hrun
      exact ih (h.step hstep) hrest

end DocumentTree.Grounded

end Proofreader
