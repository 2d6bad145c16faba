import Proofreader.Proofs.Document.Range
import Proofreader.Proofs.Fragment.Lines
import Proofreader.Proofs.Session.Exemption

/-!
# Stripping line by line

The markup of a block is stripped line by line.  Where no markup crosses the end of a line,
this gives the words that the whole block shows, in their order.
-/

namespace Proofreader

open Fragment (Apart)

/-! ## Texts -/

theorem Fragment.strip_eq_ok_iff {t s : Text} :
    strip t = .ok s ↔ ∃ plain, (read t).map Fragment.plain = .ok plain ∧ plain.squeeze = s := by
  unfold strip
  cases read t with
  | error e => simp [Except.map]
  | ok f => simp [Except.map]

theorem Text.filter_map_of_filter_eq {f : Text → Text} (hf : f [] = []) {ls ms : List Text}
    (h : ls.filter (fun l => !l.isEmpty) = ms.filter fun l => !l.isEmpty) :
    (ls.map f).filter (fun l => !l.isEmpty) = (ms.map f).filter fun l => !l.isEmpty := by
  have hall : ∀ ls : List Text, (ls.map f).filter (fun l => !l.isEmpty) =
      ((ls.filter fun l => !l.isEmpty).map f).filter fun l => !l.isEmpty := by
    intro ls
    induction ls with
    | nil => rfl
    | cons l ls ih =>
        cases l with
        | nil => simp [hf, ih]
        | cons c l => simp [List.filter_cons, ih]
  rw [hall ls, h, ← hall ms]

namespace Session

def stripped (l : Text) : Text := (Fragment.strip l).toOption.getD l

theorem checkedText_of_read {p : ProseLine} {f : Fragment}
    (h : Fragment.read p.location.text = .ok f) : checkedText p = stripped p.location.text := by
  rw [checkedText, cleaned_of_ok (cleanLine_of_read h), stripped, Fragment.strip, h]
  rfl

section Apart

variable {keeps : Bool} {text plain : Text} (h : Apart keeps text) (hstrip : Fragment.strip text = .ok plain)

include h hstrip

theorem exists_lines :
    ∃ ts, List.Forall₂ (fun l s => (Fragment.read l).map Fragment.plain = .ok s)
        (Text.splitOn Text.isBreak text) ts ∧
      Text.joinWith [' '] (ts.flatMap Text.words) = plain := by
  obtain ⟨whole, hwhole, rfl⟩ := Fragment.strip_eq_ok_iff.1 hstrip
  rw [Fragment.map_plain_read] at hwhole
  obtain ⟨f, hshown, rfl⟩ := exists_ok_of_map hwhole
  obtain ⟨ts, hread, hwords⟩ :=
    h.words hshown .outside (Fragment.Nesting.settled_outside keeps)
  exact ⟨ts, hread, by rw [← hwords]; rfl⟩

omit h hstrip in
theorem filter_textLines (text : Text) :
    (DocumentTree.textLines text).filter (fun l => !l.isEmpty) =
      (Text.splitOn Text.isBreak text).filter fun l => !l.isEmpty := by
  rw [← Text.filter_splitLines, DocumentTree.textLines]
  split
  · rename_i hnil
    rw [hnil]
    rfl
  · rfl

theorem exists_read_of_mem_textLines {l : Text} (hl : l ∈ DocumentTree.textLines text) :
    ∃ f, Fragment.read l = .ok f := by
  obtain ⟨ts, hread, -⟩ := exists_lines h hstrip
  cases l with
  | nil => exact ⟨.nil, rfl⟩
  | cons c l =>
      have hmem : c :: l ∈ (DocumentTree.textLines text).filter fun l => !l.isEmpty :=
        List.mem_filter.2 ⟨hl, rfl⟩
      rw [filter_textLines] at hmem
      obtain ⟨s, -, hs⟩ := exists_of_mem_left hread (List.mem_filter.1 hmem).1
      obtain ⟨f, hf, -⟩ := exists_ok_of_map hs
      exact ⟨f, hf⟩

theorem joinWith_stripped :
    Text.joinWith [' '] (((DocumentTree.textLines text).map stripped).filter fun s => !s.isEmpty) =
      plain := by
  obtain ⟨ts, hread, hjoin⟩ := exists_lines h hstrip
  have hstripped : (Text.splitOn Text.isBreak text).map stripped = ts.map Text.squeeze := by
    rw [← List.forall₂_eq_eq_eq, List.forall₂_map_left_iff, List.forall₂_map_right_iff]
    refine hread.imp fun l s hs => ?_
    rw [stripped, Fragment.strip_eq_ok_iff.2 ⟨s, hs, rfl⟩]
    rfl
  rw [Text.filter_map_of_filter_eq rfl (filter_textLines text), hstripped,
    Text.joinWith_filter_squeeze, hjoin]

end Apart

/-- Where no markup crosses line ends, the lines of a block show what the block shows. -/
theorem joinWith_checkedText {path : Path} {source key : Text} {t : DocumentTree} {i : Nat}
    {n : Node} {text plain : Text} {keeps : Bool} (hload : Document.load path source = .ok t)
    (hnode : t.node? i = some n) (htext : n.ownText = some text) (h : Apart keeps text)
    (hstrip : Fragment.strip text = .ok plain) :
    ∃ lines, t.nodeLines key i = .ok lines ∧
      (∀ p ∈ lines, ∃ clean, cleanLine p.location = .ok (clean, [])) ∧
      Text.joinWith [' '] ((lines.map checkedText).filter fun s => !s.isEmpty) = plain := by
  obtain ⟨lines, hlines, htexts, -⟩ := DocumentTree.nodeLines_of_node? key hnode
    (Document.grounded_of_load hload i n hnode)
  rw [htext, Option.elim_some] at htexts
  have hread : ∀ p ∈ lines, ∃ f, Fragment.read p.location.text = .ok f := fun p hp =>
    exists_read_of_mem_textLines h hstrip (htexts ▸ List.mem_map_of_mem hp)
  refine ⟨lines, hlines, fun p hp => ?_, ?_⟩
  · obtain ⟨f, hf⟩ := hread p hp
    exact ⟨_, cleanLine_of_read hf⟩
  · have hchecked : lines.map checkedText = (DocumentTree.textLines text).map stripped := by
      rw [← htexts, List.map_map]
      refine List.map_congr_left fun p hp => ?_
      obtain ⟨f, hf⟩ := hread p hp
      exact checkedText_of_read hf
    rw [hchecked, joinWith_stripped h hstrip]

/-- An element with its tags on different lines, one that shows nothing on a single line, and
an empty section, which shows a blank. -/
theorem joinWith_checkedText_crossed :
    let text : Text := "a<b>c\nd</b><rt>e</rt><![CDATA[]]>f".toList
    ∃ t n lines, Document.load (Path.ofText "doc.md") text = .ok t ∧ t.node? 1 = some n ∧
      n.ownText = some text ∧ Apart false text ∧ Fragment.strip text = .ok "ac d f".toList ∧
      t.nodeLines suppressionAttribute 1 = .ok lines ∧
      (∀ p ∈ lines, ∃ clean, cleanLine p.location = .ok (clean, [])) ∧
      Text.joinWith [' '] ((lines.map checkedText).filter fun s => !s.isEmpty) =
        "ac d f".toList := by
  intro text
  have h : ((Document.load (Path.ofText "doc.md") text).toOption.bind fun t =>
      (t.node? 1).bind Node.ownText) = some text := by
    decide +kernel
  have hstrip : Fragment.strip text = .ok "ac d f".toList := by
    decide +kernel
  have hapart : Apart false text := by
    obtain ⟨w, hw⟩ : ∃ w : Text, w = "d</b><rt>e</rt><![CDATA[]]>f".toList := ⟨_, rfl⟩
    have htext : text = ['a', '<', 'b', '>', 'c'] ++ '\n' :: w := by
      rw [hw]
      decide +kernel
    have hopen : Fragment.readConstruct ('b' :: '>' :: 'c' :: '\n' :: w) =
        .pieces [.opening ['b'] [] false] ('c' :: '\n' :: w) := by
      rw [hw]
      decide +kernel
    have hpassage : Fragment.Passage (['a', '<', 'b', '>', 'c'] ++ '\n' :: w)
        [.text ['a'], .opening ['b'] [] false, .text ['c']] ('\n' :: w) :=
      .step (.plain rfl) (.step (.construct hopen) (.step (.plain rfl) (.done _)))
    have hpieces : Fragment.pieces w =
        .ok [.text ['d'], .closing ['b'], .opening ['r', 't'] [] false, .text ['e'],
          .closing ['r', 't'], .verbatim [], .text ['f']] := by
      rw [hw]
      decide +kernel
    have hlast : Apart false w := by
      refine .last (Text.breaks_eq_zero.1 (by rw [hw]; decide +kernel)) fun ps hps => ?_
      obtain rfl := Except.ok.inj (hps.symm.trans hpieces)
      exact ⟨rfl, by decide⟩
    rw [htext]
    exact .line (Text.breaks_eq_zero.1 (by decide)) rfl hpassage rfl (by decide) (by decide) hlast
  obtain ⟨t, hload, hfound⟩ := Document.exists_load h
  obtain ⟨n, hnode, hown⟩ := Option.bind_eq_some_iff.1 hfound
  obtain ⟨lines, hlines, hquiet, hjoin⟩ := joinWith_checkedText hload hnode hown hapart hstrip
  exact ⟨t, n, lines, hload, hnode, hown, hapart, hstrip, hlines, hquiet, hjoin⟩

/-- A comment over two lines shows nothing, but both of its lines are checked. -/
theorem exists_hidden_text_checked :
    let text : Text := "<!-- a\nb -->".toList
    ∃ t n lines, Document.load (Path.ofText "doc.md") text = .ok t ∧ t.node? 1 = some n ∧
      n.ownText = some text ∧ t.nodeLines suppressionAttribute 1 = .ok lines ∧
      (∀ p ∈ lines, ∃ clean, cleanLine p.location = .ok (clean, [])) ∧
      Fragment.strip text = .ok [] ∧
      Text.joinWith [' '] ((lines.map checkedText).filter fun s => !s.isEmpty) =
        "<!-- a b -->".toList := by
  intro text
  have h : ((Document.load (Path.ofText "doc.md") text).toOption.bind fun t =>
      (t.node? 1).bind fun n => (t.nodeLines suppressionAttribute 1).toOption.map fun lines =>
        (n.ownText, lines.all fun p => (Fragment.read p.location.text).toOption.isSome,
          lines.map checkedText)) =
      some (some text, true, ["<!-- a".toList, "b -->".toList]) := by
    decide +kernel
  obtain ⟨t, hload, hfound⟩ := Document.exists_load h
  obtain ⟨n, hnode, hlines⟩ := Option.bind_eq_some_iff.1 hfound
  cases hread : t.nodeLines suppressionAttribute 1 with
  | error e => simp [hread, Except.toOption] at hlines
  | ok lines =>
      rw [hread] at hlines
      obtain ⟨hown, hquiet, hchecked⟩ := by
        simpa only [Option.some.injEq, Prod.mk.injEq] using Option.some.inj hlines
      refine ⟨t, n, lines, hload, hnode, hown, hread, fun p hp => ?_, by decide +kernel,
        by rw [hchecked]; decide +kernel⟩
      obtain ⟨f, hf⟩ := Option.isSome_iff_exists.1 (List.all_eq_true.1 hquiet p hp)
      exact ⟨_, cleanLine_of_read (eq_ok_of_toOption hf)⟩

end Session

end Proofreader
