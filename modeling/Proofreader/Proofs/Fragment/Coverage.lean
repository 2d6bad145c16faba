import Mathlib.Data.List.Forall2
import Mathlib.Data.List.TakeWhile
import Proofreader.Proofs.Text.Squeeze

/-!
# What an exempt region covers

The elements of a fragment are numbered in document order, and every character of
the running text carries the numbers of the elements around it.  Squeezing moves
the characters, but the region of an element holds, of the characters that are not
blank, exactly those that carry its number.
-/

namespace Proofreader

namespace Fragment

/-! ## Elements and owners -/

structure Element where
  number : Nat
  classes : List Text
  text : Text
  deriving DecidableEq, Repr

def elementCount : Fragment → Nat
  | nil => 0
  | text _ rest => rest.elementCount
  | element _ inside rest => 1 + inside.elementCount + rest.elementCount

def elementsFrom : Nat → Fragment → List Element
  | _, nil => []
  | n, text _ rest => elementsFrom n rest
  | n, element classes inside rest =>
      ⟨n, classes, inside.plain⟩ :: elementsFrom (n + 1) inside ++
        elementsFrom (n + 1 + inside.elementCount) rest

structure Owned where
  char : Char
  owners : List Nat
  deriving DecidableEq, Repr

def Owned.enclose (n : Nat) (x : Owned) : Owned := { x with owners := n :: x.owners }

def ownedFrom : Nat → Fragment → List Owned
  | _, nil => []
  | n, text t rest => t.map (fun c => ⟨c, []⟩) ++ ownedFrom n rest
  | n, element _ inside rest =>
      (ownedFrom (n + 1) inside).map (Owned.enclose n) ++
        ownedFrom (n + 1 + inside.elementCount) rest

theorem map_char_ownedFrom (n : Nat) (f : Fragment) :
    (ownedFrom n f).map Owned.char = f.plain := by
  induction f generalizing n with
  | nil => rfl
  | text t rest ih => simp [ownedFrom, plain, ih, Function.comp_def]
  | element classes inside rest ihInside ihRest =>
      have henclose : Owned.char ∘ Owned.enclose n = Owned.char := rfl
      simp [ownedFrom, plain, ihRest, henclose, ihInside]

theorem owners_bounds {n : Nat} {f : Fragment} {x : Owned} (hx : x ∈ ownedFrom n f)
    {i : Nat} (hi : i ∈ x.owners) : n ≤ i ∧ i < n + f.elementCount := by
  induction f generalizing n x with
  | nil => simp [ownedFrom] at hx
  | text t rest ih =>
      simp only [ownedFrom, List.mem_append, List.mem_map] at hx
      rcases hx with ⟨c, -, rfl⟩ | hx
      · simp at hi
      · exact ih hx hi
  | element classes inside rest ihInside ihRest =>
      simp only [ownedFrom, List.mem_append, List.mem_map] at hx
      simp only [elementCount]
      rcases hx with ⟨y, hy, rfl⟩ | hx
      · simp only [Owned.enclose, List.mem_cons] at hi
        rcases hi with rfl | hi
        · omega
        · have := ihInside hy hi
          omega
      · have := ihRest hx hi
        omega

/-! ## Marked elements -/

/-- Among the characters `cs`, which begin at `start`, those that carry the number
of `e` are one stretch, and `m` says where it stands. -/
def Spans (cs : List Owned) (start : Nat) (e : Element) (m : Marked) : Prop :=
  m.classes = e.classes ∧ m.text = e.text ∧
    ∃ before inside after, cs = before ++ inside ++ after ∧
      m.start = start + before.length ∧ inside.map Owned.char = e.text ∧
      (∀ x ∈ inside, e.number ∈ x.owners) ∧ ∀ x ∈ before ++ after, e.number ∉ x.owners

theorem Spans.prepend {cs : List Owned} {start : Nat} {e : Element} {m : Marked}
    (pre : List Owned) (hpre : ∀ x ∈ pre, e.number ∉ x.owners)
    (h : Spans cs (start + pre.length) e m) : Spans (pre ++ cs) start e m := by
  obtain ⟨hclasses, htext, before, inside, after, rfl, hstart, hinside, hin, hout⟩ := h
  refine ⟨hclasses, htext, pre ++ before, inside, after, by simp, ?_, hinside, hin, ?_⟩
  · simp
    omega
  · intro x hx
    simp only [List.append_assoc, List.mem_append] at hx
    rcases hx with hx | hx | hx
    · exact hpre x hx
    · exact hout x (by simp [hx])
    · exact hout x (by simp [hx])

theorem Spans.append {cs : List Owned} {start : Nat} {e : Element} {m : Marked}
    (post : List Owned) (hpost : ∀ x ∈ post, e.number ∉ x.owners)
    (h : Spans cs start e m) : Spans (cs ++ post) start e m := by
  obtain ⟨hclasses, htext, before, inside, after, rfl, hstart, hinside, hin, hout⟩ := h
  refine ⟨hclasses, htext, before, inside, after ++ post, by simp, hstart, hinside, hin, ?_⟩
  intro x hx
  simp only [List.mem_append] at hx
  rcases hx with hx | hx | hx
  · exact hout x (by simp [hx])
  · exact hout x (by simp [hx])
  · exact hpost x hx

theorem Spans.enclose {cs : List Owned} {start : Nat} {e : Element} {m : Marked} {n : Nat}
    (hn : e.number ≠ n) (h : Spans cs start e m) :
    Spans (cs.map (Owned.enclose n)) start e m := by
  obtain ⟨hclasses, htext, before, inside, after, rfl, hstart, hinside, hin, hout⟩ := h
  refine ⟨hclasses, htext, before.map (Owned.enclose n), inside.map (Owned.enclose n),
    after.map (Owned.enclose n), by simp, by simpa using hstart, ?_, ?_, ?_⟩
  · rw [← hinside, List.map_map]
    rfl
  · intro x hx
    obtain ⟨y, hy, rfl⟩ := List.mem_map.1 hx
    exact List.mem_cons_of_mem n (hin y hy)
  · intro x hx
    rw [← List.map_append] at hx
    obtain ⟨y, hy, rfl⟩ := List.mem_map.1 hx
    simp [Owned.enclose, hn, hout y hy]

def Placed (n start : Nat) (f : Fragment) (e : Element) (m : Marked) : Prop :=
  n ≤ e.number ∧ e.number < n + f.elementCount ∧ Spans (ownedFrom n f) start e m

theorem Placed.afterText {n start : Nat} {rest : Fragment} {e : Element} {m : Marked} (t : Text)
    (h : Placed n (start + t.length) rest e m) : Placed n start (text t rest) e m := by
  obtain ⟨hlow, hhigh, hspan⟩ := h
  refine ⟨hlow, hhigh, ?_⟩
  refine Spans.prepend (t.map fun c => ⟨c, []⟩) ?_ ?_
  · simp
  · simpa using hspan

theorem Placed.within {n start : Nat} {inside : Fragment} {e : Element} {m : Marked}
    (classes : List Text) (rest : Fragment) (h : Placed (n + 1) start inside e m) :
    Placed n start (element classes inside rest) e m := by
  obtain ⟨hlow, hhigh, hspan⟩ := h
  refine ⟨by omega, by simp only [elementCount]; omega, ?_⟩
  apply Spans.append
  · intro x hx hmem
    have := owners_bounds hx hmem
    omega
  · exact hspan.enclose (by omega)

theorem Placed.afterElement {n start : Nat} {inside rest : Fragment} {e : Element} {m : Marked}
    (classes : List Text)
    (h : Placed (n + 1 + inside.elementCount) (start + inside.plain.length) rest e m) :
    Placed n start (element classes inside rest) e m := by
  obtain ⟨hlow, hhigh, hspan⟩ := h
  refine ⟨by omega, by simp only [elementCount]; omega, ?_⟩
  apply Spans.prepend
  · intro x hx hmem
    obtain ⟨y, hy, rfl⟩ := List.mem_map.1 hx
    simp only [Owned.enclose, List.mem_cons] at hmem
    rcases hmem with heq | hmem
    · omega
    · have := owners_bounds hy hmem
      omega
  · simpa [← map_char_ownedFrom (n + 1) inside] using hspan

theorem placed_self (n start : Nat) (classes : List Text) (inside rest : Fragment) :
    Placed n start (element classes inside rest) ⟨n, classes, inside.plain⟩
      ⟨classes, inside.plain, start⟩ := by
  refine ⟨Nat.le_refl n, by simp only [elementCount]; omega, rfl, rfl, [],
    (ownedFrom (n + 1) inside).map (Owned.enclose n),
    ownedFrom (n + 1 + inside.elementCount) rest, by simp [ownedFrom], by simp, ?_, ?_, ?_⟩
  · rw [List.map_map]
    exact map_char_ownedFrom (n + 1) inside
  · intro x hx
    obtain ⟨y, -, rfl⟩ := List.mem_map.1 hx
    simp [Owned.enclose]
  · intro x hx hmem
    have hlow : n + 1 + inside.elementCount ≤ n := (owners_bounds (by simpa using hx) hmem).1
    omega

theorem placed_marked (s : Selector) (n start : Nat) (f : Fragment) :
    List.Forall₂ (Placed n start f)
      ((elementsFrom n f).filter fun e => s.selects e.classes) (f.marked s start) := by
  induction f generalizing n start with
  | nil => exact .nil
  | text t rest ih => exact (ih n (start + t.length)).imp fun _ _ => Placed.afterText t
  | element classes inside rest ihInside ihRest =>
      have hinside := (ihInside (n + 1) start).imp fun _ _ => Placed.within classes rest
      have hrest := (ihRest (n + 1 + inside.elementCount) (start + inside.plain.length)).imp
        fun _ _ => Placed.afterElement classes
      have hboth := List.rel_append hinside hrest
      have hself := placed_self n start classes inside rest
      simp only [elementsFrom, marked, List.cons_append, List.filter_cons, List.filter_append]
      cases hs : s.selects classes with
      | true => simpa using And.intro hself hboth
      | false => simpa using hboth

/-! ## Positions in three parts -/

theorem findIdxs_middle {α : Type} (p : α → Bool) (before part after : List α) {j k : Nat}
    (h : ((before ++ part ++ after).findIdxs p)[j]? = some k) :
    (before.length ≤ k ∧ k < before.length + part.length) ↔
      (before.countP p ≤ j ∧ j < before.countP p + part.countP p) := by
  rw [List.findIdxs_append, List.findIdxs_append, List.append_assoc] at h
  simp only [List.getElem?_append, List.length_findIdxs] at h
  split at h
  · have hk := List.lt_add_of_mem_findIdxs k (List.mem_of_getElem? h)
    omega
  · split at h
    · have hlow := List.ge_of_mem_findIdxs k (List.mem_of_getElem? h)
      have hhigh := List.lt_add_of_mem_findIdxs k (List.mem_of_getElem? h)
      omega
    · have hlow := List.ge_of_mem_findIdxs k (List.mem_of_getElem? h)
      simp only [List.length_append] at hlow
      omega

theorem filter_middle {α : Type} (p : α → Bool) (q : α → Prop) (before part after : List α)
    (hpart : ∀ x ∈ part, q x) (hout : ∀ x ∈ before ++ after, ¬ q x) {j : Nat} {x : α}
    (h : ((before ++ part ++ after).filter p)[j]? = some x) :
    q x ↔ (before.countP p ≤ j ∧ j < before.countP p + part.countP p) := by
  simp only [List.countP_eq_length_filter]
  rw [List.filter_append, List.filter_append, List.append_assoc] at h
  simp only [List.getElem?_append] at h
  split at h
  · have hx := List.mem_of_mem_filter (List.mem_of_getElem? h)
    have := hout x (by simp [hx])
    simp only [this, false_iff]
    omega
  · split at h
    · have hx := List.mem_of_mem_filter (List.mem_of_getElem? h)
      simp only [hpart x hx, true_iff]
      omega
    · have hx := List.mem_of_mem_filter (List.mem_of_getElem? h)
      have := hout x (by simp [hx])
      simp only [this, false_iff]
      omega

/-! ## Regions -/

def ownedInk (f : Fragment) : List Owned := (ownedFrom 0 f).filter fun x => Text.isInk x.char

def inkPlaces (t : Text) : List Nat := t.squeeze.findIdxs Text.isInk

/-- The region `r` of the squeezed text of `f` covers the element `e` and nothing else. -/
structure Covers (f : Fragment) (e : Element) (r : Region) : Prop where
  ruleIds_eq : r.ruleIds = e.classes
  stop_le : r.stop ≤ f.plain.squeeze.length
  slice_eq : f.plain.squeeze.slice r.start r.stop = e.text.squeeze
  /-- The `j`-th character that is not blank stands in the region if and only if it
  belongs to the element. -/
  owns_iff : ∀ (j : Nat) (x : Owned), f.ownedInk[j]? = some x →
    ∃ k, (inkPlaces f.plain)[j]? = some k ∧
    f.plain.squeeze[k]? = some x.char ∧ ((r.start ≤ k ∧ k < r.stop) ↔ e.number ∈ x.owners)

theorem map_char_ownedInk (f : Fragment) :
    f.ownedInk.map Owned.char = f.plain.squeeze.filter Text.isInk := by
  rw [Text.filter_squeeze, ← map_char_ownedFrom 0 f, List.filter_map, ownedInk]
  rfl

theorem exists_inkPlace {f : Fragment} {j : Nat} {x : Owned} (h : f.ownedInk[j]? = some x) :
    ∃ k, (inkPlaces f.plain)[j]? = some k ∧ f.plain.squeeze[k]? = some x.char := by
  have hchar : (f.plain.squeeze.filter Text.isInk)[j]? = some x.char := by
    rw [← map_char_ownedInk, List.getElem?_map, h]
    rfl
  obtain ⟨hj, hget⟩ := List.getElem?_eq_some_iff.1 hchar
  have hplaces : j < (f.plain.squeeze.findIdxs Text.isInk).length := by
    rw [List.length_findIdxs, List.countP_eq_length_filter]
    exact hj
  refine ⟨(f.plain.squeeze.findIdxs Text.isInk)[j], List.getElem?_eq_getElem hplaces, ?_⟩
  rw [List.getElem?_eq_getElem (by have := List.getElem_findIdxs_lt hplaces; omega), ← hget,
    List.getElem_filter_eq_getElem_getElem_findIdxs]

theorem squeeze_at_region {m : Marked} {r : Region} (before after : Text)
    (hstart : m.start = before.length) (hr : m.region? (before ++ m.text ++ after) = some r) :
    r.ruleIds = m.classes ∧ r.covered = m.text.squeeze ∧
      ∃ lead rest, (before ++ m.text ++ after).squeeze = lead ++ r.covered ++ rest ∧
        r.start = lead.length ∧ lead.filter Text.isInk = before.filter Text.isInk := by
  have hblank : m.text.isAllBlank = false := by
    by_contra hall
    have hnil := (Text.squeeze_eq_nil_iff m.text).2 (by simpa using hall)
    simp [Marked.region?, hnil] at hr
  have hcovered : m.text.squeeze.isEmpty = false := by
    rw [List.isEmpty_eq_false_iff, ne_eq, Text.squeeze_eq_nil_iff, hblank]
    simp
  simp only [Marked.region?, hcovered, Bool.false_eq_true, if_false, Option.some.injEq] at hr
  subst hr
  refine ⟨rfl, rfl, ?_⟩
  obtain ⟨rest, hsqueeze⟩ := Text.squeeze_middle before m.text after hblank
  have htake : (before ++ m.text ++ after).take
      (m.start + (m.text.takeWhile Text.isBlank).length) =
        before ++ m.text.takeWhile Text.isBlank := by
    have hsplit : before ++ m.text ++ after = (before ++ m.text.takeWhile Text.isBlank) ++
        (m.text.dropWhile Text.isBlank ++ after) := by
      conv => lhs; rw [← List.takeWhile_append_dropWhile (p := Text.isBlank) (l := m.text)]
      simp only [List.append_assoc]
    rw [hsplit, hstart, List.take_left' (by simp)]
  refine ⟨_, rest, hsqueeze, ?_, ?_⟩
  · rw [← htake, Text.length_squeezedBefore]
  · have hspace : (m.text.takeWhile Text.isBlank).filter Text.isInk = [] := by
      rw [List.filter_eq_nil_iff]
      intro c hc
      simp [Text.isInk, List.mem_takeWhile_imp hc]
    rw [Text.filter_squeezedBefore, List.filter_append, hspace, List.append_nil]

theorem covers_of_placed {f : Fragment} {e : Element} {m : Marked} (h : Placed 0 0 f e m)
    {r : Region} (hr : m.region? f.plain = some r) : Covers f e r := by
  obtain ⟨-, -, hclasses, htext, before, inside, after, hcs, hstart, hinside, hin, hout⟩ := h
  have hplain : f.plain = before.map Owned.char ++ m.text ++ after.map Owned.char := by
    rw [← map_char_ownedFrom 0 f, hcs, htext, ← hinside]
    simp
  rw [hplain] at hr
  obtain ⟨hids, hcovered, lead, rest, hsqueeze, hlead, hink⟩ :=
    squeeze_at_region _ _ (by simpa using hstart) hr
  rw [← hplain] at hsqueeze
  have hbeforeCount : lead.countP Text.isInk =
      before.countP fun x => Text.isInk x.char := by
    rw [List.countP_eq_length_filter, hink, ← List.countP_eq_length_filter, List.countP_map]
    rfl
  have hinsideCount : r.covered.countP Text.isInk =
      inside.countP fun x => Text.isInk x.char := by
    rw [List.countP_eq_length_filter, hcovered, Text.filter_squeeze, htext, ← hinside,
      ← List.countP_eq_length_filter, List.countP_map]
    rfl
  refine ⟨hids.trans hclasses, ?_, ?_, ?_⟩
  · rw [hsqueeze]
    simp [Region.stop, hlead]
  · rw [hsqueeze, Text.slice, Region.stop, hlead, ← htext, ← hcovered,
      List.take_left' (by simp), List.drop_left]
  · intro j x hx
    obtain ⟨k, hk, hchar⟩ := exists_inkPlace hx
    refine ⟨k, hk, hchar, ?_⟩
    rw [inkPlaces, hsqueeze] at hk
    rw [ownedInk, hcs] at hx
    rw [Region.stop, hlead, findIdxs_middle _ _ _ _ hk, hbeforeCount, hinsideCount]
    have hmiddle :=
      filter_middle _ (fun x : Owned => e.number ∈ x.owners) before inside after hin hout hx
    exact hmiddle.symm

theorem isSome_region? (m : Marked) (t : Text) :
    (m.region? t).isSome = !m.text.isAllBlank := by
  cases hblank : m.text.isAllBlank with
  | true => simp [Marked.region?, (Text.squeeze_eq_nil_iff m.text).2 hblank]
  | false =>
      have hne : m.text.squeeze ≠ [] := by simp [ne_eq, Text.squeeze_eq_nil_iff, hblank]
      simp [Marked.region?, hne]

/-- The elements whose classes satisfy `p` and whose text is not all blank, in
document order. -/
def chosen (f : Fragment) (p : List Text → Bool) : List Element :=
  ((elementsFrom 0 f).filter fun e => p e.classes).filter fun e => !e.text.isAllBlank

theorem covers_exemptions (f : Fragment) (s : Selector) :
    List.Forall₂ (Covers f) (f.chosen s.selects) (f.exemptions s).regions := by
  have hplaced := placed_marked s 0 0 f
  unfold chosen exemptions
  simp only
  generalize (elementsFrom 0 f).filter (fun e => s.selects e.classes) = es at hplaced ⊢
  generalize f.marked s 0 = ms at hplaced ⊢
  induction hplaced with
  | nil => exact .nil
  | @cons e m es ms h _ ih =>
      have htext : m.text = e.text := h.2.2.2.1
      have hsome := isSome_region? m f.plain
      cases hr : m.region? f.plain with
      | none =>
          have hblank : e.text.isAllBlank = true := by simpa [hr, htext] using hsome
          simpa [hr, hblank] using ih
      | some r =>
          have hblank : e.text.isAllBlank = false := by simpa [hr, htext] using hsome
          simpa [hr, hblank] using And.intro (covers_of_placed h hr) ih

end Fragment

/-! ## Markers -/

namespace Selector

theorem inIdentifier_of_isIdentifier {t : Text} (h : isIdentifier t = true) :
    ∀ c ∈ t, inIdentifier c = true := by
  have hhyphen : inIdentifier '-' = true := by decide
  have hstart (c : Char) (hc : startsIdentifier c = true) : inIdentifier c = true := by
    simp [inIdentifier, hc]
  intro c hc
  unfold isIdentifier at h
  split at h <;> grind

theorem not_divides_of_inIdentifier {c : Char} (h : inIdentifier c = true) :
    (c == '.') = false ∧ (c == ',') = false ∧ isSpace c = false := by
  refine ⟨?_, ?_, ?_⟩ <;> by_contra hne
  · obtain rfl : c = '.' := by simpa using hne
    revert h
    decide
  · obtain rfl : c = ',' := by simpa using hne
    revert h
    decide
  · simp only [isSpace, Bool.not_eq_false, Bool.or_eq_true, beq_iff_eq] at hne
    rcases hne with (((rfl | rfl) | rfl) | rfl) | rfl <;> revert h <;> decide

theorem trimSpaces_dot {t : Text} (h : ∀ c ∈ t, isSpace c = false) :
    trimSpaces ('.' :: t) = '.' :: t := by
  have hall : ∀ c ∈ ('.' :: t).reverse, isSpace c = false := by
    intro c hc
    rcases List.mem_cons.1 (List.mem_reverse.1 hc) with rfl | hc
    · decide
    · exact h c hc
  have hdrop : ('.' :: t).reverse.dropWhile isSpace = ('.' :: t).reverse := by
    rw [List.dropWhile_eq_self_iff]
    intro hlength
    exact Bool.eq_false_iff.1 (hall _ (List.getElem_mem hlength))
  have hfront : ('.' :: t).dropWhile isSpace = '.' :: t :=
    List.dropWhile_cons_of_neg (by decide)
  rw [trimSpaces, hfront, hdrop, List.reverse_reverse]

theorem read_class {marker : Text} (h : isIdentifier marker = true) :
    read ('.' :: marker) = .ok [[marker]] := by
  have hchars := fun c hc => not_divides_of_inIdentifier (inIdentifier_of_isIdentifier h c hc)
  have hcommas : Text.splitOn (· == ',') ('.' :: marker) = ['.' :: marker] := by
    apply Text.splitOn_of_forall_not
    intro c hc
    rcases List.mem_cons.1 hc with rfl | hc
    · decide
    · exact (hchars c hc).2.1
  have hdots : Text.splitOn (· == '.') ('.' :: marker) = [[], marker] := by
    have hmarker := Text.splitOn_of_forall_not (p := (· == '.')) fun c hc => (hchars c hc).1
    simp [Text.splitOn, hmarker]
  simp [read, hcommas, readCompound?, trimSpaces_dot fun c hc => (hchars c hc).2.2, hdots, h]

theorem selects_class (marker : Text) (classes : List Text) :
    selects [[marker]] classes = classes.contains marker := by
  simp [selects]

end Selector

/-! ## Lines without their markup -/

/-- Stripping a fragment leaves its squeezed text and, in document order, one
region for each element that the marker selects and whose text is not all blank;
the region covers that element and nothing else.  A marker that is a class selects
the elements of that class. -/
theorem stripMarkup_covers (raw marker : Text) (f : Fragment) (hf : Fragment.read raw = .ok f) :
    (∀ s, Selector.read ('.' :: marker) = .ok s → ∃ out, stripMarkup raw marker = .ok out ∧
      out.text = f.plain.squeeze ∧
      List.Forall₂ (Fragment.Covers f) (f.chosen s.selects) out.regions) ∧
    (Selector.isIdentifier marker = true → ∃ out, stripMarkup raw marker = .ok out ∧
      out.text = f.plain.squeeze ∧
      List.Forall₂ (Fragment.Covers f) (f.chosen fun classes => classes.contains marker)
        out.regions) := by
  have hselected : ∀ s, Selector.read ('.' :: marker) = .ok s →
      ∃ out, stripMarkup raw marker = .ok out ∧ out.text = f.plain.squeeze ∧
        List.Forall₂ (Fragment.Covers f) (f.chosen s.selects) out.regions := by
    intro s hs
    refine ⟨f.exemptions s, ?_, rfl, Fragment.covers_exemptions f s⟩
    simp [stripMarkup, hf, hs]
  refine ⟨hselected, ?_⟩
  intro hmarker
  have hclass := hselected _ (Selector.read_class hmarker)
  rwa [show Selector.selects [[marker]] = fun classes => classes.contains marker from
    funext (Selector.selects_class marker)] at hclass

/-- A marked word that is glued to its neighbour, with blanks and an element inside. -/
theorem stripMarkup_covers_glued_word :
    ∃ f, Fragment.read "glued<i class=\"ignore R\"> <b>wo</b>rd </i>s" = .ok f ∧
      ∃ out, stripMarkup "glued<i class=\"ignore R\"> <b>wo</b>rd </i>s" "ignore" = .ok out ∧
        out.text = "glued word s" ∧
        List.Forall₂ (Fragment.Covers f) [⟨0, ["ignore", "R"], " word "⟩] out.regions := by
  have hread : Fragment.read "glued<i class=\"ignore R\"> <b>wo</b>rd </i>s" =
      .ok (.text "glued" (.element ["ignore", "R"]
        (.text " " (.element [] (.text "wo" .nil) (.text "rd " .nil))) (.text "s" .nil))) := by
    rfl
  have hcovers := (stripMarkup_covers _ "ignore" _ hread).2 (by decide)
  exact ⟨_, hread, hcovers⟩

/-- A class that begins with a digit makes no selector, so a fragment in which an element
carries it is not stripped.  A class with a dot makes the selector of two classes, and the
region is that of another element. -/
theorem stripMarkup_misses_class :
    let columns : Text := "<i class=\"2col\">x</i>"
    let dotted : Text := "<i class=\"a b\">x</i><i class=\"a.b\">y</i>"
    (∃ f, Fragment.read columns = .ok f ∧
      f.chosen (fun classes => classes.contains "2col") = [⟨0, ["2col"], "x"⟩] ∧
      stripMarkup columns "2col" = .error .selector) ∧
    ∃ f out, Fragment.read dotted = .ok f ∧ stripMarkup dotted "a.b" = .ok out ∧
      f.chosen (fun classes => classes.contains "a.b") = [⟨1, ["a.b"], "y"⟩] ∧
      out.regions = [⟨["a", "b"], "x", 0⟩] ∧
      ¬ List.Forall₂ (Fragment.Covers f) (f.chosen fun classes => classes.contains "a.b")
        out.regions := by
  intro columns dotted
  have hcolumns : Fragment.read columns = .ok (.element ["2col"] (.text "x" .nil) .nil) := by rfl
  have hdotted : Fragment.read dotted = .ok (.element ["a", "b"] (.text "x" .nil)
      (.element ["a.b"] (.text "y" .nil) .nil)) := by
    rfl
  have hchosen : Fragment.chosen (.element ["a", "b"] (.text "x" .nil)
      (.element ["a.b"] (.text "y" .nil) .nil)) (fun classes => classes.contains "a.b") =
        [⟨1, ["a.b"], "y"⟩] := by
    decide
  refine ⟨⟨_, hcolumns, by decide, by decide +kernel⟩,
    _, ⟨"xy", [⟨["a", "b"], "x", 0⟩]⟩, hdotted, by decide +kernel, hchosen, rfl, ?_⟩
  rw [hchosen]
  rintro (_ | ⟨hcovers, -⟩)
  exact absurd hcovers.ruleIds_eq (by decide)

end Proofreader
