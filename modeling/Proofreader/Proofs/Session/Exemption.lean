import Proofreader.Proofs.Fragment.Coverage
import Proofreader.Proofs.Session.Failures
import Proofreader.Proofs.Session.Findings

/-!
# Exempt text is not reported

Every line of a text is read as a fragment of its own.  An element of that fragment which
carries the marker shields its text, from the first to the last character that is not
blank: no issue is made from a match there of a rule that the element silences.  Elements
of the whole text may reach over several lines, and on the later ones nothing is left of
them.
-/

namespace Proofreader

/-! ## Lists side by side -/

section Lists

variable {α β : Type} {R : α → β → Prop}

theorem exists_of_mem_left {xs : List α} {ys : List β} (h : List.Forall₂ R xs ys) {x : α}
    (hx : x ∈ xs) : ∃ y ∈ ys, R x y := by
  induction h with
  | nil => simp at hx
  | cons hfirst _ ih =>
      rcases List.mem_cons.1 hx with rfl | hx
      · exact ⟨_, List.mem_cons_self, hfirst⟩
      · obtain ⟨y, hy, hxy⟩ := ih hx
        exact ⟨y, List.mem_cons_of_mem _ hy, hxy⟩

theorem exists_sublist_of_sublist_left {xs xs' : List α} {ys : List β} (h : List.Forall₂ R xs ys)
    (hxs : xs'.Sublist xs) : ∃ ys', ys'.Sublist ys ∧ List.Forall₂ R xs' ys' := by
  induction hxs generalizing ys with
  | slnil => exact ⟨ys, .refl ys, h⟩
  | cons x _ ih =>
      cases h with
      | cons _ hrest =>
          obtain ⟨ys', hys', hrel⟩ := ih hrest
          exact ⟨ys', hys'.cons _, hrel⟩
  | cons_cons x _ ih =>
      cases h with
      | cons hfirst hrest =>
          obtain ⟨ys', hys', hrel⟩ := ih hrest
          exact ⟨_ :: ys', hys'.cons_cons _, .cons hfirst hrel⟩

end Lists

/-! ## Matches at an element -/

theorem RuleMatch.meets_mono {m : RuleMatch} {start stop start' stop' : Int}
    (hstart : start' ≤ start) (hstop : stop ≤ stop') (h : m.meets start stop = true) :
    m.meets start' stop' = true := by
  unfold meets at h ⊢
  split at h
  · rename_i hempty
    simp only [Bool.and_eq_true, decide_eq_true_eq] at h
    rw [if_pos hempty, Bool.and_eq_true, decide_eq_true_eq, decide_eq_true_eq]
    omega
  · rename_i hempty
    simp only [Bool.and_eq_true, decide_eq_true_eq] at h
    rw [if_neg hempty, Bool.and_eq_true, decide_eq_true_eq, decide_eq_true_eq]
    omega

namespace Fragment

def Occupies (f : Fragment) (e : Element) (k : Nat) : Prop :=
  ∃ (j : Nat) (x : Owned), f.ownedInk[j]? = some x ∧ e.number ∈ x.owners ∧
    (inkPlaces f.plain)[j]? = some k

/-- The match meets the stretch from one character of the element to another one, neither
of them blank. -/
def Touches (f : Fragment) (e : Element) (m : RuleMatch) : Prop :=
  ∃ first last : Nat, f.Occupies e first ∧ f.Occupies e last ∧ m.meets first (last + 1) = true

variable {f : Fragment} {e : Element}

theorem Covers.bounds {r : Region} (h : Covers f e r) {k : Nat} (hk : f.Occupies e k) :
    r.start ≤ k ∧ k < r.stop := by
  obtain ⟨j, x, hx, howner, hplace⟩ := hk
  obtain ⟨k', hplace', -, hiff⟩ := h.owns_iff j x hx
  obtain rfl : k' = k := by simpa [hplace] using hplace'.symm
  exact hiff.2 howner

theorem Covers.meets {r : Region} (h : Covers f e r) {m : RuleMatch} (hm : f.Touches e m) :
    m.meets r.start r.stop = true := by
  obtain ⟨first, last, hfirst, hlast, hmeets⟩ := hm
  have hstart := (h.bounds hfirst).1
  have hstop := (h.bounds hlast).2
  exact RuleMatch.meets_mono (by omega) (by omega) hmeets

theorem Placed.isAllBlank_eq_false {m : Marked} (h : Placed 0 0 f e m) {k : Nat}
    (hk : f.Occupies e k) : m.text.isAllBlank = false := by
  obtain ⟨-, -, -, htext, before, inside, after, hcs, -, hinside, -, hout⟩ := h
  obtain ⟨j, x, hx, howner, -⟩ := hk
  obtain ⟨hmem, hink⟩ := List.mem_filter.1 (List.mem_of_getElem? hx)
  have hin : x ∈ inside := by
    rw [hcs] at hmem
    simp only [List.mem_append] at hmem hout
    rcases hmem with (hbefore | hin) | hafter
    · exact absurd howner (hout x (.inl hbefore))
    · exact hin
    · exact absurd howner (hout x (.inr hafter))
  have hchar : x.char ∈ m.text := by
    rw [htext, ← hinside]
    exact List.mem_map_of_mem hin
  by_contra hblank
  rw [Bool.not_eq_false, Text.isAllBlank, List.all_eq_true] at hblank
  simp [Text.isInk, hblank x.char hchar] at hink

theorem exists_covers {s : Selector} (he : e ∈ elementsFrom 0 f)
    (hselected : s.selects e.classes = true) {found : RuleMatch} (h : f.Touches e found) :
    ∃ r ∈ (f.exemptions s).regions, Covers f e r := by
  obtain ⟨k, -, hk, -, -⟩ := h
  have hmem : e ∈ (elementsFrom 0 f).filter fun e => s.selects e.classes :=
    List.mem_filter.2 ⟨he, hselected⟩
  obtain ⟨m, hm, hplaced⟩ := exists_of_mem_left (placed_marked s 0 0 f) hmem
  have hsome : (m.region? f.plain).isSome = true := by
    rw [isSome_region?, hplaced.isAllBlank_eq_false hk]
    rfl
  obtain ⟨r, hr⟩ := Option.isSome_iff_exists.1 hsome
  exact ⟨r, List.mem_filterMap.2 ⟨m, hm, hr⟩, covers_of_placed hplaced hr⟩

end Fragment

/-! ## Shielded matches -/

def Silences (classes : List Text) (ruleId : Text) : Prop :=
  (∀ c ∈ classes, c = defaultMarker) ∨ ruleId ∈ classes ∧ ruleId ≠ defaultMarker

theorem exempts_of_silences {r : Region} {ruleId : Text} (h : Silences r.ruleIds ruleId) :
    r.exempts ruleId defaultMarker = true := by
  rw [Region.exempts, Bool.or_eq_true, List.contains_iff_mem, List.isEmpty_iff, Region.namedRules,
    List.filter_eq_nil_iff, List.mem_filter]
  rcases h with hnone | ⟨hnamed, hne⟩
  · exact .inl fun c hc => by simp [hnone c hc]
  · exact .inr ⟨hnamed, by simpa using hne⟩

namespace Session

theorem cleanLine_of_read {l : Location} {f : Fragment} (h : Fragment.read l.text = .ok f) :
    cleanLine l = .ok (f.exemptions [[defaultMarker]], []) := by
  have hselector : Selector.read ('.' :: defaultMarker) = .ok [[defaultMarker]] :=
    Selector.read_class (by decide)
  simp [cleanLine, stripMarkup, h, hselector]

/-- The match touches an element of the line that carries the marker and silences its rule. -/
def Shielded (p : ProseLine) (m : RuleMatch) : Prop :=
  ∃ f e, Fragment.read p.location.text = .ok f ∧ e ∈ Fragment.elementsFrom 0 f ∧
    defaultMarker ∈ e.classes ∧ Silences e.classes m.ruleId ∧ f.Touches e m

theorem Shielded.isExempt {p : ProseLine} {m : RuleMatch} (h : Shielded p m) :
    m.isExempt (cleaned p).regions defaultMarker = true := by
  obtain ⟨f, e, hread, he, hmarked, hsilences, htouches⟩ := h
  have hclean := cleaned_of_ok (cleanLine_of_read hread)
  have hselected : Selector.selects [[defaultMarker]] e.classes = true := by
    rw [Selector.selects_class]
    exact List.contains_iff_mem.2 hmarked
  obtain ⟨r, hr, hcovers⟩ := Fragment.exists_covers he hselected htouches
  rw [hclean]
  refine List.any_eq_true.2 ⟨r, hr, ?_⟩
  rw [Bool.and_eq_true]
  exact ⟨exempts_of_silences (hcovers.ruleIds_eq ▸ hsilences), hcovers.meets htouches⟩

/-! ## What is reported -/

def matched : Engine → List ProseLine → List (ProseLine × RuleMatch)
  | _, [] => []
  | e, p :: rest =>
      ((heard e p).toOption.getD []).map (p, ·) ++ matched (engineAfter e p) rest

/-- The issues were made, in order, from some of the matches, and none of these is
shielded. -/
def MadeFrom (is : List Issue) (xs : List (ProseLine × RuleMatch)) : Prop :=
  ∃ kept, kept.Sublist xs ∧ (∀ x ∈ kept, ¬ Shielded x.1 x.2) ∧
    List.Forall₂ (fun i x => issueOf x.1 x.2 = .ok i) is kept

theorem MadeFrom.append {is is' : List Issue} {xs xs' : List (ProseLine × RuleMatch)}
    (h : MadeFrom is xs) (h' : MadeFrom is' xs') : MadeFrom (is ++ is') (xs ++ xs') := by
  obtain ⟨kept, hkept, hfree, hmade⟩ := h
  obtain ⟨kept', hkept', hfree', hmade'⟩ := h'
  refine ⟨kept ++ kept', hkept.append hkept', ?_, List.rel_append hmade hmade'⟩
  intro x hx
  rcases List.mem_append.1 hx with hx | hx
  · exact hfree x hx
  · exact hfree' x hx

theorem filterAccepted_sublist {s : Session} {is kept : List Issue}
    (h : (s.filterAccepted is).outcome = .ok kept) : kept.Sublist is := by
  induction is generalizing s kept with
  | nil =>
      obtain rfl : [] = kept := Except.ok.inj h
      exact .slnil
  | cons i is ih =>
      have hfirst := filterAccepted_cons s i is
      cases hverdict : verdict s.auxiliaries i with
      | error e =>
          rw [hverdict] at hfirst
          simp [hfirst.1] at h
      | ok accepted =>
          rw [hverdict] at hfirst
          rw [hfirst.1] at h
          obtain ⟨rest, hrest, rfl⟩ := exists_ok_of_map h
          split
          · exact (ih hrest).cons i
          · exact (ih hrest).cons_cons i

theorem madeFrom_of_survivors {p : ProseLine} {ms : List RuleMatch} {made is : List Issue}
    (hmade : (survivors p ms).mapM (issueOf p) = .ok made) (his : is.Sublist made) :
    MadeFrom is (ms.map (p, ·)) := by
  obtain ⟨kept, hkept, hrel⟩ := exists_sublist_of_sublist_left (forall₂_of_mapM hmade) his
  have hsurvivors : (survivors p ms).Sublist ms := List.filter_sublist
  refine ⟨kept.map (p, ·), (hkept.trans hsurvivors).map _, ?_, ?_⟩
  · intro x hx hshielded
    obtain ⟨m, hm, rfl⟩ := List.mem_map.1 hx
    have hsurvives := (List.mem_filter.1 (hkept.subset hm)).2
    simp [hshielded.isExempt] at hsurvives
  · exact List.forall₂_map_right_iff.2 hrel

theorem madeFrom_checkLine {s : Session} {p : ProseLine} {is : List Issue}
    (h : (s.checkLine p).outcome = .ok is) :
    (s.checkLine p).session.engine = engineAfter s.engine p ∧
      (s.checkLine p).session.issues = s.issues ∧
      ∃ ms, heard s.engine p = .ok ms ∧ MadeFrom is (ms.map (p, ·)) := by
  have hline := checkLine_eq s p
  unfold drafted at hline
  cases hheard : heard s.engine p with
  | error f =>
      simp only [hheard] at hline
      simp [hline.1] at h
  | ok ms =>
      simp only [hheard] at hline
      cases hmade : (survivors p ms).mapM (issueOf p) with
      | error e =>
          simp only [hmade, Except.mapError] at hline
          simp [hline.1] at h
      | ok made =>
          simp only [hmade, Except.mapError] at hline
          rw [hline.1] at h
          rw [hline.2]
          exact ⟨engine_filterAccepted _ _, issues_filterAccepted _ _, ms, rfl,
            madeFrom_of_survivors hmade (filterAccepted_sublist h)⟩

theorem madeFrom_checkLines {s : Session} {lines : List ProseLine}
    (h : (s.checkLines lines).outcome = .ok ()) :
    ∃ is, (s.checkLines lines).session.issues = s.issues ++ is ∧
      MadeFrom is (matched s.engine lines) := by
  induction lines generalizing s with
  | nil => exact ⟨[], by simp [checkLines], [], .slnil, by simp, .nil⟩
  | cons p rest ih =>
      cases hline : (s.checkLine p).outcome with
      | error f => simp [checkLines, hline] at h
      | ok is =>
          obtain ⟨houtcome, hsession⟩ := checkLines_of_ok hline rest
          obtain ⟨hengine, hissues, ms, hheard, hmade⟩ := madeFrom_checkLine hline
          obtain ⟨is', his', hmade'⟩ := ih (s := s.afterLine p is) (houtcome.symm.trans h)
          rw [show (s.afterLine p is).engine = _ from hengine] at hmade'
          refine ⟨is ++ is', ?_, ?_⟩
          · rw [hsession, his', afterLine, hissues, List.append_assoc]
          · rw [matched, hheard]
            exact hmade.append hmade'

/-- Every issue of an analysis is made from a match that the engine returned for a line and
that touches no element of the line which carries the marker and silences the rule. -/
theorem analyze_madeFrom (s : Session) (source : Text) (path : Path) {result : AnalysisResult}
    (h : (s.analyze source path).outcome = .ok result) :
    ∃ t lines, Document.load path source = .ok t ∧ t.walk suppressionAttribute = .ok lines ∧
      MadeFrom result.issues (matched s.engine lines) := by
  unfold analyze analyzeLoaded at h
  cases hload : Document.load path source with
  | error f => simp [hload] at h
  | ok t =>
      simp only [hload, analyzeTree] at h
      cases hwalk : t.walk suppressionAttribute with
      | error f => simp [hwalk] at h
      | ok lines =>
          simp only [hwalk] at h
          obtain ⟨_, hok, rfl⟩ := exists_ok_of_map h
          obtain ⟨is, his, hmade⟩ := madeFrom_checkLines hok
          refine ⟨t, lines, rfl, hwalk, ?_⟩
          rw [his]
          exact hmade

/-- Of two matches of the same word, the one in the marked element is not reported. -/
theorem analyze_madeFrom_marked_word :
    let answer (offset : Int) : Answer :=
      ⟨.text "RULE", .null, .null, .int offset, .int 3, .null, .null⟩
    let tool : Tool :=
      { language := none, options := .none, isCloseable := true, disabledRules := []
        enabledCategories := [], isRestricted := false, history := []
        respond := fun _ _ => .answers [answer 4, answer 8] }
    let s : Session := .start (.start tool none [] false) []
    let path := Path.ofText "doc.md"
    let source : Text := "say <span class=\"ignore\">teh</span> teh"
    ∃ result t lines, (s.analyze source path).outcome = .ok result ∧
      result.issues.map (·.context) = (["say teh **teh**"] : List Text) ∧
      Document.load path source = .ok t ∧ t.walk suppressionAttribute = .ok lines ∧
      (matched s.engine lines).map (fun x => (x.2.start, x.2.stop)) = [(4, 7), (8, 11)] ∧
      MadeFrom result.issues (matched s.engine lines) := by
  intro answer tool s path source
  have hsummary : (s.analyze source path).outcome.toOption.map
      (fun result => result.issues.map (·.context)) = some (["say teh **teh**"] : List Text) := by
    decide +kernel
  have hmatched : ((Document.load path source).toOption.bind fun t =>
      (t.walk suppressionAttribute).toOption.map fun lines =>
        (matched s.engine lines).map fun x => (x.2.start, x.2.stop)) =
          some [(4, 7), (8, 11)] := by
    decide +kernel
  obtain ⟨result, hresult, hissues⟩ := Option.map_eq_some_iff.1 hsummary
  have hok := eq_ok_of_toOption hresult
  obtain ⟨t, lines, hload, hwalk, hmade⟩ := analyze_madeFrom s source path hok
  rw [hload, Except.toOption, Option.bind_some, hwalk] at hmatched
  exact ⟨result, t, lines, hok, hissues, hload, hwalk, Option.some.inj hmatched, hmade⟩

/-- Elements of a whole text from which something is reported: one that goes on for a second
line; one on a line that cannot be read, while the whole text can; and one that holds a
blank alone. -/
theorem analyze_reports_wrapped :
    let tool (respond : Text → List Answer) : Tool :=
      { language := none, options := .none, isCloseable := true, disabledRules := []
        enabledCategories := [], isRestricted := false, history := []
        respond := fun _ text => .answers (respond text) }
    let session (text : Text) (offset length : Int) : Session :=
      .start (.start (tool fun t =>
        if t = text then [⟨.text "RULE", .null, .null, .int offset, .int length, .null, .null⟩]
        else []) none [] false) []
    let path := Path.ofText "doc.md"
    let reported (s : Session) (source : Text) : Option (List (Nat × Text)) :=
      (s.analyze source path).outcome.toOption.map fun result =>
        result.issues.map fun i => (i.line, i.offendingText)
    let block (source : Text) : Option Text :=
      (Document.load path source).toOption.bind fun t => (t.node? 1).bind Node.ownText
    let long : Text := "a <i class=ignore>b\nteh</i>"
    let broken : Text := "a <!--\nb<![--><i class=ignore>teh</i>"
    let blank : Text := "a<i class=ignore> </i>b"
    (block long = some long ∧
      Fragment.read long = .ok (.text "a " (.element ["ignore"] (.text "b\nteh" .nil) .nil)) ∧
      reported (session "teh" 0 3) long = some [(2, ("teh" : Text))]) ∧
    (block broken = some broken ∧
      Fragment.read broken = .ok (.text "a " (.element ["ignore"] (.text "teh" .nil) .nil)) ∧
      reported (session "b<![--><i class=ignore>teh</i>" 23 3) broken =
        some [(2, ("teh" : Text))]) ∧
    block blank = some blank ∧
      Fragment.read blank =
        .ok (.text "a" (.element ["ignore"] (.text " " .nil) (.text "b" .nil))) ∧
      reported (session "a b" 1 1) blank = some [(1, (" " : Text))] := by
  decide +kernel

end Session

end Proofreader
