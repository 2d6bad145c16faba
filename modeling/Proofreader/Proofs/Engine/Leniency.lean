import Mathlib.Data.List.Forall2
import Proofreader.Proofs.Engine.Disabling
import Proofreader.Proofs.Engine.Repetition

/-!
# Engines that ignore more

Of two engines with the same tool, one ignores more terms and starts with more rules off.
Such engines part ways, since a term that only one of them ignores makes it switch a
rule off while the other reports the match and goes on.  Still, match by match, what is
off in the stricter engine is off in the lenient one, and what the lenient one returns
is returned by both.
-/

namespace Proofreader

/-! ## Ignored terms -/

namespace Terms

variable {terms more : List Text}

theorem isIgnoredWord_mono (hsubset : terms ⊆ more) {word : Text}
    (h : isIgnoredWord terms word = true) : isIgnoredWord more word = true := by
  simp only [isIgnoredWord, Bool.or_eq_true, Bool.and_eq_true, List.contains_iff_mem] at h ⊢
  rcases h with hword | ⟨hcapitals, hletters | hsingular⟩
  · exact .inl (hsubset hword)
  · exact .inr ⟨hcapitals, .inl (hsubset hletters)⟩
  · exact .inr ⟨hcapitals, .inr (hsubset hsingular)⟩

theorem coverAll_mono (hsubset : terms ⊆ more) {t : Text} (h : coverAll terms t = true) :
    coverAll more t = true := by
  simp only [coverAll, Bool.and_eq_true, Bool.not_eq_true', List.isEmpty_eq_false_iff] at h ⊢
  obtain ⟨⟨htext, hterms⟩, hcovered⟩ := h
  refine ⟨⟨htext, fun hempty => hterms ?_⟩, ?_⟩
  · rw [hempty] at hsubset
    exact List.subset_nil.1 hsubset
  · simp only [Bool.or_eq_true, List.contains_iff_mem, List.all_eq_true] at hcovered ⊢
    rcases hcovered with hwhole | hwords
    · exact .inl (hsubset hwhole)
    · exact .inr fun word hword => isIgnoredWord_mono hsubset (hwords word hword)

end Terms

namespace Engine

/-! ## Judging one match -/

section Match

variable {e last : Engine} {text : Text} {m : RuleMatch} {keeps : Bool}

theorem Takes.isDisabled_eq (h : Takes e text m last keeps) (r : Text) :
    last.isDisabled r = (e.isDisabled r || e.isTrigger ⟨text, m⟩ && r == m.ruleId) := by
  cases h with
  | off hoff =>
      by_cases hr : r = m.ruleId
      · simp [hr, hoff]
      · simp [hr]
  | otherKind _ honly => simp [isTrigger, honly]
  | ignoredWord _ hkind => simp [isTrigger, hkind]
  | trigger _ honly hkind habout =>
      simp [isDisabled_disableRule, isTrigger, honly, hkind, habout]
  | returned _ _ habout hrecord =>
      have hoff : last.isDisabled r = e.isDisabled r := by
        rcases (record_eq_ok_iff e last m).1 hrecord with ⟨-, rfl⟩ | ⟨-, -, rfl⟩
        · rfl
        · rfl
      simp [isTrigger, habout, hoff]

theorem Takes.keeps_iff (h : Takes e text m last keeps) :
    keeps = true ↔ e.isDisabled m.ruleId = false ∧ (e.spellingOnly = true → m.isSpelling = true) ∧
      e.isAboutTerms text m = false := by
  cases h with
  | off hoff => simp [hoff]
  | otherKind _ honly hkind => simp [honly, hkind]
  | ignoredWord _ _ habout => simp [habout]
  | trigger _ _ _ habout => simp [habout]
  | returned hon hkind habout => exact ⟨fun _ => ⟨hon, hkind, habout⟩, fun _ => rfl⟩

end Match

/-! ## The lenient engine -/

/-- The engine `e'` asks the tool of `e`, ignores what `e` ignores, and has the rules off
that are off in `e`. -/
structure MoreLenient (e e' : Engine) : Prop where
  respond_eq : e'.tool.respond = e.tool.respond
  spellingOnly_eq : e'.spellingOnly = e.spellingOnly
  ignoredTerms_subset : e.ignoredTerms ⊆ e'.ignoredTerms
  disabledRules_subset : e.disabledRules ⊆ e'.disabledRules

theorem moreLenient_start (tool : Tool) (language : Option Text) (spellingOnly : Bool)
    {terms terms' rules rules' : List Text} (hterms : terms ⊆ terms') (hrules : rules ⊆ rules') :
    MoreLenient (start { tool with disabledRules := rules } language terms spellingOnly)
      (start { tool with disabledRules := rules' } language terms' spellingOnly) :=
  ⟨rfl, rfl, hterms, hrules⟩

def trailOf (text : Text) : Engine → List Answer → List Engine
  | e, [] => [e]
  | e, a :: as =>
      match RuleMatch.ofAnswer a with
      | .error _ => [e]
      | .ok m =>
          match e.consider text m with
          | .error _ => [e]
          | .ok (last, _) => e :: trailOf text last as

/-- The states of an engine while it checks a text: before its tool is asked, after that,
and after each answer. -/
def trail (e : Engine) (text : Text) : List Engine :=
  e ::
    match (e.tool.check text).1 with
    | .fails _ => [{ e with tool := (e.tool.check text).2 }]
    | .answers as => trailOf text { e with tool := (e.tool.check text).2 } as

namespace MoreLenient

variable {e e' last last' : Engine} {text : Text}

theorem isAboutTerms (h : MoreLenient e e') {m : RuleMatch} (habout : e.isAboutTerms text m = true) :
    e'.isAboutTerms text m = true :=
  Terms.coverAll_mono h.ignoredTerms_subset habout

theorem isDisabled (h : MoreLenient e e') {r : Text} (hoff : e.isDisabled r = true) :
    e'.isDisabled r = true := by
  rw [Engine.isDisabled, List.contains_iff_mem] at hoff ⊢
  exact h.disabledRules_subset hoff

theorem isTrigger (h : MoreLenient e e') {x : Sighting} (htrigger : e.isTrigger x = true) :
    e'.isTrigger x = true := by
  simp only [Engine.isTrigger, Bool.and_eq_true, h.spellingOnly_eq] at htrigger ⊢
  exact ⟨htrigger.1, h.isAboutTerms htrigger.2⟩

/-- The step: whatever makes the stricter engine drop a match or switch its rule off
makes the lenient one do so, unless its rule is off there already. -/
theorem takes (h : MoreLenient e e') {m : RuleMatch} {keeps keeps' : Bool}
    (htakes : Takes e text m last keeps) (htakes' : Takes e' text m last' keeps') :
    MoreLenient last last' ∧ (keeps' = true → keeps = true) := by
  have hgoes := htakes.precedes
  have hgoes' := htakes'.precedes
  constructor
  · constructor
    · rw [hgoes'.respond_eq, h.respond_eq, hgoes.respond_eq]
    · rw [hgoes'.spellingOnly_eq, h.spellingOnly_eq, hgoes.spellingOnly_eq]
    · rw [hgoes'.ignoredTerms_eq, hgoes.ignoredTerms_eq]
      exact h.ignoredTerms_subset
    · intro r hr
      have hoff : last.isDisabled r = true := List.contains_iff_mem.2 hr
      apply List.contains_iff_mem.1
      change last'.isDisabled r = true
      rw [htakes.isDisabled_eq, Bool.or_eq_true, Bool.and_eq_true] at hoff
      rw [htakes'.isDisabled_eq, Bool.or_eq_true, Bool.and_eq_true]
      rcases hoff with hbefore | ⟨htrigger, hrule⟩
      · exact .inl (h.isDisabled hbefore)
      · exact .inr ⟨h.isTrigger htrigger, hrule⟩
  · intro hkeeps'
    obtain ⟨hon, hkind, habout⟩ := htakes'.keeps_iff.1 hkeeps'
    apply htakes.keeps_iff.2
    refine ⟨?_, fun honly => hkind (by rw [h.spellingOnly_eq, honly]), ?_⟩
    · by_contra hoff
      simp [h.isDisabled (by simpa using hoff)] at hon
    · by_contra hterms
      simp [h.isAboutTerms (by simpa using hterms)] at habout

theorem considerAll (h : MoreLenient e e') {as : List Answer} {ms ms' : List RuleMatch}
    (hok : (considerAll text e as).outcome = .ok ms)
    (hok' : (Engine.considerAll text e' as).outcome = .ok ms') :
    List.Forall₂ MoreLenient (trailOf text e as) (trailOf text e' as) ∧
      MoreLenient (Engine.considerAll text e as).engine (Engine.considerAll text e' as).engine ∧
      ms'.Sublist ms := by
  induction as generalizing e e' ms ms' with
  | nil =>
      obtain rfl : [] = ms := Except.ok.inj hok
      obtain rfl : [] = ms' := Except.ok.inj hok'
      exact ⟨.cons h .nil, h, .slnil⟩
  | cons a as ih =>
      obtain ⟨m, last, keeps, rest, hm, hstep, hrest, hengine, rfl⟩ :=
        exists_consider_of_considerAll hok
      obtain ⟨m', last', keeps', rest', hm', hstep', hrest', hengine', rfl⟩ :=
        exists_consider_of_considerAll hok'
      obtain rfl : m = m' := Except.ok.inj (hm.symm.trans hm')
      obtain ⟨hlast, hkeeps⟩ := h.takes (takes_of_consider hstep) (takes_of_consider hstep')
      obtain ⟨htrails, hengines, hsublist⟩ := ih hlast hrest hrest'
      rw [hengine, hengine']
      refine ⟨?_, hengines, ?_⟩
      · simp only [trailOf, hm, hstep, hstep']
        exact .cons h htrails
      · apply List.Sublist.append _ hsublist
        cases keeps' with
        | false => simp
        | true => simp [hkeeps rfl]

theorem check (h : MoreLenient e e') (hmemoryless : e.tool.Memoryless) {ms ms' : List RuleMatch}
    (hok : (e.check text).outcome = .ok ms) (hok' : (e'.check text).outcome = .ok ms') :
    List.Forall₂ MoreLenient (e.trail text) (e'.trail text) ∧
      MoreLenient (e.check text).engine (e'.check text).engine ∧ ms'.Sublist ms := by
  have hresponse : (e'.tool.check text).1 = (e.tool.check text).1 := by
    simp only [Tool.check]
    rw [h.respond_eq, hmemoryless, hmemoryless e.tool.checked]
  obtain ⟨as, has, hcheck⟩ := exists_answers_of_check hok
  have hcheck' := check_of_answers (hresponse.trans has)
  have hasked : MoreLenient { e with tool := (e.tool.check text).2 }
      { e' with tool := (e'.tool.check text).2 } :=
    ⟨h.respond_eq, h.spellingOnly_eq, h.ignoredTerms_subset, h.disabledRules_subset⟩
  rw [hcheck] at hok ⊢
  rw [hcheck'] at hok' ⊢
  obtain ⟨htrails, hengines, hsublist⟩ := hasked.considerAll hok hok'
  refine ⟨?_, hengines, hsublist⟩
  simp only [trail, has, hresponse]
  exact .cons h htrails

end MoreLenient

end Engine

end Proofreader
