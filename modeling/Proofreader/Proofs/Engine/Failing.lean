import Proofreader.Proofs.Engine.Disabling

/-!
# Checks that fail

A check takes the answers of its tool in one at a time, and each takes effect at once.  So a
check that fails leaves what the answers before the failure have done: the rules that they
switched off are off, and the rules that they entered are in the catalogue.  The failure itself
changes nothing.
-/

namespace Proofreader.Engine

/-! ## What sightings do to an engine -/

def switchedOff (e : Engine) (seen : List Sighting) : List Text :=
  ((Sighting.firsts (seen.filter e.isTrigger)).map Sighting.ruleId).filter fun r => !e.isDisabled r

def entered (e : Engine) (seen : List Sighting) : List Sighting :=
  (Sighting.firsts (e.returned seen)).filter fun x =>
    !e.lists x.ruleId && !(e.switchedOff seen).contains x.ruleId

def after (e : Engine) (seen : List Sighting) : Engine :=
  { e with
    disabledRules := e.disabledRules ++ e.switchedOff seen
    catalog := (e.catalog.filter fun (id, _) => !(e.switchedOff seen).contains id) ++
      (e.entered seen).map fun x => (x.ruleId, descriptor x.found)
    tool :=
      { e.tool with
        disabledRules :=
          if e.switchedOff seen = [] then e.tool.disabledRules
          else e.disabledRules ++ e.switchedOff seen } }

section After

variable {e : Engine} {seen : List Sighting} {x : Sighting}

@[simp] theorem after_nil (e : Engine) : e.after [] = e := by
  simp [after, switchedOff, entered, returned, Sighting.firsts]

theorem contains_switchedOff (e : Engine) (seen : List Sighting) (r : Text) :
    (e.switchedOff seen).contains r =
      (!e.isDisabled r && seen.any fun y => e.isTrigger y && y.ruleId == r) := by
  rw [Bool.eq_iff_iff, List.contains_iff_mem, switchedOff, List.mem_filter, List.mem_map,
    Sighting.exists_mem_firsts]
  simp [and_comm, and_assoc]

theorem isDisabled_after (e : Engine) (seen : List Sighting) (r : Text) :
    (e.after seen).isDisabled r = (e.isDisabled r || (e.switchedOff seen).contains r) := by
  rw [Bool.eq_iff_iff]
  simp [isDisabled, after]

theorem switchedOff_snoc (e : Engine) (seen : List Sighting) (x : Sighting) :
    e.switchedOff (seen ++ [x]) = e.switchedOff seen ++
      if e.isTrigger x && !(e.after seen).isDisabled x.ruleId then [x.ruleId] else [] := by
  rw [isDisabled_after, contains_switchedOff]
  cases htrigger : e.isTrigger x with
  | false => simp [switchedOff, htrigger]
  | true =>
      rw [switchedOff, List.filter_append, List.filter_cons_of_pos htrigger, List.filter_nil,
        Sighting.firsts_snoc, List.map_append, List.filter_append, ← switchedOff]
      congr 1
      rw [List.any_filter]
      cases hoff : e.isDisabled x.ruleId <;>
        cases seen.any (fun y => e.isTrigger y && y.ruleId == x.ruleId) <;> simp [hoff]

theorem isReturned_eq_after (e : Engine) (seen : List Sighting) (x : Sighting) :
    e.isReturned seen x = (!(e.after seen).isDisabled x.ruleId &&
      (!e.spellingOnly || x.found.isSpelling) && !e.isAboutTerms x.text x.found) := by
  rw [isReturned, isDisabled_after, contains_switchedOff]
  cases e.isDisabled x.ruleId <;>
    cases seen.any (fun y => e.isTrigger y && y.ruleId == x.ruleId) <;> simp

theorem lists_after {r : Text} (hon : (e.after seen).isDisabled r = false) :
    (e.after seen).lists r = (e.lists r || (e.returned seen).any fun y => y.ruleId == r) := by
  rw [isDisabled_after, Bool.or_eq_false_iff] at hon
  have hkept (id : Text) : (!(e.switchedOff seen).contains id && id == r) = (id == r) := by
    by_cases hid : id = r
    · rw [hid, hon.2]
      rfl
    · simp [hid]
  have hcatalog : (e.after seen).lists r =
      (e.lists r || (e.entered seen).any fun y => y.ruleId == r) := by
    simp only [lists, after, List.any_append, List.any_filter, List.any_map, Function.comp_def,
      hkept]
  have hentered : ((e.entered seen).any fun y => y.ruleId == r) =
      (!e.lists r && (e.returned seen).any fun y => y.ruleId == r) := by
    rw [Bool.eq_iff_iff, entered, List.any_filter, List.any_eq_true]
    simp only [Bool.and_assoc, hkept, Bool.and_eq_true, Bool.not_eq_true', beq_iff_eq,
      List.any_eq_true, ← Sighting.exists_mem_firsts (e.returned seen) r]
    constructor
    · rintro ⟨y, hy, hlists, rfl⟩
      exact ⟨hlists, y, hy, rfl⟩
    · rintro ⟨hlists, y, hy, rfl⟩
      exact ⟨y, hy, hlists, rfl⟩
  rw [hcatalog, hentered]
  cases e.lists r <;> rfl

/-! ## One match -/

theorem after_snoc_skip (hreturned : e.isReturned seen x = false)
    (htrigger : e.isTrigger x = true → (e.after seen).isDisabled x.ruleId = true) :
    e.after (seen ++ [x]) = e.after seen := by
  have hoff : e.switchedOff (seen ++ [x]) = e.switchedOff seen := by
    rw [switchedOff_snoc]
    cases htrue : e.isTrigger x with
    | false => simp
    | true => simp [htrigger htrue]
  have hentered : e.entered (seen ++ [x]) = e.entered seen := by
    rw [entered, entered, hoff, returned, keepGiven_snoc, hreturned, ← returned]
    simp
  rw [after, after, hoff, hentered]

theorem after_snoc_trigger (htrigger : e.isTrigger x = true)
    (hon : (e.after seen).isDisabled x.ruleId = false) :
    e.after (seen ++ [x]) = (e.after seen).disableRule x.ruleId := by
  have hoff : e.switchedOff (seen ++ [x]) = e.switchedOff seen ++ [x.ruleId] := by
    simp [switchedOff_snoc, htrigger, hon]
  have hreturned : e.isReturned seen x = false := by
    have habout : e.isAboutTerms x.text x.found = true := (Bool.and_eq_true_iff.1 htrigger).2
    simp [isReturned_eq_after, habout]
  have hentered : e.entered (seen ++ [x]) =
      (e.entered seen).filter fun y => y.ruleId ≠ x.ruleId := by
    rw [entered, entered, hoff, returned, keepGiven_snoc, hreturned, ← returned, List.filter_filter]
    simp only [Bool.false_eq_true, if_false, List.append_nil]
    refine List.filter_congr fun y _ => ?_
    by_cases hy : y.ruleId = x.ruleId <;> simp [hy]
  rw [disableRule_of_not_isDisabled hon, after, hoff, hentered]
  simp [after, List.filter_filter, List.filter_map, Function.comp_def, Bool.and_comm]

theorem after_snoc_returned {last : Engine} (hreturned : e.isReturned seen x = true)
    (hrecord : (e.after seen).record x.found = .ok last) : last = e.after (seen ++ [x]) := by
  have hreturned' := hreturned
  rw [isReturned_eq_after, Bool.and_eq_true, Bool.and_eq_true, Bool.not_eq_true',
    Bool.not_eq_true'] at hreturned'
  obtain ⟨⟨hon, -⟩, habout⟩ := hreturned'
  have hoff : e.switchedOff (seen ++ [x]) = e.switchedOff seen := by
    simp [switchedOff_snoc, isTrigger, habout]
  have hstays : x.ruleId ∉ e.switchedOff seen := by
    intro hmem
    simp [isDisabled_after, hmem] at hon
  have hentered : e.entered (seen ++ [x]) =
      e.entered seen ++ if (e.after seen).lists x.ruleId then [] else [x] := by
    rw [entered, entered, hoff, returned, keepGiven_snoc, hreturned, ← returned, if_pos rfl,
      Sighting.firsts_snoc, List.filter_append, lists_after hon]
    cases hlists : e.lists x.ruleId <;>
      cases (e.returned seen).any (fun y => y.ruleId == x.ruleId) <;> simp [hlists, hstays]
  rcases (record_eq_ok_iff _ last x.found).1 hrecord with ⟨hlists, rfl⟩ | ⟨hlists, -, rfl⟩
  · rw [Sighting.ruleId, hlists] at hentered
    rw [after, after, hoff, hentered]
    simp
  · rw [Sighting.ruleId, hlists] at hentered
    rw [after, after, hoff, hentered]
    simp [Sighting.ruleId]

end After

theorem takes_after {e last : Engine} {seen : List Sighting} {text : Text} {m : RuleMatch}
    {keeps : Bool} (h : Takes (e.after seen) text m last keeps) :
    last = e.after (seen ++ [⟨text, m⟩]) := by
  have hreturned := e.isReturned_eq_after seen ⟨text, m⟩
  cases h with
  | off hoff =>
      refine (after_snoc_skip ?_ fun _ => hoff).symm
      rw [hreturned, Sighting.ruleId, hoff]
      rfl
  | otherKind hon honly hkind =>
      have honly : e.spellingOnly = true := honly
      refine (after_snoc_skip ?_ ?_).symm
      · simp [hreturned, honly, hkind]
      · simp [isTrigger, honly]
  | ignoredWord hon hkind habout =>
      have habout : e.isAboutTerms text m = true := habout
      refine (after_snoc_skip ?_ ?_).symm
      · simp [hreturned, habout]
      · simp [isTrigger, hkind]
  | trigger hon honly hkind habout =>
      have honly : e.spellingOnly = false := honly
      have habout : e.isAboutTerms text m = true := habout
      have htrigger : e.isTrigger ⟨text, m⟩ = true := by simp [isTrigger, honly, hkind, habout]
      exact (after_snoc_trigger htrigger hon).symm
  | returned hon hkind habout hrecord =>
      have hkind : e.spellingOnly = true → m.isSpelling = true := hkind
      have habout : e.isAboutTerms text m = false := habout
      refine after_snoc_returned ?_ hrecord
      rw [hreturned, Sighting.ruleId, hon, habout]
      cases honly : e.spellingOnly with
      | true => simp [hkind honly]
      | false => rfl

/-! ## Where a check stops -/

/-- An answer that cannot be taken in after the sightings `seen`, and the failure it causes. -/
inductive Rejects (e : Engine) (seen : List Sighting) (text : Text) :
    Answer → CheckFailure → Prop where
  | answer {a : Answer} {f : AnswerFault} (h : RuleMatch.ofAnswer a = .error f) :
      Rejects e seen text a (.answer f)
  /-- The match would be returned, but its rule is new and has no name. -/
  | ruleId {a : Answer} {m : RuleMatch} (h : RuleMatch.ofAnswer a = .ok m)
      (hreturned : e.isReturned seen ⟨text, m⟩ = true) (hnew : e.lists m.ruleId = false)
      (hblank : m.ruleId.trim = []) : Rejects e seen text a (.ruleId ⟨m.ruleId⟩)

theorem record_eq_error {e : Engine} {m : RuleMatch} {f : BlankId} (h : e.record m = .error f) :
    e.lists m.ruleId = false ∧ m.ruleId.trim = [] ∧ f = ⟨m.ruleId⟩ := by
  rw [record, RuleDescriptor.ofMatch, ← lists] at h
  cases hlists : e.lists m.ruleId with
  | true => simp [hlists] at h
  | false =>
      rw [hlists, if_neg (by simp), map_eq_error_iff] at h
      cases hblank : m.ruleId.trim with
      | nil =>
          rw [hblank] at h
          exact ⟨rfl, rfl, (Except.error.inj h).symm⟩
      | cons c t => simp [hblank] at h

theorem rejects_of_consider {e : Engine} {seen : List Sighting} {text : Text} {a : Answer}
    {m : RuleMatch} {f : BlankId} (ha : RuleMatch.ofAnswer a = .ok m)
    (h : (e.after seen).consider text m = .error f) : Rejects e seen text a (.ruleId f) := by
  have honly : (e.after seen).spellingOnly = e.spellingOnly := rfl
  have hterms : (e.after seen).isAboutTerms text m = e.isAboutTerms text m := rfl
  rw [consider, honly, hterms] at h
  cases hon : (e.after seen).isDisabled m.ruleId with
  | true => simp [hon] at h
  | false =>
      cases hother : e.spellingOnly && !m.isSpelling with
      | true => simp [hon, hother] at h
      | false =>
          cases habout : e.isAboutTerms text m with
          | true => simp [hon, hother, habout] at h
          | false =>
              rw [hon, hother, habout, if_neg (by simp), if_neg (by simp), if_neg (by simp),
                map_eq_error_iff] at h
              obtain ⟨hnew, hblank, rfl⟩ := record_eq_error h
              rw [lists_after hon, Bool.or_eq_false_iff] at hnew
              refine .ruleId ha ?_ hnew.1 hblank
              rw [isReturned_eq_after, Sighting.ruleId, hon, habout]
              cases honly : e.spellingOnly with
              | false => rfl
              | true => simpa [honly] using hother

theorem considerAll_cons_error {e : Engine} {seen : List Sighting} {text : Text} {a : Answer}
    {as : List Answer} {f : CheckFailure}
    (h : (considerAll text (e.after seen) (a :: as)).outcome = .error f) :
    (Rejects e seen text a f ∧
      (considerAll text (e.after seen) (a :: as)).engine = e.after seen) ∨
    ∃ m, RuleMatch.ofAnswer a = .ok m ∧
      (considerAll text (e.after (seen ++ [⟨text, m⟩])) as).outcome = .error f ∧
      (considerAll text (e.after seen) (a :: as)).engine =
        (considerAll text (e.after (seen ++ [⟨text, m⟩])) as).engine := by
  rw [considerAll] at h ⊢
  cases ha : RuleMatch.ofAnswer a with
  | error g =>
      simp only [ha] at h ⊢
      obtain rfl : CheckFailure.answer g = f := Except.error.inj h
      exact .inl ⟨.answer ha, trivial⟩
  | ok m =>
      simp only [ha] at h ⊢
      cases hstep : (e.after seen).consider text m with
      | error g =>
          simp only [hstep] at h ⊢
          obtain rfl : CheckFailure.ruleId g = f := Except.error.inj h
          exact .inl ⟨rejects_of_consider ha hstep, trivial⟩
      | ok result =>
          obtain ⟨last, keeps⟩ := result
          obtain rfl := takes_after (takes_of_consider hstep)
          simp only [hstep] at h ⊢
          refine .inr ⟨m, rfl, ?_⟩
          cases keeps with
          | false => exact ⟨h, rfl⟩
          | true => exact ⟨map_eq_error_iff.1 h, rfl⟩

/-- The run: answers that cannot all be taken in are taken in up to the first that cannot. -/
theorem considerAll_failed {e : Engine} {seen : List Sighting} {text : Text} {as : List Answer}
    {f : CheckFailure} (h : (considerAll text (e.after seen) as).outcome = .error f) :
    ∃ before a later, as = before ++ a :: later ∧
      (∀ b ∈ before, ∃ m, RuleMatch.ofAnswer b = .ok m) ∧
      Rejects e (seen ++ Sighting.ofAnswers text before) text a f ∧
      (considerAll text (e.after seen) as).engine =
        e.after (seen ++ Sighting.ofAnswers text before) := by
  induction as generalizing seen with
  | nil => simp [considerAll] at h
  | cons a as ih =>
      rcases considerAll_cons_error h with ⟨hrejects, hengine⟩ | ⟨m, ha, hrest, hengine⟩
      · have hnone : seen ++ Sighting.ofAnswers text [] = seen := by simp [Sighting.ofAnswers]
        exact ⟨[], a, as, rfl, by simp, by rwa [hnone], by rwa [hnone]⟩
      · obtain ⟨before, b, later, rfl, hbefore, hrejects, hlast⟩ := ih hrest
        have hseen : seen ++ Sighting.ofAnswers text (a :: before) =
            seen ++ [⟨text, m⟩] ++ Sighting.ofAnswers text before := by
          simp [ofAnswers_cons ha]
        refine ⟨a :: before, b, later, rfl, ?_, hseen ▸ hrejects, by rw [hseen, hengine, hlast]⟩
        exact List.forall_mem_cons.2 ⟨⟨m, ha⟩, hbefore⟩

inductive Stops (e : Engine) (text : Text) : CheckFailure → List Answer → Prop where
  | tool {f : Failure} (h : (e.tool.check text).1 = .fails f) : Stops e text (.tool f) []
  | answer {before later : List Answer} {a : Answer} {f : CheckFailure}
      (hanswers : (e.tool.check text).1 = .answers (before ++ a :: later))
      (hbefore : ∀ b ∈ before, ∃ m, RuleMatch.ofAnswer b = .ok m)
      (hrejects : Rejects e (Sighting.ofAnswers text before) text a f) : Stops e text f before

/-! ## What a failed check leaves behind -/

/-- What can be seen of an engine `last` that was `e` and has taken the sightings `seen` in. -/
structure Leaves (e : Engine) (seen : List Sighting) (last : Engine) : Prop where
  ignoredTerms_eq : last.ignoredTerms = e.ignoredTerms
  disabledRules_eq : last.disabledRules = e.disabledRules ++ e.switchedOff seen
  /-- The tool is told all the rules that are off, once there is a new one. -/
  tool_disabledRules_eq : last.tool.disabledRules =
    if e.switchedOff seen = [] then e.tool.disabledRules else last.disabledRules
  /-- The rules that were listed and were not switched off, then the new ones. -/
  activeRules_eq : last.activeRules =
    (e.catalog.filter fun (id, _) =>
        !e.isDisabled id && !(e.switchedOff seen).contains id).map (·.2) ++
      (e.entered seen).map fun x => descriptor x.found

theorem exists_of_mem_keepGiven {α : Type} {p : List α → α → Bool} {xs : List α} {x : α}
    (h : x ∈ keepGiven p xs) : x ∈ xs ∧ ∃ before, p before x = true := by
  obtain ⟨⟨y, n⟩, hy, rfl⟩ := List.mem_map.1 h
  obtain ⟨hmem, hp⟩ := List.mem_filter.1 hy
  exact ⟨List.fst_mem_of_mem_zipIdx hmem, _, hp⟩

theorem not_isDisabled_of_mem_entered {e : Engine} {seen : List Sighting} {x : Sighting}
    (hx : x ∈ e.entered seen) : (e.after seen).isDisabled x.ruleId = false := by
  obtain ⟨hfirst, hkept⟩ := List.mem_filter.1 hx
  obtain ⟨hreturned, -⟩ := exists_of_mem_keepGiven hfirst
  obtain ⟨-, before, hjudged⟩ := exists_of_mem_keepGiven hreturned
  simp only [isReturned, Bool.and_eq_true, Bool.not_eq_true'] at hjudged hkept
  rw [isDisabled_after, hjudged.1.1.1, hkept.2]
  rfl

theorem leaves_after (e : Engine) (seen : List Sighting) : Leaves e seen (e.after seen) := by
  refine ⟨rfl, rfl, rfl, ?_⟩
  have hentered : ((e.entered seen).map fun x => (x.ruleId, descriptor x.found)).filter
      (fun (id, _) => !(e.after seen).isDisabled id) =
        (e.entered seen).map fun x => (x.ruleId, descriptor x.found) := by
    rw [List.filter_eq_self, List.forall_mem_map]
    intro x hx
    simp [not_isDisabled_of_mem_entered hx]
  have hcatalog : (e.after seen).catalog = (e.catalog.filter fun (id, _) =>
      !(e.switchedOff seen).contains id) ++
        (e.entered seen).map fun x => (x.ruleId, descriptor x.found) := rfl
  rw [activeRules, hcatalog, List.filter_append, hentered, List.map_append, List.map_map,
    List.filter_filter]
  congr 2
  apply List.filter_congr
  rintro ⟨id, d⟩ -
  simp only [isDisabled_after]
  cases e.isDisabled id <;> cases (e.switchedOff seen).contains id <;> rfl

theorem leaves_asked (e : Engine) (tool : Tool) (htool : tool.disabledRules = e.tool.disabledRules)
    (seen : List Sighting) : Leaves e seen (after { e with tool } seen) := by
  have h := leaves_after { e with tool } seen
  refine ⟨h.ignoredTerms_eq, h.disabledRules_eq, ?_, h.activeRules_eq⟩
  rw [← htool]
  exact h.tool_disabledRules_eq

theorem Rejects.asked {e : Engine} {tool : Tool} {seen : List Sighting} {text : Text} {a : Answer}
    {f : CheckFailure} (h : Rejects { e with tool } seen text a f) : Rejects e seen text a f := by
  cases h with
  | answer h => exact .answer h
  | ruleId h hreturned hnew hblank => exact .ruleId h hreturned hnew hblank

/-- A check that fails has taken the answers before the failure in and nothing else. -/
theorem check_failed {e : Engine} {text : Text} {f : CheckFailure}
    (h : (e.check text).outcome = .error f) :
    ∃ before, Stops e text f before ∧
      Leaves e (Sighting.ofAnswers text before) (e.check text).engine := by
  cases hresponse : (e.tool.check text).1 with
  | fails g =>
      rw [check_of_fails hresponse] at h ⊢
      obtain rfl : CheckFailure.tool g = f := Except.error.inj h
      refine ⟨[], .tool hresponse, ?_⟩
      simpa [Sighting.ofAnswers] using leaves_asked e (e.tool.check text).2 rfl []
  | answers as =>
      rw [check_of_answers hresponse] at h ⊢
      rw [← after_nil { e with tool := (e.tool.check text).2 }] at h ⊢
      obtain ⟨before, a, later, rfl, hbefore, hrejects, hengine⟩ := considerAll_failed h
      refine ⟨before, .answer hresponse hbefore hrejects.asked, ?_⟩
      rw [hengine]
      exact leaves_asked e (e.tool.check text).2 rfl (Sighting.ofAnswers text before)

/-- An engine that has heard of a rule.  Its tool goes on with a match that switches the rule
off, a match of another rule, and one whose replacements are no list. -/
def interrupted : Engine :=
  let answer (ruleId : Text) (offset length : Int) (replacements : Value) : Answer :=
    ⟨.text ruleId, .null, replacements, .int offset, .int length, .null, .null⟩
  let tool : Tool :=
    { language := none, options := .none, isCloseable := true, disabledRules := []
      enabledCategories := [], isRestricted := false, history := []
      respond := fun _ text => .answers <|
        if text = "a dog" then [answer "RULE" 0 1 .null]
        else [answer "RULE" 0 3 .null, answer "OTHER" 4 3 .null, answer "BAD" 0 1 (.int 5)] }
  ((start tool none ["API"] false).check "a dog").engine

theorem check_failed_interrupted :
    (interrupted.check "API use").outcome = .error (.answer (.replacements "int")) ∧
      ∃ before, Stops interrupted "API use" (.answer (.replacements "int")) before ∧
        Leaves interrupted (Sighting.ofAnswers "API use" before)
          (interrupted.check "API use").engine := by
  have hfails : (interrupted.check "API use").outcome = .error (.answer (.replacements "int")) := by
    decide +kernel
  exact ⟨hfails, check_failed hfails⟩

/-- The failed check leaves its traces: a rule that was reported is dropped, and one is listed
whose match nobody gets to see. -/
theorem check_failed_leaves_traces :
    (interrupted.check "API use").outcome = .error (.answer (.replacements "int")) ∧
      interrupted.disabledRules = [] ∧
      (interrupted.check "API use").engine.disabledRules = ["RULE"] ∧
      interrupted.tool.disabledRules = [] ∧
      (interrupted.check "API use").engine.tool.disabledRules = ["RULE"] ∧
      interrupted.activeRules = [⟨"RULE", [], []⟩] ∧
      (interrupted.check "API use").engine.activeRules = [⟨"OTHER", [], []⟩] := by
  decide +kernel

end Proofreader.Engine
