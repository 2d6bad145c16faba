import Mathlib.Data.List.Induction
import Proofreader.Proofs.Engine.Step

/-!
# Rules that are switched off on the way

Each match is judged against a state that earlier matches have changed.  Here that
state is given in closed form: which matches are returned, which rules are off, and
what the catalogue lists depends on the initial engine and the matches alone.
-/

namespace Proofreader

/-! ## Judging by what came before -/

def keepGiven {α : Type} (p : List α → α → Bool) (xs : List α) : List α :=
  (xs.zipIdx.filter fun x => p (xs.take x.2) x.1).map Prod.fst

theorem keepGiven_append {α : Type} (p : List α → α → Bool) (xs ys : List α) :
    keepGiven p (xs ++ ys) =
      keepGiven p xs ++ keepGiven (fun before => p (xs ++ before)) ys := by
  have hfirst : xs.zipIdx.filter (fun x => p ((xs ++ ys).take x.2) x.1) =
      xs.zipIdx.filter fun x => p (xs.take x.2) x.1 := by
    apply List.filter_congr
    intro x hx
    have hlt := List.snd_lt_of_mem_zipIdx hx
    rw [List.take_append_of_le_length (by omega)]
  have hshift : ys.zipIdx xs.length =
      ys.zipIdx.map fun x => (x.1, xs.length + x.2) := by
    exact List.zipIdx_eq_map_add
  simp only [keepGiven, List.zipIdx_append, List.filter_append, List.map_append, Nat.zero_add,
    hfirst, hshift, List.filter_map, List.map_map]
  simp [Function.comp_def, List.take_length_add_append]

@[simp] theorem keepGiven_nil {α : Type} (p : List α → α → Bool) : keepGiven p [] = [] := rfl

@[simp] theorem keepGiven_singleton {α : Type} (p : List α → α → Bool) (x : α) :
    keepGiven p [x] = if p [] x then [x] else [] := by
  cases h : p [] x <;> simp [keepGiven, h]

theorem keepGiven_cons {α : Type} (p : List α → α → Bool) (x : α) (xs : List α) :
    keepGiven p (x :: xs) =
      (if p [] x then [x] else []) ++ keepGiven (fun before => p (x :: before)) xs := by
  simpa using keepGiven_append p [x] xs

theorem keepGiven_snoc {α : Type} (p : List α → α → Bool) (xs : List α) (x : α) :
    keepGiven p (xs ++ [x]) = keepGiven p xs ++ if p xs x then [x] else [] := by
  simp [keepGiven_append]

/-! ## Sightings -/

structure Sighting where
  text : Text
  found : RuleMatch
  deriving DecidableEq, Repr

namespace Sighting

def ruleId (x : Sighting) : Text := x.found.ruleId

def ofAnswers (text : Text) (as : List Answer) : List Sighting :=
  as.filterMap fun a => (RuleMatch.ofAnswer a).toOption.map (⟨text, ·⟩)

def firsts (xs : List Sighting) : List Sighting :=
  keepGiven (fun before x => !before.any fun y => y.ruleId == x.ruleId) xs

theorem firsts_snoc (xs : List Sighting) (x : Sighting) :
    firsts (xs ++ [x]) =
      firsts xs ++ if xs.any (fun y => y.ruleId == x.ruleId) then [] else [x] := by
  rw [firsts, keepGiven_snoc, firsts]
  cases xs.any fun y => y.ruleId == x.ruleId <;> simp

theorem exists_mem_firsts (xs : List Sighting) (r : Text) :
    (∃ x ∈ firsts xs, x.ruleId = r) ↔ ∃ x ∈ xs, x.ruleId = r := by
  induction xs using List.reverseRecOn with
  | nil => simp [firsts]
  | append_singleton xs x ih =>
      rw [firsts_snoc]
      cases hany : xs.any fun y => y.ruleId == x.ruleId with
      | true =>
          obtain ⟨y, hy, hyx⟩ : ∃ y ∈ xs, y.ruleId = x.ruleId := by simpa using hany
          simp only [if_true, List.append_nil, ih]
          constructor
          · rintro ⟨z, hz, hr⟩
            exact ⟨z, by simp [hz], hr⟩
          · rintro ⟨z, hz, hr⟩
            rcases List.mem_append.1 hz with hz | hz
            · exact ⟨z, hz, hr⟩
            · obtain rfl := List.mem_singleton.1 hz
              exact ⟨y, hy, hyx.trans hr⟩
      | false =>
          simp only [Bool.false_eq_true, if_false, List.mem_append, List.mem_singleton,
            or_and_right, exists_or, ih]

theorem nodup_firsts (xs : List Sighting) : ((firsts xs).map ruleId).Nodup := by
  induction xs using List.reverseRecOn with
  | nil => simp [firsts]
  | append_singleton xs x ih =>
      rw [firsts_snoc]
      cases hany : xs.any fun y => y.ruleId == x.ruleId with
      | true => simpa using ih
      | false =>
          have hnew : x.ruleId ∉ (firsts xs).map ruleId := by
            rw [List.mem_map]
            intro hmem
            obtain ⟨y, hy, hyx⟩ := (exists_mem_firsts xs x.ruleId).1 hmem
            have : xs.any (fun y => y.ruleId == x.ruleId) = true :=
              List.any_eq_true.2 ⟨y, hy, by simp [hyx]⟩
            simp [hany] at this
          simp only [Bool.false_eq_true, if_false, List.map_append, List.map_cons, List.map_nil]
          exact List.nodup_append.2 ⟨ih, by simp, by
            intro r hr r' hr'
            rw [List.mem_singleton.1 hr']
            exact fun heq => hnew (heq ▸ hr)⟩

end Sighting

def Tool.sightings : Tool → List Text → List (List Sighting)
  | _, [] => []
  | tool, text :: texts =>
      (match (tool.check text).1 with
        | .answers as => Sighting.ofAnswers text as
        | .fails _ => []) :: Tool.sightings (tool.check text).2 texts

namespace Engine

def checkAll : Engine → List Text → Except CheckFailure (List (List RuleMatch) × Engine)
  | e, [] => .ok ([], e)
  | e, text :: texts =>
      match (e.check text).outcome with
      | .error f => .error f
      | .ok ms => (checkAll (e.check text).engine texts).map fun (rest, last) => (ms :: rest, last)

/-! ## The closed form -/

def isTrigger (e : Engine) (x : Sighting) : Bool :=
  !e.spellingOnly && !x.found.isSpelling && e.isAboutTerms x.text x.found

/-- Whether a sighting is returned after the sightings `before`, in terms of the
engine at the beginning. -/
def isReturned (e : Engine) (before : List Sighting) (x : Sighting) : Bool :=
  !e.isDisabled x.ruleId && (!e.spellingOnly || x.found.isSpelling) &&
    !e.isAboutTerms x.text x.found &&
    !before.any fun y => e.isTrigger y && y.ruleId == x.ruleId

def returned (e : Engine) (xs : List Sighting) : List Sighting := keepGiven e.isReturned xs

structure Follows (start : Engine) (seen : List Sighting) (e : Engine) : Prop where
  spellingOnly_eq : e.spellingOnly = start.spellingOnly
  ignoredTerms_eq : e.ignoredTerms = start.ignoredTerms
  disabled_iff : ∀ r, e.isDisabled r = true ↔
    start.isDisabled r = true ∨ ∃ x ∈ seen, start.isTrigger x = true ∧ x.ruleId = r
  tool_disabled : e.tool.disabledRules = e.disabledRules
  catalog_eq : e.catalog = ((Sighting.firsts (start.returned seen)).filter
    fun x => !e.isDisabled x.ruleId).map fun x => (x.ruleId, descriptor x.found)

/-! ## One match -/

namespace Follows

variable {start e : Engine} {seen : List Sighting} {x : Sighting}

theorem isAboutTerms_eq (h : Follows start seen e) (text : Text) (m : RuleMatch) :
    start.isAboutTerms text m = e.isAboutTerms text m := by
  simp [isAboutTerms, h.ignoredTerms_eq]

theorem isReturned_eq (h : Follows start seen e) (x : Sighting) :
    start.isReturned seen x = (!e.isDisabled x.ruleId && (!e.spellingOnly || x.found.isSpelling) &&
      !e.isAboutTerms x.text x.found) := by
  have hdisabled := h.disabled_iff x.ruleId
  have hearlier : (seen.any fun y => start.isTrigger y && y.ruleId == x.ruleId) = true ↔
      ∃ y ∈ seen, start.isTrigger y = true ∧ y.ruleId = x.ruleId := by simp
  rw [isReturned, h.spellingOnly_eq, h.isAboutTerms_eq]
  cases hd : e.isDisabled x.ruleId with
  | true =>
      rw [hd, ← hearlier] at hdisabled
      rcases hdisabled.1 rfl with hstart | hany
      · simp [hstart]
      · simp [hany]
  | false =>
      rw [hd, ← hearlier] at hdisabled
      have hstart : start.isDisabled x.ruleId = false := by
        by_contra hne
        exact absurd (hdisabled.2 (.inl (by simpa using hne))) (by simp)
      have hany : (seen.any fun y => start.isTrigger y && y.ruleId == x.ruleId) = false := by
        by_contra hne
        exact absurd (hdisabled.2 (.inr (by simpa using hne))) (by simp)
      simp [hstart, hany]

theorem skip (h : Follows start seen e) (hreturned : start.isReturned seen x = false)
    (htrigger : start.isTrigger x = true → e.isDisabled x.ruleId = true) :
    Follows start (seen ++ [x]) e := by
  refine { h with disabled_iff := ?_, catalog_eq := ?_ }
  · intro r
    rw [h.disabled_iff]
    constructor
    · rintro (hr | ⟨y, hy, hr⟩)
      · exact .inl hr
      · exact .inr ⟨y, by simp [hy], hr⟩
    · rintro (hr | ⟨y, hy, hty, rfl⟩)
      · exact .inl hr
      · rcases List.mem_append.1 hy with hy | hy
        · exact .inr ⟨y, hy, hty, rfl⟩
        · obtain rfl := List.mem_singleton.1 hy
          exact (h.disabled_iff y.ruleId).1 (htrigger hty)
  · rw [h.catalog_eq, returned, returned, keepGiven_snoc, hreturned]
    simp

theorem disable (h : Follows start seen e) (htrigger : start.isTrigger x = true)
    (hreturned : start.isReturned seen x = false) (hon : e.isDisabled x.ruleId = false) :
    Follows start (seen ++ [x]) (e.disableRule x.ruleId) := by
  have hrule := disableRule_of_not_isDisabled hon
  refine ⟨?_, ?_, ?_, ?_, ?_⟩
  · rw [hrule, ← h.spellingOnly_eq]
  · rw [hrule, ← h.ignoredTerms_eq]
  · intro r
    rw [isDisabled_disableRule, Bool.or_eq_true, h.disabled_iff, beq_iff_eq]
    constructor
    · rintro ((hr | ⟨y, hy, hr⟩) | rfl)
      · exact .inl hr
      · exact .inr ⟨y, by simp [hy], hr⟩
      · exact .inr ⟨x, by simp, htrigger, rfl⟩
    · rintro (hr | ⟨y, hy, hty, rfl⟩)
      · exact .inl (.inl hr)
      · rcases List.mem_append.1 hy with hy | hy
        · exact .inl (.inr ⟨y, hy, hty, rfl⟩)
        · obtain rfl := List.mem_singleton.1 hy
          exact .inr rfl
  · rw [hrule]
  · have hcatalog : (e.disableRule x.ruleId).catalog =
        e.catalog.filter fun entry => entry.1 ≠ x.ruleId := by rw [hrule]
    rw [hcatalog, h.catalog_eq, returned, returned, keepGiven_snoc, hreturned]
    simp only [Bool.false_eq_true, if_false, List.append_nil, List.filter_map, List.filter_filter]
    congr 1
    apply List.filter_congr
    intro y _
    rw [isDisabled_disableRule]
    by_cases hy : y.ruleId = x.ruleId <;> simp [hy]

theorem lists_eq (h : Follows start seen e) {r : Text} (hon : e.isDisabled r = false) :
    e.lists r = (start.returned seen).any fun y => y.ruleId == r := by
  rw [Bool.eq_iff_iff, lists, h.catalog_eq]
  simp only [List.any_map, List.any_filter, List.any_eq_true, Function.comp_apply,
    Bool.and_eq_true, Bool.not_eq_true', beq_iff_eq]
  rw [← Sighting.exists_mem_firsts]
  constructor
  · rintro ⟨y, hy, -, hyr⟩
    exact ⟨y, hy, hyr⟩
  · rintro ⟨y, hy, hyr⟩
    exact ⟨y, hy, by rw [hyr, hon], hyr⟩

theorem record {last : Engine} (h : Follows start seen e) (htrigger : start.isTrigger x = false)
    (hreturned : start.isReturned seen x = true) (hon : e.isDisabled x.ruleId = false)
    (hrecord : e.record x.found = .ok last) : Follows start (seen ++ [x]) last := by
  have hdisabled : ∀ r, e.isDisabled r = true ↔
      start.isDisabled r = true ∨ ∃ y ∈ seen ++ [x], start.isTrigger y = true ∧ y.ruleId = r := by
    intro r
    rw [h.disabled_iff]
    simp [or_and_right, exists_or, htrigger]
  have hfirsts : Sighting.firsts (start.returned (seen ++ [x])) =
      Sighting.firsts (start.returned seen) ++ if e.lists x.ruleId then [] else [x] := by
    rw [h.lists_eq hon, ← Sighting.firsts_snoc, returned, keepGiven_snoc, hreturned]
    rfl
  rcases (record_eq_ok_iff e last x.found).1 hrecord with ⟨hlists, rfl⟩ | ⟨hlists, -, rfl⟩
  · refine { h with disabled_iff := hdisabled, catalog_eq := ?_ }
    rw [hfirsts, Sighting.ruleId, hlists, h.catalog_eq]
    simp
  · refine ⟨h.spellingOnly_eq, h.ignoredTerms_eq, hdisabled, h.tool_disabled, ?_⟩
    have hkeep : [x].filter (fun y => !e.isDisabled y.ruleId) = [x] := by simp [hon]
    change e.catalog ++ [(x.ruleId, descriptor x.found)] =
      ((Sighting.firsts (start.returned (seen ++ [x]))).filter
        fun y => !e.isDisabled y.ruleId).map fun y => (y.ruleId, descriptor y.found)
    rw [hfirsts, Sighting.ruleId, hlists, if_neg (by simp), List.filter_append, hkeep,
      List.map_append, ← h.catalog_eq]
    rfl

end Follows

/-- The step: a match is judged by the engine as it has become, which is how the closed
form judges it. -/
theorem Follows.takes {start e last : Engine} {seen : List Sighting} {text : Text}
    {m : RuleMatch} {keeps : Bool} (h : Follows start seen e)
    (hstep : Takes e text m last keeps) :
    Follows start (seen ++ [⟨text, m⟩]) last ∧ keeps = start.isReturned seen ⟨text, m⟩ := by
  have hreturned : start.isReturned seen ⟨text, m⟩ =
      (!e.isDisabled m.ruleId && (!e.spellingOnly || m.isSpelling) &&
        !e.isAboutTerms text m) := h.isReturned_eq ⟨text, m⟩
  have htrigger : start.isTrigger ⟨text, m⟩ =
      (!e.spellingOnly && !m.isSpelling && e.isAboutTerms text m) := by
    rw [isTrigger, h.spellingOnly_eq, h.isAboutTerms_eq]
  cases hstep with
  | off hoff =>
      have hfalse : start.isReturned seen ⟨text, m⟩ = false := by simp [hreturned, hoff]
      exact ⟨h.skip hfalse fun _ => hoff, hfalse.symm⟩
  | otherKind hon honly hkind =>
      have hfalse : start.isReturned seen ⟨text, m⟩ = false := by simp [hreturned, honly, hkind]
      exact ⟨h.skip hfalse fun htrue => by simp [htrigger, honly] at htrue, hfalse.symm⟩
  | ignoredWord hon hkind habout =>
      have hfalse : start.isReturned seen ⟨text, m⟩ = false := by simp [hreturned, habout]
      exact ⟨h.skip hfalse fun htrue => by simp [htrigger, hkind] at htrue, hfalse.symm⟩
  | trigger hon honly hkind habout =>
      have hfalse : start.isReturned seen ⟨text, m⟩ = false := by simp [hreturned, habout]
      exact ⟨h.disable (by simp [htrigger, honly, hkind, habout]) hfalse hon, hfalse.symm⟩
  | returned hon hkind habout hrecord =>
      have htrue : start.isReturned seen ⟨text, m⟩ = true := by
        cases honly : e.spellingOnly with
        | true => simp [hreturned, hon, habout, hkind honly]
        | false => simp [hreturned, hon, habout, honly]
      exact ⟨h.record (by simp [htrigger, habout]) htrue hon hrecord, htrue.symm⟩

/-! ## One text -/

theorem ofAnswers_cons {text : Text} {a : Answer} {as : List Answer} {m : RuleMatch}
    (h : RuleMatch.ofAnswer a = .ok m) :
    Sighting.ofAnswers text (a :: as) = ⟨text, m⟩ :: Sighting.ofAnswers text as := by
  simp [Sighting.ofAnswers, h, Except.toOption]

theorem Follows.considerAll {start e : Engine} {seen : List Sighting} {text : Text}
    {as : List Answer} {ms : List RuleMatch} (h : Follows start seen e)
    (hok : (considerAll text e as).outcome = .ok ms) :
    Follows start (seen ++ Sighting.ofAnswers text as) (considerAll text e as).engine ∧
      ms = (keepGiven (fun before => start.isReturned (seen ++ before))
        (Sighting.ofAnswers text as)).map Sighting.found := by
  induction as generalizing e seen ms with
  | nil =>
      obtain rfl : [] = ms := Except.ok.inj hok
      exact ⟨by simpa [Sighting.ofAnswers, Engine.considerAll] using h,
        by simp [Sighting.ofAnswers]⟩
  | cons a as ih =>
      obtain ⟨m, last, keeps, rest, hm, htakes, hrest, hengine, rfl⟩ := considerAll_cons_ok hok
      obtain ⟨hlast, rfl⟩ := h.takes htakes
      obtain ⟨hfollows, rfl⟩ := ih hlast hrest
      rw [ofAnswers_cons hm, hengine, keepGiven_cons]
      refine ⟨by simpa using hfollows, ?_⟩
      cases hreturned : start.isReturned seen ⟨text, m⟩ <;> simp [hreturned]

def SpeaksFor (e : Engine) (tool : Tool) : Prop :=
  ∃ rules, e.tool = { tool with disabledRules := rules }

theorem Follows.check {start e : Engine} {seen : List Sighting} {tool : Tool} {text : Text}
    {ms : List RuleMatch} (h : Follows start seen e) (htool : e.SpeaksFor tool)
    (hok : (e.check text).outcome = .ok ms) :
    ∃ call, (∀ texts, tool.sightings (text :: texts) =
        call :: (tool.check text).2.sightings texts) ∧
      Follows start (seen ++ call) (e.check text).engine ∧
      (e.check text).engine.SpeaksFor (tool.check text).2 ∧
      ms = (keepGiven (fun before => start.isReturned (seen ++ before)) call).map
        Sighting.found := by
  obtain ⟨rules, htool⟩ := htool
  have hresponse : (e.tool.check text).1 = (tool.check text).1 := by
    rw [htool]
    rfl
  have hasked : Follows start seen { e with tool := (e.tool.check text).2 } :=
    { h with tool_disabled := h.tool_disabled }
  cases hanswer : (tool.check text).1 with
  | fails f =>
      rw [check_of_fails (hresponse.trans hanswer)] at hok
      simp at hok
  | answers as =>
      rw [check_of_answers (hresponse.trans hanswer)] at hok ⊢
      obtain ⟨hfollows, hms⟩ := hasked.considerAll hok
      refine ⟨Sighting.ofAnswers text as, fun texts => by simp [Tool.sightings, hanswer],
        hfollows, ?_, hms⟩
      obtain ⟨rules', htool'⟩ :=
        considerAll_tool_eq { e with tool := (e.tool.check text).2 } text as
      exact ⟨rules', by rw [htool', htool]; rfl⟩

/-! ## Whole runs -/

theorem Follows.checkAll {start e last : Engine} {seen : List Sighting} {tool : Tool}
    {texts : List Text} {outs : List (List RuleMatch)} (h : Follows start seen e)
    (htool : e.SpeaksFor tool) (hrun : e.checkAll texts = .ok (outs, last)) :
    Follows start (seen ++ (tool.sightings texts).flatten) last ∧
      outs.length = (tool.sightings texts).length ∧
      ∀ n call, (tool.sightings texts)[n]? = some call →
        outs[n]? = some ((keepGiven (fun before => start.isReturned
          (seen ++ ((tool.sightings texts).take n).flatten ++ before)) call).map
            Sighting.found) := by
  induction texts generalizing e seen tool outs with
  | nil =>
      obtain ⟨rfl, rfl⟩ : [] = outs ∧ e = last := by simpa [Engine.checkAll] using hrun
      exact ⟨by simpa [Tool.sightings] using h, rfl, by simp [Tool.sightings]⟩
  | cons text texts ih =>
      unfold Engine.checkAll at hrun
      cases hfirst : (e.check text).outcome with
      | error f => simp [hfirst] at hrun
      | ok ms =>
          simp only [hfirst] at hrun
          obtain ⟨⟨rest, final⟩, hothers, heq⟩ := exists_ok_of_map hrun
          obtain ⟨rfl, rfl⟩ : ms :: rest = outs ∧ final = last := by simpa using heq
          obtain ⟨call, hcalls, hfollows, htool', hms⟩ := h.check htool hfirst
          obtain ⟨hlast, hlength, hrest⟩ := ih hfollows htool' hothers
          rw [hcalls]
          refine ⟨by simpa using hlast, by simp [hlength], ?_⟩
          intro n call' hn
          cases n with
          | zero =>
              obtain rfl : call = call' := by simpa using hn
              simp [hms]
          | succ n => simpa using hrest n call' (by simpa using hn)

/-- What a run of checks amounts to, in terms of the engine `first` at its beginning
and the sightings of its calls. -/
structure ClosedForm (first : Engine) (calls : List (List Sighting))
    (outs : List (List RuleMatch)) (last : Engine) : Prop where
  outs_length : outs.length = calls.length
  /-- Of each call, those sightings are returned that pass given all earlier ones. -/
  outs_eq : ∀ n call, calls[n]? = some call →
    outs[n]? = some ((keepGiven (fun before =>
      first.isReturned ((calls.take n).flatten ++ before)) call).map Sighting.found)
  disabled_iff : ∀ r, r ∈ last.disabledRules ↔
    r ∈ first.disabledRules ∨ ∃ x ∈ calls.flatten, first.isTrigger x = true ∧ x.ruleId = r
  tool_disabled_iff : ∀ r, r ∈ last.tool.disabledRules ↔ r ∈ last.disabledRules
  activeRules_eq : last.activeRules =
    ((Sighting.firsts (first.returned calls.flatten)).filter
      fun x => !last.isDisabled x.ruleId).map fun x => descriptor x.found
  activeRules_nodup : (((Sighting.firsts (first.returned calls.flatten)).filter
    fun x => !last.isDisabled x.ruleId).map Sighting.ruleId).Nodup
  mem_activeRules_iff : ∀ r, r ∈ ((Sighting.firsts (first.returned calls.flatten)).filter
      fun x => !last.isDisabled x.ruleId).map Sighting.ruleId ↔
    (∃ x ∈ first.returned calls.flatten, x.ruleId = r) ∧ r ∉ last.disabledRules

theorem follows_start (tool : Tool) (language : Option Text) (ignoredTerms : List Text)
    (spellingOnly : Bool) :
    Follows (start tool language ignoredTerms spellingOnly) []
      (start tool language ignoredTerms spellingOnly) :=
  ⟨rfl, rfl, by simp, rfl, rfl⟩

theorem Follows.activeRules_eq {first e : Engine} {seen : List Sighting}
    (h : Follows first seen e) :
    e.activeRules = ((Sighting.firsts (first.returned seen)).filter
      fun x => !e.isDisabled x.ruleId).map fun x => descriptor x.found := by
  rw [activeRules, h.catalog_eq, List.filter_map, List.filter_filter, List.map_map]
  simp [Function.comp_def]

/-- Every run of checks without a failure, of any engine, has the closed form. -/
theorem checkAll_closedForm (tool : Tool) (language : Option Text) (ignoredTerms : List Text)
    (spellingOnly : Bool) (texts : List Text) (outs : List (List RuleMatch)) (last : Engine)
    (hrun : (start tool language ignoredTerms spellingOnly).checkAll texts = .ok (outs, last)) :
    ClosedForm (start tool language ignoredTerms spellingOnly) (tool.sightings texts) outs
      last := by
  obtain ⟨hlast, hlength, houts⟩ := (follows_start tool language ignoredTerms spellingOnly).checkAll
    ⟨tool.disabledRules, rfl⟩ hrun
  have hdisabled : ∀ e : Engine, ∀ r, r ∈ e.disabledRules ↔ e.isDisabled r = true := by
    simp [isDisabled]
  refine ⟨hlength, by simpa using houts, ?_, ?_, hlast.activeRules_eq, ?_, ?_⟩
  · intro r
    rw [hdisabled, hlast.disabled_iff, hdisabled]
    simp
  · intro r
    rw [hlast.tool_disabled]
  · exact (Sighting.nodup_firsts _).sublist (List.filter_sublist.map _)
  · intro r
    rw [List.mem_map, hdisabled,
      ← Sighting.exists_mem_firsts ((start tool language ignoredTerms spellingOnly).returned _)]
    constructor
    · rintro ⟨x, hx, rfl⟩
      obtain ⟨hx, hon⟩ := List.mem_filter.1 hx
      exact ⟨⟨x, hx, rfl⟩, by simpa using hon⟩
    · rintro ⟨⟨x, hx, rfl⟩, hon⟩
      exact ⟨x, List.mem_filter.2 ⟨hx, by simpa using hon⟩, rfl⟩

/-- A rule speaks, is switched off by a match about an ignored term, and is silent
afterwards, while another one goes on. -/
theorem checkAll_closedForm_switched_off :
    let answer (ruleId : Text) (stop : Int) : Answer :=
      ⟨.text ruleId, .null, .null, .null, .int stop, .null, .null⟩
    let tool : Tool :=
      { language := none, options := .none, isCloseable := true, disabledRules := ["OLD"]
        enabledCategories := [], isRestricted := false, history := []
        respond := fun _ _ => .answers [answer "RULE" 3, answer "OTHER" 5, answer "OLD" 1] }
    let texts : List Text := ["one two", "API use", "one more"]
    ∃ outs last, (start tool none ["API"] false).checkAll texts = .ok (outs, last) ∧
      outs.map (·.map (·.ruleId)) =
        ([["RULE", "OTHER"], ["OTHER"], ["OTHER"]] : List (List Text)) ∧
      last.disabledRules = ["OLD", "RULE"] ∧
      ClosedForm (start tool none ["API"] false) (tool.sightings texts) outs last := by
  intro answer tool texts
  have hsummary : ((start tool none ["API"] false).checkAll texts).toOption.map
      (fun run => (run.1.map (·.map (·.ruleId)), run.2.disabledRules)) =
        some (([["RULE", "OTHER"], ["OTHER"], ["OTHER"]] : List (List Text)),
          (["OLD", "RULE"] : List Text)) := by
    decide +kernel
  obtain ⟨run, hrun, hsummary⟩ := Option.map_eq_some_iff.1 hsummary
  have hok := eq_ok_of_toOption hrun
  obtain ⟨houts, hlast⟩ := Prod.mk.inj hsummary
  exact ⟨run.1, run.2, hok, houts, hlast, checkAll_closedForm _ _ _ _ _ _ _ hok⟩

end Engine

end Proofreader
