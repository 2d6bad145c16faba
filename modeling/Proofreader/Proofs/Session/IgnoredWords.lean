import Mathlib.Data.List.Sort
import Proofreader.Opening
import Proofreader.Proofs.Engine.Repetition
import Proofreader.Proofs.Session.Findings
import Proofreader.Proofs.Sorting
import Proofreader.Proofs.Text.Order
import Proofreader.Proofs.Text.Words
import Proofreader.Proofs.Tool.Service

/-!
# The ignored words of a session

In whatever order words are given to a manager, and however often, it keeps the different
ones, trimmed and in increasing order.  A primary tool learns those of them that have no
space, and the primary engine of a session ignores all of them and nothing else.
-/

namespace Proofreader

namespace ToolManager

/-! ## Lists of words -/

/-- The text is one of the words, trimmed, and it is not blank. -/
def Names (words : List (Option Text)) (t : Text) : Prop :=
  t ≠ [] ∧ ∃ word, some word ∈ words ∧ word.trim = t

section Names

variable {words words' : List (Option Text)} {t : Text}

theorem not_names_nil : ¬ Names [] t := by simp [Names]

theorem names_none_cons : Names (none :: words) t ↔ Names words t := by simp [Names]

theorem names_some_cons {word : Text} :
    Names (some word :: words) t ↔ t ≠ [] ∧ word.trim = t ∨ Names words t := by
  simp only [Names, List.mem_cons, Option.some.injEq, or_and_right, exists_or, exists_eq_left,
    and_or_left]

end Names

structure Lists (words : List (Option Text)) (ws : List Text) : Prop where
  increasing : ws.Pairwise (· < ·)
  mem_iff : ∀ t, t ∈ ws ↔ Names words t

namespace Lists

variable {words words' : List (Option Text)} {ws ws' : List Text}

theorem eq (h : Lists words ws) (h' : Lists words' ws')
    (hsame : ∀ t, Names words' t ↔ Names words t) : ws' = ws :=
  h'.increasing.eq_of_mem_iff h.increasing fun t => by rw [h'.mem_iff, hsame, h.mem_iff]

theorem names_map_some (h : Lists words ws) (t : Text) :
    Names (ws.map some) t ↔ Names words t := by
  rw [← h.mem_iff]
  constructor
  · rintro ⟨-, word, hword, rfl⟩
    have hmem : word ∈ ws := by simpa using hword
    obtain ⟨-, raw, -, rfl⟩ := (h.mem_iff word).1 hmem
    rwa [Text.trim_trim]
  · intro ht
    obtain ⟨hne, raw, -, rfl⟩ := (h.mem_iff t).1 ht
    exact ⟨hne, raw.trim, List.mem_map_of_mem ht, Text.trim_trim raw⟩

end Lists

/-! ## Preparing words -/

theorem mem_keepDifferent {seen : List Text} {words : List (Option Text)} {t : Text} :
    t ∈ keepDifferent seen words ↔ Names words t ∧ t ∉ seen := by
  induction words generalizing seen with
  | nil => simp [keepDifferent, not_names_nil]
  | cons word rest ih =>
      cases word with
      | none => rw [keepDifferent, ih, names_none_cons]
      | some word =>
          rw [keepDifferent, names_some_cons]
          split
          · -- The word is blank or was seen, so it is not among the others.
            rename_i hskip
            simp only [Bool.or_eq_true, List.isEmpty_iff, List.contains_iff_mem] at hskip
            rw [ih]
            constructor
            · rintro ⟨hrest, hnew⟩
              exact ⟨.inr hrest, hnew⟩
            · rintro ⟨⟨hne, rfl⟩ | hrest, hnew⟩
              · exact absurd hskip (not_or.2 ⟨hne, hnew⟩)
              · exact ⟨hrest, hnew⟩
          · rename_i hkeep
            simp only [Bool.or_eq_true, List.isEmpty_iff, List.contains_iff_mem, not_or] at hkeep
            rw [List.mem_cons, ih, List.mem_cons, not_or]
            constructor
            · rintro (rfl | ⟨hrest, -, hnew⟩)
              · exact ⟨.inl ⟨hkeep.1, rfl⟩, hkeep.2⟩
              · exact ⟨.inr hrest, hnew⟩
            · rintro ⟨⟨-, rfl⟩ | hrest, hnew⟩
              · exact .inl rfl
              · by_cases hsame : t = word.trim
                · exact .inl hsame
                · exact .inr ⟨hrest, hsame, hnew⟩

theorem nodup_keepDifferent (seen : List Text) (words : List (Option Text)) :
    (keepDifferent seen words).Nodup := by
  induction words generalizing seen with
  | nil => exact .nil
  | cons word rest ih =>
      cases word with
      | none => exact ih seen
      | some word =>
          rw [keepDifferent]
          split
          · exact ih seen
          · refine List.nodup_cons.2 ⟨fun hmem => ?_, ih _⟩
            exact (mem_keepDifferent.1 hmem).2 List.mem_cons_self

theorem lists_prepareWords (words : List (Option Text)) : Lists words (prepareWords words) := by
  constructor
  · have hsorted := pairwise_sortBy Text.le_total Text.le_trans (nodup_keepDifferent [] words)
    exact hsorted.imp fun ⟨hle, hne⟩ =>
      lt_of_le_of_ne (Text.le_iff.1 hle) fun heq => hne (heq ▸ hle) heq
  · intro t
    rw [prepareWords, (sortBy_perm Text.le _).mem_iff, mem_keepDifferent]
    simp

/-! ## Primary tools -/

/-- The words without a space, in the order of `ws`; nothing is passed on if there are none. -/
structure Spells (ws : List Text) (spellings : Option (List Text)) : Prop where
  sublist : (spellings.getD []).Sublist ws
  mem_iff : ∀ t, t ∈ spellings.getD [] ↔ t ∈ ws ∧ ' ' ∉ t
  ne_some_nil : spellings ≠ some []

theorem Spells.eq {ws : List Text} {a b : Option (List Text)} (h : Spells ws a) (h' : Spells ws b)
    (hws : ws.Pairwise (· < ·)) : a = b := by
  have hsame : a.getD [] = b.getD [] :=
    (hws.sublist h.sublist).eq_of_mem_iff (hws.sublist h'.sublist) fun t => by
      rw [h.mem_iff, h'.mem_iff]
  cases a with
  | none =>
      cases b with
      | none => rfl
      | some ts =>
          obtain rfl : [] = ts := hsame
          exact absurd rfl h'.ne_some_nil
  | some ts =>
      cases b with
      | none =>
          obtain rfl : ts = [] := hsame
          exact absurd rfl h.ne_some_nil
      | some ts' => exact congrArg some hsame

theorem getD_newSpellings (m : ToolManager) :
    m.newSpellings.getD [] = m.ignoredWords.filter fun w => !w.contains ' ' := by
  unfold newSpellings
  split
  · rename_i hnone
    exact hnone.symm
  · rfl

theorem spells_newSpellings (m : ToolManager) : Spells m.ignoredWords m.newSpellings := by
  refine ⟨?_, fun t => ?_, ?_⟩
  · rw [getD_newSpellings]
    exact List.filter_sublist
  · simp [getD_newSpellings]
  · unfold newSpellings
    split
    · simp
    · rename_i hne
      simpa using hne

/-- What comes from a builder is the answer to a request with `P`, but for the rules that it
looks for, and the builder gets no other requests. -/
structure AsksFor (P : ToolRequest → Prop) (build : ToolFactory → Built) : Prop where
  eq_of_agree : ∀ f g, (∀ n r, P r → g.build n r = f.build n r) → build g = build f
  serves : ∀ f t, (build f).outcome = .ok t →
    ∃ n r t₀, P r ∧ f.build n r = .ok t₀ ∧ t₀.Serves t

theorem newSpellings_of_mem_attempts {f : ToolFactory} {n : Nat} {r : ToolRequest}
    {a : Nat × ToolRequest} (h : a ∈ attempts f n r) :
    a.2.options.newSpellings = r.options.newSpellings := by
  unfold attempts at h
  rcases List.mem_cons.1 h with rfl | h
  · rfl
  · split at h
    · split at h
      · obtain rfl := List.mem_singleton.1 h
        rfl
      · simp at h
    · simp at h

theorem asksFor_buildTool (m : ToolManager) (n : Nat) (language : Option Text) :
    AsksFor (fun r => Spells m.ignoredWords r.options.newSpellings)
      fun f => m.buildTool f n language := by
  have hspells (f : ToolFactory) {a : Nat × ToolRequest}
      (ha : a ∈ attempts f n (m.primaryRequest language)) :
      Spells m.ignoredWords a.2.options.newSpellings := by
    rw [newSpellings_of_mem_attempts ha]
    exact m.spells_newSpellings
  constructor
  · intro f g hagree
    exact buildTool_congr fun a ha => hagree a.1 a.2 (hspells f ha)
  · intro f t ht
    have hserves := m.serves_buildTool f n language
    rw [ht] at hserves
    obtain ⟨t₀, rest, ht₀, -, hbuilt⟩ := List.forall₂_cons_right_iff.1 hserves
    have hmem : t₀ ∈ f.built (attempts f n (m.primaryRequest language)) := by simp [hbuilt]
    obtain ⟨a, ha, hbuild⟩ := ToolFactory.mem_built.1 hmem
    exact ⟨a.1, a.2, t₀, hspells f ha, hbuild, ht₀⟩

end ToolManager

/-! ## Sessions -/

namespace Engine

theorem ignoredTerms_check (e : Engine) (text : Text) :
    (e.check text).engine.ignoredTerms = e.ignoredTerms := by
  cases hresponse : (e.tool.check text).1 with
  | fails f => rw [check_of_fails hresponse]
  | answers as =>
      rw [check_of_answers hresponse]
      have hstep : ∀ {mid last m keeps}, Takes mid text m last keeps →
          mid.ignoredTerms = e.ignoredTerms → last.ignoredTerms = e.ignoredTerms :=
        fun htakes h => htakes.precedes.ignoredTerms_eq.trans h
      exact considerAll_induction hstep (e := { e with tool := (e.tool.check text).2 }) rfl as

end Engine

namespace Session

def Ignores (s : Session) (P : Text → Prop) : Prop := ∀ t, t ∈ s.engine.ignoredTerms ↔ P t

namespace Ignores

variable {s : Session} {P : Text → Prop}

theorem checkLine (h : s.Ignores P) (p : ProseLine) : (s.checkLine p).session.Ignores P := by
  intro t
  rw [engine_checkLine, engineAfter]
  split
  · exact h t
  · rw [Engine.ignoredTerms_check]
    exact h t

theorem analyzeBytes (h : s.Ignores P) (bytes : Utf8.Bytes) (path : Path) :
    (s.analyzeBytes bytes path).session.Ignores P :=
  analyzeBytes_induction (P := (Ignores · P)) (fun _ h => h) (fun p h => checkLine h p) h bytes path

end Ignores

theorem engine_of_openThrough {m : ToolManager} {f : ToolFactory} {n : Nat} {s : Settings}
    {session : Session} (h : (openThrough m f n s).outcome = .ok session) :
    ∃ t, (m.buildTool f n (some s.language)).outcome = .ok t ∧
      session.engine = .start t (some s.language) m.ignoredWords false := by
  unfold openThrough at h
  cases hbuilt : (m.buildTool f n (some s.language)).outcome with
  | error e => simp [hbuilt] at h
  | ok t =>
      simp only [hbuilt] at h
      split at h
      · obtain rfl := Except.ok.inj h
        exact ⟨t, rfl, rfl⟩
      · simp at h

end Session

namespace ToolManager

/-- The ignored words of a manager depend on nothing but the set of the words it is given. -/
theorem start_ignoredWords (words : List (Option Text)) (rules : List Text) (base : Text)
    (server : Option Text) (config : Option (List (Text × Value))) :
    let m := start words rules base server config
    Lists words m.ignoredWords ∧
      (∀ words' rules' base' server' config', (∀ t, Names words' t ↔ Names words t) →
        (start words' rules' base' server' config').ignoredWords = m.ignoredWords) ∧
      (∀ rules' base' server' config',
        (start (m.ignoredWords.map some) rules' base' server' config').ignoredWords =
          m.ignoredWords) ∧
      (∀ n language, AsksFor (fun r => Spells m.ignoredWords r.options.newSpellings)
        fun f => m.buildTool f n language) ∧
      ∀ f n s session, (Session.openThrough m f n s).outcome = .ok session →
        (m.buildTool f n (some s.language)).outcome = .ok session.engine.tool ∧
          session.Ignores (Names words) ∧
          ∀ bytes path, (session.analyzeBytes bytes path).session.Ignores (Names words) := by
  intro m
  have hlists : Lists words m.ignoredWords := lists_prepareWords words
  refine ⟨hlists, fun words' _ _ _ _ hsame => hlists.eq (lists_prepareWords words') hsame,
    fun _ _ _ _ => ?_, m.asksFor_buildTool, fun f n s session hopen => ?_⟩
  · exact hlists.eq (lists_prepareWords _) hlists.names_map_some
  · obtain ⟨t, hbuilt, hengine⟩ := Session.engine_of_openThrough hopen
    have hignores : session.Ignores (Names words) := by
      intro term
      rw [hengine]
      exact hlists.mem_iff term
    exact ⟨by rw [hbuilt, hengine]; rfl, hignores, hignores.analyzeBytes⟩

/-- Absent, blank and repeated words, in another order and with other blanks around them; the
builder does not know the settings of the server. -/
theorem start_ignoredWords_untidy :
    let words : List (Option Text) :=
      [none, some " GPU ", some "", some "\t", some "API", some "New York", some "GPU", none]
    let words' : List (Option Text) :=
      [some "New York\n", some "API", some "  ", some "GPU", some "API"]
    let m := start words ["DASH_RULE"] "en-GB" none none
    let m' := start words' [] "fr" (some "host") none
    let f : ToolFactory := ⟨fun _ r =>
      if r.options.config.isSome then .error .unknownOption
      else .ok ⟨some r.language, r.options, fun _ _ => .answers [], true, [], [], false, []⟩⟩
    let s : Settings := ⟨"de-DE", ["fr"], ["CLI"], [], none⟩
    (∀ t, Names words' t ↔ Names words t) ∧
      m.ignoredWords = ["API", "GPU", "New York"] ∧ m'.ignoredWords = m.ignoredWords ∧
      m.newSpellings = some (["API", "GPU"] : List Text) ∧
      ∃ session, (Session.openThrough m f 0 s).outcome = .ok session ∧
        session.engine.tool.options.newSpellings = m.newSpellings ∧
        ∀ t, t ∈ session.engine.ignoredTerms ↔ t = "API" ∨ t = "GPU" ∨ t = "New York" := by
  intro words words' m m' f s
  have htrim : Text.trim " GPU ".toList = "GPU".toList ∧ Text.trim "".toList = [] ∧
      Text.trim "\t".toList = [] ∧ Text.trim "API".toList = "API".toList ∧
      Text.trim "New York".toList = "New York".toList ∧ Text.trim "GPU".toList = "GPU".toList ∧
      Text.trim "New York\n".toList = "New York".toList ∧ Text.trim "  ".toList = [] := by
    decide +kernel
  have hsame : ∀ t, Names words' t ↔ Names words t := by
    intro t
    simp only [words, words', names_none_cons, names_some_cons, not_names_nil, htrim]
    grind
  have hwords : m.ignoredWords = ["API", "GPU", "New York"] := by decide +kernel
  have hopen : (Session.openThrough m f 0 s).outcome.isOk := by decide +kernel
  obtain ⟨hlists, hothers, -, hasks, hsessions⟩ :=
    start_ignoredWords words ["DASH_RULE"] "en-GB" none none
  cases houtcome : (Session.openThrough m f 0 s).outcome with
  | error e => simp [houtcome, Except.isOk, Except.toBool] at hopen
  | ok session =>
      obtain ⟨hbuilt, hignores, -⟩ := hsessions f 0 s session houtcome
      refine ⟨hsame, hwords, hothers words' _ _ _ _ hsame, by decide +kernel, session, rfl, ?_, ?_⟩
      · obtain ⟨n, r, t₀, hspells, hbuild, hserves⟩ :=
          (hasks 0 (some s.language)).serves f _ hbuilt
        have hoptions : t₀.options = r.options := by
          simp only [f] at hbuild
          split at hbuild
          · simp at hbuild
          · obtain rfl := Except.ok.inj hbuild
            rfl
        rw [hserves.options_eq, hoptions]
        exact hspells.eq m.spells_newSpellings hlists.increasing
      · intro t
        rw [hignores t, ← hlists.mem_iff, hwords]
        simp

end ToolManager

end Proofreader
