import Mathlib.Data.List.Forall2
import Proofreader.Tool.Factory

/-!
# The life of a tool

A tool is built on request, asked about texts, and closed.  Only the rules that are off
and the calls change in between.  The requests are numbered, and one that is refused for
an option may be followed by another one.
-/

namespace Proofreader

namespace Tool

/-! ## Calls -/

structure Serves (t t' : Tool) : Prop where
  language_eq : t'.language = t.language
  options_eq : t'.options = t.options
  respond_eq : t'.respond = t.respond
  isCloseable_eq : t'.isCloseable = t.isCloseable
  history_eq : ∃ texts : List Text, t'.history = t.history ++ texts.map .check

/-- The tool `t'` is `t` after it was asked about some texts and then closed once. -/
structure Retires (t t' : Tool) : Prop where
  language_eq : t'.language = t.language
  options_eq : t'.options = t.options
  respond_eq : t'.respond = t.respond
  history_eq : ∃ texts : List Text, t'.history = t.history ++ texts.map .check ++ [.close]

namespace Serves

variable {t mid last : Tool}

theorem refl (t : Tool) : Serves t t := ⟨rfl, rfl, rfl, rfl, [], by simp⟩

theorem trans (h : Serves t mid) (h' : Serves mid last) : Serves t last := by
  obtain ⟨texts, htexts⟩ := h.history_eq
  obtain ⟨texts', htexts'⟩ := h'.history_eq
  constructor
  · rw [h'.language_eq, h.language_eq]
  · rw [h'.options_eq, h.options_eq]
  · rw [h'.respond_eq, h.respond_eq]
  · rw [h'.isCloseable_eq, h.isCloseable_eq]
  · exact ⟨texts ++ texts', by simp [htexts', htexts]⟩

theorem asked (t : Tool) (text : Text) : Serves t (t.check text).2 :=
  ⟨rfl, rfl, rfl, rfl, [text], rfl⟩

theorem ofRules (t : Tool) (rules categories : List Text) (restricted : Bool) :
    Serves t { t with
      disabledRules := rules
      enabledCategories := categories
      isRestricted := restricted } :=
  ⟨rfl, rfl, rfl, rfl, [], by simp⟩

theorem close (h : Serves t last) (hcloseable : t.isCloseable = true) : Retires t last.close := by
  obtain ⟨texts, htexts⟩ := h.history_eq
  rw [Tool.close, if_pos (h.isCloseable_eq.trans hcloseable)]
  exact ⟨h.language_eq, h.options_eq, h.respond_eq, texts, by rw [htexts]⟩

end Serves

theorem Retires.closed_eq {t last : Tool} (h : Retires t last) : last.closed = t.closed + 1 := by
  obtain ⟨texts, htexts⟩ := h.history_eq
  have hchecks : (texts.map ToolCall.check).count .close = 0 := by
    simp [List.count_eq_zero]
  rw [closed, htexts, List.count_append, List.count_append, hchecks, closed]
  rfl

theorem Retires.map_closed {ts lasts : List Tool} (h : List.Forall₂ Retires ts lasts) :
    lasts.map closed = ts.map fun t => t.closed + 1 := by
  rw [← List.forall₂_eq_eq_eq, List.forall₂_map_left_iff, List.forall₂_map_right_iff]
  exact h.flip.imp fun _ _ hretires => hretires.closed_eq

end Tool

/-! ## Requests -/

namespace ToolFactory

def built (f : ToolFactory) (rs : List (Nat × ToolRequest)) : List Tool :=
  rs.filterMap fun r => (f.build r.1 r.2).toOption

def BuildsCloseable (f : ToolFactory) : Prop :=
  ∀ n r t, f.build n r = .ok t → t.isCloseable = true

def AgreeOn (f g : ToolFactory) (rs : List (Nat × ToolRequest)) : Prop :=
  ∀ r ∈ rs, g.build r.1 r.2 = f.build r.1 r.2

variable {f g : ToolFactory} {rs rs' : List (Nat × ToolRequest)}

theorem built_append (f : ToolFactory) (rs rs' : List (Nat × ToolRequest)) :
    f.built (rs ++ rs') = f.built rs ++ f.built rs' :=
  List.filterMap_append

theorem mem_built {t : Tool} : t ∈ f.built rs ↔ ∃ r ∈ rs, f.build r.1 r.2 = .ok t := by
  have hanswer : ∀ r : Nat × ToolRequest,
      (f.build r.1 r.2).toOption = some t ↔ f.build r.1 r.2 = .ok t := by
    intro r
    cases f.build r.1 r.2 <;> simp [Except.toOption]
  simp only [built, List.mem_filterMap, hanswer]

theorem BuildsCloseable.of_mem_built (h : f.BuildsCloseable) {t : Tool} (ht : t ∈ f.built rs) :
    t.isCloseable = true := by
  obtain ⟨r, -, hbuild⟩ := mem_built.1 ht
  exact h r.1 r.2 t hbuild

theorem agreeOn_append : AgreeOn f g (rs ++ rs') ↔ AgreeOn f g rs ∧ AgreeOn f g rs' := by
  simp [AgreeOn, or_imp, forall_and]

end ToolFactory

namespace ToolManager

variable {f g : ToolFactory} {n : Nat}

def attempts (f : ToolFactory) (n : Nat) (r : ToolRequest) : List (Nat × ToolRequest) :=
  (n, r) ::
    match f.build n r with
    | .error .unknownOption =>
        if r.options.config.isSome then
          [(n + 1, { r with options := { r.options with config := none } })]
        else []
    | _ => []

theorem built_attempts (f : ToolFactory) (n : Nat) (r : ToolRequest) :
    f.built (attempts f n r) = (request f n r).outcome.toOption.toList := by
  unfold attempts request ToolFactory.built
  cases hfirst : f.build n r with
  | ok t => simp [hfirst, Except.toOption]
  | error e =>
      cases e with
      | fails e => simp [hfirst, Except.toOption]
      | unknownOption =>
          cases hconfig : r.options.config.isSome with
          | false => simp [hfirst, Except.toOption]
          | true =>
              simp only [if_true, List.filterMap_cons, hfirst, Except.toOption]
              cases f.build (n + 1) { r with options := { r.options with config := none } } <;> simp

theorem request_congr {r : ToolRequest} (h : f.AgreeOn g (attempts f n r)) :
    request g n r = request f n r := by
  have hfirst : g.build n r = f.build n r := h (n, r) List.mem_cons_self
  unfold attempts ToolFactory.AgreeOn at h
  unfold request
  rw [hfirst]
  split
  · rename_i hanswer
    split
    · rename_i hconfig
      simp only [hanswer, hconfig, if_true, List.forall_mem_cons] at h
      rw [h.2.1]
    · rfl
  · rfl

def primaryRequest (m : ToolManager) (language : Option Text) : ToolRequest :=
  ⟨(language.filter fun t => !t.isEmpty).getD m.baseLanguage, m.options m.newSpellings⟩

theorem serves_buildTool (m : ToolManager) (f : ToolFactory) (n : Nat) (language : Option Text) :
    List.Forall₂ Tool.Serves (f.built (attempts f n (m.primaryRequest language)))
      (m.buildTool f n language).outcome.toOption.toList := by
  have houtcome : (m.buildTool f n language).outcome =
      (request f n (m.primaryRequest language)).outcome.map fun t =>
        if m.disabledRules.isEmpty then t else { t with disabledRules := m.disabledRules } := rfl
  rw [built_attempts, houtcome]
  cases (request f n (m.primaryRequest language)).outcome with
  | error e => exact .nil
  | ok t =>
      apply List.Forall₂.cons _ .nil
      split
      · exact .refl t
      · exact .ofRules t m.disabledRules _ _

theorem buildTool_congr {m : ToolManager} {language : Option Text}
    (h : f.AgreeOn g (attempts f n (m.primaryRequest language))) :
    m.buildTool g n language = m.buildTool f n language := by
  have hrequest := request_congr h
  unfold primaryRequest at hrequest
  simp only [buildTool, hrequest]

end ToolManager

end Proofreader
