import Mathlib.Data.List.Forall2

/-!
# Outcomes

An outcome that is mapped succeeds if and only if the outcome itself does, and so does
a function on a list if and only if it succeeds on every item.
-/

namespace Proofreader

theorem exists_ok_of_map {ε α β : Type} {f : α → β} {x : Except ε α} {b : β}
    (h : x.map f = .ok b) : ∃ a, x = .ok a ∧ f a = b := by
  cases x with
  | error e => simp [Except.map] at h
  | ok a => exact ⟨a, rfl, Except.ok.inj h⟩

theorem map_eq_error_iff {ε α β : Type} {f : α → β} {x : Except ε α} {e : ε} :
    x.map f = .error e ↔ x = .error e := by
  cases x <;> simp [Except.map]

theorem exists_error_iff {ε α : Type} {x : Except ε α} :
    (∃ e, x = .error e) ↔ ¬ ∃ a, x = .ok a := by
  cases x <;> simp

theorem eq_ok_of_toOption {ε α : Type} {x : Except ε α} {a : α} (h : x.toOption = some a) :
    x = .ok a := by
  cases x with
  | error e => simp [Except.toOption] at h
  | ok b => exact congrArg _ (Option.some.inj h)

theorem mapM_eq_ok_iff {ε α β : Type} {f : α → Except ε β} {xs : List α} {ys : List β} :
    xs.mapM f = .ok ys ↔
      (∀ x ∈ xs, ∃ y, f x = .ok y) ∧ ys = xs.filterMap fun x => (f x).toOption := by
  induction xs generalizing ys with
  | nil =>
      constructor
      · intro h
        exact ⟨by simp, (Except.ok.inj h).symm⟩
      · rintro ⟨-, rfl⟩
        rfl
  | cons x xs ih =>
      rw [List.mapM_cons]
      cases hx : f x with
      | error e => simp [bind, Except.bind, hx]
      | ok y =>
          have hx' : (f x).toOption = some y := by rw [hx]; rfl
          have hcons : (∀ z ∈ x :: xs, ∃ y, f z = .ok y) ↔ ∀ z ∈ xs, ∃ y, f z = .ok y := by
            simp [hx]
          rw [hcons, List.filterMap_cons, hx']
          cases hxs : xs.mapM f with
          | error e =>
              constructor
              · intro h
                simp [bind, Except.bind] at h
              · rintro ⟨hall, -⟩
                have hok : xs.mapM f = .ok _ := ih.2 ⟨hall, rfl⟩
                simp [hxs] at hok
          | ok zs =>
              obtain ⟨hall, rfl⟩ := ih.1 hxs
              constructor
              · intro h
                exact ⟨hall, (Except.ok.inj h).symm⟩
              · rintro ⟨-, rfl⟩
                rfl

theorem forall₂_of_mapM {ε α β : Type} {f : α → Except ε β} {xs : List α} {ys : List β}
    (h : xs.mapM f = .ok ys) : List.Forall₂ (fun y x => f x = .ok y) ys xs := by
  obtain ⟨hall, rfl⟩ := mapM_eq_ok_iff.1 h
  clear h
  induction xs with
  | nil => exact .nil
  | cons x xs ih =>
      obtain ⟨⟨y, hy⟩, hrest⟩ := List.forall_mem_cons.1 hall
      rw [List.filterMap_cons, hy]
      exact .cons hy (ih hrest)

end Proofreader
