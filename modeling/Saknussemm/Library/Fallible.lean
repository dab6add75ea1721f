import Mathlib.Data.List.Forall2

/-! # Fallible steps: inverting `Except` computations.

When a chain of fallible steps succeeds, every step in it did. -/

namespace Fallible

universe u

variable {α β : Type u} {γ ε : Type*}

theorem bind_eq_ok {x : Except ε α} {f : α → Except ε β} {b : β} :
    (x >>= f) = .ok b ↔ ∃ a, x = .ok a ∧ f a = .ok b := by
  cases x with
  | error e => simp [bind, Except.bind]
  | ok a => simp [bind, Except.bind]

theorem mapError_eq_ok {δ : Type*} {x : Except ε α} {f : ε → δ} {a : α} :
    x.mapError f = .ok a ↔ x = .ok a := by
  cases x with
  | error e => simp [Except.mapError]
  | ok a' => simp [Except.mapError]

/-- A loop succeeds when every turn of it does. -/
theorem forM_eq_ok {l : List γ} {f : γ → Except ε PUnit} :
    l.forM f = .ok ⟨⟩ ↔ ∀ a ∈ l, f a = .ok ⟨⟩ := by
  induction l with
  | nil => simp [pure, Except.pure]
  | cons a l ih =>
    have hcons : (a :: l).forM f = (f a >>= fun _ => l.forM f) := rfl
    rw [hcons, bind_eq_ok, List.forall_mem_cons, ← ih]
    constructor
    · rintro ⟨⟨⟩, ha, hl⟩
      exact ⟨ha, hl⟩
    · rintro ⟨ha, hl⟩
      exact ⟨⟨⟩, ha, hl⟩

/-- Mapping succeeds when every element does, and gives their values in
order. -/
theorem mapM_eq_ok {l : List γ} {f : γ → Except ε β} {r : List β} :
    l.mapM f = .ok r ↔ List.Forall₂ (fun a b => f a = .ok b) l r := by
  induction l generalizing r with
  | nil => simp [pure, Except.pure, eq_comm]
  | cons a l ih =>
    rw [List.mapM_cons, bind_eq_ok]
    simp only [bind_eq_ok, ih, pure, Except.pure, Except.ok.injEq]
    constructor
    · rintro ⟨b, hb, bs, hbs, rfl⟩
      exact .cons hb hbs
    · intro h
      cases h with
      | cons hb hbs => exact ⟨_, hb, _, hbs, rfl⟩

/-- A chain that fails does so at one of its steps. -/
theorem exists_of_mapM_eq_error {l : List γ} {f : γ → Except ε β} {e : ε}
    (h : l.mapM f = .error e) : ∃ a ∈ l, f a = .error e := by
  induction l with
  | nil => simp [pure, Except.pure] at h
  | cons a l ih =>
    rw [List.mapM_cons] at h
    cases hfa : f a with
    | error e' =>
      rw [hfa] at h
      cases h
      exact ⟨a, List.mem_cons_self, hfa⟩
    | ok b =>
      cases hrest : l.mapM f with
      | error e' =>
        rw [hfa, hrest] at h
        cases h
        obtain ⟨a', ha', hfa'⟩ := ih hrest
        exact ⟨a', List.mem_cons_of_mem _ ha', hfa'⟩
      | ok bs =>
        rw [hfa, hrest] at h
        cases h

end Fallible
