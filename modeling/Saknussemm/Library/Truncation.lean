import Saknussemm.Library.Effects

/-! # Programs that stop early.

Two programs may differ only in where they give up.
`Truncates step e stop m m'` says that `m` does what `m'` does, or stops on
the way with the failure `e` in a state with `stop`, from which `m'` goes on
by `step`s.  The rules below follow the way the two are put together; a
handler in the way has to pass `e` on. -/

namespace Effects

open Prog Relation

variable {ε σ α β : Type}

/-- `m` does what `m'` does, or stops with `e` on the way there. -/
structure Truncates (step : σ → σ → Prop) (e : ε) (stop : σ → Prop) (m m' : Prog ε σ α) : Prop where
  steps : Steps step m'
  cut : ∀ s, exec m s = exec m' s ∨ (exec m s).1 = .error e ∧ stop (exec m s).2 ∧
    ReflTransGen step (exec m s).2 (exec m' s).2

section Rules

variable {step : σ → σ → Prop} {e : ε} {stop : σ → Prop}

theorem Steps.truncates {m : Prog ε σ α} (h : Steps step m) : Truncates step e stop m m :=
  ⟨h, fun _ => .inl rfl⟩

/-- Two computations in sequence truncate to the two truncations in sequence. -/
theorem Truncates.bind {m m' : Prog ε σ α} {f f' : α → Prog ε σ β} (hm : Truncates step e stop m m')
    (hf : ∀ a, Truncates step e stop (f a) (f' a)) : Truncates step e stop (m >>= f)
    (m' >>= f') := by
  refine ⟨hm.steps.bind fun a => (hf a).steps, fun s => ?_⟩
  rcases hm.cut s with hsame | ⟨hfailed, hstop, hon⟩
  · -- Both reach the same point, so the rest decides.
    rw [exec_bind, exec_bind, hsame]
    rcases exec m' s with ⟨res, s'⟩
    cases res with
    | ok a => exact (hf a).cut s'
    | error e' => exact .inl rfl
  · right
    rw [exec_bind, exec_bind]
    rcases hexec : exec m s with ⟨res, t⟩
    rw [hexec] at hfailed hstop hon
    cases hfailed
    refine ⟨rfl, hstop, hon.trans ?_⟩
    rcases exec m' s with ⟨res', s'⟩
    cases res' with
    | ok a => exact (hf a).steps s'
    | error e' => exact .refl

theorem truncates_get_bind {f f' : σ → Prog ε σ β} (hf : ∀ s, Truncates step e stop (f s) (f' s)) :
    Truncates step e stop (get >>= f) (get >>= f') :=
  Truncates.bind (Steps.truncates fun _ => .refl) hf

theorem Truncates.ite {c c' : Prop} [Decidable c] [Decidable c'] (hc : c ↔ c')
    {m m' n n' : Prog ε σ α} (hm : Truncates step e stop m m') (hn : Truncates step e stop n n') :
    Truncates step e stop (if c then m else n) (if c' then m' else n') := by
  by_cases h : c
  · rwa [if_pos h, if_pos (hc.mp h)]
  · rwa [if_neg h, if_neg (mt hc.mpr h)]

/-- A handler truncates with what it handles, when it lets the stopping fault
through. -/
theorem Truncates.tryCatch {m m' : Prog ε σ α} {f f' : ε → Prog ε σ α}
    (hm : Truncates step e stop m m') (hf : ∀ e', Truncates step e stop (f e') (f' e'))
    (hrethrow : f e = throw e) : Truncates step e stop (tryCatch m f) (tryCatch m' f') := by
  refine ⟨hm.steps.tryCatch fun e' => (hf e').steps, fun s => ?_⟩
  rcases hm.cut s with hsame | ⟨hfailed, hstop, hon⟩
  · rw [exec_tryCatch, exec_tryCatch, hsame]
    rcases exec m' s with ⟨res, s'⟩
    cases res with
    | ok a => exact .inl rfl
    | error e' => exact (hf e').cut s'
  · right
    rw [exec_tryCatch, exec_tryCatch]
    rcases hexec : exec m s with ⟨res, t⟩
    rw [hexec] at hfailed hstop hon
    cases hfailed
    dsimp only
    rw [hrethrow, exec_throw]
    refine ⟨rfl, hstop, hon.trans ?_⟩
    rcases exec m' s with ⟨res', s'⟩
    cases res' with
    | ok a => exact .refl
    | error e' => exact (hf e').steps s'

theorem truncates_foldlM {γ : Type} {f f' : β → γ → Prog ε σ β}
    (hf : ∀ b c, Truncates step e stop (f b c) (f' b c)) (l : List γ) (b : β) :
    Truncates step e stop (l.foldlM f b) (l.foldlM f' b) := by
  induction l generalizing b with
  | nil => exact Steps.truncates (steps_pure b)
  | cons c l ih =>
    rw [List.foldlM_cons, List.foldlM_cons]
    exact (hf b c).bind ih

end Rules

end Effects
