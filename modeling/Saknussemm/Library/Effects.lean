import Mathlib.Logic.Relation

/-! # Programs with state and failure.

A program reads and writes a state and may stop early with a failure; the
state it reached is kept either way.  `Steps step m` says that whatever
`m` does to the state is a run of `step`s, `Ends p m q r` what holds where it
returns and where it fails, and the rules below follow the way `m` is put together. -/

namespace Effects

variable {ε σ α β : Type}

/-- A program over states `σ` that may fail with an `ε`. -/
abbrev Prog (ε σ α : Type) := ExceptT ε (StateM σ) α

namespace Prog

/-- Run a program: what it returns, and the state it leaves. -/
def exec (m : Prog ε σ α) (s : σ) : Except ε α × σ := m s

@[simp] theorem exec_pure (a : α) (s : σ) : exec (pure a : Prog ε σ α) s = (.ok a, s) := rfl

@[simp] theorem exec_throw (e : ε) (s : σ) :
    exec (throw e : Prog ε σ α) s = (.error e, s) := rfl

@[simp] theorem exec_get (s : σ) : exec (get : Prog ε σ σ) s = (.ok s, s) := rfl

@[simp] theorem exec_modify (f : σ → σ) (s : σ) :
    exec (modify f : Prog ε σ PUnit) s = (.ok ⟨⟩, f s) := rfl

theorem exec_bind (m : Prog ε σ α) (f : α → Prog ε σ β) (s : σ) :
    exec (m >>= f) s =
      match exec m s with
      | (.ok a, s') => exec (f a) s'
      | (.error e, s') => (.error e, s') := by
  show (m >>= f) s = _
  simp only [exec, bind, ExceptT.bind, ExceptT.mk, StateT.bind]
  rcases m s with ⟨r, s'⟩
  cases r <;> rfl

theorem exec_bind_ok {m : Prog ε σ α} {f : α → Prog ε σ β} {s s' : σ} {a : α}
    (h : exec m s = (.ok a, s')) : exec (m >>= f) s = exec (f a) s' := by
  rw [exec_bind, h]

theorem exec_bind_error {m : Prog ε σ α} {f : α → Prog ε σ β} {s s' : σ} {e : ε}
    (h : exec m s = (.error e, s')) : exec (m >>= f) s = (.error e, s') := by
  rw [exec_bind, h]

theorem exec_tryCatch (m : Prog ε σ α) (f : ε → Prog ε σ α) (s : σ) :
    exec (tryCatch m f) s =
      match exec m s with
      | (.ok a, s') => (.ok a, s')
      | (.error e, s') => exec (f e) s' := by
  show (tryCatch m f) s = _
  simp only [exec, tryCatch, tryCatchThe, MonadExceptOf.tryCatch, ExceptT.tryCatch, ExceptT.mk,
    bind, StateT.bind]
  rcases m s with ⟨r, s'⟩
  cases r <;> rfl

end Prog

open Prog

/-! ## What a program does to its state -/

/-- Whatever `m` does to the state is a run of `step`s. -/
def Steps (step : σ → σ → Prop) (m : Prog ε σ α) : Prop :=
  ∀ s, Relation.ReflTransGen step s (m.exec s).2

section Rules

variable {step : σ → σ → Prop}

theorem Steps.mono {step' : σ → σ → Prop} {m : Prog ε σ α} (h : Steps step m)
    (hsub : ∀ s s', step s s' → step' s s') : Steps step' m :=
  fun s => (h s).lift id hsub

/-- An invariant of every step is an invariant of the program. -/
theorem Steps.invariant {P : σ → Prop} {m : Prog ε σ α} (h : Steps step m)
    (hstep : ∀ s s', P s → step s s' → P s') {s : σ} (hs : P s) : P (m.exec s).2 := by
  have hrun := h s
  generalize (m.exec s).2 = s' at hrun ⊢
  induction hrun with
  | refl => exact hs
  | tail _ hlast ih => exact hstep _ _ ih hlast

theorem steps_pure (a : α) : Steps step (pure a : Prog ε σ α) := fun _ => .refl

theorem steps_throw (e : ε) : Steps step (throw e : Prog ε σ α) := fun _ => .refl

theorem steps_modify {f : σ → σ} (h : ∀ s, Relation.ReflTransGen step s (f s)) :
    Steps step (modify f : Prog ε σ PUnit) := h

theorem Steps.bind {m : Prog ε σ α} {f : α → Prog ε σ β} (hm : Steps step m)
    (hf : ∀ a, Steps step (f a)) : Steps step (m >>= f) := by
  intro s
  have hs := hm s
  rw [exec_bind]
  rcases hexec : exec m s with ⟨res, s'⟩
  rw [hexec] at hs
  cases res with
  | ok a => exact hs.trans (hf a s')
  | error e => exact hs

/-- A program that reads the state first: the rest may rely on what was read. -/
theorem steps_get_bind {f : σ → Prog ε σ β}
    (hf : ∀ s, Relation.ReflTransGen step s ((f s).exec s).2) : Steps step (get >>= f) := by
  intro s
  rw [exec_bind_ok (exec_get s)]
  exact hf s

theorem Steps.tryCatch {m : Prog ε σ α} {f : ε → Prog ε σ α} (hm : Steps step m)
    (hf : ∀ e, Steps step (f e)) : Steps step (tryCatch m f) := by
  intro s
  have hs := hm s
  rw [exec_tryCatch]
  rcases hexec : exec m s with ⟨res, s'⟩
  rw [hexec] at hs
  cases res with
  | ok a => exact hs
  | error e => exact hs.trans (hf e s')

theorem steps_foldlM {γ : Type} {f : β → γ → Prog ε σ β} (hf : ∀ b c, Steps step (f b c))
    (l : List γ) (b : β) : Steps step (l.foldlM f b) := by
  induction l generalizing b with
  | nil => exact steps_pure b
  | cons c l ih =>
    rw [List.foldlM_cons]
    exact (hf b c).bind ih

end Rules

/-! ## How a program ends

`Ends p m q r` speaks of the runs of `m` from states with `p`: those that
return a value leave a state with `q`, those that fail one with `r`. -/

/-- Started where `p` holds, `m` returns only where `q` does and fails only
where `r` does. -/
def Ends (p : σ → Prop) (m : Prog ε σ α) (q : α → σ → Prop) (r : ε → σ → Prop) : Prop :=
  ∀ s, p s → match exec m s with
    | (.ok a, s') => q a s'
    | (.error e, s') => r e s'

/-- Started where `p` holds, `m` returns only where `q` does. -/
abbrev Yields (p : σ → Prop) (m : Prog ε σ α) (q : α → σ → Prop) : Prop :=
  Ends p m q fun _ _ => True

section Endings

variable {p : σ → Prop} {q : α → σ → Prop} {r : ε → σ → Prop}

theorem Ends.ok {m : Prog ε σ α} (h : Ends p m q r) {s s' : σ} {a : α} (hs : p s)
    (hexec : exec m s = (.ok a, s')) : q a s' := by
  have := h s hs
  rwa [hexec] at this

theorem Ends.error {m : Prog ε σ α} (h : Ends p m q r) {s s' : σ} {e : ε} (hs : p s)
    (hexec : exec m s = (.error e, s')) : r e s' := by
  have := h s hs
  rwa [hexec] at this

/-- What holds however the program ends. -/
theorem Ends.state {q : σ → Prop} {m : Prog ε σ α} (h : Ends p m (fun _ => q) fun _ => q) {s : σ}
    (hs : p s) : q (exec m s).2 := by
  have := h s hs
  rcases hexec : exec m s with ⟨res, s'⟩
  rw [hexec] at this
  cases res <;> exact this

theorem ends_pure {a : α} (h : ∀ s, p s → q a s) : Ends p (pure a : Prog ε σ α) q r := h

theorem ends_throw {e : ε} (h : ∀ s, p s → r e s) : Ends p (throw e : Prog ε σ α) q r := h

theorem ends_modify {f : σ → σ} {q : PUnit → σ → Prop} (h : ∀ s, p s → q ⟨⟩ (f s)) :
    Ends p (modify f : Prog ε σ PUnit) q r := h

theorem Ends.bind {m : Prog ε σ α} {f : α → Prog ε σ β} {q' : β → σ → Prop}
    (hm : Ends p m q r) (hf : ∀ a, Ends (q a) (f a) q' r) : Ends p (m >>= f) q' r := by
  intro s hs
  have hend := hm s hs
  rw [exec_bind]
  rcases hexec : exec m s with ⟨res, s'⟩
  rw [hexec] at hend
  cases res with
  | ok a => exact hf a s' hend
  | error e => exact hend

theorem ends_get_bind {f : σ → Prog ε σ β} {q : β → σ → Prop}
    (hf : ∀ s, Ends (fun s' => s' = s ∧ p s) (f s) q r) : Ends p (get >>= f) q r := by
  intro s hs
  rw [exec_bind_ok (exec_get s)]
  exact hf s s ⟨rfl, hs⟩

theorem Ends.tryCatch {m : Prog ε σ α} {f : ε → Prog ε σ α} {r' : ε → σ → Prop}
    (hm : Ends p m q r) (hf : ∀ e, Ends (r e) (f e) q r') : Ends p (tryCatch m f) q r' := by
  intro s hs
  have hend := hm s hs
  rw [exec_tryCatch]
  rcases hexec : exec m s with ⟨res, s'⟩
  rw [hexec] at hend
  cases res with
  | ok a => exact hend
  | error e => exact hf e s' hend

theorem Ends.mono {m : Prog ε σ α} {p' : σ → Prop} {q' : α → σ → Prop} {r' : ε → σ → Prop}
    (h : Ends p m q r) (hp : ∀ s, p' s → p s) (hq : ∀ a s, q a s → q' a s)
    (hr : ∀ e s, r e s → r' e s) : Ends p' m q' r' := by
  intro s hs
  have hend := h s (hp s hs)
  rcases hexec : exec m s with ⟨res, s'⟩
  rw [hexec] at hend
  cases res with
  | ok a => exact hq a s' hend
  | error e => exact hr e s' hend

theorem Ends.and {m : Prog ε σ α} {p' : σ → Prop} {q' : α → σ → Prop} {r' : ε → σ → Prop}
    (h : Ends p m q r) (h' : Ends p' m q' r') : Ends (fun s => p s ∧ p' s) m
      (fun a s => q a s ∧ q' a s) (fun e s => r e s ∧ r' e s) := by
  intro s hs
  have hend := h s hs.1
  have hend' := h' s hs.2
  rcases hexec : exec m s with ⟨res, s'⟩
  rw [hexec] at hend hend'
  cases res <;> exact ⟨hend, hend'⟩

/-- A part of the precondition that does not speak of the state. -/
theorem ends_of_fact {m : Prog ε σ α} {fact : Prop} (h : fact → Ends p m q r) :
    Ends (fun s => p s ∧ fact) m q r :=
  fun s hs => h hs.2 s hs.1

/-- The invariant of a fold speaks of the elements handled so far. -/
theorem ends_foldlM {γ : Type} {f : β → γ → Prog ε σ β} {I : List γ → β → σ → Prop}
    (hf : ∀ done c b, Ends (I done b) (f b c) (I (done ++ [c])) r) (l : List γ) :
    ∀ done b, Ends (I done b) (l.foldlM f b) (I (done ++ l)) r := by
  induction l with
  | nil =>
    intro done b
    rw [List.append_nil]
    exact ends_pure fun s hs => hs
  | cons c l ih =>
    intro done b
    rw [List.foldlM_cons]
    refine (hf done c b).bind fun b' => ?_
    simpa using ih (done ++ [c]) b'

/-- The invariant of a fold may speak of the elements to come as well. -/
theorem ends_foldlM_of_append {γ : Type} {f : β → γ → Prog ε σ β}
    {I : List γ → σ → Prop} {l : List γ}
    (hf : ∀ done c rest, done ++ c :: rest = l →
      ∀ b, Ends (I done) (f b c) (fun _ => I (done ++ [c])) r)
    (b : β) : Ends (I []) (l.foldlM f b) (fun _ => I l) r := by
  have hrest : ∀ rest done b, done ++ rest = l →
      Ends (I done) (rest.foldlM f b) (fun _ => I l) r := by
    intro rest
    induction rest with
    | nil =>
      intro done b hdone
      rw [List.append_nil] at hdone
      exact ends_pure fun s hs => hdone ▸ hs
    | cons c rest ih =>
      intro done b hdone
      rw [List.foldlM_cons]
      refine (hf done c rest hdone b).bind fun b' => ih (done ++ [c]) b' ?_
      rw [List.append_assoc]
      exact hdone
  exact hrest l [] b rfl

/-- What every element of a list keeps the fold over it keeps. -/
theorem ends_foldlM_of_mem {γ : Type} {f : β → γ → Prog ε σ β} {I : β → σ → Prop} {l : List γ}
    (hf : ∀ c ∈ l, ∀ b, Ends (I b) (f b c) I r) (b : β) : Ends (I b) (l.foldlM f b) I r := by
  induction l generalizing b with
  | nil => exact ends_pure fun s hs => hs
  | cons c l ih =>
    rw [List.foldlM_cons]
    exact (hf c (by simp) b).bind fun b' => ih (fun d hd => hf d (by simp [hd])) b'

/-- An invariant of every step holds however the program ends. -/
theorem Steps.ends {step : σ → σ → Prop} {P : σ → Prop} {m : Prog ε σ α} (h : Steps step m)
    (hstep : ∀ s s', P s → step s s' → P s') : Ends P m (fun _ => P) fun _ => P := by
  intro s hs
  have hend := h.invariant hstep hs
  rcases hexec : exec m s with ⟨res, s'⟩
  rw [hexec] at hend
  cases res <;> exact hend

/-- A program whose rest may rely on what its first part returned. -/
theorem Steps.bind_yields {step : σ → σ → Prop} {m : Prog ε σ α} {f : α → Prog ε σ β}
    (hm : Steps step m) (hy : Yields p m q)
    (hf : ∀ a s, q a s → Relation.ReflTransGen step s ((f a).exec s).2) {s : σ} (hs : p s) :
    Relation.ReflTransGen step s ((m >>= f).exec s).2 := by
  have hrun := hm s
  rw [exec_bind]
  rcases hexec : exec m s with ⟨res, s'⟩
  rw [hexec] at hrun
  cases res with
  | ok a => exact hrun.trans (hf a s' (hy.ok hs hexec))
  | error e => exact hrun

end Endings

end Effects
