import Mathlib.Data.List.Basic

/-! # Monitors.

A monitor reads a stream of events one by one and refuses the first that is
out of turn.  A stream it gets through follows the protocol the monitor
states, and so does all that came before any of its events. -/

/-- A reader of events, which may refuse one. -/
structure Monitor (σ ε : Type) where
  start : σ
  step : σ → ε → Option σ

namespace Monitor

variable {σ ε τ : Type} (m : Monitor σ ε)

/-- Where the events lead, unless one of them is refused. -/
def read (events : List ε) : Option σ := events.foldlM m.step m.start

/-- Every event comes in turn. -/
def Follows (events : List ε) : Prop := (m.read events).isSome

@[simp] theorem read_nil : m.read [] = some m.start := rfl

theorem read_append_singleton (events : List ε) (event : ε) :
    m.read (events ++ [event]) = (m.read events).bind (m.step · event) := by
  rw [read, List.foldlM_append]
  show (m.read events).bind _ = _
  congr 1
  funext x
  show (m.step x event).bind some = _
  exact Option.bind_fun_some _

/-! ## States with a log -/

section Logged

variable (log : τ → List ε)

/-- The log leads the monitor to a state of a kind. -/
def Reads (X : σ → Prop) (s : τ) : Prop := ∃ x, m.read (log s) = some x ∧ X x

variable {m log}

theorem Reads.mono {X Y : σ → Prop} {s : τ} (h : m.Reads log X s) (hXY : ∀ x, X x → Y x) :
    m.Reads log Y s := by
  obtain ⟨x, hx, hX⟩ := h
  exact ⟨x, hx, hXY x hX⟩

theorem Reads.follows {X : σ → Prop} {s : τ} (h : m.Reads log X s) : m.Follows (log s) := by
  obtain ⟨x, hx, -⟩ := h
  exact Option.isSome_iff_exists.mpr ⟨x, hx⟩

/-- One more event, which the monitor takes. -/
theorem Reads.log_append {X Y : σ → Prop} {s s' : τ} (h : m.Reads log X s) {event : ε}
    (hlog : log s' = log s ++ [event]) (hstep : ∀ x, X x → ∃ y, m.step x event = some y ∧ Y y) :
    m.Reads log Y s' := by
  obtain ⟨x, hx, hX⟩ := h
  obtain ⟨y, hy, hY⟩ := hstep x hX
  exact ⟨y, by rw [hlog, read_append_singleton, hx]; exact hy, hY⟩

/-- Nothing was logged. -/
theorem Reads.of_log_eq {X : σ → Prop} {s s' : τ} (h : m.Reads log X s) (hlog : log s' = log s) :
    m.Reads log X s' := by
  obtain ⟨x, hx, hX⟩ := h
  exact ⟨x, by rw [hlog, hx], hX⟩

end Logged

end Monitor
