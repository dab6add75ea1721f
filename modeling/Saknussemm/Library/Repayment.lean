import Mathlib.Algebra.BigOperators.Group.List.Basic
import Mathlib.Algebra.Order.BigOperators.Group.List
import Mathlib.Algebra.Order.Ring.Int

/-! # Shares of at least one.

Shares below one are raised to one, and what that costs is repaid from the
largest share, again and again, none being taken below one.  The shares
then sum to what they did, unless there are more of them than that. -/

namespace Repayment

/-- Every share raised to one. -/
def raised (shares : List Int) : List Int := shares.map (max 1 ·)

/-- What raising the shares costs. -/
def deficit (shares : List Int) : Int := (shares.map fun share => max 0 (1 - share)).sum

/-- One repayment, from the first of the largest shares: as much as is
owed, or as it can spare.  There is none when nothing is owed, or nothing
can be spared. -/
def step : List Int × Int → Option (List Int × Int)
  | (shares, owed) =>
    if owed ≤ 0 then none
    else
      match shares.max? with
      | none => none
      | some donor =>
        if donor ≤ 1 then none
        else
          let take := min owed (donor - 1)
          some (shares.set (shares.idxOf donor) (donor - take), owed - take)

/-- At most so many repayments. -/
def run : Nat → List Int × Int → List Int × Int
  | 0, state => state
  | n + 1, state =>
    match step state with
    | none => state
    | some state => run n state

/-- Shares of at least one, the largest paying for the smallest. -/
def settle (shares : List Int) : List Int :=
  if ∃ share ∈ shares, share < 1 then
    (run (deficit shares).toNat (raised shares, deficit shares)).1
  else shares

/-! ## One repayment -/

/-- What a repayment keeps: no share below one, their number, and what they
sum to once all is repaid. -/
structure Keeps (state state' : List Int × Int) : Prop where
  least : (∀ share ∈ state.1, 1 ≤ share) → ∀ share ∈ state'.1, 1 ≤ share
  length : state'.1.length = state.1.length
  balance : state'.1.sum - state'.2 = state.1.sum - state.2
  owed : 0 ≤ state.2 → 0 ≤ state'.2

theorem Keeps.refl (state : List Int × Int) : Keeps state state := ⟨id, rfl, rfl, id⟩

theorem Keeps.trans {state state' state'' : List Int × Int} (h : Keeps state state')
    (h' : Keeps state' state'') : Keeps state state'' where
  least := h'.least ∘ h.least
  length := h'.length.trans h.length
  balance := h'.balance.trans h.balance
  owed := h'.owed ∘ h.owed

/-- A step keeps the shares positive and repays some of the deficit. -/
theorem step_keeps {state state' : List Int × Int} (h : step state = some state') :
    Keeps state state' ∧ state'.2 < state.2 := by
  obtain ⟨shares, owed⟩ := state
  unfold step at h
  dsimp only at h
  split at h
  · cases h
  next howed =>
  split at h
  · cases h
  next donor hdonor =>
  split at h
  · cases h
  next hspare =>
  cases h
  have hmem : donor ∈ shares := List.max?_mem hdonor
  have hindex : shares.idxOf donor < shares.length := List.idxOf_lt_length_of_mem hmem
  refine ⟨⟨fun hleast share hshare => ?_, List.length_set, ?_, fun _ => ?_⟩, ?_⟩
  · rcases List.mem_or_eq_of_mem_set hshare with hold | rfl
    · exact hleast share hold
    · omega
  · dsimp only
    rw [List.sum_set', dif_pos hindex, List.getElem_idxOf]
    omega
  · dsimp only
    omega
  · dsimp only
    omega

/-- Repayments stop when all is repaid, or no share can spare any more. -/
theorem step_eq_none_iff {shares : List Int} {owed : Int} :
    step (shares, owed) = none ↔ owed ≤ 0 ∨ ∀ share ∈ shares, share ≤ 1 := by
  unfold step
  dsimp only
  by_cases howed : owed ≤ 0
  · simp [howed]
  rw [if_neg howed]
  cases hmax : shares.max? with
  | none =>
    rw [List.max?_eq_none_iff] at hmax
    simp [hmax]
  | some donor =>
    have hle : ∀ bound, donor ≤ bound ↔ ∀ share ∈ shares, share ≤ bound := fun _ =>
      List.max?_le_iff hmax
    by_cases hspare : donor ≤ 1
    · simp only [if_pos hspare, true_iff]
      exact .inr ((hle 1).mp hspare)
    · simp only [if_neg hspare, reduceCtorEq, false_iff, not_or]
      exact ⟨howed, fun hall => hspare ((hle 1).mpr hall)⟩

/-! ## All of them -/

theorem run_keeps (n : Nat) (state : List Int × Int) : Keeps state (run n state) := by
  induction n generalizing state with
  | zero => exact .refl state
  | succ n ih =>
    unfold run
    split
    · exact .refl state
    · next state' hstep => exact (step_keeps hstep).1.trans (ih state')

/-- **The repayments come to an end**, after at most as many as is owed. -/
theorem step_run {n : Nat} {state : List Int × Int} (h : state.2.toNat ≤ n) :
    step (run n state) = none := by
  induction n generalizing state with
  | zero =>
    obtain ⟨shares, owed⟩ := state
    exact step_eq_none_iff.mpr (.inl (by dsimp only at h; omega))
  | succ n ih =>
    unfold run
    split
    · next hstep => exact hstep
    · next state' hstep =>
      have hlt := (step_keeps hstep).2
      exact ih (by omega)

theorem sum_raised (shares : List Int) : (raised shares).sum - deficit shares = shares.sum := by
  induction shares with
  | nil => rfl
  | cons share shares ih =>
    simp only [raised, deficit, List.map_cons, List.sum_cons] at ih ⊢
    omega

theorem deficit_nonneg (shares : List Int) : 0 ≤ deficit shares := by
  refine List.sum_nonneg fun share hshare => ?_
  obtain ⟨_, -, rfl⟩ := List.mem_map.mp hshare
  exact le_max_left _ _

theorem length_le_sum {shares : List Int} (h : ∀ share ∈ shares, 1 ≤ share) :
    (shares.length : Int) ≤ shares.sum := by
  induction shares with
  | nil => exact Int.le_refl 0
  | cons share shares ih =>
    have hhead := h share List.mem_cons_self
    have htail := ih fun s hs => h s (List.mem_cons_of_mem _ hs)
    simp only [List.length_cons, List.sum_cons]
    omega

theorem sum_le_length {shares : List Int} (h : ∀ share ∈ shares, share ≤ 1) :
    shares.sum ≤ shares.length := by
  induction shares with
  | nil => exact Int.le_refl 0
  | cons share shares ih =>
    have hhead := h share List.mem_cons_self
    have htail := ih fun s hs => h s (List.mem_cons_of_mem _ hs)
    simp only [List.length_cons, List.sum_cons]
    omega

/-- **Settled shares** are at least one each, and sum to what they did, or
are one each where there are more of them than that. -/
structure Settled (shares settled : List Int) : Prop where
  length : settled.length = shares.length
  least : ∀ share ∈ settled, 1 ≤ share
  sum : (shares.length : Int) ≤ shares.sum → settled.sum = shares.sum
  short : shares.sum < shares.length → ∀ share ∈ settled, share = 1

/-- Settling leaves the shares settled. -/
theorem settled_settle (shares : List Int) : Settled shares (settle shares) := by
  unfold settle
  split
  · have hkeeps := run_keeps (deficit shares).toNat (raised shares, deficit shares)
    have hstop := @step_run (deficit shares).toNat (raised shares, deficit shares) (Nat.le_refl _)
    generalize run (deficit shares).toNat (raised shares, deficit shares) = final at hkeeps hstop
    obtain ⟨settled, owed⟩ := final
    have hleast : ∀ share ∈ settled, 1 ≤ share := hkeeps.least fun share hshare => by
      obtain ⟨_, -, rfl⟩ := List.mem_map.mp hshare
      exact le_max_left _ _
    have hlength : settled.length = shares.length := by
      simpa [raised] using hkeeps.length
    have hbalance : settled.sum - owed = shares.sum := hkeeps.balance.trans (sum_raised shares)
    have howed : 0 ≤ owed := hkeeps.owed (deficit_nonneg shares)
    show Settled shares settled
    have hle := length_le_sum hleast
    -- all is repaid, or every share is down to one
    rcases step_eq_none_iff.mp hstop with hrepaid | hones
    · exact ⟨hlength, hleast, fun _ => by omega, fun hshort => by omega⟩
    · have hsum := sum_le_length hones
      exact ⟨hlength, hleast, fun _ => by omega,
        fun _ share hshare => Int.le_antisymm (hones share hshare) (hleast share hshare)⟩
  · next hsmall =>
    have hleast : ∀ share ∈ shares, 1 ≤ share := fun share hshare => by
      by_contra hlt
      exact hsmall ⟨share, hshare, by omega⟩
    have hle := length_le_sum hleast
    exact ⟨rfl, hleast, fun _ => rfl, fun hshort => by omega⟩

end Repayment
