import Mathlib.Data.List.Basic

/-! # Edit distance.

How many insertions, deletions and substitutions turn one list into
another: as the least of a recursion, and as derivations that are easy to
put together. -/

namespace EditDistance

variable {α : Type*}

/-- One list can be edited into the other in so many operations. -/
inductive Edits : Nat → List α → List α → Prop
  | nil : Edits 0 [] []
  | keep {n : Nat} {xs ys : List α} (x : α) (h : Edits n xs ys) : Edits n (x :: xs) (x :: ys)
  | insert {n : Nat} {xs ys : List α} (y : α) (h : Edits n xs ys) : Edits (n + 1) xs (y :: ys)
  | delete {n : Nat} {xs ys : List α} (x : α) (h : Edits n xs ys) : Edits (n + 1) (x :: xs) ys
  | substitute {n : Nat} {xs ys : List α} (x y : α) (h : Edits n xs ys) :
    Edits (n + 1) (x :: xs) (y :: ys)

namespace Edits

variable {m n : Nat} {xs ys xs' ys' : List α}

theorem refl (xs : List α) : Edits 0 xs xs := by
  induction xs with
  | nil => exact .nil
  | cons x xs ih => exact .keep x ih

/-- Parts are edited one after the other. -/
theorem append (h : Edits m xs ys) (h' : Edits n xs' ys') :
    Edits (m + n) (xs ++ xs') (ys ++ ys') := by
  induction h with
  | nil => simpa using h'
  | keep x _ ih => exact .keep x ih
  | insert y _ ih =>
    rw [Nat.add_right_comm]
    exact .insert y ih
  | delete x _ ih =>
    rw [Nat.add_right_comm]
    exact .delete x ih
  | substitute x y _ ih =>
    rw [Nat.add_right_comm]
    exact .substitute x y ih

/-- Whatever the lists, the longer one's length is enough. -/
theorem of_lengths (xs ys : List α) : Edits (max xs.length ys.length) xs ys := by
  induction xs generalizing ys with
  | nil =>
    induction ys with
    | nil => exact .nil
    | cons y ys ih =>
      rw [List.length_nil, Nat.zero_max] at ih ⊢
      exact .insert y ih
  | cons x xs ih =>
    cases ys with
    | nil =>
      have h := ih []
      rw [List.length_nil, Nat.max_zero] at h ⊢
      exact .delete x h
    | cons y ys =>
      rw [List.length_cons, List.length_cons, Nat.add_max_add_right]
      exact .substitute x y (ih ys)

/-- What two lists share at both ends costs nothing. -/
theorem between (front back : List α) (h : Edits n xs ys) :
    Edits n (front ++ xs ++ back) (front ++ ys ++ back) := by
  have hboth := ((refl front).append h).append (refl back)
  rwa [Nat.zero_add, Nat.add_zero] at hboth

end Edits

variable [DecidableEq α]

/-- The least number of insertions, deletions and substitutions from one
list to the other. -/
def distance : List α → List α → Nat
  | [], ys => ys.length
  | xs, [] => xs.length
  | x :: xs, y :: ys =>
    min (min (distance xs (y :: ys) + 1) (distance (x :: xs) ys + 1))
      (distance xs ys + if x = y then 0 else 1)
  termination_by xs ys => xs.length + ys.length

theorem distance_nil_right (xs : List α) : distance xs [] = xs.length := by
  cases xs <;> simp [distance]

/-- **Every derivation costs at least the distance.** -/
theorem distance_le {n : Nat} {xs ys : List α} (h : Edits n xs ys) : distance xs ys ≤ n := by
  have hinsert : ∀ (xs : List α) (y : α) (ys : List α),
      distance xs (y :: ys) ≤ distance xs ys + 1 := by
    intro xs y ys
    cases xs with
    | nil => simp [distance]
    | cons x xs =>
      rw [distance]
      omega
  have hdelete : ∀ (x : α) (xs ys : List α), distance (x :: xs) ys ≤ distance xs ys + 1 := by
    intro x xs ys
    cases ys with
    | nil => simp [distance_nil_right]
    | cons y ys =>
      rw [distance]
      omega
  induction h with
  | nil => simp [distance]
  | keep x _ ih =>
    rw [distance, if_pos rfl]
    omega
  | insert y _ ih => exact Nat.le_trans (hinsert _ _ _) (Nat.succ_le_succ ih)
  | delete x _ ih => exact Nat.le_trans (hdelete _ _ _) (Nat.succ_le_succ ih)
  | substitute x y _ ih =>
    rw [distance]
    split <;> omega

end EditDistance
