import Mathlib.Algebra.BigOperators.Group.List.Basic
import Saknussemm.Library.Dict

/-! # Dictionaries of counts.

A key that is absent counts as zero, and adding to one key changes no other. -/

namespace Dict

variable {κ : Type*} [DecidableEq κ]

/-- What a dictionary of counts says of a key. -/
def tally (d : Dict κ Nat) (k : κ) : Nat := (get? d k).getD 0

/-- Add to the count of a key. -/
def add (d : Dict κ Nat) (k : κ) (n : Nat) : Dict κ Nat := set d k (tally d k + n)

/-- The sum of all counts. -/
def total (d : Dict κ Nat) : Nat := d.foldr (fun e n => e.2 + n) 0

/-- Add every count of a dictionary. -/
def addAll (d more : Dict κ Nat) : Dict κ Nat := more.foldl (fun d e => add d e.1 e.2) d

omit [DecidableEq κ] in
@[simp] theorem total_nil : total ([] : Dict κ Nat) = 0 := rfl

omit [DecidableEq κ] in
@[simp] theorem total_cons (e : κ × Nat) (d : Dict κ Nat) : total (e :: d) = e.2 + total d := rfl

@[simp] theorem tally_nil (k : κ) : tally ([] : Dict κ Nat) k = 0 := rfl

theorem tally_add (d : Dict κ Nat) (k k' : κ) (n : Nat) :
    tally (add d k n) k' = tally d k' + if k' = k then n else 0 := by
  unfold tally add
  rw [get?_set]
  split
  · next heq => simp [heq, tally]
  · simp

theorem tally_cons (e : κ × Nat) (d : Dict κ Nat) (k : κ) :
    tally (e :: d) k = if e.1 = k then e.2 else tally d k := by
  unfold tally
  rw [get?_cons]
  split <;> rfl

theorem tally_of_notMem {d : Dict κ Nat} {k : κ} (h : k ∉ keys d) : tally d k = 0 := by
  have hnone : get? d k = none := by
    rw [← Option.not_isSome_iff_eq_none, isSome_get?]
    exact h
  rw [tally, hnone, Option.getD_none]

/-- Counts add up key by key. -/
theorem tally_addAll {d more : Dict κ Nat} (h : (keys more).Nodup) (k : κ) :
    tally (addAll d more) k = tally d k + tally more k := by
  induction more generalizing d with
  | nil => rfl
  | cons e more ih =>
    obtain ⟨hnew, hrest⟩ := List.nodup_cons.mp h
    have hstep : tally (addAll (add d e.1 e.2) more) k = tally (add d e.1 e.2) k + tally more k :=
      ih hrest
    show tally (addAll (add d e.1 e.2) more) k = _
    rw [hstep, tally_add, tally_cons]
    by_cases hk : k = e.1
    · have hzero : tally more k = 0 := tally_of_notMem (hk ▸ hnew)
      rw [if_pos hk, if_pos hk.symm, hzero, Nat.add_zero]
    · rw [if_neg hk, if_neg (Ne.symm hk), Nat.add_zero]

theorem nodup_keys_add {d : Dict κ Nat} (h : (keys d).Nodup) (k : κ) (n : Nat) :
    (keys (add d k n)).Nodup := nodup_keys_set h _ _

/-- What is added to a key is added to the sum. -/
theorem total_add {d : Dict κ Nat} (h : (keys d).Nodup) (k : κ) (n : Nat) :
    total (add d k n) = total d + n := by
  induction d with
  | nil => simp [add, set, keys]
  | cons e d ih =>
    obtain ⟨hnew, hrest⟩ := List.nodup_cons.mp h
    unfold add
    rw [set_cons, tally_cons]
    split
    · next heq =>
      -- no other entry has the key
      have hsame : ∀ v, (d.map fun e' => if e'.1 = k then (k, v) else e') = d := by
        intro v
        refine (List.map_congr_left fun e' he' => ?_).trans (List.map_id d)
        have hne : e'.1 ≠ k := by
          rintro hk
          exact hnew (heq.trans hk.symm ▸ List.mem_map_of_mem he')
        rw [if_neg hne]
        rfl
      rw [hsame, total_cons, total_cons]
      omega
    · have hsum := ih hrest
      rw [add] at hsum
      rw [total_cons, total_cons, hsum]
      omega

/-! ## Counting a list -/

/-- How often each key occurs. -/
def counts (ks : List κ) : Dict κ Nat := ks.foldl (fun d k => add d k 1) []

/-- Counting on from a dictionary. -/
theorem tally_foldl_add (ks : List κ) (d : Dict κ Nat) (k : κ) :
    tally (ks.foldl (fun d k => add d k 1) d) k = tally d k + ks.countP (k = ·) := by
  induction ks generalizing d with
  | nil => rfl
  | cons k' ks ih =>
    rw [List.foldl_cons, ih, tally_add, List.countP_cons]
    by_cases hk : k = k'
    · rw [if_pos hk, if_pos (decide_eq_true hk)]
      omega
    · rw [if_neg hk, if_neg (by simpa using hk), Nat.add_zero, Nat.add_zero]

theorem tally_counts (ks : List κ) (k : κ) : tally (counts ks) k = ks.countP (k = ·) := by
  rw [counts, tally_foldl_add, tally_nil, Nat.zero_add]

/-- Every occurrence is counted once. -/
theorem total_counts (ks : List κ) : total (counts ks) = ks.length := by
  have hfold : ∀ d : Dict κ Nat, (keys d).Nodup →
      total (ks.foldl (fun d k => add d k 1) d) = total d + ks.length := by
    induction ks with
    | nil => exact fun _ _ => rfl
    | cons k ks ih =>
      intro d hd
      rw [List.foldl_cons, ih _ (nodup_keys_add hd k 1), total_add hd, List.length_cons]
      omega
  rw [counts, hfold [] List.nodup_nil, total_nil, Nat.zero_add]

/-- Only what occurs is counted. -/
theorem mem_keys_counts {ks : List κ} {k : κ} : k ∈ keys (counts ks) ↔ k ∈ ks := by
  have hfold : ∀ d : Dict κ Nat,
      k ∈ keys (ks.foldl (fun d k => add d k 1) d) ↔ k ∈ keys d ∨ k ∈ ks := by
    induction ks with
    | nil => simp
    | cons k' ks ih =>
      intro d
      rw [List.foldl_cons, ih, add, mem_keys_set, List.mem_cons]
      grind
  rw [counts, hfold]
  simp [keys]

end Dict
