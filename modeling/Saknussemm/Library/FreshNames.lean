import Mathlib.Data.List.DropRight
import Mathlib.Data.List.Nodup
import Mathlib.Data.List.Perm.Subperm

/-! # Numbered names.

A name is looked for among candidates numbered from zero on: the first one
not in use.  Candidates that differ from one another run out only after every
name in use, so the search ends.  Numbers are written in decimal, and what a
name ends with can be told from what it starts with. -/

namespace FreshNames

variable {α : Type*}

/-- The first of the candidates that is not in use. -/
def FirstFree (candidate : ℕ → α) (used : List α) (name : α) : Prop :=
  ∃ k, name = candidate k ∧ candidate k ∉ used ∧ ∀ j < k, candidate j ∈ used

/-- Among one more candidates than there are names in use, one is free. -/
theorem exists_le_notMem {candidate : ℕ → α} (hinjective : Function.Injective candidate)
    (used : List α) : ∃ k ≤ used.length, candidate k ∉ used := by
  by_contra! hused
  have hnodup : ((List.range (used.length + 1)).map candidate).Nodup :=
    List.nodup_range.map hinjective
  have hsubset : (List.range (used.length + 1)).map candidate ⊆ used := by
    intro name hname
    obtain ⟨k, hk, rfl⟩ := List.mem_map.mp hname
    exact hused k (Nat.lt_succ_iff.mp (List.mem_range.mp hk))
  have hlength := (List.subperm_of_subset hnodup hsubset).length_le
  rw [List.length_map, List.length_range] at hlength
  omega

/-- There is one first free candidate. -/
theorem FirstFree.unique {candidate : ℕ → α} {used : List α} {name name' : α}
    (h : FirstFree candidate used name) (h' : FirstFree candidate used name') : name = name' := by
  obtain ⟨k, rfl, hfree, hbefore⟩ := h
  obtain ⟨k', rfl, hfree', hbefore'⟩ := h'
  rcases lt_trichotomy k k' with hlt | rfl | hgt
  · exact absurd (hbefore' k hlt) hfree
  · rfl
  · exact absurd (hbefore k' hgt) hfree'

/-- Only the candidates in use matter. -/
theorem FirstFree.congr {candidate : ℕ → α} {used used' : List α} {name : α}
    (h : FirstFree candidate used name) (hused : ∀ k, candidate k ∈ used ↔ candidate k ∈ used') :
    FirstFree candidate used' name := by
  obtain ⟨k, rfl, hfree, hbefore⟩ := h
  exact ⟨k, rfl, fun hmem => hfree ((hused k).mpr hmem), fun j hj => (hused j).mp (hbefore j hj)⟩

/-- A search that starts at the second candidate, the first being in use. -/
theorem FirstFree.of_succ {candidate : ℕ → α} {used : List α} {name : α}
    (h : FirstFree (fun k => candidate (k + 1)) used name) (hfirst : candidate 0 ∈ used) :
    FirstFree candidate used name := by
  obtain ⟨k, rfl, hfree, hbefore⟩ := h
  refine ⟨k + 1, rfl, hfree, fun j hj => ?_⟩
  cases j with
  | zero => exact hfirst
  | succ j => exact hbefore j (by omega)

/-- Trying as many candidates as there are names in use, and one more, finds
the first free one. -/
theorem firstFree_find? {candidate : ℕ → α} (hinjective : Function.Injective candidate)
    (used : List α) [DecidablePred (· ∉ used)] (default : α) :
    FirstFree candidate used
      ((((List.range (used.length + 1)).map candidate).find? (· ∉ used)).getD default) := by
  obtain ⟨k, hk, hfree⟩ := exists_le_notMem hinjective used
  have hsome : ((List.range (used.length + 1)).map candidate).find? (· ∉ used) ≠ none := by
    rw [Ne, List.find?_eq_none]
    intro hnone
    apply hnone (candidate k) (List.mem_map_of_mem (List.mem_range.mpr (by omega)))
    exact decide_eq_true hfree
  rw [List.find?_map] at hsome ⊢
  cases hfind : (List.range (used.length + 1)).find? ((· ∉ used) ∘ candidate) with
  | none => exact absurd (by rw [hfind]; rfl) hsome
  | some i =>
    rw [List.find?_range_eq_some] at hfind
    refine ⟨i, rfl, of_decide_eq_true hfind.1, fun j hj => ?_⟩
    simpa using hfind.2.2 j hj

/-! ## Decimal numbers -/

/-- A number in decimal, of some digits at least. -/
def padded (digits n : ℕ) : List Char := (toString n).toList.leftpad digits '0'

theorem toList_toString (n : ℕ) : (toString n).toList = Nat.toDigits 10 n := by
  rw [Nat.toString_eq_repr, Nat.toList_repr]

theorem isDigit_of_mem_padded {digits n : ℕ} {c : Char} (h : c ∈ padded digits n) :
    c.isDigit = true := by
  rw [padded, toList_toString, List.leftpad, List.mem_append] at h
  rcases h with hzero | hdigit
  · rw [List.eq_of_mem_replicate hzero]
    rfl
  · exact Nat.isDigit_of_mem_toDigits (by decide) (by decide) hdigit

/-- A padded number reads back. -/
theorem ofDigitChars_padded (digits n : ℕ) : Nat.ofDigitChars 10 (padded digits n) 0 = n := by
  rw [padded, toList_toString, List.leftpad, Nat.ofDigitChars_append,
    Nat.ofDigitChars_replicate_zero, Nat.mul_zero, Nat.ofDigitChars_ten_toDigits]

theorem padded_injective (digits : ℕ) : Function.Injective (padded digits) := by
  intro n m h
  rw [← ofDigitChars_padded digits n, h, ofDigitChars_padded]

theorem padded_zero (n : ℕ) : padded 0 n = (toString n).toList := by
  rw [padded, List.leftpad, Nat.zero_sub]
  rfl

/-- The number a text ends with can be told from what stands before it. -/
theorem append_cons_inj {front front' back back' : List Char} {c c' : Char}
    (h : front ++ c :: back = front' ++ c' :: back')
    (hc : c.isDigit = false) (hc' : c'.isDigit = false)
    (hback : ∀ d ∈ back, d.isDigit = true) (hback' : ∀ d ∈ back', d.isDigit = true) :
    front = front' ∧ c = c' ∧ back = back' := by
  have hread : ∀ {front back : List Char} {c : Char}, c.isDigit = false →
      (∀ d ∈ back, d.isDigit = true) → (front ++ c :: back).rtakeWhile Char.isDigit = back := by
    intro front back c hc hback
    rw [List.rtakeWhile, List.reverse_append, List.reverse_cons, List.append_assoc,
      List.takeWhile_append_of_pos (by simpa using hback), List.singleton_append,
      List.takeWhile_cons_of_neg (by simp [hc]), List.append_nil, List.reverse_reverse]
  have hsame : back = back' := by
    rw [← @hread front back c hc hback, h, hread hc' hback']
  subst hsame
  rw [List.append_cons, List.append_cons front', List.append_left_inj] at h
  have hboth := List.append_inj' h rfl
  exact ⟨hboth.1, (List.cons.inj hboth.2).1, rfl⟩

end FreshNames
