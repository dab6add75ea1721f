import Mathlib.Data.List.Forall2

/-! # Lists related position by position.

`List.Forall₂` read through membership, through an index, and through a
common attribute. -/

namespace Pointwise

variable {α β γ : Type*} {R : α → β → Prop}

theorem exists_of_mem_left {l : List α} {l' : List β} (h : List.Forall₂ R l l') {a : α}
    (ha : a ∈ l) : ∃ b ∈ l', R a b := by
  induction h with
  | nil => cases ha
  | cons hab _ ih =>
    rcases List.mem_cons.mp ha with rfl | ha
    · exact ⟨_, by simp, hab⟩
    · obtain ⟨b, hb, hR⟩ := ih ha
      exact ⟨b, List.mem_cons_of_mem _ hb, hR⟩

theorem exists_of_mem_right {l : List α} {l' : List β} (h : List.Forall₂ R l l') {b : β}
    (hb : b ∈ l') : ∃ a ∈ l, R a b := by
  obtain ⟨a, ha, hR⟩ := exists_of_mem_left (R := flip R) h.flip hb
  exact ⟨a, ha, hR⟩

/-- An element has its counterpart at the same position. -/
theorem exists_of_getElem? {l : List α} {l' : List β} (h : List.Forall₂ R l l') {i : Nat} {a : α}
    (ha : l[i]? = some a) : ∃ b, l'[i]? = some b ∧ R a b := by
  induction h generalizing i with
  | nil => simp at ha
  | cons hab _ ih =>
    cases i with
    | zero =>
      obtain rfl : _ = a := by simpa using ha
      exact ⟨_, by simp, hab⟩
    | succ i =>
      obtain ⟨b, hb, hR⟩ := ih (i := i) (by simpa using ha)
      exact ⟨b, by simpa using hb, hR⟩

/-- Two lists with the same attributes are related by having them. -/
theorem of_map_eq {f : α → γ} {l l' : List α} (h : l'.map f = l.map f) :
    List.Forall₂ (fun x y => f y = f x) l l' := by
  have heq : List.Forall₂ (fun a b => b = a) (l.map f) (l'.map f) := by
    rw [h]
    exact List.forall₂_refl _
  exact List.forall₂_map_left_iff.mp (List.forall₂_map_right_iff.mp heq)

/-- A pointwise relation that fixes an attribute fixes the list of them. -/
theorem map_eq {f : α → γ} {g : β → γ} {l : List α} {l' : List β} (h : List.Forall₂ R l l')
    (hR : ∀ a b, R a b → g b = f a) : l'.map g = l.map f := by
  induction h with
  | nil => rfl
  | cons hab _ ih => rw [List.map_cons, List.map_cons, ih, hR _ _ hab]

/-- Some of the right come with what they are related to on the left. -/
theorem sublist_right {l : List α} {l' m' : List β} (h : List.Forall₂ R l l')
    (hm : m'.Sublist l') : ∃ m, m.Sublist l ∧ List.Forall₂ R m m' := by
  induction h generalizing m' with
  | nil => exact ⟨[], by simp, by simpa using List.sublist_nil.mp hm⟩
  | @cons a _ _ _ hab _ ih =>
    cases hm with
    | cons _ hm =>
      obtain ⟨m, hsub, hforall⟩ := ih hm
      exact ⟨m, hsub.cons a, hforall⟩
    | cons_cons _ hm =>
      obtain ⟨m, hsub, hforall⟩ := ih hm
      exact ⟨a :: m, hsub.cons_cons a, .cons hab hforall⟩

theorem trans {S : β → γ → Prop} {T : α → γ → Prop} (hT : ∀ a b c, R a b → S b c → T a c)
    {l : List α} {m : List β} {r : List γ} (h : List.Forall₂ R l m) (h' : List.Forall₂ S m r) :
    List.Forall₂ T l r := by
  induction h generalizing r with
  | nil =>
    cases h'
    exact .nil
  | cons hab _ ih =>
    cases h' with
    | cons hbc hrest => exact .cons (hT _ _ _ hab hbc) (ih hrest)

end Pointwise
