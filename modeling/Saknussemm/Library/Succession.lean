import Mathlib.Data.Set.Finite.Lemmas
import Mathlib.Logic.Relation
import Mathlib.Order.WellFounded

/-! # Successor relations without convergence.

Where no element follows two others, what a chain reaches it reaches along
one path: a cycle is entered from nowhere, and on a finite set the elements
that follow none reach all others unless there is a cycle. -/

namespace Succession

open Relation

variable {α : Type*} {step : α → α → Prop}

/-- No element follows two others. -/
def Unconverging (step : α → α → Prop) : Prop := ∀ ⦃a b c⦄, step a c → step b c → a = b

/-- An element that follows none. -/
def IsHead (step : α → α → Prop) (a : α) : Prop := ∀ b, ¬ step b a

/-- What comes before an element of a cycle is on the cycle. -/
theorem cyclic_of_step (h : Unconverging step) {a b : α} (hab : step a b)
    (hcycle : TransGen step b b) : TransGen step a a := by
  obtain ⟨c, hbc, hcb⟩ := TransGen.tail'_iff.mp hcycle
  obtain rfl := h hab hcb
  exact TransGen.head' hab hbc

theorem cyclic_of_reaches (h : Unconverging step) {a b : α} (hab : ReflTransGen step a b)
    (hcycle : TransGen step b b) : TransGen step a a := by
  induction hab using ReflTransGen.head_induction_on with
  | refl => exact hcycle
  | head hstep _ ih => exact cyclic_of_step h hstep ih

/-- **No cycle is reached from a head.** -/
theorem not_cyclic_of_head (h : Unconverging step) {a b : α} (ha : IsHead step a)
    (hab : ReflTransGen step a b) : ¬ TransGen step b b := by
  intro hcycle
  obtain ⟨c, -, hca⟩ := TransGen.tail'_iff.mp (cyclic_of_reaches h hab hcycle)
  exact ha c hca

/-- An element is reached from one head. -/
theorem head_unique (h : Unconverging step) {a a' b : α} (ha : IsHead step a) (ha' : IsHead step a')
    (hab : ReflTransGen step a b) (hab' : ReflTransGen step a' b) : a = a' := by
  induction hab with
  | refl =>
    cases hab' with
    | refl => rfl
    | tail _ hstep => exact absurd hstep (ha _)
  | @tail c b _ hcb ih =>
    cases hab' with
    | refl => exact absurd hcb (ha' _)
    | tail hac' hstep => exact ih (h hstep hcb ▸ hac')

/-- **Without a cycle every element of a finite set is reached from a head.** -/
theorem exists_head {s : Set α} (hs : s.Finite) (hpred : ∀ ⦃a b⦄, step a b → a ∈ s)
    (hacyclic : ∀ a, ¬ TransGen step a a) {b : α} (hb : b ∈ s) :
    ∃ a ∈ s, IsHead step a ∧ ReflTransGen step a b := by
  have : Finite s := hs
  have : IsTrans s fun x y => TransGen step x.1 y.1 := ⟨fun _ _ _ => TransGen.trans⟩
  have : Std.Irrefl fun x y : s => TransGen step x.1 y.1 := ⟨fun x => hacyclic x⟩
  have hwf : WellFounded fun x y : s => TransGen step x.1 y.1 :=
    Finite.wellFounded_of_trans_of_irrefl _
  -- by induction on what comes before
  suffices h : ∀ x : s, ∃ a ∈ s, IsHead step a ∧ ReflTransGen step a x.1 from h ⟨b, hb⟩
  intro x
  induction x using hwf.induction with
  | _ x ih =>
    by_cases hhead : IsHead step x.1
    · exact ⟨x.1, x.2, hhead, .refl⟩
    · simp only [IsHead, not_forall, not_not] at hhead
      obtain ⟨y, hy⟩ := hhead
      obtain ⟨a, ha, hahead, hreach⟩ := ih ⟨y, hpred hy⟩ (.single hy)
      exact ⟨a, ha, hahead, hreach.tail hy⟩

end Succession
