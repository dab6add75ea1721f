import Mathlib.Data.List.Chain
import Mathlib.Data.List.Nodup

/-! # Sweeps: rewriting a list pairwise, left to right.

A *sweep* visits the adjacent pairs of a list in order and lets a step
rewrite both members, so that a member is first the right half of one
pair and then the left half of the next.  What a sweep establishes
between neighbours is stated with `List.IsChain`, and a chain of mutual
links is symmetric over the whole list as soon as the keys are distinct. -/

namespace Sweep

variable {α β κ : Type*}

/-- Rewrite the adjacent pairs of `x :: ys` from left to right. -/
def sweep (f : α → α → α × α) : α → List α → List α
  | x, [] => [x]
  | x, y :: ys => (f x y).1 :: sweep f (f x y).2 ys

@[simp] theorem sweep_length (f : α → α → α × α) (x : α) (ys : List α) :
    (sweep f x ys).length = ys.length + 1 := by
  induction ys generalizing x with
  | nil => rfl
  | cons y ys ih => simp [sweep, ih]

/-- A sweep whose step keeps an attribute keeps the list of attributes. -/
theorem sweep_map {f : α → α → α × α} {g : α → β}
    (h₁ : ∀ x y, g (f x y).1 = g x) (h₂ : ∀ x y, g (f x y).2 = g y) (x : α) (ys : List α) :
    (sweep f x ys).map g = (x :: ys).map g := by
  induction ys generalizing x with
  | nil => rfl
  | cons y ys ih => simp [sweep, ih, h₁, h₂]

/-- The first member of a sweep, after its one step. -/
def sweepHead (f : α → α → α × α) (x : α) : List α → α
  | [] => x
  | y :: _ => (f x y).1

theorem sweep_eq_cons (f : α → α → α × α) (x : α) (ys : List α) :
    ∃ tail, sweep f x ys = sweepHead f x ys :: tail := by
  cases ys with
  | nil => exact ⟨[], rfl⟩
  | cons y ys => exact ⟨_, rfl⟩

/-- An attribute no step changes on its left half. -/
theorem map_sweepHead {f : α → α → α × α} {g : α → β} (h : ∀ x y, g (f x y).1 = g x) (x : α)
    (ys : List α) : g (sweepHead f x ys) = g x := by
  cases ys with
  | nil => rfl
  | cons y ys => exact h x y

/-- **The sweep rule.**  `P` holds of the member about to be a left half,
`Q` of the members still to come; a step turns them into a pair related by
`R`, and rewriting the right half later does not undo `R`. -/
theorem sweep_isChain {f : α → α → α × α} {P Q : α → Prop} {R : α → α → Prop}
    (step : ∀ x y, P x → Q y → R (f x y).1 (f x y).2 ∧ P (f x y).2)
    (stable : ∀ x y z, R x y → P y → Q z → R x (f y z).1)
    {x : α} {ys : List α} (hx : P x) (hys : ∀ y ∈ ys, Q y) :
    (sweep f x ys).IsChain R := by
  induction ys generalizing x with
  | nil => exact List.isChain_singleton _
  | cons y ys ih =>
    obtain ⟨hR, hP⟩ := step x y hx (hys y (by simp))
    have hrest := ih hP fun z hz => hys z (by simp [hz])
    obtain ⟨tail, htail⟩ := sweep_eq_cons f (f x y).2 ys
    rw [sweep]
    rw [htail] at hrest ⊢
    refine List.isChain_cons_cons.mpr ⟨?_, hrest⟩
    cases ys with
    | nil => exact hR
    | cons z zs => exact stable _ _ _ hR hP (hys z (by simp))

/-- What holds of every left half after its step, and of the last member,
holds of every member of the sweep. -/
theorem sweep_forall {f : α → α → α × α} {P Q S : α → Prop}
    (step : ∀ x y, P x → Q y → S (f x y).1 ∧ P (f x y).2) (last : ∀ x, P x → S x)
    {x : α} {ys : List α} (hx : P x) (hys : ∀ y ∈ ys, Q y) :
    ∀ z ∈ sweep f x ys, S z := by
  induction ys generalizing x with
  | nil => simpa [sweep] using last x hx
  | cons y ys ih =>
    obtain ⟨hS, hP⟩ := step x y hx (hys y (by simp))
    have hrest := ih hP fun z hz => hys z (by simp [hz])
    simpa [sweep] using ⟨hS, hrest⟩

/-- What the right half of a step satisfies, the last member does. -/
theorem sweep_getLast {f : α → α → α × α} {P Q : α → Prop}
    (step : ∀ x y, P x → Q y → P (f x y).2) {x : α} {ys : List α} (hx : P x)
    (hys : ∀ y ∈ ys, Q y) : ∀ z ∈ (sweep f x ys).getLast?, P z := by
  induction ys generalizing x with
  | nil => simpa [sweep] using hx
  | cons y ys ih =>
    have hrest := ih (step x y hx (hys y (by simp))) fun z hz => hys z (by simp [hz])
    obtain ⟨tail, htail⟩ := sweep_eq_cons f (f x y).2 ys
    rw [sweep]
    rw [htail] at hrest ⊢
    simpa using hrest

/-- **What members of a sweep name is good.**  A step lets each half name
the other, which is good from then on; what was named before is in `D`. -/
theorem sweep_names {f : α → α → α × α} {key : α → κ} {names : α → κ → Prop} {good : α → Prop}
    (keyl : ∀ x y, key (f x y).1 = key x) (keyr : ∀ x y, key (f x y).2 = key y)
    (goodl : ∀ x y, good x → good (f x y).1)
    (left : ∀ x y k, names (f x y).1 k → names x k ∨ k = key y ∧ good (f x y).2)
    (right : ∀ x y k, names (f x y).2 k → names y k ∨ k = key x ∧ good (f x y).1)
    {D : κ → Prop} {x : α} {ys : List α} (hx : ∀ k, names x k → D k)
    (hys : ∀ y ∈ ys, ∀ k, ¬ names y k) :
    ∀ z ∈ sweep f x ys, ∀ k, names z k → D k ∨ ∃ w ∈ sweep f x ys, key w = k ∧ good w := by
  induction ys generalizing x D with
  | nil =>
    intro z hz k hk
    obtain rfl : z = x := by simpa [sweep] using hz
    exact .inl (hx k hk)
  | cons y ys ih =>
    -- what the carried element may name grows by the element just passed
    have hrest := @ih (fun k => D k ∨ k = key x ∧ good (f x y).1) (f x y).2
      (fun k hk => .inr ((right x y k hk).resolve_left (hys y (by simp) k)))
      fun z hz => hys z (by simp [hz])
    intro z hz k hk
    rw [sweep, List.mem_cons] at hz
    rcases hz with rfl | hz
    -- the element passed is met again at the head of what is left to sweep
    · rcases left x y k hk with hk | ⟨rfl, hgood⟩
      · exact .inl (hx k hk)
      · obtain ⟨tail, htail⟩ := sweep_eq_cons f (f x y).2 ys
        refine .inr ⟨sweepHead f (f x y).2 ys, ?_, ?_, ?_⟩
        · rw [sweep, htail]
          simp
        · rw [map_sweepHead keyl, keyr]
        · cases ys with
          | nil => exact hgood
          | cons y' ys => exact goodl _ _ hgood
    · rcases hrest z hz k hk with (hD | ⟨rfl, hgood⟩) | ⟨w, hw, hwk, hgood⟩
      · exact .inl hD
      · exact .inr ⟨(f x y).1, by simp [sweep], keyl x y, hgood⟩
      · exact .inr ⟨w, by simp [sweep, hw], hwk, hgood⟩

/-! ## Links between neighbours -/

section Links

variable (key : α → κ) (fwd bwd : α → Option κ)

/-- `x` names `y` as its successor and `y` names `x` as its predecessor. -/
def Linked (x y : α) : Prop := fwd x = some (key y) ∧ bwd y = some (key x)

/-- Neither names anybody. -/
def Apart (x y : α) : Prop := fwd x = none ∧ bwd y = none

/-- Neighbours are linked both ways or not at all. -/
def Joined (x y : α) : Prop := Linked key fwd bwd x y ∨ Apart fwd bwd x y

/-- Every forward link of the list is answered by a backward link. -/
def Symmetric (l : List α) : Prop :=
  ∀ x ∈ l, ∀ y ∈ l, fwd x = some (key y) ↔ bwd y = some (key x)

variable {key fwd bwd}

/-- A member of a joined chain with a successor either has no forward link
or is linked to exactly the next member. -/
theorem fwd_of_isChain {l : List α} (h : l.IsChain (Joined key fwd bwd))
    (hlast : ∀ x ∈ l.getLast?, fwd x = none) {x : α} (hx : x ∈ l) {k : κ}
    (hk : fwd x = some k) : ∃ y ∈ l, key y = k ∧ bwd y = some (key x) := by
  induction l with
  | nil => cases hx
  | cons a l ih =>
    cases l with
    | nil =>
      obtain rfl : x = a := by simpa using hx
      have : fwd x = none := hlast x (by simp)
      rw [this] at hk
      cases hk
    | cons b l =>
      obtain ⟨hab, hbl⟩ := List.isChain_cons_cons.mp h
      rcases List.mem_cons.mp hx with rfl | hx
      · rcases hab with ⟨hf, hb⟩ | ⟨hf, hb⟩
        · rw [hf] at hk
          cases hk
          exact ⟨b, by simp, rfl, hb⟩
        · rw [hf] at hk
          cases hk
      · obtain ⟨y, hy, hyk, hyb⟩ := ih hbl (by simpa using hlast) hx
        exact ⟨y, List.mem_cons_of_mem _ hy, hyk, hyb⟩

/-- A member after the head with a backward link is linked to exactly the
member before it. -/
theorem bwd_of_mem_tail {a : α} {l : List α} (h : (a :: l).IsChain (Joined key fwd bwd)) {y : α}
    (hy : y ∈ l) {k : κ} (hk : bwd y = some k) :
    ∃ x ∈ a :: l, key x = k ∧ fwd x = some (key y) := by
  induction l generalizing a with
  | nil => cases hy
  | cons b l ih =>
    obtain ⟨hab, hbl⟩ := List.isChain_cons_cons.mp h
    rcases List.mem_cons.mp hy with rfl | hy
    · rcases hab with ⟨hf, hb⟩ | ⟨hf, hb⟩
      · rw [hb] at hk
        cases hk
        exact ⟨a, by simp, rfl, hf⟩
      · rw [hb] at hk
        cases hk
    · obtain ⟨x, hx, hxk, hxf⟩ := ih hbl hy
      exact ⟨x, List.mem_cons_of_mem _ hx, hxk, hxf⟩

/-- A member of a joined chain with a free head and a backward link is
linked to exactly the member before it. -/
theorem bwd_of_isChain {l : List α} (h : l.IsChain (Joined key fwd bwd))
    (hhead : ∀ x ∈ l.head?, bwd x = none) {y : α} (hy : y ∈ l) {k : κ} (hk : bwd y = some k) :
    ∃ x ∈ l, key x = k ∧ fwd x = some (key y) := by
  cases l with
  | nil => cases hy
  | cons a l =>
    rcases List.mem_cons.mp hy with rfl | hy'
    · rw [hhead y (by simp)] at hk
      cases hk
    · exact bwd_of_mem_tail h hy' hk

/-- **A joined chain with free ends is symmetric**, whatever its length,
also inside a larger list whose other members have no links, as soon as no
two members of that list share a key. -/
theorem symmetric_of_isChain {l all : List α} (hkeys : (all.map key).Nodup)
    (hsub : ∀ x ∈ l, x ∈ all) (hfree : ∀ x ∈ all, x ∈ l ∨ fwd x = none ∧ bwd x = none)
    (h : l.IsChain (Joined key fwd bwd)) (hhead : ∀ x ∈ l.head?, bwd x = none)
    (hlast : ∀ x ∈ l.getLast?, fwd x = none) : Symmetric key fwd bwd all := by
  have hinj := List.inj_on_of_nodup_map hkeys
  intro x hx y hy
  constructor
  · intro hf
    rcases hfree x hx with hxl | ⟨hnone, -⟩
    · obtain ⟨y', hy', hkey, hb⟩ := fwd_of_isChain h hlast hxl hf
      rw [← hinj (hsub y' hy') hy hkey]
      exact hb
    · rw [hnone] at hf
      cases hf
  · intro hb
    rcases hfree y hy with hyl | ⟨-, hnone⟩
    · obtain ⟨x', hx', hkey, hf⟩ := bwd_of_isChain h hhead hyl hb
      rw [← hinj (hsub x' hx') hx hkey]
      exact hf
    · rw [hnone] at hb
      cases hb

/-- In a symmetric list every pair of neighbours agrees on its link. -/
theorem isChain_of_symmetric {l : List α} (h : Symmetric key fwd bwd l) :
    l.IsChain fun x y => fwd x = some (key y) ↔ bwd y = some (key x) :=
  (List.pairwise_of_forall_mem_list fun x hx y hy => h x hx y hy).isChain

end Links

end Sweep
