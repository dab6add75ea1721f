import Mathlib.Data.List.Induction
import Mathlib.Logic.Relation
import Mathlib.Logic.Function.Basic

/-! # Union-find with path halving, over any type with decidable equality.

The forest is its parent function.  `find` climbs to the root and halves
the path behind it, with a fuel bound on the climb; `union` points one
root at the other.  A `Forest` certifies the root every element reaches
and a depth bound, and the certificate is what a `find` keeps and a
`union` updates.

Main results:

- `Forest.find`: with enough fuel `find` returns the root, and
  halving moves no root;
- `sameRoot_iff`: after a list of unions two elements share a root exactly
  when the listed pairs connect them. -/

namespace UnionFind

variable {α : Type*} [DecidableEq α]

/-- `while parent[x] != x: parent[x] = parent[parent[x]]; x = parent[x]`. -/
def find : Nat → (α → α) → α → α × (α → α)
  | 0, p, x => (x, p)
  | fuel + 1, p, x =>
    if p x = x then (x, p)
    else
      let p' := Function.update p x (p (p x))
      find fuel p' (p' x)

/-- `parent[find(a)] = find(b)`. -/
def union (fuel : Nat) (p : α → α) (a b : α) : α → α :=
  let (rb, p) := find fuel p b
  let (ra, p) := find fuel p a
  Function.update p ra rb

/-- All the unions of a list, from the discrete forest. -/
def unions (fuel : Nat) (pairs : List (α × α)) : α → α :=
  pairs.foldl (fun p pair => union fuel p pair.1 pair.2) id

/-- `p` is a forest in which `x` reaches `root x` in at most `depth x` steps. -/
structure Forest (p root : α → α) (depth : α → Nat) : Prop where
  root_fixed : ∀ x, p (root x) = root x
  root_step : ∀ x, root (p x) = root x
  root_of_fixed : ∀ x, p x = x → root x = x
  depth_root : ∀ x, p x = x → depth x = 0
  depth_step : ∀ x, p x ≠ x → depth (p x) < depth x

namespace Forest

variable {p root : α → α} {depth : α → Nat}

/-- Pointing a non-root at its grandparent keeps every root and depth. -/
theorem halve (h : Forest p root depth) {x : α} (hx : p x ≠ x) :
    Forest (Function.update p x (p (p x))) root depth := by
  -- the new parent is nearer the root than `x`, so no cycle appears
  have hle : depth (p (p x)) < depth x := by
    by_cases hp : p (p x) = p x
    · rw [hp]
      exact h.depth_step x hx
    · exact Nat.lt_trans (h.depth_step (p x) hp) (h.depth_step x hx)
  refine ⟨fun y => ?_, fun y => ?_, fun y hy => ?_, fun y hy => ?_, fun y hy => ?_⟩
  · have hne : root y ≠ x := by
      intro hyx
      apply hx
      rw [← hyx]
      exact h.root_fixed y
    rw [Function.update_of_ne hne]
    exact h.root_fixed y
  · by_cases hyx : y = x
    · subst hyx
      rw [Function.update_self, h.root_step, h.root_step]
    · rw [Function.update_of_ne hyx]
      exact h.root_step y
  · by_cases hyx : y = x
    · subst hyx
      rw [Function.update_self] at hy
      rw [hy] at hle
      exact absurd hle (Nat.lt_irrefl _)
    · rw [Function.update_of_ne hyx] at hy
      exact h.root_of_fixed y hy
  · by_cases hyx : y = x
    · subst hyx
      rw [Function.update_self] at hy
      rw [hy] at hle
      exact absurd hle (Nat.lt_irrefl _)
    · rw [Function.update_of_ne hyx] at hy
      exact h.depth_root y hy
  · by_cases hyx : y = x
    · subst hyx
      rw [Function.update_self]
      exact hle
    · rw [Function.update_of_ne hyx] at hy ⊢
      exact h.depth_step y hy

/-- **`find` reaches the root** as soon as the fuel covers the depth, and
leaves the same forest. -/
theorem find (h : Forest p root depth) {fuel : Nat} {x : α} (hx : depth x ≤ fuel) :
    (UnionFind.find fuel p x).1 = root x ∧ Forest (UnionFind.find fuel p x).2 root depth := by
  induction fuel generalizing p x with
  | zero =>
    have hfix : p x = x := by
      by_contra hne
      have := h.depth_step x hne
      omega
    exact ⟨(h.root_of_fixed x hfix).symm, h⟩
  | succ fuel ih =>
    by_cases hfix : p x = x
    · rw [UnionFind.find, if_pos hfix]
      exact ⟨(h.root_of_fixed x hfix).symm, h⟩
    · have h' := h.halve hfix
      have hmoved : Function.update p x (p (p x)) x ≠ x := by
        intro heq
        exact hfix (by
          have hroot := h'.root_of_fixed x heq
          rw [← hroot]
          exact h.root_fixed x)
      have hdepth := h'.depth_step x hmoved
      obtain ⟨hroot, hforest⟩ := ih h' (x := Function.update p x (p (p x)) x) (by omega)
      rw [UnionFind.find, if_neg hfix]
      exact ⟨hroot.trans (h'.root_step x), hforest⟩

/-- Pointing one root at another moves its whole tree, one step deeper. -/
theorem link (h : Forest p root depth) {a b : α} (ha : p a = a) (hb : p b = b) (hab : a ≠ b) :
    Forest (Function.update p a b) (fun x => if root x = a then b else root x)
      (fun x => if root x = a then depth x + 1 else depth x) := by
  have hra : root a = a := h.root_of_fixed a ha
  have hrb : root b = b := h.root_of_fixed b hb
  -- `a` is the one element that stops being a root
  have hfixed : ∀ y, Function.update p a b y = y → y ≠ a ∧ p y = y := by
    intro y hy
    have hya : y ≠ a := by
      rintro rfl
      rw [Function.update_self] at hy
      exact hab hy.symm
    rw [Function.update_of_ne hya] at hy
    exact ⟨hya, hy⟩
  refine ⟨fun y => ?_, fun y => ?_, fun y hy => ?_, fun y hy => ?_, fun y hy => ?_⟩
  · by_cases hy : root y = a
    · rw [if_pos hy, Function.update_of_ne hab.symm, hb]
    · rw [if_neg hy, Function.update_of_ne hy]
      exact h.root_fixed y
  · by_cases hy : y = a
    · subst hy
      rw [Function.update_self, hra, hrb, if_pos rfl, if_neg hab.symm]
    · rw [Function.update_of_ne hy, h.root_step]
  · obtain ⟨hya, hpy⟩ := hfixed y hy
    rw [h.root_of_fixed y hpy, if_neg hya]
  · obtain ⟨hya, hpy⟩ := hfixed y hy
    rw [h.root_of_fixed y hpy, if_neg hya]
    exact h.depth_root y hpy
  · by_cases hya : y = a
    · subst hya
      rw [Function.update_self, hra, hrb, if_pos rfl, if_neg hab.symm, h.depth_root b hb]
      omega
    · rw [Function.update_of_ne hya] at hy ⊢
      have hlt := h.depth_step y hy
      rw [h.root_step]
      split <;> omega

/-- **`union` merges two trees**: the tree of `a` now has the root of `b`. -/
theorem union (h : Forest p root depth) {fuel n : Nat} (hdepth : ∀ x, depth x ≤ n)
    (hfuel : n ≤ fuel) (a b : α) : ∃ depth', (∀ x, depth' x ≤ n + 1) ∧
      Forest (UnionFind.union fuel p a b)
        (fun x => if root x = root a then root b else root x) depth' := by
  obtain ⟨hb, hforest⟩ := h.find (Nat.le_trans (hdepth b) hfuel)
  obtain ⟨ha, hforest'⟩ := hforest.find (Nat.le_trans (hdepth a) hfuel)
  unfold UnionFind.union
  simp only [ha, hb]
  by_cases hab : root a = root b
  · refine ⟨depth, fun x => Nat.le_succ_of_le (hdepth x), ?_⟩
    have hroot : (fun x => if root x = root a then root b else root x) = root := by
      funext x
      split
      · next hx => rw [hx, hab]
      · rfl
    rw [hroot, ← hab, Function.update_eq_self_iff.mpr (hforest'.root_fixed a).symm]
    exact hforest'
  · refine ⟨_, fun x => ?_, hforest'.link (hforest'.root_fixed a) (hforest'.root_fixed b) hab⟩
    have := hdepth x
    split <;> omega

end Forest

omit [DecidableEq α] in
/-- Where every element starts: its own root. -/
theorem forest_id : Forest (id : α → α) id fun _ => 0 :=
  ⟨fun _ => rfl, fun _ => rfl, fun _ _ => rfl, fun _ _ => rfl, fun _ h => absurd rfl h⟩

/-- The pairs of a list, as a relation. -/
def Listed (pairs : List (α × α)) (a b : α) : Prop := (a, b) ∈ pairs

/-- Merging the classes of two elements adds exactly their connection. -/
theorem merge_iff {root : α → α} {pairs : List (α × α)} {a b : α}
    (h : ∀ x y, root x = root y ↔ Relation.EqvGen (Listed pairs) x y) (x y : α) :
    (if root x = root a then root b else root x) = (if root y = root a then root b else root y)
      ↔ Relation.EqvGen (Listed (pairs ++ [(a, b)])) x y := by
  have hmono : ∀ {u v}, Relation.EqvGen (Listed pairs) u v →
      Relation.EqvGen (Listed (pairs ++ [(a, b)])) u v := fun huv =>
    huv.mono fun _ _ hl => List.mem_append_left _ hl
  have hroot : ∀ {u v}, root u = root v → Relation.EqvGen (Listed (pairs ++ [(a, b)])) u v :=
    fun huv => hmono ((h _ _).mp huv)
  have hab : Relation.EqvGen (Listed (pairs ++ [(a, b)])) a b :=
    .rel _ _ (List.mem_append_right _ (by simp))
  constructor
  -- four cases, by which of the two were under `a`'s old root
  · intro heq
    by_cases hx : root x = root a
    · by_cases hy : root y = root a
      · exact hroot (hx.trans hy.symm)
      · rw [if_pos hx, if_neg hy] at heq
        exact ((hroot hx).trans _ _ _ hab).trans _ _ _ (hroot heq)
    · by_cases hy : root y = root a
      · rw [if_neg hx, if_pos hy] at heq
        exact ((hroot heq).trans _ _ _ (hab.symm _ _)).trans _ _ _ (hroot hy.symm)
      · rw [if_neg hx, if_neg hy] at heq
        exact hroot heq
  -- induction on how the two are connected; only the new pair uses the merge
  · intro hgen
    induction hgen with
    | rel u v huv =>
      rcases List.mem_append.mp huv with hold | hnew
      · have : root u = root v := (h u v).mpr (.rel _ _ hold)
        rw [this]
      · simp only [List.mem_singleton, Prod.mk.injEq] at hnew
        obtain ⟨rfl, rfl⟩ := hnew
        rw [if_pos rfl]
        split <;> rfl
    | refl u => rfl
    | symm u v _ ih => exact ih.symm
    | trans u v w _ _ ihuv ihvw => exact ihuv.trans ihvw

/-- A list of unions builds the forest of the connected components. -/
theorem forest_unions {fuel : Nat} (pairs : List (α × α)) (hfuel : pairs.length ≤ fuel) :
    ∃ root depth, Forest (unions fuel pairs) root depth ∧ (∀ x, depth x ≤ pairs.length) ∧
      ∀ x y, root x = root y ↔ Relation.EqvGen (Listed pairs) x y := by
  induction pairs using List.reverseRecOn with
  | nil =>
    refine ⟨id, fun _ => 0, forest_id, fun _ => Nat.le_refl _, fun x y => ?_⟩
    constructor
    · rintro rfl
      exact .refl _
    · intro h
      induction h with
      | rel u v huv => cases huv
      | refl => rfl
      | symm u v _ ih => exact ih.symm
      | trans u v w _ _ ihuv ihvw => exact ihuv.trans ihvw
  | append_singleton pairs pair ih =>
    rw [List.length_append, List.length_singleton] at hfuel
    obtain ⟨root, depth, hforest, hdepth, hroot⟩ := ih (by omega)
    obtain ⟨depth', hdepth', hforest'⟩ :=
      hforest.union hdepth (by omega : pairs.length ≤ fuel) pair.1 pair.2
    have hunions : unions fuel (pairs ++ [pair])
        = union fuel (unions fuel pairs) pair.1 pair.2 := by
      simp [unions, List.foldl_append]
    exact ⟨_, depth', hunions ▸ hforest', by simpa using hdepth', merge_iff hroot⟩

/-- **Union-find decides connectivity**: after the unions of a list, two
elements have the same root exactly when the listed pairs connect them. -/
theorem sameRoot_iff {fuel : Nat} {pairs : List (α × α)} (hfuel : pairs.length ≤ fuel) (x y : α) :
    (find fuel (unions fuel pairs) x).1 = (find fuel (unions fuel pairs) y).1
      ↔ Relation.EqvGen (Listed pairs) x y := by
  obtain ⟨root, depth, hforest, hdepth, hroot⟩ := forest_unions pairs hfuel
  rw [(hforest.find (Nat.le_trans (hdepth x) hfuel)).1,
    (hforest.find (Nat.le_trans (hdepth y) hfuel)).1]
  exact hroot x y

omit [DecidableEq α] in
/-- Listing each element of a list with the next one connects them all. -/
theorem eqvGen_zip_tail {l : List α} {x y : α} (hx : x ∈ l) (hy : y ∈ l) :
    Relation.EqvGen (Listed (l.zip l.tail)) x y := by
  -- every element is connected to the head of the list
  have hhead : ∀ (l : List α) (a z : α), z ∈ a :: l →
      Relation.EqvGen (Listed ((a :: l).zip l)) a z := by
    intro l
    induction l with
    | nil =>
      intro a z hz
      rw [List.mem_singleton.mp hz]
      exact .refl _
    | cons b l ih =>
      intro a z hz
      rcases List.mem_cons.mp hz with rfl | hz
      · exact .refl _
      · have hab : Listed ((a :: b :: l).zip (b :: l)) a b := List.mem_cons_self
        refine .trans _ _ _ (.rel _ _ hab) ?_
        exact (ih b z hz).mono fun _ _ h => List.mem_cons_of_mem _ h
  cases l with
  | nil => cases hx
  | cons a l => exact (hhead l a x hx).symm.trans _ _ _ (hhead l a y hy)

end UnionFind
