import Mathlib.Algebra.BigOperators.Group.List.Basic
import Mathlib.Data.List.Induction
import Mathlib.Order.Bounds.Defs
import Saknussemm.Library.Corridor

/-! # What an alignment in a corridor costs.

The trace covers both sequences in order, stays in the corridor, and costs
the cell it starts from, give or take the rounding its comparisons allow.
Where the corridor is the whole table, that cell is the least cost of any
alignment. -/

namespace Corridor

namespace Problem

variable {α : Type*} (p : Problem α)

/-! ## Alignments -/

/-- A match, a deletion or an insertion, by indices. -/
abbrev Pair := Option Nat × Option Nat

/-- What a pair costs. -/
def pairCost (pair : Pair) : ℚ :=
  match pair with
  | (some i, some j) => 2 * (1 - p.evidence (i + 1) (j + 1))
  | _ => 1

/-- The pairs list the first `i` and the first `j` indices once each, in
order. -/
structure Aligns (i j : Nat) (pairs : List Pair) : Prop where
  source : pairs.filterMap Prod.fst = List.range i
  target : pairs.filterMap Prod.snd = List.range j
  proper : ∀ pair ∈ pairs, pair ≠ (none, none)

/-- What all the pairs cost. -/
def totalCost (pairs : List Pair) : ℚ := (pairs.map p.pairCost).sum

variable {p}

theorem Aligns.nil : Aligns 0 0 [] := ⟨rfl, rfl, by simp⟩

/-- A pair that takes the next source, the next target or both extends an
alignment. -/
theorem Aligns.concat {i j i' j' : Nat} {pairs : List Pair} {pair : Pair} (h : Aligns i j pairs)
    (hsource : List.range i ++ pair.1.toList = List.range i')
    (htarget : List.range j ++ pair.2.toList = List.range j') (hpair : pair ≠ (none, none)) :
    Aligns i' j' (pairs ++ [pair]) where
  source := by
    rw [List.filterMap_append, h.source, ← hsource]
    cases hcase : pair.1 <;> simp [hcase]
  target := by
    rw [List.filterMap_append, h.target, ← htarget]
    cases hcase : pair.2 <;> simp [hcase]
  proper := by
    intro other hother
    rcases List.mem_append.mp hother with hother | hother
    · exact h.proper other hother
    · rw [List.mem_singleton.mp hother]
      exact hpair

theorem Aligns.matched {i j : Nat} {pairs : List Pair} (h : Aligns i j pairs) :
    Aligns (i + 1) (j + 1) (pairs ++ [(some i, some j)]) :=
  h.concat List.range_succ.symm List.range_succ.symm (by simp)

theorem Aligns.deleted {i j : Nat} {pairs : List Pair} (h : Aligns i j pairs) :
    Aligns (i + 1) j (pairs ++ [(some i, none)]) :=
  h.concat List.range_succ.symm (by simp) (by simp)

theorem Aligns.inserted {i j : Nat} {pairs : List Pair} (h : Aligns i j pairs) :
    Aligns i (j + 1) (pairs ++ [(none, some j)]) :=
  h.concat (by simp) List.range_succ.symm (by simp)

theorem totalCost_concat (pairs : List Pair) (pair : Pair) :
    p.totalCost (pairs ++ [pair]) = p.totalCost pairs + p.pairCost pair := by
  simp [totalCost]

/-- The last pair of an alignment is a match, a deletion or an insertion of
the last indices. -/
theorem Aligns.cases_concat {i j : Nat} {pairs : List Pair} {pair : Pair}
    (h : Aligns i j (pairs ++ [pair])) :
    (∃ i' j', i = i' + 1 ∧ j = j' + 1 ∧ pair = (some i', some j') ∧ Aligns i' j' pairs) ∨
      (∃ i', i = i' + 1 ∧ pair = (some i', none) ∧ Aligns i' j pairs) ∨
      ∃ j', j = j' + 1 ∧ pair = (none, some j') ∧ Aligns i j' pairs := by
  -- a last index is the last of its range
  have hlast : ∀ (indices : List Nat) (k l : Nat), indices ++ [k] = List.range l →
      l = k + 1 ∧ indices = List.range k := by
    intro indices k l heq
    cases l with
    | zero => simp at heq
    | succ l =>
      rw [List.range_succ] at heq
      obtain ⟨hinit, hend⟩ := List.append_inj' heq rfl
      rw [List.singleton_inj] at hend
      exact ⟨by rw [hend], by rw [hinit, hend]⟩
  obtain ⟨hsource, htarget, hproper⟩ := h
  rw [List.filterMap_append] at hsource htarget
  have hpairs : ∀ other ∈ pairs, other ≠ (none, none) := fun other hother =>
    hproper other (List.mem_append_left _ hother)
  rcases pair with ⟨_ | i', _ | j'⟩
  · exact absurd rfl (hproper (none, none) (by simp))
  · obtain ⟨rfl, hinit⟩ := hlast _ j' j (by simpa using htarget)
    exact .inr (.inr ⟨j', rfl, rfl, by simpa using hsource, hinit, hpairs⟩)
  · obtain ⟨rfl, hinit⟩ := hlast _ i' i (by simpa using hsource)
    exact .inr (.inl ⟨i', rfl, rfl, hinit, by simpa using htarget, hpairs⟩)
  · obtain ⟨rfl, hinit⟩ := hlast _ i' i (by simpa using hsource)
    obtain ⟨rfl, hinit'⟩ := hlast _ j' j (by simpa using htarget)
    exact .inl ⟨i', j', rfl, rfl, rfl, hinit, hinit', hpairs⟩

/-! ## Cells and their neighbours -/

/-- A row further down costs at most one more. -/
theorem le_above {i j : Nat} {c u : ℚ} (hc : p.cost (i + 1) j = some c) (hu : p.cost i j = some u) :
    c ≤ u + 1 := by
  have hin := p.inside_of_cost hc
  have hup := p.inside_of_cost hu
  cases j with
  | zero =>
    rw [p.cost_first hin, Option.some_inj] at hc
    rw [p.cost_first hup, Option.some_inj] at hu
    rw [← hc, ← hu]
    push_cast
    exact le_refl _
  | succ j =>
    rw [cost_succ_succ, if_pos hin, hu] at hc
    exact least_le_left rfl hc

theorem least_comm (a b : Option ℚ) : least a b = least b a := by
  cases a <;> cases b <;> simp [least, min_comm]

theorem least_le_right {a b : Option ℚ} {x c : ℚ} (hx : b = some x) (h : least a b = some c) :
    c ≤ x :=
  least_le_left hx (least_comm a b ▸ h)

/-- What two candidates of a least of three say of it. -/
theorem least_least_le {a b d : Option ℚ} {x c : ℚ} (hx : b = some x ∨ d = some x)
    (h : least a (least b d) = some c) : c ≤ x := by
  have hrest : ∃ y, least b d = some y ∧ y ≤ x := by
    rcases hx with rfl | rfl
    · obtain ⟨y, hy⟩ := Option.isSome_iff_exists.mp (least_isSome (a := some x) (b := d) (.inl rfl))
      exact ⟨y, hy, least_le_left rfl hy⟩
    · obtain ⟨y, hy⟩ := Option.isSome_iff_exists.mp (least_isSome (a := b) (b := some x) (.inr rfl))
      exact ⟨y, hy, least_le_right rfl hy⟩
  obtain ⟨y, hy, hle⟩ := hrest
  exact (least_le_right hy h).trans hle

/-- A column further right costs at most one more. -/
theorem le_left {i j : Nat} {c l : ℚ} (hc : p.cost i (j + 1) = some c) (hl : p.cost i j = some l) :
    c ≤ l + 1 := by
  have hin := p.inside_of_cost hc
  have hleft := p.inside_of_cost hl
  cases i with
  | zero =>
    rw [cost_zero, if_pos hin, Option.some_inj] at hc
    rw [cost_zero, if_pos hleft, Option.some_inj] at hl
    rw [← hc, ← hl]
    push_cast
    exact le_refl _
  | succ i =>
    rw [cost_succ_succ, if_pos hin, hl] at hc
    exact least_least_le (.inl rfl) hc

theorem le_diagonal {i j : Nat} {c d : ℚ} (hc : p.cost (i + 1) (j + 1) = some c)
    (hd : p.cost i j = some d) : c ≤ d + 2 * (1 - p.evidence (i + 1) (j + 1)) := by
  have hin := p.inside_of_cost hc
  rw [cost_succ_succ, if_pos hin, hd] at hc
  exact least_least_le (.inr rfl) hc

/-- A cell costs what one of its neighbours says. -/
theorem cost_cases {i j : Nat} {c : ℚ} (hc : p.cost (i + 1) (j + 1) = some c) :
    (∃ u, p.cost i (j + 1) = some u ∧ c = u + 1) ∨ (∃ l, p.cost (i + 1) j = some l ∧ c = l + 1) ∨
      ∃ d, p.cost i j = some d ∧ c = d + 2 * (1 - p.evidence (i + 1) (j + 1)) := by
  have hin := p.inside_of_cost hc
  rw [cost_succ_succ, if_pos hin] at hc
  rcases least_eq_some hc with hup | hrest
  · obtain ⟨u, hu, rfl⟩ := Option.map_eq_some_iff.mp hup
    exact .inl ⟨u, hu, rfl⟩
  · rcases least_eq_some hrest with hleft | hdiag
    · obtain ⟨l, hl, rfl⟩ := Option.map_eq_some_iff.mp hleft
      exact .inr (.inl ⟨l, hl, rfl⟩)
    · obtain ⟨d, hd, rfl⟩ := Option.map_eq_some_iff.mp hdiag
      exact .inr (.inr ⟨d, hd, rfl⟩)

/-! ## The last cell is the least cost -/

/-- **A cell's cost is that of an alignment.** -/
theorem exists_aligns {i j : Nat} {c : ℚ} (hc : p.cost i j = some c) :
    ∃ pairs, Aligns i j pairs ∧ p.totalCost pairs = c := by
  -- induction along the rows, then the columns; each case adds the last pair of the alignment
  induction i generalizing j c with
  | zero =>
    have hin := p.inside_of_cost hc
    rw [cost_zero, if_pos hin, Option.some_inj] at hc
    subst hc
    clear hin
    induction j with
    | zero => exact ⟨[], .nil, by simp [totalCost]⟩
    | succ j ih =>
      obtain ⟨pairs, haligns, htotal⟩ := ih
      exact ⟨_, haligns.inserted, by rw [totalCost_concat, htotal]; push_cast; rfl⟩
  | succ i ih =>
    induction j generalizing c with
    | zero =>
      have habove : ∃ u, p.cost i 0 = some u ∧ c = u + 1 := by
        have hin := p.inside_of_cost hc
        have hup : p.inside i 0 = true := by
          have hlo := p.lo_mono (show i ≤ i + 1 by omega)
          have hpos := p.hi_pos i
          rw [inside_iff] at hin ⊢
          omega
        rw [p.cost_first hin, Option.some_inj] at hc
        exact ⟨_, p.cost_first hup, by rw [← hc]; push_cast; rfl⟩
      obtain ⟨u, hu, rfl⟩ := habove
      obtain ⟨pairs, haligns, htotal⟩ := ih hu
      exact ⟨_, haligns.deleted, by rw [totalCost_concat, htotal]; rfl⟩
    | succ j ihj =>
      rcases cost_cases hc with ⟨u, hu, rfl⟩ | ⟨l, hl, rfl⟩ | ⟨d, hd, rfl⟩
      · obtain ⟨pairs, haligns, htotal⟩ := ih hu
        exact ⟨_, haligns.deleted, by rw [totalCost_concat, htotal]; rfl⟩
      · obtain ⟨pairs, haligns, htotal⟩ := ihj hl
        exact ⟨_, haligns.inserted, by rw [totalCost_concat, htotal]; rfl⟩
      · obtain ⟨pairs, haligns, htotal⟩ := ih hd
        exact ⟨_, haligns.matched, by rw [totalCost_concat, htotal]; rfl⟩

/-- **Where the corridor is everything, no alignment is cheaper.** -/
theorem cost_le_totalCost {i j : Nat} {c : ℚ} {pairs : List Pair} (haligns : Aligns i j pairs)
    (hi : i ≤ p.source.length) (hall : ∀ i' j', i' ≤ i → j' ≤ j → p.inside i' j' = true)
    (hc : p.cost i j = some c) : c ≤ p.totalCost pairs := by
  induction pairs using List.reverseRecOn generalizing i j c with
  | nil =>
    obtain rfl : i = 0 := List.range_eq_nil.mp haligns.source.symm
    obtain rfl : j = 0 := List.range_eq_nil.mp haligns.target.symm
    rw [cost_zero, if_pos (hall 0 0 (Nat.le_refl _) (Nat.le_refl _)), Option.some_inj] at hc
    simp [totalCost, ← hc]
  | append_singleton pairs pair ih =>
    rw [totalCost_concat]
    have hcell : ∀ i' j', i' ≤ i → j' ≤ j → ∃ x, p.cost i' j' = some x := fun i' j' hi' hj' =>
      Option.isSome_iff_exists.mp (p.cost_isSome (hi'.trans hi) (hall i' j' hi' hj'))
    rcases haligns.cases_concat with ⟨i', j', rfl, rfl, rfl, hrest⟩ | ⟨i', rfl, rfl, hrest⟩ |
      ⟨j', rfl, rfl, hrest⟩
    · obtain ⟨d, hd⟩ := hcell i' j' (by omega) (by omega)
      have hle := ih hrest (by omega) (fun _ _ hi' hj' => hall _ _ (by omega) (by omega)) hd
      have hstep := le_diagonal hc hd
      simp only [pairCost]
      linarith
    · obtain ⟨u, hu⟩ := hcell i' j (by omega) (by omega)
      have hle := ih hrest (by omega) (fun _ _ hi' hj' => hall _ _ (by omega) (by omega)) hu
      have hstep := le_above hc hu
      simp only [pairCost]
      linarith
    · obtain ⟨l, hl⟩ := hcell i j' (by omega) (by omega)
      have hle := ih hrest hi (fun _ _ hi' hj' => hall _ _ (by omega) (by omega)) hl
      have hstep := le_left hc hl
      simp only [pairCost]
      linarith

/-- A corridor as wide as the second sequence leaves nothing out. -/
theorem inside_of_wide (hwide : p.target.length ≤ p.width) {i j : Nat} (hi : i ≤ p.source.length)
    (hj : j ≤ p.target.length) : p.inside i j = true := by
  have hcentre := centre_le (m := p.target.length) hi
  rw [inside_iff, lo, Problem.hi]
  simp only [bandedRange]
  omega

/-! ## What the trace lists and costs -/

/-- The pair a step says. -/
def Step.pair (step : Step) : Pair := (step.sourceIndex, step.targetIndex)

/-- What the steps cost. -/
def stepsCost (p : Problem α) (steps : List Step) : ℚ :=
    (steps.map fun step => p.pairCost step.pair).sum

/-- How far two costs may be apart and be taken for the same. -/
def tolerance : ℚ := 1 / 1000000000

theorem abs_lt_of_near {a b : ℚ} (h : near (some a) (some b) = true) : |a - b| < tolerance := by
  simpa [near, tolerance] using h

theorem near_some_right {a b : Option ℚ} (h : near a b = true) :
    ∃ x y, a = some x ∧ b = some y ∧ |x - y| < tolerance := by
  cases a with
  | none => simp [near] at h
  | some x =>
    cases b with
    | none => simp [near] at h
    | some y => exact ⟨x, y, rfl, rfl, abs_lt_of_near h⟩

/-- The comparisons of the trace take no two different costs for the same. -/
structure Distinguishes (p : Problem α) : Prop where
  diagonal : ∀ i j c d, p.isMatch (i + 1) (j + 1) = true → p.cost (i + 1) (j + 1) = some c →
    p.cost i j = some d → c = d + 2 * (1 - p.evidence (i + 1) (j + 1))
  above : ∀ i j c u, p.isDeletion (i + 1) j = true → p.cost (i + 1) j = some c →
    p.cost i j = some u → c = u + 1

/-- A step of the trace is a match, a deletion or an insertion from a
neighbour, at the neighbour's cost and the pair's. -/
inductive StepTo (p : Problem α) (i j : Nat) (c : ℚ) : Nat → Nat → ℚ → Step → Prop
  | diagonal {i' j' : Nat} {d : ℚ} (hi : i = i' + 1) (hj : j = j' + 1)
      (hmatch : p.isMatch i j = true) (hd : p.cost i' j' = some d)
      (hnear : |c - (d + 2 * (1 - p.evidence i j))| < tolerance) :
    StepTo p i j c i' j' d ⟨i, j, some (i - 1), some (j - 1), p.evidence i j⟩
  | above {i' : Nat} {u : ℚ} (hi : i = i' + 1) (hdelete : p.isDeletion i j = true)
      (hu : p.cost i' j = some u) (hnear : |c - (u + 1)| < tolerance) :
    StepTo p i j c i' j u ⟨i, j, some (i - 1), none, 0⟩
  | left {j' : Nat} {l : ℚ} (hj : j = j' + 1) (hl : p.cost i j' = some l) (hexact : c = l + 1) :
    StepTo p i j c i j' l ⟨i, j, none, some (j - 1), 0⟩

/-- **Each step of the trace goes to a neighbour with a cost**, from which the
rest is traced. -/
theorem exists_stepTo {fuel i j : Nat} {c : ℚ} {steps : List Step} (hi : i ≤ p.source.length)
    (hc : p.cost i j = some c) (hcorner : ¬ (i = 0 ∧ j = 0))
    (h : p.trace (fuel + 1) i j = some steps) :
    ∃ i' j' c' step rest, StepTo p i j c i' j' c' step ∧ p.trace fuel i' j' = some rest ∧
      steps = step :: rest := by
  rw [trace] at h
  · split at h
    case isTrue hmatch =>
      obtain ⟨rest, hrest, rfl⟩ := Option.map_eq_some_iff.mp h
      have hsome := hmatch
      simp only [isMatch, Bool.and_eq_true, decide_eq_true_eq] at hsome
      obtain ⟨⟨⟨hipos, hjpos⟩, -⟩, hnear⟩ := hsome
      obtain ⟨x, y, hx, hy, habs⟩ := near_some_right hnear
      obtain ⟨d, hd, rfl⟩ := Option.map_eq_some_iff.mp hy
      rw [hc, Option.some_inj] at hx
      subst hx
      exact ⟨i - 1, j - 1, d, _, rest, .diagonal (by omega) (by omega) hmatch hd habs, hrest, rfl⟩
    case isFalse hmatch =>
      split at h
      case isTrue hdelete =>
        obtain ⟨rest, hrest, rfl⟩ := Option.map_eq_some_iff.mp h
        have hsome := hdelete
        simp only [isDeletion, Bool.and_eq_true, decide_eq_true_eq] at hsome
        obtain ⟨x, y, hx, hy, habs⟩ := near_some_right hsome.2
        obtain ⟨u, hu, rfl⟩ := Option.map_eq_some_iff.mp hy
        rw [hc, Option.some_inj] at hx
        subst hx
        exact ⟨i - 1, j, u, _, rest, .above (by omega) hdelete hu habs, hrest, rfl⟩
      case isFalse hdelete =>
        split at h
        case isTrue => cases h
        case isFalse hj =>
          obtain ⟨rest, hrest, rfl⟩ := Option.map_eq_some_iff.mp h
          rw [Bool.not_eq_true] at hmatch hdelete
          obtain ⟨j, rfl⟩ := Nat.exists_eq_succ_of_ne_zero hj
          cases i with
          | zero =>
            have hin := p.inside_of_cost hc
            have hleft : p.inside 0 j = true := by
              have hlo := p.lo_zero
              rw [inside_iff] at hin ⊢
              omega
            rw [cost_zero, if_pos hin, Option.some_inj] at hc
            exact ⟨0, j, j, _, rest, .left rfl (by rw [cost_zero, if_pos hleft])
              (by rw [← hc]; push_cast; rfl), hrest, rfl⟩
          | succ i =>
            have hleft := p.inside_left hi (p.inside_of_cost hc) hmatch hdelete
            obtain ⟨l, hl⟩ := Option.isSome_iff_exists.mp (p.cost_isSome hi hleft)
            refine ⟨i + 1, j, l, _, rest, .left rfl hl ?_, hrest, rfl⟩
            rcases cost_cases hc with ⟨u, hu, rfl⟩ | ⟨l', hl', rfl⟩ | ⟨d, hd, rfl⟩
            · simp [isDeletion, hc, hu, near] at hdelete
            · rw [hl, Option.some_inj] at hl'
              rw [hl']
            · -- a diagonal without evidence costs no less than the two gaps
              have hevidence : p.evidence (i + 1) (j + 1) ≤ 0 := by
                by_contra hpos
                rw [isMatch, Nat.add_sub_cancel, Nat.succ_sub_one, hc, hd] at hmatch
                simp [near, not_le.mp hpos] at hmatch
              have hgap := le_above hl hd
              have hmin := le_left hc hl
              linarith
  · simpa using hcorner

/-- A step costs what the cells it joins differ by, rounding aside. -/
theorem StepTo.pairCost_eq {i j i' j' : Nat} {c c' : ℚ} {step : Step} (hc : p.cost i j = some c)
    (h : StepTo p i j c i' j' c' step) :
    c ≤ c' + p.pairCost step.pair ∧ c' + p.pairCost step.pair ≤ c + tolerance ∧
      (p.Distinguishes → c' + p.pairCost step.pair = c) := by
  have hpos : (0 : ℚ) ≤ tolerance := by norm_num [tolerance]
  cases h with
  | diagonal hi hj hmatch hd hnear =>
    subst hi hj
    simp only [Step.pair, pairCost, Nat.add_sub_cancel]
    exact ⟨le_diagonal hc hd, by linarith [(abs_lt.mp hnear).1],
      fun hdistinct => (hdistinct.diagonal _ _ _ _ hmatch hc hd).symm⟩
  | above hi hdelete hu hnear =>
    subst hi
    simp only [Step.pair, pairCost]
    exact ⟨le_above hc hu, by linarith [(abs_lt.mp hnear).1],
      fun hdistinct => (hdistinct.above _ _ _ _ hdelete hc hu).symm⟩
  | left hj hl hexact =>
    simp only [Step.pair, pairCost]
    exact ⟨by linarith, by linarith, fun _ => hexact.symm⟩

/-- A step extends an alignment of the neighbour's indices to the cell's. -/
theorem StepTo.aligns {i j i' j' : Nat} {c c' : ℚ} {step : Step} (h : StepTo p i j c i' j' c' step)
    {pairs : List Pair} (hpairs : Aligns i' j' pairs) : Aligns i j (pairs ++ [step.pair]) := by
  cases h with
  | diagonal hi hj _ _ _ =>
    subst hi hj
    exact hpairs.matched
  | above hi _ _ _ =>
    subst hi
    exact hpairs.deleted
  | left hj _ _ =>
    subst hj
    exact hpairs.inserted

theorem StepTo.cost_eq {i j i' j' : Nat} {c c' : ℚ} {step : Step}
    (h : StepTo p i j c i' j' c' step) :
    p.cost i' j' = some c' ∧ i' ≤ i ∧ step.row = i ∧ step.column = j := by
  cases h with
  | diagonal hi hj _ hd _ => exact ⟨hd, by omega, rfl, rfl⟩
  | above hi _ hu _ => exact ⟨hu, by omega, rfl, rfl⟩
  | left hj hl _ => exact ⟨hl, Nat.le_refl _, rfl, rfl⟩

/-- What a trace from a cell is: in the corridor, an alignment, and at the
cell's cost, rounding aside. -/
structure Traced (p : Problem α) (i j : Nat) (c : ℚ) (steps : List Step) : Prop where
  inside : ∀ step ∈ steps, p.inside step.row step.column = true
  aligns : Aligns i j (steps.map Step.pair).reverse
  le : c ≤ p.stepsCost steps
  near : p.stepsCost steps ≤ c + steps.length * tolerance
  exact : p.Distinguishes → p.stepsCost steps = c

theorem Traced.nil {c : ℚ} (hc : p.cost 0 0 = some c) : p.Traced 0 0 c [] := by
  have hin := p.inside_of_cost hc
  rw [cost_zero, if_pos hin, Option.some_inj] at hc
  subst hc
  exact ⟨by simp, .nil, by simp [stepsCost], by simp [stepsCost], fun _ => by simp [stepsCost]⟩

/-- **A trace stays in the corridor, covers both sequences in order and costs
its first cell.** -/
theorem traced_of_trace {fuel i j : Nat} {c : ℚ} {steps : List Step} (hi : i ≤ p.source.length)
    (hc : p.cost i j = some c) (h : p.trace fuel i j = some steps) : p.Traced i j c steps := by
  induction fuel generalizing i j c steps with
  | zero =>
    cases i <;> cases j <;> simp only [trace, Option.some_inj, reduceCtorEq] at h
    subst h
    exact .nil hc
  | succ fuel ih =>
    by_cases hcorner : i = 0 ∧ j = 0
    · obtain ⟨rfl, rfl⟩ := hcorner
      simp only [trace, Option.some_inj] at h
      subst h
      exact .nil hc
    -- away from the corner one step was taken, to a cell the induction reaches
    · obtain ⟨i', j', c', step, rest, hstep, hrest, rfl⟩ := exists_stepTo hi hc hcorner h
      obtain ⟨hc', hle, hrow, hcolumn⟩ := hstep.cost_eq
      have htraced := ih (hle.trans hi) hc' hrest
      obtain ⟨hlow, hhigh, hexact⟩ := hstep.pairCost_eq hc
      have hcost : p.stepsCost (step :: rest) = p.pairCost step.pair + p.stepsCost rest := by
        simp [stepsCost]
      refine ⟨?_, ?_, ?_, ?_, ?_⟩
      · intro other hother
        rcases List.mem_cons.mp hother with rfl | hother
        · rw [hrow, hcolumn]
          exact p.inside_of_cost hc
        · exact htraced.inside other hother
      · rw [List.map_cons, List.reverse_cons]
        exact hstep.aligns htraced.aligns
      · have := htraced.le
        rw [hcost]
        linarith
      · have := htraced.near
        rw [hcost, List.length_cons]
        push_cast
        linarith
      · intro hdistinct
        have hrestCost := htraced.exact hdistinct
        have hstepCost := hexact hdistinct
        rw [hcost]
        linarith

end Problem

end Corridor
