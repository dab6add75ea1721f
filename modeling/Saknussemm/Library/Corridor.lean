import Mathlib.Algebra.Order.Field.Rat
import Mathlib.Algebra.Order.Ring.Abs
import Mathlib.Tactic.Linarith
import Mathlib.Tactic.Ring

/-! # Alignment of two sequences inside a diagonal corridor.

A gap costs 1, a match twice the dissimilarity of its elements.  The costs
are computed only in a corridor around the interpolated diagonal, wide
enough to join the corners, and traced back from the far one.  The trace
always arrives, never crosses itself, and matches nothing without
evidence. -/

namespace Corridor

/-! ## The corridor -/

/-- `a / b` rounded to the nearest integer, ties to the even one. -/
def roundHalfEven (a b : Nat) : Nat :=
  if 2 * (a % b) < b then a / b
  else if b < 2 * (a % b) then a / b + 1
  else if (a / b) % 2 = 0 then a / b
  else a / b + 1

/-- The column of the interpolated diagonal in row `i` of `n`. -/
def centre (n m i : Nat) : Nat :=
  if n = m then i else if n = 0 then 0 else roundHalfEven (i * m) n

/-- Columns reachable from row `i` under a band, the second one excluded. -/
def bandedRange (i n m band : Nat) : Nat × Nat :=
  (centre n m i - band, min m (centre n m i + band + 1))

theorem roundHalfEven_bounds {b : Nat} (a : Nat) (hb : 0 < b) :
    2 * a ≤ 2 * (b * roundHalfEven a b) + b ∧ 2 * (b * roundHalfEven a b) ≤ 2 * a + b := by
  have hdiv := Nat.div_add_mod a b
  have hmod := Nat.mod_lt a hb
  rw [roundHalfEven]
  generalize a % b = r at hdiv hmod ⊢
  generalize a / b = q at hdiv ⊢
  have hsucc : b * (q + 1) = b * q + b := Nat.mul_succ b q
  split_ifs <;> omega

theorem roundHalfEven_mono {a a' b : Nat} (hb : 0 < b) (h : a ≤ a') :
    roundHalfEven a b ≤ roundHalfEven a' b := by
  rcases Nat.eq_or_lt_of_le h with rfl | hlt
  · exact Nat.le_refl _
  · by_contra hgt
    have hle : b * (roundHalfEven a' b + 1) ≤ b * roundHalfEven a b :=
      Nat.mul_le_mul_left b (by omega)
    have hlow := (roundHalfEven_bounds a' hb).1
    have hhigh := (roundHalfEven_bounds a hb).2
    rw [Nat.mul_add, Nat.mul_one] at hle
    omega

theorem roundHalfEven_mul (k : Nat) {b : Nat} (hb : 0 < b) : roundHalfEven (b * k) b = k := by
  rw [roundHalfEven, Nat.mul_mod_right, Nat.mul_div_cancel_left k hb]
  simp [hb]

variable {n m : Nat}

theorem centre_mono {i i' : Nat} (h : i ≤ i') : centre n m i ≤ centre n m i' := by
  rw [centre, centre]
  split_ifs with hnm hn
  · exact h
  · exact Nat.le_refl _
  · exact roundHalfEven_mono (by omega) (Nat.mul_le_mul_right m h)

/-- The diagonal ends in the far corner. -/
theorem centre_last (h : 0 < n ∨ m = 0) : centre n m n = m := by
  rw [centre]
  split_ifs with hnm hn
  · exact hnm
  · omega
  · exact roundHalfEven_mul m (by omega)

theorem centre_le {i : Nat} (hi : i ≤ n) : centre n m i ≤ m := by
  by_cases h : 0 < n ∨ m = 0
  · have := centre_mono (n := n) (m := m) hi
    rwa [centre_last h] at this
  · rw [centre]
    split_ifs <;> omega

/-- The diagonal does not jump further than the corridor is wide. -/
theorem centre_succ_le {i width : Nat} (hi : i < n) (hwide : m - n ≤ width) :
    centre n m (i + 1) ≤ centre n m i + width + 2 := by
  rw [centre, centre]
  split_ifs with hnm hn
  · omega
  · omega
  · have hlow := (roundHalfEven_bounds (i * m) (b := n) (by omega)).1
    have hhigh := (roundHalfEven_bounds ((i + 1) * m) (b := n) (by omega)).2
    generalize roundHalfEven (i * m) n = c at hlow ⊢
    generalize roundHalfEven ((i + 1) * m) n = c' at hhigh ⊢
    by_contra hgt
    have hstep : n * (c + width + 3) ≤ n * c' := Nat.mul_le_mul_left n (by omega)
    have hwidth : m ≤ n * (width + 1) := by
      have hle : m ≤ n + width := by omega
      have hmul : width ≤ n * width := Nat.le_mul_of_pos_left width (by omega)
      rw [Nat.mul_add, Nat.mul_one]
      omega
    have hexpand : n * (c + width + 3) = n * c + n * (width + 1) + 2 * n := by ring
    rw [Nat.add_mul, Nat.one_mul] at hhigh
    omega

/-! ## Problems -/

/-- Two sequences to align, and how wide a corridor to search: at least as
wide as their lengths differ. -/
structure Problem (α : Type*) where
  source : List α
  target : List α
  similarity : α → α → ℚ
  width : Nat
  source_le : source.length - target.length ≤ width
  target_le : target.length - source.length ≤ width

namespace Problem

variable {α : Type*} (p : Problem α)

/-- The first column of row `i`: the corridor's, with one column to spare. -/
def lo (i : Nat) : Nat := (bandedRange i p.source.length p.target.length p.width).1 - 1

/-- The column after the last one of row `i`. -/
def hi (i : Nat) : Nat :=
  min (p.target.length + 1) ((bandedRange i p.source.length p.target.length p.width).2 + 1)

/-- Is the cell in the corridor? -/
def inside (i j : Nat) : Bool := p.lo i ≤ j && j < p.hi i

/-- The similarity of the elements a diagonal step into the cell matches. -/
def evidence (i j : Nat) : ℚ :=
  match p.source[i - 1]?, p.target[j - 1]? with
  | some x, some y => p.similarity x y
  | _, _ => 0

/-- The least of the costs there are. -/
def least : Option ℚ → Option ℚ → Option ℚ
  | none, b => b
  | a, none => a
  | some a, some b => some (min a b)

/-- A row of costs from the one above it. -/
def row (i : Nat) (above : Nat → Option ℚ) : Nat → Option ℚ
  | 0 => if p.inside i 0 then some i else none
  | j + 1 =>
    if p.inside i (j + 1) then
      least ((above (j + 1)).map (· + 1))
        (least ((row i above j).map (· + 1))
          ((above j).map (· + 2 * (1 - p.evidence i (j + 1)))))
    else none

/-- The cost of aligning the first `i` elements with the first `j`; no cost
outside the corridor. -/
def cost : Nat → Nat → Option ℚ
  | 0 => fun j => if p.inside 0 j then some j else none
  | i + 1 => p.row (i + 1) (cost i)

/-! ## Tracing back -/

/-- One step of the trace: the cell it leaves, and what it says of the two
sequences: a match, a deletion or an insertion. -/
structure Step where
  row : Nat
  column : Nat
  sourceIndex : Option Nat
  targetIndex : Option Nat
  similarity : ℚ

/-- Two costs that are the same number, rounding aside. -/
def near : Option ℚ → Option ℚ → Bool
  | some a, some b => |a - b| < 1 / 1000000000
  | _, _ => false

/-- Does the cost of a cell come from the diagonal, with evidence? -/
def isMatch (i j : Nat) : Bool :=
  0 < i && 0 < j && 0 < p.evidence i j &&
    near (p.cost i j) ((p.cost (i - 1) (j - 1)).map (· + 2 * (1 - p.evidence i j)))

/-- Does it come from the row above? -/
def isDeletion (i j : Nat) : Bool :=
  0 < i && near (p.cost i j) ((p.cost (i - 1) j).map (· + 1))

/-- The trace from a cell back to the near corner, and `none` when it does
not get there: because `fuel` steps are too few, or because it leaves the
first column sideways, from where it would walk on for ever. -/
def trace : Nat → Nat → Nat → Option (List Step)
  | _, 0, 0 => some []
  | 0, _, _ => none
  | fuel + 1, i, j =>
    if p.isMatch i j then
      (⟨i, j, some (i - 1), some (j - 1), p.evidence i j⟩ :: ·) <$> trace fuel (i - 1) (j - 1)
    else if p.isDeletion i j then
      (⟨i, j, some (i - 1), none, 0⟩ :: ·) <$> trace fuel (i - 1) j
    else if j = 0 then none
    else (⟨i, j, none, some (j - 1), 0⟩ :: ·) <$> trace fuel i (j - 1)

/-- The trace from the far corner. -/
def steps : Option (List Step) :=
  p.trace (p.source.length + p.target.length) p.source.length p.target.length

/-! ## Costs in the corridor -/

theorem inside_iff {i j : Nat} : p.inside i j = true ↔ p.lo i ≤ j ∧ j < p.hi i := by
  simp [inside]

theorem lo_mono {i i' : Nat} (h : i ≤ i') : p.lo i ≤ p.lo i' := by
  have := centre_mono (n := p.source.length) (m := p.target.length) h
  simp only [lo, bandedRange]
  omega

theorem lo_zero : p.lo 0 = 0 := by
  have : centre p.source.length p.target.length 0 = 0 := by
    rw [centre]
    split_ifs <;> simp [roundHalfEven]
  simp [lo, bandedRange, this]

theorem hi_pos (i : Nat) : 0 < p.hi i := by
  simp only [hi]
  omega

/-- A row begins before the one above it ends. -/
theorem lo_succ_lt_hi {i : Nat} (hi' : i < p.source.length) : p.lo (i + 1) < p.hi i := by
  have hstep := centre_succ_le (m := p.target.length) hi' p.target_le
  have hle := centre_le (m := p.target.length) (show i + 1 ≤ p.source.length from hi')
  simp only [lo, hi, bandedRange]
  omega

/-- The far corner is in the corridor. -/
theorem inside_corner : p.inside p.source.length p.target.length = true := by
  have hwide := p.target_le
  have hcentre : p.target.length ≤ centre p.source.length p.target.length
      p.source.length + p.width := by
    by_cases h : 0 < p.source.length ∨ p.target.length = 0
    · rw [centre_last h]
      omega
    · omega
  have hle := centre_le (m := p.target.length) (Nat.le_refl p.source.length)
  rw [inside_iff, lo, hi]
  simp only [bandedRange]
  omega

theorem cost_zero (j : Nat) : p.cost 0 j = if p.inside 0 j then some (j : ℚ) else none := rfl

theorem cost_succ_zero (i : Nat) :
    p.cost (i + 1) 0 = if p.inside (i + 1) 0 then some ((i + 1 : Nat) : ℚ) else none := rfl

theorem cost_succ_succ (i j : Nat) : p.cost (i + 1) (j + 1) =
    if p.inside (i + 1) (j + 1) then
      least ((p.cost i (j + 1)).map (· + 1))
        (least ((p.cost (i + 1) j).map (· + 1))
          ((p.cost i j).map (· + 2 * (1 - p.evidence (i + 1) (j + 1)))))
    else none := rfl

theorem cost_first {i : Nat} (h : p.inside i 0 = true) : p.cost i 0 = some (i : ℚ) := by
  cases i with
  | zero => rw [cost_zero, if_pos h]
  | succ i => rw [cost_succ_zero, if_pos h]

theorem inside_of_cost {i j : Nat} {c : ℚ} (h : p.cost i j = some c) : p.inside i j = true := by
  by_contra hnot
  rw [Bool.not_eq_true] at hnot
  cases i with
  | zero => simp [cost_zero, hnot] at h
  | succ i =>
    cases j with
    | zero => simp [cost_succ_zero, hnot] at h
    | succ j => simp [cost_succ_succ, hnot] at h

theorem least_eq_some {a b : Option ℚ} {c : ℚ}
    (h : least a b = some c) : a = some c ∨ b = some c := by
  cases a <;> cases b <;> simp [least] at h ⊢
  · exact h
  · exact h
  · next x y =>
    rcases min_choice x y with hx | hy
    · exact .inl (hx ▸ h)
    · exact .inr (hy ▸ h)

theorem least_le_left {a b : Option ℚ} {x c : ℚ} (hx : a = some x) (h : least a b = some c) :
    c ≤ x := by
  subst hx
  cases b <;> simp [least] at h <;> subst h
  · exact le_refl _
  · exact min_le_left _ _

theorem least_isSome {a b : Option ℚ} (h : a.isSome ∨ b.isSome) : (least a b).isSome := by
  cases a <;> cases b <;> grind [least]

/-- **Every cell of the corridor has a cost.** -/
theorem cost_isSome {i j : Nat} (hi : i ≤ p.source.length) (h : p.inside i j = true) :
    (p.cost i j).isSome := by
  induction i generalizing j with
  | zero => simp [cost_zero, h]
  | succ i ih =>
    have hrow : ∀ j, p.inside (i + 1) j = true → (p.cost (i + 1) j).isSome := by
      intro j
      induction j with
      | zero =>
        intro h
        simp [cost_succ_zero, h]
      | succ j ihj =>
        intro h
        rw [cost_succ_succ, if_pos h]
        by_cases hleft : p.inside (i + 1) j = true
        · have := ihj hleft
          exact least_isSome (.inr (least_isSome (.inl (by simpa using this))))
        · -- the first cell of the row lies below a cell of the row above
          have hlo := p.lo_succ_lt_hi (show i < p.source.length from hi)
          have hmono := p.lo_mono (show i ≤ i + 1 by omega)
          rw [inside_iff] at h hleft
          have hup : p.inside i (j + 1) = true := by
            rw [inside_iff]
            omega
          have := ih (by omega) hup
          exact least_isSome (.inl (by simpa using this))
    exact hrow j h

theorem isSome_of_near {a b : Option ℚ} (h : near a b = true) : b.isSome := by
  cases a <;> cases b <;> simp [near] at h ⊢

/-- In the first column a cell below the corner comes from the one above. -/
theorem isDeletion_first {i : Nat} (h : p.inside (i + 1) 0 = true) :
    p.isDeletion (i + 1) 0 = true := by
  have habove : p.inside i 0 = true := by
    have hlo := p.lo_mono (show i ≤ i + 1 by omega)
    have hpos := p.hi_pos i
    rw [inside_iff] at h ⊢
    omega
  rw [isDeletion, p.cost_first h, Nat.add_sub_cancel, p.cost_first habove]
  simp [near]

/-- **A cell that comes from neither side comes from its left**: the one
to its left is in the corridor. -/
theorem inside_left {i j : Nat} (hi : i + 1 ≤ p.source.length) (h : p.inside (i + 1) (j + 1) = true)
    (hmatch : p.isMatch (i + 1) (j + 1) = false) (hdelete : p.isDeletion (i + 1) (j + 1) = false) :
    p.inside (i + 1) j = true := by
  by_contra hleft
  have hlo := p.lo_succ_lt_hi (show i < p.source.length from hi)
  have hmono := p.lo_mono (show i ≤ i + 1 by omega)
  have hup : p.inside i (j + 1) = true := by
    rw [inside_iff] at h hleft ⊢
    omega
  have hleftNone : p.cost (i + 1) j = none := by
    by_contra hsome
    obtain ⟨c, hc⟩ := Option.ne_none_iff_exists'.mp hsome
    exact hleft (p.inside_of_cost hc)
  obtain ⟨c, hc⟩ := Option.isSome_iff_exists.mp (p.cost_isSome hi h)
  obtain ⟨u, hu⟩ := Option.isSome_iff_exists.mp (p.cost_isSome (Nat.le_of_succ_le hi) hup)
  have hcell := hc
  rw [cost_succ_succ, if_pos h, hleftNone, hu] at hcell
  have hle : c ≤ u + 1 := least_le_left rfl hcell
  have hnotUp : c ≠ u + 1 := by
    rintro rfl
    rw [isDeletion, Nat.add_sub_cancel, hc, hu] at hdelete
    simp [near] at hdelete
  have hdiag := (least_eq_some hcell).resolve_left (by simpa using Ne.symm hnotUp)
  have hdiag : (p.cost i j).map (· + 2 * (1 - p.evidence (i + 1) (j + 1))) = some c := by
    simpa [least] using hdiag
  obtain ⟨d, hd, rfl⟩ := Option.map_eq_some_iff.mp hdiag
  -- no evidence: the diagonal is no cheaper than a gap on either side
  have hevidence : p.evidence (i + 1) (j + 1) ≤ 0 := by
    by_contra hpos
    rw [isMatch, Nat.add_sub_cancel, Nat.add_sub_cancel, hc, hd] at hmatch
    simp [near, not_le.mp hpos] at hmatch
  have hud : u ≤ d + 1 := by
    cases i with
    | zero =>
      have hdiagonal := p.inside_of_cost hd
      rw [cost_zero, if_pos hup] at hu
      rw [cost_zero, if_pos hdiagonal] at hd
      simp only [Option.some_inj] at hu hd
      rw [← hu, ← hd]
      push_cast
      exact le_refl _
    | succ i =>
      rw [cost_succ_succ, if_pos hup, hd] at hu
      rcases hup' : (p.cost i (j + 1)).map (· + 1) with _ | a
      · rw [hup'] at hu
        exact least_le_left rfl (by simpa [least] using hu)
      · rw [hup'] at hu
        cases hrest : (p.cost i j).map (· + 2 * (1 - p.evidence (i + 1) (j + 1))) <;>
          rw [hrest] at hu <;> simp [least] at hu <;> rw [← hu] <;> simp
  apply hnotUp
  linarith

/-! ## The trace arrives -/

/-- **From any cell of the corridor the trace reaches the corner.** -/
theorem trace_isSome {fuel i j : Nat} (hfuel : i + j ≤ fuel) (hi : i ≤ p.source.length)
    (h : p.inside i j = true) : (p.trace fuel i j).isSome := by
  -- induction on the fuel along the cases of `trace`; each move keeps to the corridor
  induction fuel generalizing i j with
  | zero =>
    obtain rfl : i = 0 := by omega
    obtain rfl : j = 0 := by omega
    rfl
  | succ fuel ih =>
    match i, j with
    | 0, 0 => rfl
    | 0, j + 1 =>
      have hleft : p.inside 0 j = true := by
        have hlo := p.lo_zero
        rw [inside_iff] at h ⊢
        omega
      have hmatch : p.isMatch 0 (j + 1) = false := by simp [isMatch]
      have hdelete : p.isDeletion 0 (j + 1) = false := by simp [isDeletion]
      rw [trace, if_neg (by simp [hmatch]), if_neg (by simp [hdelete]), if_neg (by omega)]
      · simpa using ih (by omega) (by omega) hleft
      · simp
    | i + 1, j =>
      rw [trace]
      · split
        case isTrue hmatch =>
          have hsome := hmatch
          simp only [isMatch, Bool.and_eq_true, decide_eq_true_eq] at hsome
          have hprev := isSome_of_near hsome.2
          rw [Option.isSome_map] at hprev
          obtain ⟨c, hc⟩ := Option.isSome_iff_exists.mp hprev
          simpa using ih (by omega) (by omega) (p.inside_of_cost hc)
        case isFalse hmatch =>
          split
          case isTrue hdelete =>
            -- a move to a finite neighbour stays inside because only the corridor has costs
            have hsome := hdelete
            simp only [isDeletion, Bool.and_eq_true, decide_eq_true_eq] at hsome
            have hprev := isSome_of_near hsome.2
            rw [Option.isSome_map] at hprev
            obtain ⟨c, hc⟩ := Option.isSome_iff_exists.mp hprev
            simpa using ih (by omega) (by omega) (p.inside_of_cost hc)
          case isFalse hdelete =>
            cases j with
            | zero => exact absurd (p.isDeletion_first h) hdelete
            | succ j =>
              rw [if_neg (by omega)]
              have hleft := p.inside_left hi h (by simpa using hmatch) (by simpa using hdelete)
              simpa using ih (by omega) hi hleft
      · simp

/-- **The trace from the far corner arrives.** -/
theorem steps_isSome : p.steps.isSome :=
  p.trace_isSome (Nat.le_refl _) (Nat.le_refl _) p.inside_corner

/-! ## What the trace says -/

/-- A step before cell `(i, j)`: its indices are smaller, and a match comes
with evidence. -/
structure Step.Sound (p : Problem α) (i j : Nat) (step : Step) : Prop where
  source_lt : ∀ k ∈ step.sourceIndex, k < i
  target_lt : ∀ k ∈ step.targetIndex, k < j
  evident : ∀ k ∈ step.sourceIndex, ∀ l ∈ step.targetIndex,
    step.similarity = p.evidence (k + 1) (l + 1) ∧ 0 < p.evidence (k + 1) (l + 1)

theorem Step.Sound.mono {i j i' j' : Nat} {step : Step} (h : step.Sound p i j) (hi : i ≤ i')
    (hj : j ≤ j') : step.Sound p i' j' where
  source_lt k hk := Nat.lt_of_lt_of_le (h.source_lt k hk) hi
  target_lt k hk := Nat.lt_of_lt_of_le (h.target_lt k hk) hj
  evident := h.evident

/-- Later steps of a trace have smaller indices. -/
def Step.After (later earlier : Step) : Prop :=
  (∀ k ∈ later.sourceIndex, ∀ l ∈ earlier.sourceIndex, k < l) ∧
    ∀ k ∈ later.targetIndex, ∀ l ∈ earlier.targetIndex, k < l

/-- **A trace never crosses itself and matches nothing without evidence.** -/
theorem trace_sound {fuel i j : Nat} {steps : List Step} (h : p.trace fuel i j = some steps) :
    (∀ step ∈ steps, step.Sound p i j) ∧
      steps.Pairwise fun earlier later => later.After earlier := by
  induction fuel generalizing i j steps with
  | zero =>
    cases i <;> cases j <;> simp only [trace, Option.some_inj, reduceCtorEq] at h
    subst h
    simp
  | succ fuel ih =>
    by_cases hcorner : i = 0 ∧ j = 0
    · obtain ⟨rfl, rfl⟩ := hcorner
      simp only [trace, Option.some_inj] at h
      subst h
      simp
    · rw [trace] at h
      · -- a step out of `(i, j)`, and the trace from the cell it leads to
        have hcons : ∀ (i' j' : Nat) (step : Step) (rest : List Step), i' ≤ i → j' ≤ j →
            p.trace fuel i' j' = some rest → step.Sound p i j →
            (∀ k ∈ step.sourceIndex, i' ≤ k) → (∀ k ∈ step.targetIndex, j' ≤ k) →
            (∀ s ∈ step :: rest, s.Sound p i j) ∧
              (step :: rest).Pairwise fun earlier later => later.After earlier := by
          intro i' j' step rest hi hj hrest hsound hsource htarget
          obtain ⟨hall, hpair⟩ := ih hrest
          constructor
          · intro s hs
            rcases List.mem_cons.mp hs with rfl | hs
            · exact hsound
            · exact (hall s hs).mono p hi hj
          · refine List.pairwise_cons.mpr ⟨fun s hs => ⟨?_, ?_⟩, hpair⟩
            · intro k hk l hl
              exact Nat.lt_of_lt_of_le ((hall s hs).source_lt k hk) (hsource l hl)
            · intro k hk l hl
              exact Nat.lt_of_lt_of_le ((hall s hs).target_lt k hk) (htarget l hl)
        split at h
        case isTrue hmatch =>
          obtain ⟨rest, hrest, rfl⟩ := Option.map_eq_some_iff.mp h
          simp only [isMatch, Bool.and_eq_true, decide_eq_true_eq] at hmatch
          obtain ⟨⟨⟨hi, hj⟩, hevidence⟩, -⟩ := hmatch
          have hsource : ∀ k ∈ some (i - 1), k = i - 1 := fun k hk => by cases hk; rfl
          have htarget : ∀ l ∈ some (j - 1), l = j - 1 := fun l hl => by cases hl; rfl
          refine hcons _ _ _ rest (by omega) (by omega) hrest ⟨?_, ?_, ?_⟩ ?_ ?_
          · exact fun k hk => by have := hsource k hk; omega
          · exact fun l hl => by have := htarget l hl; omega
          · intro k hk l hl
            rw [hsource k hk, htarget l hl, Nat.sub_add_cancel hi, Nat.sub_add_cancel hj]
            exact ⟨rfl, hevidence⟩
          · exact fun k hk => by have := hsource k hk; omega
          · exact fun l hl => by have := htarget l hl; omega
        case isFalse =>
          split at h
          case isTrue hdelete =>
            obtain ⟨rest, hrest, rfl⟩ := Option.map_eq_some_iff.mp h
            simp only [isDeletion, Bool.and_eq_true, decide_eq_true_eq] at hdelete
            have hsource : ∀ k ∈ some (i - 1), k = i - 1 := fun k hk => by cases hk; rfl
            refine hcons _ _ _ rest (by omega) (by omega) hrest ⟨?_, ?_, ?_⟩ ?_ ?_
            · exact fun k hk => by have := hsource k hk; omega
            · exact fun l hl => by cases hl
            · exact fun k hk l hl => by cases hl
            · exact fun k hk => by have := hsource k hk; omega
            · exact fun l hl => by cases hl
          case isFalse =>
            split at h
            · cases h
            · obtain ⟨rest, hrest, rfl⟩ := Option.map_eq_some_iff.mp h
              have htarget : ∀ l ∈ some (j - 1), l = j - 1 := fun l hl => by cases hl; rfl
              refine hcons _ _ _ rest (by omega) (by omega) hrest ⟨?_, ?_, ?_⟩ ?_ ?_
              · exact fun k hk => by cases hk
              · exact fun l hl => by have := htarget l hl; omega
              · exact fun k hk => by cases hk
              · exact fun k hk => by cases hk
              · exact fun l hl => by have := htarget l hl; omega
      · simpa using hcorner

end Problem

end Corridor
