import Mathlib.Algebra.Order.Field.Rat
import Mathlib.Tactic.Ring

/-! # Ratcliff–Obershelp similarity of two sequences.

The longest common block of two sequences, the earliest one when there
are several; then the same on what lies to its left and to its right.
The ratio is twice the number of matched elements over the total length.
This is `SequenceMatcher` without its junk heuristic. -/

namespace SequenceMatcher

variable {α : Type*} [DecidableEq α]

/-- A common block: where it starts in each sequence, and its size. -/
structure Block where
  start₁ : Nat
  start₂ : Nat
  size : Nat

/-- Lengths of the common blocks that end at element `c` and at each
element of `b`, from those that end one element earlier. -/
def nextRow (c : α) : Nat → List α → List Nat → List Nat
  | _, [], _ => []
  | diagonal, y :: ys, row =>
    (if c = y then diagonal + 1 else 0) :: nextRow c (row.headD 0) ys row.tail

/-- The best block after seeing those of one row, which end at element `i`. -/
def bestOfRow (i : Nat) (best : Block) (row : List Nat) : Block :=
  row.zipIdx.foldl
    (fun best entry =>
      if best.size < entry.1 then ⟨i + 1 - entry.1, entry.2 + 1 - entry.1, entry.1⟩ else best)
    best

/-- The rows in order, with the best block so far. -/
def longestFrom (b : List α) : Nat → List α → List Nat → Block → Block
  | _, [], _, best => best
  | i, c :: rest, row, best =>
    let row := nextRow c 0 b row
    longestFrom b (i + 1) rest row (bestOfRow i best row)

/-- The longest common block of two sequences, the earliest one of its size. -/
def findLongestMatch (a b : List α) : Block := longestFrom b 0 a [] ⟨0, 0, 0⟩

/-- Elements matched by the blocks, `n` nested blocks deep at most. -/
def matched : Nat → List α → List α → Nat
  | 0, _, _ => 0
  | n + 1, a, b =>
    let block := findLongestMatch a b
    if block.size = 0 then 0
    else
      block.size + matched n (a.take block.start₁) (b.take block.start₂) +
        matched n (a.drop (block.start₁ + block.size)) (b.drop (block.start₂ + block.size))

/-- `SequenceMatcher(None, a, b, autojunk=False).ratio()`. -/
def ratio (a b : List α) : ℚ :=
  if a.length + b.length = 0 then 1
  else 2 * matched a.length a b / (a.length + b.length : Nat)

/-! ## The depth is enough

A block lies inside the first sequence, so both remainders are shorter
and a depth of the first sequence's length never cuts the recursion. -/

/-- One row further, a block is at most one element longer. -/
theorem nextRow_le (c : α) (diagonal i : Nat) (b : List α) (row : List Nat)
    (hdiag : diagonal ≤ i) (hrow : ∀ k ∈ row, k ≤ i) :
    ∀ k ∈ nextRow c diagonal b row, k ≤ i + 1 := by
  induction b generalizing diagonal row with
  | nil => simp [nextRow]
  | cons y ys ih =>
    intro k hk
    rw [nextRow, List.mem_cons] at hk
    rcases hk with rfl | hk
    · split <;> omega
    · refine ih _ _ ?_ (fun m hm => hrow m (List.mem_of_mem_tail hm)) k hk
      cases row with
      | nil => simp
      | cons r rest => exact hrow r (by simp)

/-- A block ends inside the first `i` elements. -/
def Block.Within (block : Block) (i : Nat) : Prop := block.start₁ + block.size ≤ i

/-- A row of the table finds no block past its end. -/
theorem bestOfRow_within {i : Nat} {best : Block} {row : List Nat} (hbest : best.Within (i + 1))
    (hrow : ∀ k ∈ row, k ≤ i + 1) : (bestOfRow i best row).Within (i + 1) := by
  unfold bestOfRow
  have hentries : ∀ entry ∈ row.zipIdx, entry.1 ≤ i + 1 := by
    intro entry hentry
    obtain ⟨k, j⟩ := entry
    exact hrow k (List.fst_mem_of_mem_zipIdx hentry)
  generalize row.zipIdx = entries at hentries
  induction entries generalizing best with
  | nil => exact hbest
  | cons entry rest ih =>
    rw [List.foldl_cons]
    apply ih
    · split
      · have := hentries entry (by simp)
        show i + 1 - entry.1 + entry.1 ≤ i + 1
        omega
      · exact hbest
    · exact fun e he => hentries e (List.mem_cons_of_mem _ he)

/-- The rows of the table find no block past their end. -/
theorem longestFrom_within (b : List α) (i : Nat) (rest : List α) (row : List Nat) (best : Block)
    (hrow : ∀ k ∈ row, k ≤ i) (hbest : best.Within i) :
    (longestFrom b i rest row best).Within (i + rest.length) := by
  induction rest generalizing i row best with
  | nil => exact hbest
  | cons c rest ih =>
    have hnext := nextRow_le c 0 i b row (Nat.zero_le _) hrow
    have hwithin : best.Within (i + 1) := Nat.le_succ_of_le hbest
    have := ih (i + 1) _ _ hnext (bestOfRow_within hwithin hnext)
    rw [longestFrom, List.length_cons]
    have hlen : i + (rest.length + 1) = i + 1 + rest.length := by omega
    rw [hlen]
    exact this

theorem findLongestMatch_within (a b : List α) : (findLongestMatch a b).Within a.length := by
  simpa [findLongestMatch] using longestFrom_within b 0 a [] ⟨0, 0, 0⟩ (by simp) (Nat.le_refl _)

/-- **Any depth from the first length on counts the same.** -/
theorem matched_eq {n m : Nat} {a b : List α} (hn : a.length ≤ n) (hm : a.length ≤ m) :
    matched n a b = matched m a b := by
  induction n generalizing m a b with
  | zero =>
    have ha : a = [] := List.eq_nil_of_length_eq_zero (by omega)
    subst ha
    cases m with
    | zero => rfl
    | succ m => simp [matched, findLongestMatch, longestFrom]
  | succ n ih =>
    cases m with
    | zero =>
      have ha : a = [] := List.eq_nil_of_length_eq_zero (by omega)
      subst ha
      simp [matched, findLongestMatch, longestFrom]
    | succ m =>
      have hwithin : (findLongestMatch a b).start₁ + (findLongestMatch a b).size ≤ a.length :=
        findLongestMatch_within a b
      rw [matched, matched]
      split
      · rfl
      · rw [ih (m := m), ih (m := m)]
        all_goals simp only [List.length_take, List.length_drop]
        all_goals omega

end SequenceMatcher
