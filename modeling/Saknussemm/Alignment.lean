import Saknussemm.Library.Corridor
import Saknussemm.Library.Dict
import Saknussemm.Text

/-! # Token alignment between a line and its correction.

The similarity of tokens drives a dynamic program over the two token
sequences: a gap costs 1, a substitution twice the dissimilarity.  The
loss policy aligns the words of one line and searches everything; a page
producer aligns the lines of a page inside a band. -/

namespace Saknussemm

/-- The next row of an edit-distance table: `row` is the rest of the row
above, starting at the diagonal cell, and `left` the cell just computed. -/
def editRow {α : Type*} (gap : ℚ) (substitution : α → ℚ) : ℚ → List ℚ → List α → List ℚ
  | left, diagonal :: above :: row, y :: ys =>
    let best := min (above + gap) (min (left + gap) (diagonal + substitution y))
    best :: editRow gap substitution best (above :: row) ys
  | _, _, _ => []

/-- The edit-distance table of two sequences, one row per prefix of the first. -/
def editTable {α : Type*} (gap : ℚ) (substitution : α → α → ℚ) (source target : List α) :
    List (List ℚ) :=
  let first := (List.range (target.length + 1)).map fun (j : Nat) => (j : ℚ) * gap
  source.zipIdx.foldl
    (fun rows (x, i) =>
      let above := rows.getLastD first
      let left := ((i + 1 : Nat) : ℚ) * gap
      rows ++ [left :: editRow gap (substitution x) left above target])
    [first]

/-- A cell of a table. -/
def cell (table : List (List ℚ)) (i j : Nat) : ℚ := ((table.getD i []).getD j 0)

/-- One minus the Levenshtein distance over the longer length. -/
def charSimilarity (a b : Str) : ℚ :=
  if a = b then 1
  else if a = [] ∨ b = [] then 0
  else
    let distance := cell (editTable 1 (fun x y => if x = y then 0 else 1) a b) a.length b.length
    1 - distance / (max a.length b.length : Nat)

/-- One correspondence: a match, a deletion or an insertion. -/
structure AlignedPair where
  sourceIndex : Option Nat
  targetIndex : Option Nat
  similarity : ℚ
  deriving DecidableEq

/-- What is searched: everything, or a band that joins the two corners. -/
def alignmentProblem (band : Option Nat) (similarity : Str → Str → ℚ) (source target : List Str) :
    Corridor.Problem Str where
  source := source
  target := target
  similarity := similarity
  width :=
    match band with
    | some band => max band (max (source.length - target.length) (target.length - source.length))
    | none => max source.length target.length
  source_le := by
    cases band <;> dsimp only <;> omega
  target_le := by
    cases band <;> dsimp only <;> omega

/-- The alignment of a line's tokens onto its correction's. -/
structure TokenAlignment where
  pairs : List AlignedPair
  score : ℚ
  moveSuspected : Bool
  /-- The path touched the edge of the band that was searched. -/
  bandExhausted : Bool

/-- The source token a target token was matched with. -/
def TokenAlignment.sourceForTarget (alignment : TokenAlignment) (target : Nat) : Option Nat :=
  (Dict.get? (Dict.ofList (alignment.pairs.filterMap fun pair =>
    pair.targetIndex.map (·, pair.sourceIndex))) target).join

/-- A token the alignment could not settle has a near-identical twin
elsewhere in the corridor. -/
def suspectMove (problem : Corridor.Problem Str) (pairs : List AlignedPair) : Bool :=
  pairs.any fun pair =>
    match pair.sourceIndex with
    | none => false
    | some src =>
      let scan := Corridor.bandedRange (src + 1) problem.source.length problem.target.length
        problem.width
      !(pair.targetIndex.isSome && 1 / 2 ≤ pair.similarity) &&
        (List.range' scan.1 (scan.2 - scan.1)).any fun j =>
          pair.targetIndex ≠ some j && 4 / 5 ≤ problem.evidence (src + 1) (j + 1)

/-- A step of the trace touches the edge of the corridor, away from the
first and the last column. -/
def touchesEdge (problem : Corridor.Problem Str) (step : Corridor.Problem.Step) : Bool :=
  (step.column ≤ problem.lo step.row || problem.hi step.row - 1 ≤ step.column) &&
    0 < step.column && step.column < problem.target.length

/-- Align two token sequences. -/
def alignTokens (band : Option Nat) (similarity : Str → Str → ℚ) (source target : List Str) :
    TokenAlignment :=
  let problem := alignmentProblem band similarity source target
  -- The backtrack of the source ends for every input.
  let steps := problem.steps.get problem.steps_isSome
  let pairs := (steps.map fun step =>
    (⟨step.sourceIndex, step.targetIndex, step.similarity⟩ : AlignedPair)).reverse
  let matched := pairs.filter fun pair => pair.sourceIndex.isSome && pair.targetIndex.isSome
  { pairs := pairs
    score := (matched.map AlignedPair.similarity).sum /
      (max (max source.length target.length) 1 : Nat)
    moveSuspected := suspectMove problem pairs
    bandExhausted := band.isSome && steps.any (touchesEdge problem) }

end Saknussemm
