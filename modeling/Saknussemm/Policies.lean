import Mathlib.Tactic.NormNum
import Saknussemm.Manifest

/-! # The injectable policies.

A policy is a value.  The validators a constructor runs are proof fields
here, so a configuration the source would refuse cannot be built. -/

namespace Saknussemm

/-! ## Hyphen pairing -/

/-- Decides whether a `part1`/`both` line may pair with the following line. -/
structure PairingPolicy where
  maxVerticalGap : Option Nat
  sameBlockOnly : Bool
  geometricChecks : Bool
  maxGapLineHeights : ℚ
  maxRiseLineHeights : ℚ

/-- The default policy: geometric vetting of heuristic pairs. -/
def PairingPolicy.default : PairingPolicy :=
  ⟨none, false, true, 3, 1 / 2⟩

namespace PairingPolicy

/-- Engine-asserted continuation on either side of the pair. -/
def explicit (part1 candidate : LineManifest) : Bool :=
  let forwardExplicit :=
    if part1.hyphenRole = .both then part1.hyphenForwardExplicit else part1.hyphenSourceExplicit
  let backwardExplicit :=
    (candidate.hyphenRole = .part2 || candidate.hyphenRole = .both)
      && candidate.hyphenSourceExplicit
  forwardExplicit || backwardExplicit

/-- A box with no area. -/
def degenerate (c : Coords) : Bool := c.height ≤ 0 || c.width ≤ 0

/-- The legacy absolute veto, meaningful only within a page. -/
def gapVetoed (policy : PairingPolicy) (part1 candidate : LineManifest) : Bool :=
  match policy.maxVerticalGap with
  | none => false
  | some limit =>
    part1.pageId = candidate.pageId &&
      candidate.coords.vpos - (part1.coords.vpos + part1.coords.height) > (limit : Int)

/-- The geometric plausibility of a heuristic pair on one page. -/
def continues (policy : PairingPolicy) (part1 candidate : LineManifest) : Bool :=
  let a := part1.coords
  let b := candidate.coords
  let gap : ℚ := b.vpos - (a.vpos + a.height)
  let belowOk : Bool := gap ≤ policy.maxGapLineHeights * a.height
  let riseOk : Bool := gap ≥ -policy.maxRiseLineHeights * a.height
  let hOverlap : Bool := b.hpos < a.hpos + a.width && a.hpos < b.hpos + b.width
  if part1.blockId = candidate.blockId then belowOk && riseOk
  else if riseOk then belowOk && hOverlap
  else !hOverlap && b.vpos + b.height ≤ a.vpos

/-- May `candidate` be the second half of the word `part1` breaks? -/
def canPair (policy : PairingPolicy) (part1 candidate : LineManifest) : Bool :=
  if policy.sameBlockOnly &&
      (part1.pageId ≠ candidate.pageId || part1.blockId ≠ candidate.blockId) then false
  else if policy.gapVetoed part1 candidate then false
  else if !policy.geometricChecks then true
  else if part1.pageId ≠ candidate.pageId then true
  else if explicit part1 candidate then true
  else if degenerate part1.coords || degenerate candidate.coords then true
  else if part1.coords = candidate.coords then true
  else policy.continues part1 candidate

/-- Across pages the geometry is not comparable: only `sameBlockOnly` refuses. -/
theorem canPair_of_pageId_ne {policy : PairingPolicy} {part1 candidate : LineManifest}
    (h : part1.pageId ≠ candidate.pageId) :
    policy.canPair part1 candidate = !policy.sameBlockOnly := by
  have hgap : policy.gapVetoed part1 candidate = false := by
    unfold gapVetoed
    split <;> simp [h]
  cases hs : policy.sameBlockOnly <;> simp [canPair, hs, h, hgap]

end PairingPolicy

/-! ## Acceptance thresholds

The three stages of text-migration guards tune together, so their numbers
live in one object.  Ratios are exact rationals here where the source has
floats. -/

/-- All anti-migration and acceptance thresholds. -/
structure GuardConfig where
  /-- Stage C: minimum similarity between source and correction. -/
  minSourceSimilarity : ℚ
  neighbourMargin : ℚ
  duplicateThreshold : ℚ
  duplicateSourceMinDiff : ℚ
  absorptionLengthRatio : ℚ
  absorptionConcatSimilarity : ℚ
  /-- Stage B: the pair reconciliation bounds. -/
  part1MaxWordGrowth : Nat
  part1LastWordCharGrowth : Nat
  part1CharGrowthRatio : ℚ
  part1CharGrowthSlack : Nat
  part2CollapseRatio : ℚ
  part2ExpansionFloor : Nat
  part2ExpansionRatio : ℚ
  boundaryPrefixLen : Nat
  boundaryLenRatioMin : ℚ
  boundaryLenRatioMax : ℚ
  /-- Stage A: the drift that is worth a retry. -/
  pairDriftPart1WordGrowth : Nat
  pairDriftPart2MinWords : Nat
  pairDriftPart2CollapseRatio : ℚ
  /-- Edit protocol: how far a span may grow, and a line may change. -/
  editSpanMaxGrowthRatio : ℚ
  editLineMaxChangedChars : Nat
  /-- An inverted band would reject every boundary word. -/
  band_ordered : boundaryLenRatioMin ≤ boundaryLenRatioMax

/-- The default thresholds. -/
def GuardConfig.default : GuardConfig where
  minSourceSimilarity := 35 / 100
  neighbourMargin := 15 / 100
  duplicateThreshold := 85 / 100
  duplicateSourceMinDiff := 70 / 100
  absorptionLengthRatio := 12 / 10
  absorptionConcatSimilarity := 8 / 10
  part1MaxWordGrowth := 1
  part1LastWordCharGrowth := 3
  part1CharGrowthRatio := 14 / 10
  part1CharGrowthSlack := 8
  part2CollapseRatio := 4 / 10
  part2ExpansionFloor := 3
  part2ExpansionRatio := 4 / 10
  boundaryPrefixLen := 2
  boundaryLenRatioMin := 1 / 2
  boundaryLenRatioMax := 2
  pairDriftPart1WordGrowth := 2
  pairDriftPart2MinWords := 2
  pairDriftPart2CollapseRatio := 4 / 10
  editSpanMaxGrowthRatio := 4
  editLineMaxChangedChars := 200
  band_ordered := by norm_num

/-! ## Format losses -/

/-- What the run does when projecting a correction would lose word
geometry: report it, refuse it, or refuse it unless the tokens align. -/
structure LossPolicy where
  strict : Bool
  minAlignmentScore : Option ℚ

/-- The default: losses are projected and reported. -/
def LossPolicy.default : LossPolicy := ⟨false, none⟩

/-! ## Retries -/

/-- Per-chunk retry strategy.  `perChunkBudget` bounds the attempts of a
chunk over its whole granularity descent. -/
structure RetryPolicy where
  maxAttempts : Nat
  temperatures : List ℚ
  transientBackoffBase : ℚ
  outputBackoffBase : ℚ
  perChunkBudget : Nat
  attempts_pos : 1 ≤ maxAttempts
  budget_pos : 1 ≤ perChunkBudget
  temperatures_range : ∀ t ∈ temperatures, 0 ≤ t ∧ t ≤ 2

/-- The default ramp. -/
def RetryPolicy.default : RetryPolicy where
  maxAttempts := 3
  temperatures := [0, 3 / 10, 5 / 10]
  transientBackoffBase := 2
  outputBackoffBase := 1
  perChunkBudget := 6
  attempts_pos := by decide
  budget_pos := by decide
  temperatures_range := by
    intro t ht
    simp only [List.mem_cons, List.not_mem_nil, or_false] at ht
    rcases ht with rfl | rfl | rfl <;> norm_num

/-- Temperature of a 1-based attempt, clamped to the last entry. -/
def RetryPolicy.temperatureFor (policy : RetryPolicy) (attempt : Nat) : ℚ :=
  match policy.temperatures with
  | [] => 0
  | first :: rest =>
    ((first :: rest)[min (max attempt 1 - 1) rest.length]?).getD first

/-! ## Routing -/

/-- What the router decided for one line. -/
inductive RoutingDecision where
  | skip | llm | escalate
  deriving DecidableEq, Repr

/-- Per-line routing thresholds over a quality score.  Overlapping bands
would leave no tier for the ordinary case. -/
structure RoutingPolicy where
  skipAtOrBelow : Option ℚ
  escalateAtOrAbove : Option ℚ
  bounds_apart : ∀ lo ∈ skipAtOrBelow, ∀ hi ∈ escalateAtOrAbove, lo < hi

/-- The default: routing is off. -/
def RoutingPolicy.default : RoutingPolicy := ⟨none, none, by simp⟩

/-- Route one line by its score.  The low bound wins its ties. -/
def routeLine (score : ℚ) (policy : RoutingPolicy) : RoutingDecision :=
  if policy.skipAtOrBelow.any (score ≤ ·) then .skip
  else if policy.escalateAtOrAbove.any (score ≥ ·) then .escalate
  else .llm

/-! ## Chunk planning -/

/-- Granularity tier of the chunk planner, coarsest first. -/
inductive ChunkGranularity where
  | page | block | window | line
  deriving DecidableEq, Repr

/-- Tunables of the chunk planner.  The validator refuses an overlap as
large as the window; an updated copy is not validated and may hold one. -/
structure ChunkPlannerConfig where
  maxInputCharsPerRequest : Nat
  maxLinesPerRequest : Nat
  lineWindowSize : Nat
  lineWindowOverlap : Nat
  chars_pos : 0 < maxInputCharsPerRequest
  lines_pos : 0 < maxLinesPerRequest
  window_pos : 0 < lineWindowSize

/-- One unit of work sent to a producer.  Lines outside `targetLineIds`
are context only; `none` makes every line a target. -/
structure ChunkRequest where
  pageId : Str
  blockId : Option Str
  granularity : ChunkGranularity
  lineIds : List Str
  targetLineIds : Option (List Str)
  deriving DecidableEq

/-- The line ids a chunk owns. -/
def ChunkRequest.targets (chunk : ChunkRequest) : List Str :=
  chunk.targetLineIds.getD chunk.lineIds

/-- Record of a severed forward hyphen link. -/
structure HyphenSplit where
  pageId : Str
  tailLineId : Str
  headLineId : Str
  deriving DecidableEq, Repr

/-- The chunks of one page, and the links severed to make them. -/
structure ChunkPlan where
  pageId : Str
  chunks : List ChunkRequest
  granularity : ChunkGranularity
  hyphenSplits : List HyphenSplit
  deriving DecidableEq

end Saknussemm
