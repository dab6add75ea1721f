import Mathlib.Data.Rat.Floor
import Saknussemm.Library.Dict
import Saknussemm.Library.SequenceMatcher
import Saknussemm.Norm
import Saknussemm.Pairing

/-! # The text-migration guards.

Stage B judges the two lines of a hyphen pair, stage C one line against
its source and its neighbours, and two document-wide checks compare
adjacent lines.  Each is a function of texts and thresholds. -/

namespace Saknussemm

/-! ## Stage B: a pair -/

/-- The first half appears extended, or pulled from the second: too many
words, a last word that grew, or too many characters. -/
def part1TextMigrated (ocrText correctedText : Str) (config : GuardConfig) : Bool :=
  let ocrBare := rstrip (stripTrailingBreakMarks ocrText)
  let correctedBare := rstripChars ['.'] (stripTrailingBreakMarks correctedText)
  let ocrWords := split ocrBare
  let correctedWords := split correctedBare
  if ocrWords.length + config.part1MaxWordGrowth < correctedWords.length then true
  else
    let lastGrew :=
      match ocrWords.getLast?, correctedWords.getLast? with
      | some ocrLast, some correctedLast =>
        (stripTrailingBreakMarks ocrLast).length + config.part1LastWordCharGrowth <
          (stripTrailingBreakMarks correctedLast).length
      | _, _ => false
    lastGrew ||
      (ocrBare.length : ℚ) * config.part1CharGrowthRatio + config.part1CharGrowthSlack <
        correctedBare.length

/-- The second half appears collapsed, or pulled from the line after it. -/
def part2TextMigrated (ocrText correctedText : Str) (config : GuardConfig) : Bool :=
  let ocrWords := (split ocrText).length
  let correctedWords := (split correctedText).length
  if 0 < ocrWords ∧ (correctedWords : ℚ) < ocrWords * config.part2CollapseRatio then true
  else
    ocrWords + max config.part2ExpansionFloor ⌊(ocrWords : ℚ) * config.part2ExpansionRatio⌋.toNat <
      correctedWords

/-- The first word of the second half lost its continuity with the source:
it neither equals it nor shares its beginning at a similar length. -/
def part2BoundaryWordDiverged [Unicode] (ocrText correctedText : Str) (config : GuardConfig) :
    Bool :=
  match split ocrText, split correctedText with
  | ocrWord :: _, corWord :: _ =>
    let ocrFirst := ncfold ocrWord
    let corFirst := ncfold corWord
    if ocrFirst = corFirst then false
    else
      let prefixLen := min config.boundaryPrefixLen (min ocrFirst.length corFirst.length)
      let ratio : ℚ := corFirst.length / (max 1 ocrFirst.length : Nat)
      !(config.boundaryPrefixLen ≤ prefixLen && ocrFirst.take prefixLen = corFirst.take prefixLen &&
        config.boundaryLenRatioMin ≤ ratio && ratio ≤ config.boundaryLenRatioMax)
  | _, _ => false

/-! ## Stage C: one line -/

/-- Similarity of two texts, in `[0, 1]`. -/
def similarity (a b : Str) : ℚ :=
  if a = [] ∧ b = [] then 1
  else if a = [] ∨ b = [] then 0
  else SequenceMatcher.ratio a b

/-- Why a correction may not stand for its line. -/
inductive LineRejection where
  | tooDifferentFromSource
  | closerToPreviousLine
  | closerToNextLine
  | absorbsNextLine
  | absorbsPreviousLine
  deriving DecidableEq, Repr

/-- Does the neighbour resemble the correction more than its own source does? -/
def closerToNeighbour (simSource : ℚ) (neighbour : Option Str) (corrected : Str)
    (config : GuardConfig) : Bool :=
  neighbour.any fun ocr => simSource + config.neighbourMargin < similarity ocr corrected

/-- Is the correction the source and a neighbour put together? -/
def absorbs (sourceLen : Nat) (neighbour : Option Str) (concatenated : Str → Str) (corrected : Str)
    (config : GuardConfig) : Bool :=
  neighbour.any fun ocr =>
    ocr ≠ [] && (sourceLen : ℚ) * config.absorptionLengthRatio < corrected.length &&
      config.absorptionConcatSimilarity < similarity corrected (concatenated ocr)

/-- The guards of one line in order, or `none` when the correction may stand. -/
def checkLine (sourceOcr corrected : Str) (prevOcr nextOcr : Option Str) (config : GuardConfig) :
    Option LineRejection :=
  if corrected = sourceOcr then none
  else
    let sourceLen := max sourceOcr.length 1
    let simSource := similarity sourceOcr corrected
    if simSource < config.minSourceSimilarity then some .tooDifferentFromSource
    else if closerToNeighbour simSource prevOcr corrected config then some .closerToPreviousLine
    else if closerToNeighbour simSource nextOcr corrected config then some .closerToNextLine
    else if absorbs sourceLen nextOcr (fun ocr => sourceOcr ++ [' '] ++ ocr) corrected config then
      some .absorbsNextLine
    else if absorbs sourceLen prevOcr (fun ocr => ocr ++ [' '] ++ sourceOcr) corrected config then
      some .absorbsPreviousLine
    else none

/-! ## Adjacent lines -/

/-- Why two adjacent lines lose their corrections. -/
inductive SeamRejection where
  | adjacentDuplicateDetected
  | boundaryMigrationForward
  | boundaryMigrationBackward
  deriving DecidableEq, Repr

/-- A line in its adjacency sequence: its key, its source and its correction. -/
structure AdjacentLine (κ : Type*) where
  key : κ
  source : Str
  corrected : Str

section Seams

variable {κ : Type*} [DecidableEq κ]

/-- Are two adjacent corrections the same text for different sources? -/
def isDuplicatePair (a b : AdjacentLine κ) (config : GuardConfig) : Bool :=
  config.duplicateThreshold ≤ similarity a.corrected b.corrected &&
    similarity a.source b.source < config.duplicateSourceMinDiff

/-- Adjacent duplicates.  Only a flagged right line is skipped: the third
of three identical corrections is compared with the flagged second. -/
def checkAdjacentDuplicates (config : GuardConfig) :
    List (AdjacentLine κ) → Dict κ SeamRejection → Dict κ SeamRejection
  | a :: b :: rest, revert =>
    let revert :=
      if b.key ∈ Dict.keys revert then revert
      else if isDuplicatePair a b config then
        Dict.set (Dict.set revert a.key .adjacentDuplicateDetected) b.key .adjacentDuplicateDetected
      else revert
    checkAdjacentDuplicates config (b :: rest) revert
  | _, revert => revert

/-- Is a boundary word better explained by its source joined with the
neighbour's boundary word than by its source alone? -/
def wordMigratedAcrossSeam (corWord ownSource joined neighbour : Str) (config : GuardConfig) :
    Bool :=
  corWord ≠ [] && ownSource ≠ [] && neighbour ≠ [] && corWord ≠ ownSource &&
    config.absorptionConcatSimilarity < similarity corWord joined &&
    similarity corWord ownSource + config.neighbourMargin < similarity corWord joined

/-- A whole word appeared on one side of the seam and left the other. -/
def wholeWordCrossedTheSeam [Unicode] (aLastSource aLastCor bFirstSource bFirstCor : Str) : Bool :=
  let aSource := ncfold aLastSource
  let aCor := ncfold aLastCor
  let bSource := ncfold bFirstSource
  let bCor := ncfold bFirstCor
  (aCor = bSource && aCor ≠ aSource && bCor ≠ bSource) ||
    (bCor = aSource && bCor ≠ bSource && aCor ≠ aSource)

/-- Which way a word crossed the seam between two adjacent lines, if it did. -/
def seamMigration [Unicode] (a b : AdjacentLine κ) (config : GuardConfig) : Option SeamRejection :=
  match (split a.source).getLast?, (split b.source).head? with
  | some aSource, some bSource =>
    let aCor := (split a.corrected).getLast?
    let bCor := (split b.corrected).head?
    let forward := aCor.any fun word =>
      wordMigratedAcrossSeam word aSource (aSource ++ bSource) bSource config
    let backward := bCor.any fun word =>
      wordMigratedAcrossSeam word bSource (aSource ++ bSource) aSource config
    let moved :=
      match aCor, bCor with
      | some aWord, some bWord => wholeWordCrossedTheSeam aSource aWord bSource bWord
      | _, _ => false
    if forward || moved then some .boundaryMigrationForward
    else if backward then some .boundaryMigrationBackward
    else none
  | _, _ => none

/-- Words that migrated across a seam: both lines of the seam are flagged. -/
def checkBoundaryMigration [Unicode] (config : GuardConfig) :
    List (AdjacentLine κ) → Dict κ SeamRejection → Dict κ SeamRejection
  | a :: b :: rest, revert =>
    let revert :=
      match seamMigration a b config with
      | some reason => Dict.set (Dict.set revert a.key reason) b.key reason
      | none => revert
    checkBoundaryMigration config (b :: rest) revert
  | _, revert => revert

end Seams

end Saknussemm
