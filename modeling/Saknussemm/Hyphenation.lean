import Saknussemm.Guards

/-! # Reconciling the two lines of a broken word.

A correction of a hyphen pair stands for both lines or for neither.  The
markup's joined word, where there is one, is the authority; without it
the second half's first word has to stay recognisable. -/

namespace Saknussemm

variable [Unicode]

/-- Final texts of both lines, and the joined word they were found to spell. -/
structure PairResolution where
  finalPart1 : Str
  finalPart2 : Str
  subsContent : Option Str
  deriving DecidableEq

/-- The word two corrected lines spell across their break: the last
fragment of the first without its break marks, then the first of the second. -/
def joinedWord (text1 text2 : Str) : Option Str :=
  match (split text1).getLast?, (split text2).head? with
  | some left, some right => some (rstripChars hyphenChars left ++ right)
  | _, _ => none

/-- The tests of both modes: nothing migrated, the first line still ends in
a break mark, neither is blank, the second did not gain words. -/
def pairKeepsItsLines (part1 part2 : LineManifest) (corrected1 corrected2 : Str)
    (config : GuardConfig) : Bool :=
  !part1TextMigrated part1.ocrText corrected1 config &&
    !part2TextMigrated part2.ocrText corrected2 config &&
    endsWithBreakMark corrected1 &&
    split corrected1 ≠ [] && split corrected2 ≠ [] &&
    (split corrected2).length ≤ (split part2.ocrText).length

/-- Validate and reconcile the corrections of a hyphenated pair.  A `both`
line acting as the first half passes its forward slot's `subsContent` and
`sourceExplicit`; `none` reads them off the line's pair slot. -/
def reconcileHyphenPair (part1 part2 : LineManifest) (corrected1 corrected2 : Str)
    (subsContent : Option (Option Str)) (sourceExplicit : Option Bool) (config : GuardConfig) :
    PairResolution :=
  let effectiveSubs := subsContent.getD part1.hyphenSubsContent
  let effectiveExplicit := sourceExplicit.getD part1.hyphenSourceExplicit
  let fallback : PairResolution := ⟨part1.ocrText, part2.ocrText, none⟩
  if !pairKeepsItsLines part1 part2 corrected1 corrected2 config then fallback
  else if effectiveExplicit && truthy effectiveSubs then
    if (joinedWord corrected1 corrected2).map ncfold = effectiveSubs.map ncfold then
      ⟨corrected1, corrected2, effectiveSubs⟩
    else fallback
  else if part2BoundaryWordDiverged part2.ocrText corrected2 config then fallback
  else if effectiveExplicit then ⟨corrected1, corrected2, none⟩
  else ⟨corrected1, corrected2, subsContent.getD none⟩

/-- How one pair's reconciliation ended. -/
inductive ReconcileOutcome where
  | coherent | fallback | neutralised
  deriving DecidableEq, Repr

/-- A revert of something proposed is a fallback; an accepted correction is
coherent when its joined word is known. -/
def classifyReconcileOutcome (part1Ocr part2Ocr corrected1 corrected2 : Str)
    (final : PairResolution) : ReconcileOutcome :=
  if (final.finalPart1 = part1Ocr ∧ final.finalPart2 = part2Ocr) ∧
      (corrected1 ≠ part1Ocr ∨ corrected2 ≠ part2Ocr) then .fallback
  else if final.subsContent.isSome then .coherent
  else .neutralised

/-- **Both corrections or both sources**, never one of each. -/
theorem reconcileHyphenPair_texts (part1 part2 : LineManifest) (corrected1 corrected2 : Str)
    (subsContent : Option (Option Str)) (sourceExplicit : Option Bool) (config : GuardConfig) :
    let final := reconcileHyphenPair part1 part2 corrected1 corrected2 subsContent sourceExplicit
      config
    final = ⟨part1.ocrText, part2.ocrText, none⟩ ∨
      (final.finalPart1 = corrected1 ∧ final.finalPart2 = corrected2) := by
  simp only [reconcileHyphenPair]
  split_ifs <;> simp

/-- What holds of two texts that stand for a broken word's lines. -/
structure KeepsPair (part2 : LineManifest) (text1 text2 : Str) (subs : Option Str)
    (explicit : Bool) : Prop where
  endsInMark : endsWithBreakMark text1 = true
  tailWords : split text1 ≠ []
  headWords : split text2 ≠ []
  noMoreWords : (split text2).length ≤ (split part2.ocrText).length
  /-- With a joined word in the markup, the boundary fragments spell it. -/
  spellsWord : explicit = true → truthy subs = true →
    (joinedWord text1 text2).map ncfold = subs.map ncfold

/-- A pair that keeps its lines, and spells the word it promises, is kept whole.
-/
theorem keepsPair_of_accepted {part1 part2 : LineManifest} {corrected1 corrected2 : Str}
    {subsContent : Option (Option Str)} {sourceExplicit : Option Bool} {config : GuardConfig}
    (hkeeps : pairKeepsItsLines part1 part2 corrected1 corrected2 config = true)
    (hspells : sourceExplicit.getD part1.hyphenSourceExplicit = true →
      truthy (subsContent.getD part1.hyphenSubsContent) = true →
      (joinedWord corrected1 corrected2).map ncfold =
        (subsContent.getD part1.hyphenSubsContent).map ncfold) :
    KeepsPair part2 corrected1 corrected2 (subsContent.getD part1.hyphenSubsContent)
      (sourceExplicit.getD part1.hyphenSourceExplicit) := by
  simp only [pairKeepsItsLines, Bool.and_eq_true, decide_eq_true_eq] at hkeeps
  obtain ⟨⟨⟨⟨-, hmark⟩, htail⟩, hhead⟩, hwords⟩ := hkeeps
  exact ⟨hmark, htail, hhead, hwords, hspells⟩

/-- The two proposals, where they keep the pair; else the two sources. -/
theorem reconcileHyphenPair_cases (part1 part2 : LineManifest) (corrected1 corrected2 : Str)
    (subsContent : Option (Option Str)) (sourceExplicit : Option Bool) (config : GuardConfig) :
    let final := reconcileHyphenPair part1 part2 corrected1 corrected2 subsContent sourceExplicit
      config
    (final.finalPart1 = corrected1 ∧ final.finalPart2 = corrected2 ∧
      KeepsPair part2 corrected1 corrected2 (subsContent.getD part1.hyphenSubsContent)
        (sourceExplicit.getD part1.hyphenSourceExplicit)) ∨
    (final.finalPart1 = part1.ocrText ∧ final.finalPart2 = part2.ocrText) := by
  simp only [reconcileHyphenPair]
  split
  · exact .inr ⟨rfl, rfl⟩
  next hkeeps =>
  rw [Bool.not_eq_true', Bool.not_eq_false] at hkeeps
  split
  · next hauthority =>
    split
    · next hspells => exact .inl ⟨rfl, rfl, keepsPair_of_accepted hkeeps fun _ _ => hspells⟩
    · exact .inr ⟨rfl, rfl⟩
  next hnone =>
  -- without a joined word in the markup there is nothing to spell
  have hspells : sourceExplicit.getD part1.hyphenSourceExplicit = true →
      truthy (subsContent.getD part1.hyphenSubsContent) = true →
      (joinedWord corrected1 corrected2).map ncfold =
        (subsContent.getD part1.hyphenSubsContent).map ncfold :=
    fun hexplicit hsubs => absurd (by rw [hexplicit, hsubs]; rfl) hnone
  split
  · exact .inr ⟨rfl, rfl⟩
  · split
    · exact .inl ⟨rfl, rfl, keepsPair_of_accepted hkeeps hspells⟩
    · exact .inl ⟨rfl, rfl, keepsPair_of_accepted hkeeps hspells⟩

/-- **All or nothing, and stable**: a pair keeps both proposals or both
sources, keeps them when asked again, and is called a fallback just when a
proposal was thrown away. -/
theorem reconcileHyphenPair_allOrNothing (part1 part2 : LineManifest) (corrected1 corrected2 : Str)
    (subsContent : Option (Option Str)) (sourceExplicit : Option Bool) (config : GuardConfig) :
    let reconcile := fun text1 text2 =>
      reconcileHyphenPair part1 part2 text1 text2 subsContent sourceExplicit config
    let final := reconcile corrected1 corrected2
    ((final.finalPart1 = corrected1 ∧ final.finalPart2 = corrected2 ∧
        KeepsPair part2 corrected1 corrected2 (subsContent.getD part1.hyphenSubsContent)
          (sourceExplicit.getD part1.hyphenSourceExplicit)) ∨
      (final.finalPart1 = part1.ocrText ∧ final.finalPart2 = part2.ocrText)) ∧
    ((reconcile final.finalPart1 final.finalPart2).finalPart1 = final.finalPart1 ∧
      (reconcile final.finalPart1 final.finalPart2).finalPart2 = final.finalPart2) ∧
    (classifyReconcileOutcome part1.ocrText part2.ocrText corrected1 corrected2 final = .fallback ↔
      (final.finalPart1 = part1.ocrText ∧ final.finalPart2 = part2.ocrText) ∧
        (corrected1 ≠ part1.ocrText ∨ corrected2 ≠ part2.ocrText)) := by
  intro reconcile final
  have hcases := reconcileHyphenPair_cases part1 part2 corrected1 corrected2 subsContent
    sourceExplicit config
  refine ⟨hcases, ?stable, ?classified⟩
  case stable =>
    rcases hcases with ⟨htail, hhead, -⟩ | ⟨htail, hhead⟩
    · show (reconcile final.finalPart1 final.finalPart2).finalPart1 = final.finalPart1 ∧
        (reconcile final.finalPart1 final.finalPart2).finalPart2 = final.finalPart2
      rw [show final.finalPart1 = corrected1 from htail, show final.finalPart2 =
        corrected2 from hhead]
      exact ⟨htail, hhead⟩
    · show (reconcile final.finalPart1 final.finalPart2).finalPart1 = final.finalPart1 ∧
        (reconcile final.finalPart1 final.finalPart2).finalPart2 = final.finalPart2
      rw [show final.finalPart1 = part1.ocrText from htail,
        show final.finalPart2 = part2.ocrText from hhead]
      -- asked about the sources, either answer is the sources
      rcases reconcileHyphenPair_cases part1 part2 part1.ocrText part2.ocrText subsContent
        sourceExplicit config with ⟨htail', hhead', -⟩ | hsources
      · exact ⟨htail', hhead'⟩
      · exact hsources
  case classified =>
    unfold classifyReconcileOutcome
    constructor
    · intro hfallback
      split_ifs at hfallback with hreverted
      exact hreverted
    · exact fun hreverted => if_pos hreverted

/-! ## What a producer is shown -/

/-- One line as it is sent to a producer: its text, its neighbours' texts,
and what its links assert about the words at its edges. -/
structure LineContext where
  lineId : Str
  prevText : Option Str
  ocrText : Str
  nextText : Option Str
  hyphenationRole : HyphenRole
  hyphenCandidate : Bool
  joinWithNext : Bool
  joinWithPrev : Bool
  backwardJoinCandidate : Option Str
  forwardJoinCandidate : Option Str
  deriving DecidableEq

/-- The joined word declared by the slot the line continues through. -/
def forwardSubs (lm : LineManifest) : Option Str :=
  if lm.hyphenRole = .both then lm.hyphenForwardSubsContent else lm.hyphenSubsContent

/-- The context of one line.  Joins are asserted by links, not by roles: a
line that ends on a break mark may have found no partner. -/
def enrichLine (ocrOf : Str → Option Str) (lm : LineManifest) : LineContext :=
  let hyphenated := lm.hyphenRole ≠ .none
  let joinsNext := hyphenated ∧ (forwardPartnerRef lm).isSome
  let joinsPrev := hyphenated ∧ (backwardPartnerRef lm).isSome
  { lineId := lm.lineId
    prevText := lm.prevLineId.bind fun id => if id = [] then none else ocrOf id
    ocrText := lm.ocrText
    nextText := lm.nextLineId.bind fun id => if id = [] then none else ocrOf id
    hyphenationRole := lm.hyphenRole
    hyphenCandidate := hyphenated
    joinWithNext := joinsNext
    joinWithPrev := joinsPrev
    backwardJoinCandidate := if joinsPrev ∧ truthy lm.hyphenSubsContent then
      lm.hyphenSubsContent else none
    forwardJoinCandidate := if joinsNext ∧ truthy (forwardSubs lm) then forwardSubs lm else none }

/-- The contexts of a chunk's lines, neighbours looked up on the page. -/
def enrichChunkLines (ocrOf : Str → Option Str) (lines : List LineManifest) : List LineContext :=
  lines.map (enrichLine ocrOf)

end Saknussemm
