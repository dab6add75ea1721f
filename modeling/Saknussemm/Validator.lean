import Saknussemm.Guards
import Saknussemm.Library.Fallible

/-! # Validating a producer's answer.

Every line that was asked for is answered exactly once, with a non-blank
single line of text, and no hyphen pair was merged or shifted.  Anything
else is an error worth another attempt. -/

namespace Saknussemm

/-- What the validator refuses, with what its message names. -/
inductive ValidationError where
  | lineCountMismatch (expected got : Nat)
  | missingLineId
  | duplicateLineId (lineId : Str)
  | unknownLineId (lineId : Str)
  | emptyText (lineId : Str)
  | lineSeparator (lineId : Str)
  | missingLineIds (lineIds : List Str)
  | emptyPairMember (lineId : Str)
  | part1Grew (lineId : Str) (ocrWords correctedWords : Nat)
  | part2Shrank (lineId : Str) (ocrWords correctedWords : Nat)
  | fusedWord (lineId word : Str)
  deriving DecidableEq

/-- Is it the broken-pair family, which pins the next attempt's temperature? -/
def ValidationError.isHyphenViolation : ValidationError → Bool
  | emptyPairMember _ | part1Grew .. | part2Shrank .. | fusedWord .. => true
  | _ => false

/-- One line of a producer's answer. -/
structure LineProposal where
  lineId : Str
  correctedText : Str
  deriving DecidableEq

/-- The text an answer gives a line, the last one if there are several. -/
def textById (lines : List LineProposal) : Dict Str Str :=
  Dict.ofList (lines.map fun o => (o.lineId, o.correctedText))

/-- The proposed text, refused when it would erase a line that had content.
A blank source may stay blank. -/
def checkedText (ocrTexts : Dict Str Str) (entry : LineProposal) : Except ValidationError Str :=
  if strip entry.correctedText ≠ [] then .ok entry.correctedText
  else if (ocrTexts.get? entry.lineId).any (strip · = []) then .ok []
  else .error (.emptyText entry.lineId)

/-- The structural checks of the entries, in order. -/
def checkEntries (expected : List Str) (ocrTexts : Dict Str Str) :
    List Str → List LineProposal → Except ValidationError (List LineProposal)
  | _, [] => .ok []
  | seen, entry :: rest =>
    if entry.lineId = [] then .error .missingLineId
    else if entry.lineId ∈ seen then .error (.duplicateLineId entry.lineId)
    else if entry.lineId ∉ expected then .error (.unknownLineId entry.lineId)
    else do
      let text ← checkedText ocrTexts entry
      if hasLineSeparator text then .error (.lineSeparator entry.lineId)
      else
        let outputs ← checkEntries expected ocrTexts (entry.lineId :: seen) rest
        return ⟨entry.lineId, text⟩ :: outputs

/-- Stage A: the first half gained words, or the second collapsed. -/
def checkPairDrift (idA idB textA textB ocrA ocrB : Str) (config : GuardConfig) :
    Except ValidationError Unit :=
  let ocrAWords := (split ocrA).length
  let ocrBWords := (split ocrB).length
  let corAWords := (split textA).length
  let corBWords := (split textB).length
  if ocrAWords + config.pairDriftPart1WordGrowth < corAWords then
    .error (.part1Grew idA ocrAWords corAWords)
  else if config.pairDriftPart2MinWords ≤ ocrBWords ∧
      (corBWords : ℚ) < ocrBWords * config.pairDriftPart2CollapseRatio then
    .error (.part2Shrank idB ocrBWords corBWords)
  else .ok ()

/-- The drift checks, each pair of required lines once. -/
def checkPairs (texts : Dict Str Str) (required : List Str) (ocrTexts : Dict Str Str)
    (config : GuardConfig) : List (Str × Str) → List (Str × Str) → Except ValidationError Unit
  | _, [] => .ok ()
  | checked, (idA, idB) :: rest =>
    if (idA, idB) ∈ checked ∨ (idB, idA) ∈ checked then
      checkPairs texts required ocrTexts config checked rest
    else if idA ∉ required ∨ idB ∉ required then
      checkPairs texts required ocrTexts config checked rest
    else
      let textA := (texts.get? idA).getD []
      let textB := (texts.get? idB).getD []
      if textA = [] then .error (.emptyPairMember idA)
      else if textB = [] then .error (.emptyPairMember idB)
      else do
        let ocrA := (ocrTexts.get? idA).getD []
        let ocrB := (ocrTexts.get? idB).getD []
        if ocrA ≠ [] ∧ ocrB ≠ [] then checkPairDrift idA idB textA textB ocrA ocrB config
        checkPairs texts required ocrTexts config ((idA, idB) :: checked) rest

/-- The last word of a line without its trailing break mark. -/
def lastBareWord (text : Str) : Option Str :=
  (split (stripTrailingBreakMarks (rstrip text))).getLast?

/-- The first half of a pair holds the whole joined word, which its source
did not. -/
def checkFusion [Unicode] (texts : Dict Str Str) (required : List Str) (ocrTexts : Dict Str Str) :
    List (Str × Str) → Except ValidationError Unit
  | [] => .ok ()
  | (part1Id, subs) :: rest =>
    let fusedIn := fun text => (lastBareWord text).map ncfold = some (ncfold subs)
    if part1Id ∈ required ∧ subs ≠ [] ∧ (texts.get? part1Id).any (fusedIn ·) ∧
        ¬ fusedIn ((ocrTexts.get? part1Id).getD []) then
      .error (.fusedWord part1Id subs)
    else checkFusion texts required ocrTexts rest

/-- No hyphen pair of required lines was merged or shifted; without pairs
there is nothing to check. -/
def validateHyphenIntegrity [Unicode] (texts hyphenPairs : Dict Str Str) (required : List Str)
    (ocrTexts hyphenSubs : Dict Str Str) (config : GuardConfig) : Except ValidationError Unit :=
  if hyphenPairs = [] then .ok ()
  else do
    checkPairs texts required ocrTexts config [] hyphenPairs
    checkFusion texts required ocrTexts hyphenSubs

/-- Every required id was answered. -/
def checkMissing (required : List Str)
    (outputs : List LineProposal) : Except ValidationError Unit :=
  let missing := required.filter (· ∉ outputs.map LineProposal.lineId)
  if missing = [] then .ok () else .error (.missingLineIds missing)

/-- The answer's size: exact when every line is a target, bounded otherwise. -/
def checkCount (entries : List LineProposal) (expectedLineIds : List Str)
    (targetLineIds : Option (List Str)) : Except ValidationError Unit :=
  let fits : Bool :=
    match targetLineIds with
    | none => entries.length = expectedLineIds.length
    | some _ => entries.length ≤ expectedLineIds.length
  if fits then .ok () else .error (.lineCountMismatch expectedLineIds.length entries.length)

/-- Validate the entries of an answer.  `targetLineIds` restricts what is
required: a context line may be missing, never malformed. -/
def validateLlmResponse [Unicode] (entries : List LineProposal) (expectedLineIds : List Str)
    (hyphenPairs ocrTexts hyphenSubs : Dict Str Str) (config : GuardConfig)
    (targetLineIds : Option (List Str)) : Except ValidationError (List LineProposal) := do
  let required := targetLineIds.getD expectedLineIds
  checkCount entries expectedLineIds targetLineIds
  let outputs ← checkEntries expectedLineIds ocrTexts [] entries
  checkMissing required outputs
  validateHyphenIntegrity (textById outputs) hyphenPairs required ocrTexts hyphenSubs config
  return outputs

theorem checkMissing_eq_ok {required : List Str} {outputs : List LineProposal}
    (h : checkMissing required outputs = .ok ()) :
    ∀ lineId ∈ required, lineId ∈ outputs.map LineProposal.lineId := by
  intro lineId hreq
  by_contra hnot
  have hmem : lineId ∈ required.filter (· ∉ outputs.map LineProposal.lineId) := by
    rw [List.mem_filter, decide_eq_true_eq]
    exact ⟨hreq, hnot⟩
  unfold checkMissing at h
  rw [if_neg (List.ne_nil_of_mem hmem)] at h
  cases h

/-- Every text of an answer is a single line. -/
def SingleLines (texts : Dict Str Str) : Prop :=
  ∀ lineId text, texts.get? lineId = some text → hasLineSeparator text = false

/-- Every validated text is a single line. -/
theorem checkEntries_singleLine {expected : List Str} {ocrTexts : Dict Str Str}
    {entries outputs : List LineProposal} {seen : List Str}
    (h : checkEntries expected ocrTexts seen entries = .ok outputs) :
    ∀ output ∈ outputs, hasLineSeparator output.correctedText = false := by
  induction entries generalizing seen outputs with
  | nil =>
    cases h
    simp
  | cons entry rest ih =>
    rw [checkEntries] at h
    split_ifs at h
    obtain ⟨text, -, h⟩ := Fallible.bind_eq_ok.mp h
    split at h
    · cases h
    · next hline =>
      obtain ⟨rest', hrest, h⟩ := Fallible.bind_eq_ok.mp h
      cases h
      rintro output (- | ⟨_, houtput⟩)
      · simpa using hline
      · exact ih hrest output houtput

/-- What a validated answer went through. -/
theorem validateLlmResponse_eq_ok [Unicode] {entries outputs : List LineProposal}
    {expectedLineIds : List Str} {hyphenPairs ocrTexts hyphenSubs : Dict Str Str}
    {config : GuardConfig} {targetLineIds : Option (List Str)}
    (h : validateLlmResponse entries expectedLineIds hyphenPairs ocrTexts hyphenSubs config
      targetLineIds = .ok outputs) :
    checkEntries expectedLineIds ocrTexts [] entries = .ok outputs ∧
      ∀ lineId ∈ targetLineIds.getD expectedLineIds,
        lineId ∈ outputs.map LineProposal.lineId := by
  simp only [validateLlmResponse] at h
  obtain ⟨-, -, h⟩ := Fallible.bind_eq_ok.mp h
  obtain ⟨checked, hentries, h⟩ := Fallible.bind_eq_ok.mp h
  obtain ⟨_, hmissing, h⟩ := Fallible.bind_eq_ok.mp h
  obtain ⟨-, -, h⟩ := Fallible.bind_eq_ok.mp h
  cases h
  exact ⟨hentries, checkMissing_eq_ok hmissing⟩

theorem singleLines_of_validate [Unicode] {entries outputs : List LineProposal}
    {expectedLineIds : List Str} {hyphenPairs ocrTexts hyphenSubs : Dict Str Str}
    {config : GuardConfig} {targetLineIds : Option (List Str)}
    (h : validateLlmResponse entries expectedLineIds hyphenPairs ocrTexts hyphenSubs config
      targetLineIds = .ok outputs) : SingleLines (textById outputs) := by
  intro lineId text htext
  have hmem := Dict.mem_of_mem_ofList (Dict.mem_of_get? htext)
  obtain ⟨output, houtput, heq⟩ := List.mem_map.mp hmem
  cases heq
  exact checkEntries_singleLine (validateLlmResponse_eq_ok h).1 output houtput

end Saknussemm
