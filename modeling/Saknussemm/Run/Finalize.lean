import Saknussemm.Alignment
import Saknussemm.Run.Driver

/-! # Turning a corrected document into decisions.

Four document-wide passes in a fixed order: adjacent duplicates and words
that crossed a seam, the source's break characters, the loss policy, and
the record of every line's decision, which refuses an undecided one. -/

namespace Saknussemm

variable [Unicode]

/-- The refs of a document's lines, in reading order. -/
def DocumentManifest.refs (document : DocumentManifest) : List LineRef :=
  document.pages.flatMap PageManifest.refs

/-! ## Unit reverts -/

/-- The flagged lines with their own reasons, then every other member of
their units with the pass's. -/
def revertMap (document : DocumentManifest) (heap : Heap) (pass : RevertPass)
    (reverts : Dict LineRef FallbackReason) : Dict LineRef FallbackReason :=
  let groups := deriveHyphenGroups (linesOf heap document.refs)
  (Dict.keys reverts).foldl
    (fun all ref =>
      (((hyphenGroupOf groups ref).map HyphenGroup.members).getD []).foldl
        (fun all member =>
          if member ∈ Dict.keys all then all else Dict.set all member (.pairAtomicity pass))
        all)
    reverts

/-- Revert lines of the document, each with its reason. -/
def revertAll (document : DocumentManifest) (reverts : Dict LineRef FallbackReason) (s : RunState) :
    RunState :=
  (reverts.filter (·.1 ∈ document.refs)).foldl (fun s (ref, reason) => fallBack ref reason s) s

/-- Revert flagged lines with their whole hyphen units; returns the full map. -/
def applyUnitReverts (document : DocumentManifest) (pass : RevertPass)
    (reverts : Dict LineRef FallbackReason) (s : RunState) :
    Dict LineRef FallbackReason × RunState :=
  if reverts = [] then ([], s)
  else
    let all := revertMap document s.heap pass reverts
    (all, revertAll document all s)

/-! ## Adjacency -/

/-- A line as the adjacency checks see it. -/
def adjacentLine (lm : LineManifest) : AdjacentLine LineRef :=
  ⟨lineRef lm, lm.ocrText, lm.correctedText.getD lm.ocrText⟩

/-- The lines of the document, broken at source-file transitions. -/
def segments (document : DocumentManifest) (heap : Heap) : List (List (AdjacentLine LineRef)) :=
  (document.pages.splitBy fun p q => p.sourceFile = q.sourceFile).map fun pages =>
    pages.flatMap fun page => (linesOf heap page.refs).map adjacentLine

/-- `d.update(e)`. -/
def update {κ ν : Type} [DecidableEq κ] (d e : Dict κ ν) : Dict κ ν :=
  e.foldl (fun d (k, v) => Dict.set d k v) d

/-- The lines the adjacency checks flag. -/
def adjacencyReverts (document : DocumentManifest) (heap : Heap) (config : GuardConfig) :
    Dict LineRef SeamRejection :=
  (segments document heap).foldl
    (fun reverts segment =>
      if 1 < segment.length then
        update (update reverts (checkAdjacentDuplicates config segment []))
          (checkBoundaryMigration config segment [])
      else reverts)
    []

/-- The document-wide consistency pass, the first to revert anything. -/
def globalAdjacencyPass (pipeline : CorrectionPipeline) (document : DocumentManifest)
    (s : RunState) : RunState :=
  let reverts := (adjacencyReverts document s.heap pipeline.guardConfig).map fun (ref, reason) =>
    (ref, FallbackReason.seam reason)
  (applyUnitReverts document .adjacentDuplicate reverts s).2

/-! ## Break characters -/

/-- Force the source line's break character onto a correction that changed it. -/
def preserveBreakCharOf (ref : LineRef) (s : RunState) : RunState :=
  let lm := s.heap ref
  match lm.correctedText with
  | none => s
  | some text =>
    if text = lm.ocrText then s else renormalise ref (preserveBreakChar lm.ocrText text) s

/-- Respell every accepted correction of the document. -/
def preserveBreakChars (document : DocumentManifest) (s : RunState) : RunState :=
  document.refs.foldl (fun s ref => preserveBreakCharOf ref s) s

/-! ## Format losses -/

/-- A correction the alignment gate set aside for review. -/
structure SidecarEntry where
  ref : LineRef
  sourceText : Str
  correctedText : Str
  reason : FallbackReason
  alignmentScore : Option ℚ
  moveSuspected : Bool

/-- Corrections that change the markup's word count. -/
def strictRevert (lm : LineManifest) : Option FallbackReason :=
  match lm.wordCount, lm.correctedText with
  | some markup, some text =>
    if text = lm.ocrText ∨ (split text).length = markup then none
    else some (.formatLoss (split text).length markup)
  | _, _ => none

/-- Corrections the token alignment gives no confidence in. -/
def realignRevert (threshold : ℚ) (lm : LineManifest) : Option FallbackReason :=
  match lm.correctedText with
  | none => none
  | some text =>
    let source := split lm.ocrText
    let target := split text
    let alignment := alignTokens none charSimilarity source target
    if text = lm.ocrText then none
    else if alignment.moveSuspected then some .suspectedReorder
    else if target.length ≠ source.length ∧ alignment.score < threshold then
      some (.alignmentScore alignment.score threshold)
    else none

/-- The lines of the document a gate flags, with its reasons. -/
def flagged (document : DocumentManifest) (heap : Heap)
    (gate : LineManifest → Option FallbackReason) : Dict LineRef FallbackReason :=
  Dict.ofList <| (linesOf heap document.refs).filterMap fun lm =>
    (gate lm).map (lineRef lm, ·)

/-- What a gate reverted that had been corrected. -/
def sidecarEntries (heap : Heap) (threshold : ℚ) (reverted : Dict LineRef FallbackReason) :
    List SidecarEntry :=
  reverted.filterMap fun (ref, reason) =>
    let lm := heap ref
    match lm.correctedText with
    | none => none
    | some text =>
      if text = lm.ocrText then none
      else
        let alignment := alignTokens none charSimilarity (split lm.ocrText) (split text)
        let evident := (realignRevert threshold lm).isSome
        some ⟨ref, lm.ocrText, text, reason, if evident then some alignment.score else none,
          evident && alignment.moveSuspected⟩

/-- The loss-policy gates; a no-op under the default policy. -/
def lossPolicyPass (pipeline : CorrectionPipeline) (document : DocumentManifest) (s : RunState) :
    List SidecarEntry × RunState :=
  if pipeline.lossPolicy.strict then
    ([], (applyUnitReverts document .formatLoss (flagged document s.heap strictRevert) s).2)
  else
    match pipeline.lossPolicy.minAlignmentScore with
    | none => ([], s)
    | some threshold =>
      let (reverted, s') := applyUnitReverts document .tokenRealign
        (flagged document s.heap (realignRevert threshold)) s
      (sidecarEntries s.heap threshold (reverted.filter (·.1 ∈ document.refs)), s')

/-! ## Decisions -/

/-- One line's terminal decision. -/
structure LineDecision where
  ref : LineRef
  sourceText : Str
  finalText : Str
  status : LineStatus
  fallbackReason : Option FallbackReason
  deriving DecidableEq

/-- The decision of one line. -/
def decisionOf (s : RunState) (ref : LineRef) : LineDecision :=
  let lm := s.heap ref
  ⟨lineRef lm, lm.ocrText, lm.correctedText.getD lm.ocrText, lm.status,
    if lm.status = .fallback then s.reasons (lineRef lm) else none⟩

/-- Materialise the run's decisions; the undecided lines when there are any. -/
def deriveDecisionSet (document : DocumentManifest) (s : RunState) :
    Except (List LineRef) (List LineDecision) :=
  match document.refs.filter fun ref => (s.heap ref).status = .pending with
  | [] => .ok (document.refs.map (decisionOf s))
  | undecided => .error undecided

/-- The document-wide passes in their order. -/
def finalizePasses (pipeline : CorrectionPipeline) (document : DocumentManifest) (s : RunState) :
    List SidecarEntry × RunState :=
  lossPolicyPass pipeline document
    (preserveBreakChars document (globalAdjacencyPass pipeline document s))

end Saknussemm
