import Saknussemm.Run.Finalize

/-! # A whole run.

Refuse what cannot proceed, correct every page in order, finalise the
decisions, and report: the decisions, what was set aside, and the edit
script the run actually applied. -/

namespace Saknussemm

open Effects

variable [Unicode] [Digest]

/-! ## The published script -/

/-- The operations of one corrected line: the producer's own when their
text survived every guard, the final text as a whole line otherwise. -/
def publishedOps (decision : LineDecision) (captured : List EditOp × Str) : List EditOp :=
  if captured.2 = decision.finalText then captured.1.map (EditOp.stamped decision.ref.pageId)
  else [.replaceLine decision.ref.lineId decision.finalText (some decision.ref.pageId)]

/-- The corrected lines that carry operations. -/
def publishedLines (decisions : List LineDecision)
    (producerOps : LineRef → Option (List EditOp × Str)) :
    List (LineDecision × (List EditOp × Str)) :=
  decisions.filterMap fun decision =>
    if decision.status = .corrected then (producerOps decision.ref).map (decision, ·) else none

/-- The edit script a run applied, with the digest of every source line it
touches. -/
def buildFinalEditScript (decisions : List LineDecision)
    (producerOps : LineRef → Option (List EditOp × Str)) : EditScript where
  ops := (publishedLines decisions producerOps).flatMap fun (decision, captured) =>
    publishedOps decision captured
  protocolVersion := some editProtocolVersion
  preconditions := (publishedLines decisions producerOps).map fun (decision, _) =>
    ⟨decision.ref.lineId, some decision.ref.pageId, Digest.lineDigest decision.sourceText⟩

/-! ## The run -/

/-- A line nobody parsed: what a ref outside the document reads. -/
def noLine (ref : LineRef) : LineManifest where
  lineId := ref.lineId
  pageId := ref.pageId
  blockId := []
  lineOrderGlobal := 0
  coords := ⟨0, 0, 0, 0⟩
  ocrText := []
  wordCount := none
  ocrConfidence := none
  prevLineId := none
  nextLineId := none
  correctedText := none
  status := .pending
  hyphenRole := .none
  hyphenPairLineId := none
  hyphenPairPageId := none
  hyphenSubsContent := none
  hyphenSourceExplicit := false
  hyphenForwardPairId := none
  hyphenForwardPairPageId := none
  hyphenForwardSubsContent := none
  hyphenForwardExplicit := false

/-- The run's private copy of a document's lines. -/
def DocumentManifest.heap (document : DocumentManifest) : Heap :=
  fun ref => (document.lines.find? (lineRef · = ref)).getD (noLine ref)

/-- The state a run starts from. -/
def initialState (document : DocumentManifest) : RunState where
  heap := document.heap
  reasons := fun _ => none
  producerOps := fun _ => none
  hyphenSplits := []
  editRejections := []
  retryCount := 0
  fallbackChunks := 0
  linesSkipped := 0
  escalatedLines := 0
  reconcileMetrics := ⟨0, 0, 0⟩
  calls := []
  events := []
  polls := 0
  trail := []

/-- Refuse a document whose identities are ambiguous. -/
def preflight (document : DocumentManifest) : RunM Unit :=
  match ensureIdentities document with
  | .ok _ => pure ()
  | .error _ => throw (.domain "ambiguous identities".toList)

/-- Correct every page in manifest order; returns the totals of chunks and
reconciled pairs. -/
def processPages (pipeline : CorrectionPipeline) (document : DocumentManifest) :
    RunM (Nat × Nat) :=
  document.pages.foldlM
    (fun (chunks, reconciled) page => do
      checkAbort pipeline
      let (pageChunks, pageReconciled) ← processPage pipeline document page
      return (chunks + pageChunks, reconciled + pageReconciled))
    (0, 0)

/-- What a finished run hands back. -/
structure CorrectionResult where
  decisions : List LineDecision
  editScript : EditScript
  sidecar : List SidecarEntry
  totalChunks : Nat
  totalReconciled : Nat

/-- Everything up to the decisions. -/
def correctDocument (pipeline : CorrectionPipeline) (document : DocumentManifest) :
    RunM (Nat × Nat) := do
  preflight document
  emit pipeline <| .documentParsed document.pages.length document.lines.length
    (document.lines.countP opensForward)
  processPages pipeline document

/-- Finalise the decisions and report. -/
def finalizeDocument (pipeline : CorrectionPipeline) (document : DocumentManifest)
    (totals : Nat × Nat) : RunM CorrectionResult := do
  let s ← get
  let (sidecar, s') := finalizePasses pipeline document s
  set s'
  match deriveDecisionSet document s' with
  | .error _ => throw (.crash "lines reached the end of the run undecided".toList)
  | .ok decisions =>
    return ⟨decisions, buildFinalEditScript decisions s'.producerOps, sidecar, totals.1, totals.2⟩

/-- The whole pipeline over one document. -/
def runPipeline (pipeline : CorrectionPipeline) (document : DocumentManifest) :
    RunM CorrectionResult := do
  let totals ← correctDocument pipeline document
  finalizeDocument pipeline document totals

/-- A run from its start: how it ended, and the state it left. -/
def run (pipeline : CorrectionPipeline) (document : DocumentManifest) :
    Except Fault CorrectionResult × RunState :=
  (runPipeline pipeline document).exec (initialState document)

/-! ## Plain engines

One producer that answers from a table, no routing and no observer: the
engines of the concrete runs below. -/

/-- Every text is its own digest. -/
@[reducible] def Digest.plain : Digest := ⟨id⟩

/-- A producer that replaces whole lines: by the table, or by themselves. -/
def EditProducer.answering (table : List (String × String)) : EditProducer where
  requiresFullCoverage := true
  imageCap := none
  produce _ call := .ok <| call.request.lines.map fun line =>
    let answer := table.find? (·.1.toList = line.lineId)
    .replaceLine line.lineId ((answer.map (·.2.toList)).getD line.ocrText) none

/-- Twelve lines to a window, as the engine is shipped. -/
def shippedChunks : ChunkPlannerConfig := ⟨12000, 80, 12, 1, by decide, by decide, by decide⟩

/-- An engine of one producer. -/
def CorrectionPipeline.plain (producer : EditProducer) (lossPolicy : LossPolicy) :
    CorrectionPipeline where
  producer := producer
  escalationProducer := none
  config := shippedChunks
  retryPolicy := .default
  guardConfig := .default
  lossPolicy := lossPolicy
  qeScorer := none
  routingPolicy := .default
  observer _ _ := none
  shouldAbort _ := false

end Saknussemm
