import Saknussemm.Planner
import Saknussemm.Run.Attempt
import Saknussemm.Run.Routing

/-! # Driving one page through the producer, chunk by chunk.

Plan the page's chunks, route them, run each one; a chunk that got no
answer is planned again one granularity finer, on the same budget, or
goes back to its source.  The descent calls the chunk runner it is part
of, so the runner counts how many granularities are left below it. -/

namespace Saknussemm

open Effects

variable [Unicode] [Digest]

/-! ## The page's lines -/

/-- The refs of a page's lines, in page order. -/
def PageManifest.refs (page : PageManifest) : List LineRef := page.lines.map lineRef

/-- A page of the document with its lines as they are now. -/
def currentPage (heap : Heap) (page : PageManifest) : PageManifest :=
  { page with lines := linesOf heap page.refs }

/-- The heap with some lines replaced. -/
def writeLines (heap : Heap) (lines : List LineManifest) : Heap :=
  fun ref => (lines.find? (lineRef · = ref)).getD (heap ref)

/-- The partners a page's links need from other pages, over both slots. -/
def crossPagePartners (document : DocumentManifest) (page : PageManifest) (heap : Heap) :
    List LineRef :=
  let slots := (linesOf heap page.refs).flatMap fun lm =>
    [(lm.hyphenPairLineId, lm.hyphenPairPageId),
      (lm.hyphenForwardPairId, lm.hyphenForwardPairPageId)]
  let refs := slots.filterMap fun
    | (some (c :: cs), some (p :: ps)) =>
      if p :: ps = page.pageId then none else some ⟨p :: ps, c :: cs⟩
    | _ => none
  (refs.filter (· ∈ document.lines.map lineRef)).eraseDups

/-- The indices one page's work reads. -/
def workspaceOf (document : DocumentManifest) (page : PageManifest) (heap : Heap) :
    PageWorkspace where
  pageId := page.pageId
  refs := page.refs
  crossPagePartners := crossPagePartners document page heap

/-- Plan a page, write its severed links back, and record them. -/
def replan (config : ChunkPlannerConfig) (page : Heap → PageManifest)
    (force : Option ChunkGranularity) : RunM ChunkPlan := do
  let s ← get
  let (plan, lines) := planPage config (page s.heap) force
  modify fun s =>
    { s.write (.sever plan.hyphenSplits) (writeLines s.heap lines) with
      hyphenSplits := s.hyphenSplits ++ plan.hyphenSplits }
  return plan

/-! ## One chunk -/

/-- The runner a descent calls back. -/
abbrev ChunkRunner := ChunkRequest → ChunkBudget → RunM (Nat × ChunkBudget)

/-- Revert a chunk and count it as fallen. -/
def fallBackChunk (pipeline : CorrectionPipeline) (workspace : PageWorkspace)
    (chunk : ChunkRequest) (failure : Option AttemptFailure) : RunM Unit := do
  applyChunkFallback pipeline workspace chunk failure
  modify fun s => { s with fallbackChunks := s.fallbackChunks + 1 }

/-- One sub-chunk of a descent: run it, or revert it when the budget is gone. -/
def descendInto (pipeline : CorrectionPipeline) (workspace : PageWorkspace) (run : ChunkRunner)
    (failure : Option AttemptFailure) (state : Nat × ChunkBudget) (sub : ChunkRequest) :
    RunM (Nat × ChunkBudget) := do
  checkAbort pipeline
  if state.2.exhausted then
    fallBackChunk pipeline workspace sub failure
    return state
  else
    let (reconciled, budget) ← run sub state.2
    return (state.1 + reconciled, budget)

/-- Re-plan a failed chunk's targets one granularity finer and run what
comes of it on the same budget. -/
def descendGranularity (pipeline : CorrectionPipeline) (page : PageManifest)
    (workspace : PageWorkspace) (run : ChunkRunner) (chunk : ChunkRequest)
    (finer : ChunkGranularity) (failure : Option AttemptFailure) (budget : ChunkBudget) :
    RunM (Nat × ChunkBudget) := do
  let targets := targetLines workspace chunk
  emit pipeline <| .chunkDowngraded chunk finer (chunkLines workspace chunk).length targets.length
    budget.remaining
  let plan ← replan pipeline.config (fun heap => subpageForLines page (linesOf heap targets))
    (some finer)
  plan.chunks.foldlM (descendInto pipeline workspace run failure) (0, budget)

/-- No attempt produced a proposal: descend when it may help and can be
paid for, revert otherwise. -/
def handleChunkFailure (pipeline : CorrectionPipeline) (page : PageManifest)
    (workspace : PageWorkspace) (run : ChunkRunner) (chunk : ChunkRequest)
    (outcome : AttemptOutcome) (budget : ChunkBudget) : RunM (Nat × ChunkBudget) :=
  match downgradeGranularity chunk.granularity with
  | some finer =>
    if outcome.canDowngrade && !budget.exhausted then
      descendGranularity pipeline page workspace run chunk finer outcome.lastFailure budget
    else do
      fallBackChunk pipeline workspace chunk outcome.lastFailure
      return (0, budget)
  | none => do
    fallBackChunk pipeline workspace chunk outcome.lastFailure
    return (0, budget)

/-- Process one chunk and decide what its outcome means; `run` is what a
descent calls.  Returns the pairs reconciled and the budget left. -/
def runChunkWith (pipeline : CorrectionPipeline) (producer : EditProducer) (page : PageManifest)
    (workspace : PageWorkspace) (run : ChunkRunner) (chunk : ChunkRequest) (budget : ChunkBudget) :
    RunM (Nat × ChunkBudget) := do
  let lines := chunkLines workspace chunk
  if lines = [] then return (0, budget)
  else
    emit pipeline (.chunkStarted chunk lines.length)
    let outcome ← attemptChunk pipeline producer workspace chunk
      (budget.attemptsAllowed pipeline.retryPolicy.maxAttempts)
    let budget := budget.spend outcome.attemptsUsed
    match outcome.response with
    | some response =>
      let reconciled ← finishSuccessfulChunk pipeline workspace chunk response
      return (reconciled, budget)
    | none => handleChunkFailure pipeline page workspace run chunk outcome budget

/-- Granularities at or below this one. -/
def ChunkGranularity.depth : ChunkGranularity → Nat
  | .page => 4
  | .block => 3
  | .window => 2
  | .line => 1

/-- The chunk runner with `depth` granularities to go. -/
def runChunk (pipeline : CorrectionPipeline) (producer : EditProducer) (page : PageManifest)
    (workspace : PageWorkspace) : Nat → ChunkRunner
  | 0 => fun _ _ => throw (.crash "granularity descent without a finer level".toList)
  | depth + 1 =>
    runChunkWith pipeline producer page workspace
      (runChunk pipeline producer page workspace depth)

/-- Run one chunk of a page on a fresh budget. -/
def runTopChunk (pipeline : CorrectionPipeline) (page : PageManifest) (workspace : PageWorkspace)
    (item : ChunkRequest × EditProducer) : RunM Nat := do
  let (reconciled, _) ← runChunk pipeline item.2 page workspace item.1.granularity.depth item.1
    ⟨pipeline.retryPolicy.perChunkBudget⟩
  return reconciled

/-- What becomes of an error a chunk's run raised: a cancellation and a
permanent refusal end the run, an error of the library's own costs the
chunk, anything else ends the run too. -/
def absorb (pipeline : CorrectionPipeline) (workspace : PageWorkspace) (chunk : ChunkRequest) :
    Fault → RunM Nat
  | .aborted => throw .aborted
  | .permanent => throw .permanent
  | .crash message => do
    emit pipeline (.chunkError chunk (.crash message))
    throw (.crash message)
  | .domain message => do
    emit pipeline (.chunkError chunk (.domain message))
    modify (absorbChunkError workspace chunk message)
    return 0

/-- Run one chunk, absorbing the errors a run may survive. -/
def runChunkAbsorbing (pipeline : CorrectionPipeline) (page : PageManifest)
    (workspace : PageWorkspace) (item : ChunkRequest × EditProducer) : RunM Nat :=
  tryCatch (runTopChunk pipeline page workspace item) (absorb pipeline workspace item.1)

/-! ## One page -/

/-- Decide what this page's producer calls will be: plan, route, cap. -/
def planPageChunks (pipeline : CorrectionPipeline) (page : PageManifest)
    (workspace : PageWorkspace) : RunM (List (ChunkRequest × EditProducer)) := do
  let plan ← replan pipeline.config (fun heap => currentPage heap page) none
  let routed ← routeAndFilterChunks pipeline workspace plan.chunks
  let s ← get
  match splitAllForImageCap (linesOf s.heap workspace.refs) routed with
  | .error fault => throw fault
  | .ok items =>
    emit pipeline (.chunkPlanned page.pageId items.length plan.granularity)
    return items

/-- Run one chunk of a page, unless the run was cancelled. -/
def runItem (pipeline : CorrectionPipeline) (page : PageManifest) (workspace : PageWorkspace)
    (reconciled : Nat) (item : ChunkRequest × EditProducer) : RunM Nat := do
  checkAbort pipeline
  let more ← runChunkAbsorbing pipeline page workspace item
  return reconciled + more

/-- Correct one page; returns its numbers of chunks and reconciled pairs. -/
def processPage (pipeline : CorrectionPipeline) (document : DocumentManifest)
    (page : PageManifest) : RunM (Nat × Nat) := do
  let s ← get
  let workspace := workspaceOf document page s.heap
  let lines := linesOf s.heap page.refs
  emit pipeline (.pageStarted page.pageId lines.length (lines.countP opensForward))
  let items ← planPageChunks pipeline page workspace
  let reconciled ← items.foldlM (runItem pipeline page workspace) 0
  let s ← get
  let corrections := (linesOf s.heap page.refs).countP fun lm =>
    lm.correctedText.any (· ≠ lm.ocrText)
  emit pipeline (.pageCompleted page.pageId corrections reconciled)
  return (items.length, reconciled)

end Saknussemm
