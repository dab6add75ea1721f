import Saknussemm.Document
import Saknussemm.Editing
import Saknussemm.Hyphenation
import Saknussemm.Library.Effects
import Saknussemm.Validator

/-! # The state of one run, and the three verbs that decide a line.

A run works on its own copy of the lines, which it looks up by their
qualified refs.  A decision is a line's corrected text, its status and,
for a line that fell back, the reason in its trace; three verbs write it.
Next to what the source keeps, the state remembers every write with the
lines as they were before it: the run's `trail`. -/

namespace Saknussemm

open Effects

/-! ## What happened -/

/-- The message of a failed attempt, by its family. -/
inductive AttemptFailure where
  | transport (message : Str)
  | malformed (message : Str)
  | hyphenIntegrity (message : Str)
  | rejected (error : ValidationError)
  deriving DecidableEq

/-- The document-wide passes that pull a hyphen unit down with one of its lines. -/
inductive RevertPass where
  | adjacentDuplicate | formatLoss | tokenRealign
  deriving DecidableEq, Repr

/-- Why a line went back to its source text. -/
inductive FallbackReason where
  /-- `hyphen_pair_…`, after the outcome that took the pair back. -/
  | hyphenPair (outcome : ReconcileOutcome)
  | orphanHyphenCompleted
  | hyphenPartnerFellBack
  | line (rejection : LineRejection)
  | seam (rejection : SeamRejection)
  | formatLoss (correctedWords markupWords : Nat)
  | suspectedReorder
  | alignmentScore (score threshold : ℚ)
  /-- `…_pair_atomicity`: pulled down by a member of its unit. -/
  | pairAtomicity (pass : RevertPass)
  | allAttemptsExhausted (failure : Option AttemptFailure)
  | hyphenUnitFallback
  | chunkErrorAbsorbed (message : Str)
  deriving DecidableEq

/-- An exception on its way out of the run: a cancellation, a permanent
refusal of the provider, another error of the library's own hierarchy, or
anything else. -/
inductive Fault where
  | aborted
  | permanent
  | domain (message : Str)
  | crash (message : Str)
  deriving DecidableEq

/-- The direction a missing partner is reported in. -/
inductive LinkDirection where
  | forward | backward
  deriving DecidableEq, Repr

/-- What observers are told. -/
inductive EngineEvent where
  | documentParsed (totalPages totalLines hyphenPairs : Nat)
  | pageStarted (pageId : Str) (lineCount hyphenPairCount : Nat)
  | chunkPlanned (pageId : Str) (chunkCount : Nat) (granularity : ChunkGranularity)
  | chunkStarted (chunk : ChunkRequest) (lineCount : Nat)
  | retry (chunk : ChunkRequest) (attempt : Nat) (failure : AttemptFailure)
  | warning (chunk : ChunkRequest) (failure : Option AttemptFailure)
  | hyphenPartnerMissing (lineId missingPartnerId : Str) (direction : LinkDirection)
  | chunkCompleted (chunk : ChunkRequest) (lineCount targetCount hyphenPairsReconciled : Nat)
  | chunkError (chunk : ChunkRequest) (fault : Fault)
  | chunkDowngraded (chunk : ChunkRequest) (toGranularity : ChunkGranularity)
      (lineCount targetCount : Nat) (budgetRemaining : Int)
  | pageCompleted (pageId : Str) (corrections hyphenPairsReconciled : Nat)
  deriving DecidableEq

/-! ## Producers -/

/-- What a producer is asked. -/
structure CorrectionRequest where
  granularity : ChunkGranularity
  pageId : Str
  blockId : Option Str
  lines : List LineContext
  deriving DecidableEq

/-- One invocation: what was asked, and under which options. -/
structure ProducerCall where
  request : CorrectionRequest
  attempt : Nat
  temperature : ℚ
  deriving DecidableEq

/-- What a producer raises instead of answering. -/
inductive ProducerError where
  | transient (message : Str)
  | malformed (message : Str)
  | hyphenIntegrity (message : Str)
  | fatal (fault : Fault)
  deriving DecidableEq

/-- An edit producer.  Its answer to a call may depend on every earlier
call of the run. -/
structure EditProducer where
  requiresFullCoverage : Bool
  /-- Images one call may carry, for a producer that is sent images. -/
  imageCap : Option Nat
  produce : List ProducerCall → ProducerCall → Except ProducerError (List EditOp)

/-- The configured engine, with the code it calls back. -/
structure CorrectionPipeline where
  producer : EditProducer
  escalationProducer : Option EditProducer
  config : ChunkPlannerConfig
  retryPolicy : RetryPolicy
  guardConfig : GuardConfig
  lossPolicy : LossPolicy
  qeScorer : Option (Str → ℚ)
  routingPolicy : RoutingPolicy
  /-- What the observer raises on an event, after the events before it. -/
  observer : List EngineEvent → EngineEvent → Option Fault
  /-- The cancellation probe's answer to its `n`-th poll. -/
  shouldAbort : Nat → Bool

/-! ## What a page's work can see -/

/-- The indices one page's correction reads. -/
structure PageWorkspace where
  pageId : Str
  /-- This page's lines, in page order. -/
  refs : List LineRef
  /-- The members its hyphen units need from other pages. -/
  crossPagePartners : List LineRef

/-- The line of this page with a bare id. -/
def PageWorkspace.lineById (workspace : PageWorkspace) (lineId : Str) : Option LineRef :=
  workspace.refs.find? (·.lineId = lineId)

/-- The line `ref` names, over the two lookup scopes: a same-page ref by its
bare id on the page, any other by the whole ref among the partners. -/
def lookupRef (workspace : PageWorkspace) (pageId : Str) (ref : LineRef) : Option LineRef :=
  if ref.pageId = pageId then workspace.lineById ref.lineId
  else if ref ∈ workspace.crossPagePartners then some ref
  else none

/-- Everything a unit query may reach from here. -/
def unitPool (workspace : PageWorkspace) : List LineRef :=
  workspace.refs ++ workspace.crossPagePartners

/-! ## The state -/

/-- The run's working copy of the lines, by ref. -/
abbrev Heap := LineRef → LineManifest

/-- The heap with one line replaced. -/
def Heap.set (heap : Heap) (ref : LineRef) (lm : LineManifest) : Heap :=
  fun r => if r = ref then lm else heap r

@[simp] theorem Heap.set_self (heap : Heap) (ref : LineRef) (lm : LineManifest) :
    heap.set ref lm ref = lm := by simp [Heap.set]

theorem Heap.set_of_ne {heap : Heap} {ref r : LineRef} {lm : LineManifest} (h : r ≠ ref) :
    heap.set ref lm r = heap r := by simp [Heap.set, h]

/-- Counts of pair reconciliation outcomes. -/
structure ReconcileMetrics where
  coherent : Nat
  fallback : Nat
  neutralised : Nat

/-- One producer operation the edit guards refused. -/
structure RefusedEdit where
  pageId : Str
  lineId : Str
  op : OpKind
  reason : EditReason
  detail : Option (Str × Str)

/-- What the trail remembers: the verbs, and the operations that use them
or change a link. -/
inductive Mark where
  | accept (line : LineRef) (text : Str)
  | fallBack (line : LineRef) (reason : FallbackReason)
  | renormalise (line : LineRef) (text : Str)
  | join (tail head : LineRef) (isForward : Bool) (textById : Dict Str Str)
  | exhaust (targets : List LineRef) (workspace : PageWorkspace)
  | absorb (targets : List LineRef) (workspace : PageWorkspace)
  | sever (splits : List HyphenSplit)
  | capture (captured : LineRef → Option (List EditOp × Str))

/-- The lines and the captured operations at one moment. -/
structure Snapshot where
  heap : Heap
  producerOps : LineRef → Option (List EditOp × Str)

/-- All mutable state of one run. -/
structure RunState where
  heap : Heap
  /-- The fallback reason of each line's trace. -/
  reasons : LineRef → Option FallbackReason
  /-- Per target line, the producer's operations and the text they gave. -/
  producerOps : LineRef → Option (List EditOp × Str)
  hyphenSplits : List HyphenSplit
  editRejections : List RefusedEdit
  retryCount : Nat
  fallbackChunks : Nat
  linesSkipped : Nat
  escalatedLines : Nat
  reconcileMetrics : ReconcileMetrics
  /-- The producer calls of the run, retries included. -/
  calls : List ProducerCall
  events : List EngineEvent
  polls : Nat
  /-- What was done so far, with the state it was done to. -/
  trail : List (Snapshot × Mark)

/-- A step of the run. -/
abbrev RunM := Prog Fault RunState

/-- Write to the lines, and remember it. -/
def RunState.write (s : RunState) (mark : Mark) (heap : Heap) : RunState :=
  { s with heap := heap, trail := s.trail ++ [(⟨s.heap, s.producerOps⟩, mark)] }

/-- Remember that an operation begins. -/
def RunState.note (s : RunState) (mark : Mark) : RunState := s.write mark s.heap

/-- Source text of a line of this page. -/
def ocrById (workspace : PageWorkspace) (heap : Heap) (lineId : Str) : Option Str :=
  (workspace.lineById lineId).map fun ref => (heap ref).ocrText

/-! ## The three verbs -/

/-- This text is the line's decision, and it stands. -/
def accept (line : LineRef) (text : Str) (s : RunState) : RunState :=
  s.write (.accept line text) <| s.heap.set line
    { s.heap line with correctedText := some text, status := .corrected }

/-- Take the correction away.  Text and status are written in any case,
the reason only into an empty trace. -/
def fallBack (line : LineRef) (reason : FallbackReason) (s : RunState) : RunState :=
  let written := s.write (.fallBack line reason) <| s.heap.set line
    { s.heap line with correctedText := some (s.heap line).ocrText, status := .fallback }
  { written with
    reasons := fun r => if r = line ∧ s.reasons r = none then some reason else s.reasons r }

/-- Respell a decision that already stands. -/
def renormalise (line : LineRef) (text : Str) (s : RunState) : RunState :=
  s.write (.renormalise line text) <| s.heap.set line
    { s.heap line with correctedText := some text }

/-- Fall back several lines, in order. -/
def fallBackToSource (lines : List LineRef) (reason : FallbackReason) (s : RunState) : RunState :=
  lines.foldl (fun s line => fallBack line reason s) s

/-! ## Observers and cancellation -/

/-- Tell the observer, which may raise. -/
def emit (pipeline : CorrectionPipeline) (event : EngineEvent) : RunM Unit := do
  let s ← get
  modify fun s => { s with events := s.events ++ [event] }
  match pipeline.observer s.events event with
  | some fault => throw fault
  | none => pure ()

/-- Poll the cancellation probe. -/
def checkAbort (pipeline : CorrectionPipeline) : RunM Unit := do
  let s ← get
  modify fun s => { s with polls := s.polls + 1 }
  if pipeline.shouldAbort s.polls then throw .aborted else pure ()

/-- An event changes the events, whatever the observer does about it. -/
theorem steps_emit_of {step : RunState → RunState → Prop} {pipeline : CorrectionPipeline}
    (hstep : ∀ s events, step s { s with events := events }) (event : EngineEvent) :
    Steps step (emit pipeline event) := by
  apply steps_get_bind
  intro s
  refine Steps.bind (steps_modify fun s => .single (hstep s _)) (fun _ => ?_) s
  split
  · exact steps_throw _
  · exact steps_pure _

/-- A poll changes the number of polls. -/
theorem steps_checkAbort_of {step : RunState → RunState → Prop} {pipeline : CorrectionPipeline}
    (hstep : ∀ s polls, step s { s with polls := polls }) : Steps step (checkAbort pipeline) := by
  apply steps_get_bind
  intro s
  refine Steps.bind (steps_modify fun s => .single (hstep s _)) (fun _ => ?_) s
  split
  · exact steps_throw _
  · exact steps_pure _

end Saknussemm
