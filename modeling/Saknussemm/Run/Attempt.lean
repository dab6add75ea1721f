import Saknussemm.Run.Outcome

/-! # One chunk, asked of a producer until it answers or gives up.

The narrowest loop of the engine: build the request, call, put the answer
in the shape the validator checks, validate, remember the operations it
applied, and on a recoverable failure try again.  What a chunk without an
answer means is its caller's business. -/

namespace Saknussemm

open Effects

/-! ## Retrying -/

/-- Attempts left for one original chunk and its whole descent. -/
structure ChunkBudget where
  remaining : Int
  deriving DecidableEq

namespace ChunkBudget

/-- Charge attempts already made. -/
def spend (budget : ChunkBudget) (attempts : Nat) : ChunkBudget := ⟨budget.remaining - attempts⟩

/-- Is there nothing left? -/
def exhausted (budget : ChunkBudget) : Bool := budget.remaining ≤ 0

/-- How many attempts the next call may make. -/
def attemptsAllowed (budget : ChunkBudget) (cap : Nat) : Nat :=
  min cap (max budget.remaining 0).toNat

end ChunkBudget

/-- What to do about a failed attempt. -/
structure RetryDecision where
  isRetryable : Bool
  backoff : ℚ
  isHyphenViolation : Bool

/-- Does the failure say that a hyphen pair was mishandled? -/
def AttemptFailure.isHyphenViolation : AttemptFailure → Bool
  | hyphenIntegrity _ => true
  | rejected error => error.isHyphenViolation
  | _ => false

/-- The first mishandled pair of a chunk is retried at once, transport and
malformed output after a linear backoff.  Each family is retryable. -/
def classifyRetry (failure : AttemptFailure) (attempt : Nat) (hyphenAlreadySeen : Bool)
    (policy : RetryPolicy) : RetryDecision :=
  if failure.isHyphenViolation && !hyphenAlreadySeen then ⟨true, 0, true⟩
  else
    match failure with
    | .transport _ => ⟨true, attempt * policy.transientBackoffBase, false⟩
    | _ => ⟨true, attempt * policy.outputBackoffBase, false⟩

/-! ## Asking -/

/-- What this attempt asks the producer. -/
def buildCorrectionRequest (workspace : PageWorkspace) (chunk : ChunkRequest) (heap : Heap) :
    CorrectionRequest where
  granularity := chunk.granularity
  pageId := chunk.pageId
  blockId := chunk.blockId
  lines := enrichChunkLines (ocrById workspace heap) (linesOf heap (chunkLines workspace chunk))

/-- Ask the producer once.  Every call counts, whatever it answers. -/
def produce (producer : EditProducer) (request : CorrectionRequest) (attempt : Nat)
    (temperature : ℚ) : RunM (Except AttemptFailure (List EditOp)) := do
  let call : ProducerCall := ⟨request, attempt, temperature⟩
  let s ← get
  modify fun s => { s with calls := s.calls ++ [call] }
  match producer.produce s.calls call with
  | .ok ops => return .ok ops
  | .error (.transient message) => return .error (.transport message)
  | .error (.malformed message) => return .error (.malformed message)
  | .error (.hyphenIntegrity message) => return .error (.hyphenIntegrity message)
  | .error (.fatal fault) => throw fault

/-! ## What came back -/

/-- A producer's script as the batch to validate, and the span operations
the guards refused. -/
structure Proposed where
  entries : List LineProposal
  refusals : List EditRejection

/-- The source texts of a chunk's lines. -/
def canonicalTexts (lines : List LineManifest) : Dict Str Str :=
  Dict.ofList (lines.map fun lm => (lm.lineId, lm.ocrText))

/-- The current role of a chunk's line, `none` for any other id. -/
def roleOf (lines : List LineManifest) (lineId : Str) : HyphenRole :=
  ((lines.reverse.find? (·.lineId = lineId)).map LineManifest.hyphenRole).getD .none

/-- Is the operation a span? -/
def EditOp.isSpan (op : EditOp) : Bool := op.kind = .replaceSpan

/-- Whole lines pass as they are; spans are applied to the source texts;
without full coverage, a line nobody mentions keeps its text. -/
def scriptToRaw [Digest] (ops : List EditOp) (lines : List LineManifest) (fullCoverage : Bool)
    (config : GuardConfig) (targetLineIds : List Str) : Proposed :=
  let canonical := canonicalTexts lines
  let whole := ops.filterMap fun
    | .replaceLine id text _ => some (LineProposal.mk id text)
    | .replaceSpan .. => none
  -- A bare list of operations carries no protocol version to refuse.
  let result := (applyEditScript (.ofOps (ops.filter EditOp.isSpan)) canonical (some targetLineIds)
    config (roleOf lines) none).toOption.getD ⟨[], []⟩
  let entries := whole ++ result.textById.map fun (id, text) => ⟨id, text⟩
  let uncovered := canonical.filter fun e => e.1 ∉ entries.map LineProposal.lineId
  { entries := if fullCoverage then entries else entries ++ uncovered.map fun e => ⟨e.1, e.2⟩
    refusals := result.rejected }

/-- The joined words the source declared, by opening line. -/
def declaredSubsContent (lines : List LineManifest) : Dict Str Str :=
  Dict.ofList <| lines.filterMap fun lm =>
    match lm.hyphenRole, lm.hyphenSubsContent, lm.hyphenForwardSubsContent with
    | .part1, some (c :: cs), _ => some (lm.lineId, c :: cs)
    | .both, _, some (c :: cs) => some (lm.lineId, c :: cs)
    | _, _, _ => none

/-- The operations an answer applied to one target line, and the text they
gave; none when the line was refused one. -/
def capturedOps (chunk : ChunkRequest) (ops : List EditOp) (response : List LineProposal)
    (refusedLines : List Str) (lineId : Str) : Option (List EditOp × Str) :=
  match ops.filter fun op =>
      op.lineId = lineId && lineId ∈ chunk.targets && lineId ∉ refusedLines with
  | [] => none
  | first :: rest => ((textById response).get? lineId).map (first :: rest, ·)

/-- What an answer captures, by qualified line. -/
def capturedByLine (chunk : ChunkRequest) (ops : List EditOp) (response : List LineProposal)
    (refusedLines : List Str) (ref : LineRef) : Option (List EditOp × Str) :=
  if ref.pageId = chunk.pageId then capturedOps chunk ops response refusedLines ref.lineId
  else none

/-- Remember each target line's operations and the text they produced. -/
def captureProducerOps (captured : LineRef → Option (List EditOp × Str)) (s : RunState) :
    RunState :=
  { s.note (.capture captured) with
    producerOps := fun ref => (captured ref).or (s.producerOps ref) }

/-- Validate what an attempt produced, over the lines it was asked about. -/
def validateProposed [Unicode] (config : GuardConfig) (chunk : ChunkRequest)
    (lines : List LineManifest) (entries : List LineProposal) :
    Except ValidationError (List LineProposal) :=
  validateLlmResponse entries (lines.map LineManifest.lineId) (buildHyphenPairs lines)
    (canonicalTexts lines) (declaredSubsContent lines) config chunk.targetLineIds

/-- Check an attempt's answer, and capture what it applied. -/
def validateAndCapture [Unicode] [Digest] (pipeline : CorrectionPipeline) (producer : EditProducer)
    (chunk : ChunkRequest) (lines : List LineManifest) (ops : List EditOp) :
    RunM (Except AttemptFailure (List LineProposal)) := do
  let proposed := scriptToRaw ops lines producer.requiresFullCoverage pipeline.guardConfig
    chunk.targets
  match validateProposed pipeline.guardConfig chunk lines proposed.entries with
  | .error error => return .error (.rejected error)
  | .ok response =>
    modify fun s => { s with
      editRejections := s.editRejections ++ proposed.refusals.map fun r =>
        ⟨chunk.pageId, r.lineId, r.op, r.reason, r.detail⟩ }
    modify <| captureProducerOps <|
      capturedByLine chunk ops response (proposed.refusals.map EditRejection.lineId)
    return .ok response

/-! ## The loop -/

/-- What a chunk's attempts came to. -/
structure AttemptOutcome where
  response : Option (List LineProposal)
  attemptsUsed : Nat
  /-- The same work is worth trying at a finer granularity. -/
  canDowngrade : Bool
  lastFailure : Option AttemptFailure

/-- One attempt: ask, and check what came back. -/
def attemptOnce [Unicode] [Digest] (pipeline : CorrectionPipeline) (producer : EditProducer)
    (workspace : PageWorkspace) (chunk : ChunkRequest) (attempt : Nat) (temperature : ℚ) :
    RunM (Except AttemptFailure (List LineProposal)) := do
  let s ← get
  let lines := linesOf s.heap (chunkLines workspace chunk)
  match ← produce producer (buildCorrectionRequest workspace chunk s.heap) attempt temperature with
  | .error failure => return .error failure
  | .ok ops => validateAndCapture pipeline producer chunk lines ops

/-- The attempts numbered from `attempt` on, `left` of them.  A mishandled
pair pins every later attempt to temperature 0. -/
def attemptChunkFrom [Unicode] [Digest] (pipeline : CorrectionPipeline) (producer : EditProducer)
    (workspace : PageWorkspace) (chunk : ChunkRequest) : Nat → Nat → Bool → RunM AttemptOutcome
  | 0, attempt, _ => return ⟨none, attempt - 1, false, none⟩
  | left + 1, attempt, hyphenViolation => do
    let temperature :=
      if hyphenViolation then 0 else pipeline.retryPolicy.temperatureFor attempt
    match ← attemptOnce pipeline producer workspace chunk attempt temperature with
    | .ok response => return ⟨some response, attempt, false, none⟩
    | .error failure =>
      let decision := classifyRetry failure attempt hyphenViolation pipeline.retryPolicy
      if 0 < left ∧ decision.isRetryable then
        emit pipeline (.retry chunk attempt failure)
        modify fun s => { s with retryCount := s.retryCount + 1 }
        attemptChunkFrom pipeline producer workspace chunk left (attempt + 1)
          (hyphenViolation || decision.isHyphenViolation)
      else return ⟨none, attempt, decision.isRetryable, some failure⟩

/-- Call the producer with retries. -/
def attemptChunk [Unicode] [Digest] (pipeline : CorrectionPipeline) (producer : EditProducer)
    (workspace : PageWorkspace) (chunk : ChunkRequest) (maxAttempts : Nat) : RunM AttemptOutcome :=
  attemptChunkFrom pipeline producer workspace chunk maxAttempts 1 false

end Saknussemm
