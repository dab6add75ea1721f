import Saknussemm.Run.Reconcile

/-! # What a chunk's ending does to its lines.

A chunk ends in one of three ways: its answer is reconciled and judged
line by line, its lines go back to their sources, or an error in between
leaves lines undecided and they go back now.  Only its targets are
decided, and a fallback covers the whole hyphen unit. -/

namespace Saknussemm

open Effects

/-! ## Accepting lines -/

/-- A direct partner of the line, in either slot, has fallen. -/
def fallenPartner (workspace : PageWorkspace) (heap : Heap) (lm : LineManifest) : Bool :=
  (pointers lm).any fun ref =>
    (lookupRef workspace lm.pageId ref).any fun partner => (heap partner).status = .fallback

/-- Source text of a neighbour, when it is on the page. -/
def neighbourOcr (workspace : PageWorkspace) (heap : Heap) (lineId : Option Str) : Option Str :=
  lineId.bind fun id => if id = [] then none else ocrById workspace heap id

/-- Why a line's proposal may not stand, if it may not: it completed a word
it had to leave broken, its partner fell, or a guard of its own. -/
def lineRefusal (config : GuardConfig) (workspace : PageWorkspace) (heap : Heap)
    (lm : LineManifest) (corrected : Str) : Option FallbackReason :=
  if opensForward lm && endsWithBreakMark lm.ocrText && !endsWithBreakMark corrected then
    some .orphanHyphenCompleted
  else if fallenPartner workspace heap lm then some .hyphenPartnerFellBack
  else
    (checkLine lm.ocrText corrected (neighbourOcr workspace heap lm.prevLineId)
      (neighbourOcr workspace heap lm.nextLineId) config).map .line

/-- Judge one line that no join decided. -/
def judgeLine (config : GuardConfig) (workspace : PageWorkspace) (textById : Dict Str Str)
    (line : LineRef) (s : RunState) : RunState :=
  let lm := s.heap line
  if lm.correctedText.isSome then s
  else
    match textById.get? lm.lineId with
    | none => s
    | some corrected =>
      match lineRefusal config workspace s.heap lm corrected with
      | some reason => fallBack line reason s
      | none => accept line corrected s

/-- The acceptance policy over a chunk's lines, in order. -/
def applyLineAcceptance (config : GuardConfig) (workspace : PageWorkspace)
    (textById : Dict Str Str) (chunkLines : List LineRef) (s : RunState) : RunState :=
  chunkLines.foldl (fun s line => judgeLine config workspace textById line s) s

/-! ## The three endings -/

/-- The lines of a chunk that are on the page, in the chunk's order. -/
def chunkLines (workspace : PageWorkspace) (chunk : ChunkRequest) : List LineRef :=
  chunk.lineIds.filterMap workspace.lineById

/-- Those of them the chunk owns. -/
def targetLines (workspace : PageWorkspace) (chunk : ChunkRequest) : List LineRef :=
  (chunkLines workspace chunk).filter (·.lineId ∈ chunk.targets)

/-- Reconcile and accept a chunk whose answer was validated; returns the
hyphen pairs reconciled. -/
def finishSuccessfulChunk [Unicode] (pipeline : CorrectionPipeline) (workspace : PageWorkspace)
    (chunk : ChunkRequest) (response : List LineProposal) : RunM Nat := do
  let targets := targetLines workspace chunk
  let reconciled ← reconcileChunkHyphens pipeline workspace targets (textById response)
  modify (applyLineAcceptance pipeline.guardConfig workspace (textById response) targets)
  emit pipeline <|
    .chunkCompleted chunk (chunkLines workspace chunk).length targets.length reconciled
  return reconciled

/-- The refs of the units of some lines, over what a page's work can see. -/
def unitRefs (workspace : PageWorkspace) (heap : Heap) (seeds : List LineRef) : List LineRef :=
  (unitsContaining (linesOf heap seeds) (linesOf heap (unitPool workspace))).map lineRef

/-- Pull the rest of each fallen line's unit down with it.  A line that
bears the id of a target counts as fallen already. -/
def extendToUnits (workspace : PageWorkspace) (targets : List LineRef) (s : RunState) : RunState :=
  let targetIds := targets.map LineRef.lineId
  fallBackToSource ((unitRefs workspace s.heap targets).filter (·.lineId ∉ targetIds))
    .hyphenUnitFallback s

/-- Put a chunk's targets and their units back to their sources. -/
def exhaustTargets (workspace : PageWorkspace) (targets : List LineRef)
    (failure : Option AttemptFailure) (s : RunState) : RunState :=
  let s := s.note (.exhaust targets workspace)
  extendToUnits workspace targets (fallBackToSource targets (.allAttemptsExhausted failure) s)

/-- Warn, and revert the chunk's targets. -/
def applyChunkFallback (pipeline : CorrectionPipeline) (workspace : PageWorkspace)
    (chunk : ChunkRequest) (failure : Option AttemptFailure) : RunM Unit := do
  emit pipeline (.warning chunk failure)
  modify (exhaustTargets workspace (targetLines workspace chunk) failure)

/-- The targets of a chunk, looked up by their own ids. -/
def absorbTargets (workspace : PageWorkspace) (chunk : ChunkRequest) : List LineRef :=
  chunk.targets.filterMap workspace.lineById

/-- Those of some lines that are undecided. -/
def undecided (heap : Heap) (lines : List LineRef) : List LineRef :=
  lines.filter fun line => (heap line).status = .pending

/-- Decide the targets an absorbed error left in limbo, units included, and
count the chunk as fallen when there were any. -/
def absorbChunkError (workspace : PageWorkspace) (chunk : ChunkRequest) (message : Str)
    (s : RunState) : RunState :=
  let targets := absorbTargets workspace chunk
  let s := s.note (.absorb targets workspace)
  if undecided s.heap targets = [] then s
  else
    let fallen := unitRefs workspace s.heap (undecided s.heap targets)
    let s := fallBackToSource fallen (.chunkErrorAbsorbed message) s
    { s with fallbackChunks := s.fallbackChunks + 1 }

end Saknussemm
