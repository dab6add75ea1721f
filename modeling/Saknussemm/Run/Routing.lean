import Saknussemm.Run.Reconcile

/-! # Which lines get a producer call, and how they are batched.

Lines a quality score confirms as clean are decided here, without a call;
risky ones go to the escalation producer, hyphen units whole.  A chunk
whose producer is sent images is then cut to the images one call may
carry. -/

namespace Saknussemm

open Effects

/-! ## Routing -/

/-- Routing runs only with a scorer and at least one active bound. -/
def routingScorer (pipeline : CorrectionPipeline) : Option (Str → ℚ) :=
  if pipeline.routingPolicy.skipAtOrBelow.isSome ∨ pipeline.routingPolicy.escalateAtOrAbove.isSome
  then pipeline.qeScorer else none

/-- The lines of a page that change tier, by id. -/
structure Tiers where
  skip : List Str
  escalate : List Str

/-- Sort one line.  A hyphen member is never skipped, and escalates only
with its whole unit. -/
def tierOf (pipeline : CorrectionPipeline) (scorer : Str → ℚ) (pageLines : List LineManifest)
    (lm : LineManifest) : Tiers :=
  let canEscalate := pipeline.escalationProducer.isSome
  match routeLine (scorer lm.ocrText) pipeline.routingPolicy with
  | .llm => ⟨[], []⟩
  | .skip => ⟨if lm.hyphenRole = .none then [lm.lineId] else [], []⟩
  | .escalate =>
    if !canEscalate then ⟨[], []⟩
    else if lm.hyphenRole = .none then ⟨[], [lm.lineId]⟩
    else ⟨[], (pageLocalUnit pageLines lm.lineId).getD []⟩

/-- Score every line of the page into the tiers. -/
def scorePageIntoTiers (pipeline : CorrectionPipeline) (scorer : Str → ℚ)
    (pageLines : List LineManifest) : Tiers :=
  let tiers := pageLines.map (tierOf pipeline scorer pageLines)
  ⟨tiers.flatMap Tiers.skip, (tiers.flatMap Tiers.escalate).eraseDups⟩

/-- Decide the skipped lines: their source text is their final text. -/
def confirmSkippedLines (workspace : PageWorkspace) (skip : List Str) (s : RunState) : RunState :=
  (skip.filterMap workspace.lineById).foldl
    (fun s line => accept line (s.heap line).ocrText s) s

/-- Rebuild the plan as chunks with their producers.  A skipped line stays
as context; a chunk with no target left is dropped. -/
def workItems (producer escalation : EditProducer) (tiers : Tiers) (chunk : ChunkRequest) :
    List (ChunkRequest × EditProducer) :=
  let targets := chunk.targets.filter (· ∉ tiers.skip)
  let primary := targets.filter (· ∉ tiers.escalate)
  let escalated := targets.filter (· ∈ tiers.escalate)
  let primaryItem :=
    if primary = chunk.targets then (chunk, producer)
    else ({ chunk with targetLineIds := some primary }, producer)
  (if primary = [] then [] else [primaryItem]) ++
    if escalated = [] then []
    else [({ chunk with targetLineIds := some escalated }, escalation)]

/-- Route each chunk of a page; without routing every chunk goes to the
primary producer unchanged. -/
def routeAndFilterChunks (pipeline : CorrectionPipeline) (workspace : PageWorkspace)
    (chunks : List ChunkRequest) : RunM (List (ChunkRequest × EditProducer)) := do
  match routingScorer pipeline with
  | none => return chunks.map (·, pipeline.producer)
  | some scorer =>
    let s ← get
    let tiers := scorePageIntoTiers pipeline scorer (linesOf s.heap workspace.refs)
    modify fun s =>
      { confirmSkippedLines workspace tiers.skip s with
        linesSkipped := s.linesSkipped + tiers.skip.length
        escalatedLines := s.escalatedLines + tiers.escalate.length }
    -- Without an escalation producer no line is escalated, so the default is never used.
    return chunks.flatMap <|
      workItems pipeline.producer (pipeline.escalationProducer.getD pipeline.producer) tiers

/-! ## Batching -/

/-- The batches of one chunk while it is being cut. -/
structure Batches where
  done : List (List Str)
  current : List Str
  assigned : List Str

/-- The members that travel with a target: its visible unit, less what is
in a batch already. -/
def batchMembers (pageLines : List LineManifest) (chunk : ChunkRequest) (assigned : List Str)
    (lineId : Str) : List Str :=
  let hyphenated := pageLines.any fun lm => lm.lineId = lineId && lm.hyphenRole ≠ .none
  match if hyphenated then unitVisibleOnPage pageLines lineId else none with
  | none => chunk.lineIds.filter (· = lineId)
  | some unit => chunk.lineIds.filter fun id => id ∈ unit && id ∉ assigned

/-- Put one target, with its unit, into a batch. -/
def addToBatch (pageLines : List LineManifest) (chunk : ChunkRequest) (cap : Nat)
    (batches : Batches) (lineId : Str) : Except Fault Batches :=
  if lineId ∈ batches.assigned ∨ lineId ∉ chunk.targets then .ok batches
  else
    let members := batchMembers pageLines chunk batches.assigned lineId
    if cap < members.length then
      .error (.domain "a hyphen unit exceeds the producer's max_images".toList)
    else if batches.current ≠ [] ∧ cap < batches.current.length + members.length then
      .ok ⟨batches.done ++ [batches.current], members, batches.assigned ++ members⟩
    else .ok ⟨batches.done, batches.current ++ members, batches.assigned ++ members⟩

/-- The chunk of one batch. -/
def batchChunk (chunk : ChunkRequest) (batch : List Str) : ChunkRequest :=
  { chunk with lineIds := batch, targetLineIds := some (batch.filter (· ∈ chunk.targets)) }

/-- Cut one chunk so that no call exceeds its producer's image cap. -/
def splitForImageCap (pageLines : List LineManifest) (item : ChunkRequest × EditProducer) :
    Except Fault (List (ChunkRequest × EditProducer)) :=
  let (chunk, producer) := item
  match producer.imageCap.filter (· < chunk.lineIds.length) with
  | none => .ok [item]
  | some cap => do
    let batches ← chunk.lineIds.foldlM (addToBatch pageLines chunk cap) ⟨[], [], []⟩
    let all := batches.done ++ if batches.current = [] then [] else [batches.current]
    return all.map fun batch => (batchChunk chunk batch, producer)

/-- Cut every chunk of a page. -/
def splitAllForImageCap (pageLines : List LineManifest)
    (items : List (ChunkRequest × EditProducer)) :
    Except Fault (List (ChunkRequest × EditProducer)) := do
  let split ← items.mapM (splitForImageCap pageLines)
  return split.flatten

end Saknussemm
