import Saknussemm.Run.State
import Saknussemm.Units

/-! # Reconciling the hyphen units of a chunk.

A join is a tail and the head its word continues onto.  On a page the
chunk that targets the tail owns it; across pages the one that targets
the head does, the only point at which both sides exist.  Owned joins are
walked unit by unit, members in reading order. -/

namespace Saknussemm

open Effects

/-! ## Which lines travel together -/

/-- The lines of a list of refs, as they are now. -/
def linesOf (heap : Heap) (refs : List LineRef) : List LineManifest := refs.map heap

/-- A page holding just `lines`, to be planned again: the blocks that own
some of them, restricted to them. -/
def subpageForLines (page : PageManifest) (lines : List LineManifest) : PageManifest :=
  let kept := lines.map LineManifest.lineId
  { page with
    blocks := (page.blocks.filter fun b => b.lineIds.any (· ∈ kept)).map fun b =>
      { b with lineIds := b.lineIds.filter (· ∈ kept) }
    lines := lines }

/-- The pairs of a chunk by bare ids, in both directions. -/
def buildHyphenPairs (lines : List LineManifest) : Dict Str Str :=
  lines.foldl
    (fun pairs lm =>
      let partner :=
        match lm.hyphenRole with
        | .part1 => lm.hyphenPairLineId
        | .both => lm.hyphenForwardPairId
        | _ => none
      match partner with
      | some (c :: cs) => Dict.set (Dict.set pairs lm.lineId (c :: cs)) (c :: cs) lm.lineId
      | _ => pairs)
    []

/-- The unit of a line wholly resolvable on its page. -/
def pageLocalUnit (lines : List LineManifest) (lineId : Str) : Option (List Str) :=
  let groups := (deriveHyphenGroups lines).filter fun g => g.complete && !g.spansPages
  (groups.reverse.find? fun g => lineId ∈ g.members.map LineRef.lineId).map
    fun g => g.members.map LineRef.lineId

/-- The members of a line's unit that are on the page, complete or not. -/
def unitVisibleOnPage (lines : List LineManifest) (lineId : Str) : Option (List Str) :=
  let ids := lines.map LineManifest.lineId
  let units := (deriveHyphenGroups lines).map fun g =>
    (g.members.map LineRef.lineId).filter (· ∈ ids)
  (units.filter (2 ≤ ·.eraseDups.length)).reverse.find? (lineId ∈ ·)

/-! ## One join -/

/-- A join: its tail, its head, and whether the tail links through its
forward slot, as only a `both` line does. -/
structure Join where
  tail : LineRef
  head : LineRef
  isForward : Bool
  deriving DecidableEq

/-- The two texts a join is judged on.  A tail already decided speaks with
its decision, anything else with the answer, or with its source. -/
def proposedTexts (textById : Dict Str Str) (tail head : LineManifest) : Str × Str :=
  (orElseStr tail.correctedText ((textById.get? tail.lineId).getD tail.ocrText),
    (textById.get? head.lineId).getD head.ocrText)

/-- The pair's resolution, through the slot the tail links with. -/
def resolveJoin [Unicode] (config : GuardConfig) (isForward : Bool) (tail head : LineManifest)
    (texts : Str × Str) : PairResolution :=
  if isForward then
    reconcileHyphenPair tail head texts.1 texts.2 (some tail.hyphenForwardSubsContent)
      (some tail.hyphenForwardExplicit) config
  else reconcileHyphenPair tail head texts.1 texts.2 none none config

/-- How a join ends when neither member has fallen. -/
def joinOutcome [Unicode] (config : GuardConfig) (isForward : Bool) (tail head : LineManifest)
    (textById : Dict Str Str) : ReconcileOutcome :=
  let texts := proposedTexts textById tail head
  classifyReconcileOutcome tail.ocrText head.ocrText texts.1 texts.2
    (resolveJoin config isForward tail head texts)

/-- The joined word in the slot of a line that `isForward` names. -/
def setSubsContent (isForward : Bool) (subs : Option Str) (lm : LineManifest) : LineManifest :=
  if isForward then { lm with hyphenForwardSubsContent := subs }
  else { lm with hyphenSubsContent := subs }

/-- Write the word a pair resolved into the head's pair slot and the slot
the tail links with. -/
def writeSubs (join : Join) (subs : Option Str) (s : RunState) : RunState :=
  let heap := s.heap.set join.head (setSubsContent false subs (s.heap join.head))
  { s with heap := heap.set join.tail (setSubsContent join.isForward subs (heap join.tail)) }

/-- Both members go back to their sources. -/
def fallBackJoin (join : Join) (s : RunState) : RunState :=
  fallBack join.head (.hyphenPair .fallback) (fallBack join.tail (.hyphenPair .fallback) s)

/-- Reconcile one pair and write the result onto its lines.  A member whose
partner already fell back is never corrected alone. -/
def reconcileOnePair [Unicode] (config : GuardConfig) (join : Join) (textById : Dict Str Str)
    (s : RunState) : ReconcileOutcome × RunState :=
  let tail := s.heap join.tail
  let head := s.heap join.head
  let s := s.note (.join join.tail join.head join.isForward textById)
  if tail.status = .fallback ∨ head.status = .fallback then (.fallback, fallBackJoin join s)
  else
    let final := resolveJoin config join.isForward tail head (proposedTexts textById tail head)
    let outcome := joinOutcome config join.isForward tail head textById
    let s :=
      if outcome = .fallback then fallBackJoin join s
      else accept join.head final.finalPart2 (accept join.tail final.finalPart1 s)
    (outcome, writeSubs join final.subsContent s)

/-- Bump the counter of an outcome. -/
def recordReconcileOutcome (outcome : ReconcileOutcome) (s : RunState) : RunState :=
  let m := s.reconcileMetrics
  { s with reconcileMetrics :=
      match outcome with
      | .coherent => { m with coherent := m.coherent + 1 }
      | .fallback => { m with fallback := m.fallback + 1 }
      | .neutralised => { m with neutralised := m.neutralised + 1 } }

/-- A fallen member without a reason takes the outcome's. -/
def refreshPairTraces (join : Join) (outcome : ReconcileOutcome) (s : RunState) : RunState :=
  { s with reasons := fun r =>
      if (r = join.tail ∨ r = join.head) ∧ (s.heap r).status = .fallback ∧ s.reasons r = none then
        some (.hyphenPair outcome)
      else s.reasons r }

/-! ## The joins of a chunk -/

/-- The joins a chunk owns by tail, and the lines they live among. -/
structure Claims where
  joins : Dict LineRef Join
  pool : List LineRef

/-- A ref added to a pool it may already be in. -/
def addToPool (pool : List LineRef) (ref : LineRef) : List LineRef :=
  if ref ∈ pool then pool else pool ++ [ref]

/-- Claim one join. -/
def Claims.claim (claims : Claims) (heap : Heap) (tail head : LineRef) : Claims :=
  { joins := Dict.set claims.joins tail ⟨tail, head, (heap tail).hyphenRole = .both⟩
    pool := addToPool (addToPool claims.pool tail) head }

/-- A partner, or the report that it is missing. -/
def resolvePartner (pipeline : CorrectionPipeline) (workspace : PageWorkspace) (lm : LineManifest)
    (ref : LineRef) (direction : LinkDirection) : RunM (Option LineRef) :=
  match lookupRef workspace lm.pageId ref with
  | some partner => pure (some partner)
  | none => do
    emit pipeline (.hyphenPartnerMissing lm.lineId ref.lineId direction)
    return none

/-- Claim the join a line opens, unless it leaves the page. -/
def claimOutgoing (pipeline : CorrectionPipeline) (workspace : PageWorkspace) (heap : Heap)
    (line : LineRef) (claims : Claims) : RunM Claims := do
  let lm := heap line
  match (forwardPartnerRef lm).filter (·.pageId = lm.pageId) with
  | none => return claims
  | some ref =>
    let direction := if lm.hyphenRole = .both then .forward else .backward
    match ← resolvePartner pipeline workspace lm ref direction with
    | some head => return claims.claim heap line head
    | none => return claims

/-- Claim the join a line closes, when it comes from another page. -/
def claimIncoming (pipeline : CorrectionPipeline) (workspace : PageWorkspace) (heap : Heap)
    (line : LineRef) (claims : Claims) : RunM Claims := do
  let lm := heap line
  match (backwardPartnerRef lm).filter (·.pageId ≠ lm.pageId) with
  | none => return claims
  | some ref =>
    match ← resolvePartner pipeline workspace lm ref .backward with
    | some tail => return claims.claim heap tail line
    | none => return claims

/-- Collect the joins a chunk owns. -/
def claimJoins (pipeline : CorrectionPipeline) (workspace : PageWorkspace)
    (chunkLines : List LineRef) : RunM Claims := do
  let s ← get
  chunkLines.foldlM
    (fun claims line => do
      let claims ← claimOutgoing pipeline workspace s.heap line claims
      claimIncoming pipeline workspace s.heap line claims)
    ⟨[], chunkLines.foldl addToPool []⟩

/-- The lines of a pool in the order their units are walked. -/
def walkOrder (heap : Heap) (pool : List LineRef) : List LineRef :=
  (deriveHyphenGroups (linesOf heap pool)).flatMap HyphenGroup.members

/-- Reconcile one join, count its outcome and refresh its traces. -/
def visitJoin [Unicode] (config : GuardConfig) (join : Join) (textById : Dict Str Str)
    (s : RunState) : RunState :=
  let (outcome, s) := reconcileOnePair config join textById s
  refreshPairTraces join outcome (recordReconcileOutcome outcome s)

/-- Reconcile the join a member opens, unless its head was written already. -/
def visitMember [Unicode] (config : GuardConfig) (joins : Dict LineRef Join)
    (textById : Dict Str Str) (member : LineRef) (writtenHeads : List LineRef) (s : RunState) :
    List LineRef × RunState :=
  match joins.get? member with
  | none => (writtenHeads, s)
  | some join =>
    if join.head ∈ writtenHeads then (writtenHeads, s)
    else (writtenHeads ++ [join.head], visitJoin config join textById s)

/-- One walk over the units, members in reading order.  Returns the heads
written, one for each join reconciled. -/
def walkUnitsReconciling [Unicode] (config : GuardConfig) (joins : Dict LineRef Join)
    (textById : Dict Str Str) : List LineRef → List LineRef × RunState → List LineRef × RunState
  | [], state => state
  | member :: rest, (writtenHeads, s) =>
    walkUnitsReconciling config joins textById rest
      (visitMember config joins textById member writtenHeads s)

/-- Reconcile the units of a chunk; returns the number of joins reconciled. -/
def reconcileChunkHyphens [Unicode] (pipeline : CorrectionPipeline) (workspace : PageWorkspace)
    (chunkLines : List LineRef) (textById : Dict Str Str) : RunM Nat := do
  let claims ← claimJoins pipeline workspace chunkLines
  let s ← get
  let (written, s') := walkUnitsReconciling pipeline.guardConfig claims.joins textById
    (walkOrder s.heap claims.pool) ([], s)
  set s'
  return written.length

end Saknussemm
