import Saknussemm.Library.Monitor
import Saknussemm.Run.Turns

/-! # The protocol of the event stream.

What observers are told follows the work: the document, then its pages in
their order, each with its chunks planned before one starts.  A chunk is
attempted, and then answered, cut down to finer chunks, or put back; an
error that is absorbed closes the top-level chunk it came from, and takes
back what that chunk had reconciled. -/

namespace Saknussemm

open Effects

/-! ## The monitor -/

/-- Where the chunk started last stands. -/
inductive ChunkPhase where
  /-- Its lines are asked for, in attempts numbered from 1. -/
  | attempting (chunk : ChunkRequest) (lineCount attempt : Nat)
  /-- It was answered, and its joins are claimed. -/
  | claiming (chunk : ChunkRequest) (lineCount : Nat)
  | closed
  deriving DecidableEq

/-- A page that is being corrected. -/
structure OpenPage where
  pageId : Str
  lineCount : Nat
  /-- The pages after it. -/
  later : List Str
  granularity : ChunkGranularity
  /-- The planned chunks that may still start. -/
  unstarted : Nat
  /-- The planned chunk that was started last, unless an error closed it. -/
  top : Option ChunkRequest
  /-- The chunks being cut down, the finest first. -/
  ancestors : List ChunkRequest
  phase : ChunkPhase
  /-- The joins of the planned chunks before the top one. -/
  reconciled : Nat
  /-- The joins of the top one. -/
  subtotal : Nat
  deriving DecidableEq

/-- What a stream of events may be in the middle of. -/
inductive StreamState where
  | opening (pages : List Str)
  | idle (later : List Str)
  | planning (pageId : Str) (lineCount : Nat) (later : List Str)
  | running (page : OpenPage)
  deriving DecidableEq

namespace OpenPage

/-- The chunks being cut down when a chunk of this granularity comes up. -/
def descent (page : OpenPage) (granularity : ChunkGranularity) : List ChunkRequest :=
  page.ancestors.dropWhile (·.granularity.depth ≤ granularity.depth)

/-- A chunk starts: one that was planned, or one that a chunk is cut down to. -/
def startChunk (page : OpenPage) (chunk : ChunkRequest) (lineCount : Nat) : Option OpenPage :=
  if page.phase = .closed ∧ chunk.pageId = page.pageId ∧ 0 < lineCount then
    match page.descent chunk.granularity with
    | [] =>
      if chunk.granularity = page.granularity ∧ 0 < page.unstarted then
        some { page with
          unstarted := page.unstarted - 1
          top := some chunk
          ancestors := []
          phase := .attempting chunk lineCount 1
          reconciled := page.reconciled + page.subtotal
          subtotal := 0 }
      else none
    | parent :: rest =>
      if chunk.lineIds ⊆ parent.targets then
        some { page with ancestors := parent :: rest, phase := .attempting chunk lineCount 1 }
      else none
  else none

/-- A chunk is put back: the one attempted, or one the budget does not reach. -/
def warn (page : OpenPage) (chunk : ChunkRequest) : Option OpenPage :=
  match page.phase with
  | .attempting started _ _ => if chunk = started then some { page with phase := .closed } else none
  | .claiming _ _ => none
  | .closed =>
    match page.descent chunk.granularity with
    | [] => none
    | parent :: rest =>
      if chunk.lineIds ⊆ parent.targets then some { page with ancestors :=
        parent :: rest } else none

/-- The top-level chunk taken back. -/
def cleared (page : OpenPage) : OpenPage :=
  { page with ancestors := [], phase := .closed, subtotal := 0 }

/-- What happens to the chunks of a page. -/
def step (page : OpenPage) : EngineEvent → Option OpenPage
  | .chunkStarted chunk lineCount => page.startChunk chunk lineCount
  | .retry chunk attempt _ =>
    match page.phase with
    | .attempting started lineCount next =>
      if chunk = started ∧ attempt = next then
        some { page with phase := .attempting started lineCount (next + 1) }
      else none
    | _ => none
  | .hyphenPartnerMissing .. =>
    match page.phase with
    | .attempting started lineCount _ => some { page with phase := .claiming started lineCount }
    | .claiming .. => some page
    | .closed => none
  | .chunkCompleted chunk lineCount targetCount reconciled =>
    match page.phase with
    | .attempting started shown _ | .claiming started shown =>
      if chunk = started ∧ lineCount = shown ∧ targetCount ≤ shown then
        some { page with phase := .closed, subtotal := page.subtotal + reconciled }
      else none
    | .closed => none
  | .chunkDowngraded chunk finer lineCount targetCount remaining =>
    match page.phase with
    | .attempting started shown _ =>
      if chunk = started ∧ downgradeGranularity started.granularity = some finer ∧
          lineCount = shown ∧ targetCount ≤ shown ∧ 0 < remaining then
        some { page with ancestors := started :: page.ancestors, phase := .closed }
      else none
    | _ => none
  | .warning chunk _ => page.warn chunk
  | .chunkError chunk _ =>
    if page.top = some chunk then some { page.cleared with top := none } else none
  | _ => none

end OpenPage

/-- The protocol of a run over these pages. -/
def streamMonitor (pages : List Str) : Monitor StreamState EngineEvent where
  start := .opening pages
  step
    | .opening pages, .documentParsed totalPages _ _ =>
      if totalPages = pages.length then some (.idle pages) else none
    | .idle (next :: later), .pageStarted pageId lineCount _ =>
      if pageId = next then some (.planning pageId lineCount later) else none
    | .planning planned lineCount later, .chunkPlanned pageId chunkCount granularity =>
      if pageId = planned then
        some (.running ⟨pageId, lineCount, later, granularity, chunkCount, none, [], .closed, 0, 0⟩)
      else none
    | .running page, .pageCompleted pageId corrections reconciled =>
      if page.phase = .closed ∧ pageId = page.pageId ∧ corrections ≤ page.lineCount ∧
          reconciled = page.reconciled + page.subtotal then
        some (.idle page.later)
      else none
    | .running page, event => (page.step event).map .running
    | _, _ => none

/-- No chunk is answered before it is started. -/
example (chunk : ChunkRequest) : ¬ (streamMonitor ["p".toList]).Follows
    [.documentParsed 1 1 0, .pageStarted "p".toList 1 0, .chunkPlanned "p".toList 1 .page,
      .chunkCompleted chunk 1 1 0] := Bool.false_ne_true

/-! ## What a plan makes of a page -/

/-- A chunk of a page's plan. -/
structure ChunkRequest.Planned (page : PageManifest) (granularity : ChunkGranularity)
    (chunk : ChunkRequest) : Prop where
  pageId : chunk.pageId = page.pageId
  grain : chunk.granularity = granularity
  lineIds : chunk.lineIds ⊆ page.lines.map LineManifest.lineId

section Plan

variable {config : ChunkPlannerConfig} {page : PageManifest}

theorem sliceIds_subset (lines : List LineManifest) (start stop : Nat) :
    sliceIds lines start stop ⊆ lines.map LineManifest.lineId :=
  (((List.take_sublist _ _).trans (List.drop_sublist _ _)).map _).subset

theorem planned_tryPage {plan : ChunkPlan} (hplan : tryPage config page = some plan) :
    ∀ chunk ∈ plan.chunks, chunk.Planned page plan.granularity := by
  rw [tryPage] at hplan
  split at hplan
  · cases hplan
    intro chunk hchunk
    rw [List.mem_singleton.mp hchunk]
    exact ⟨rfl, rfl, List.Subset.refl _⟩
  · cases hplan

/-- The chunks of a block plan are chunks of the page. -/
theorem planned_tryBlock {plan : ChunkPlan} (hplan : tryBlock config page = some plan) :
    ∀ chunk ∈ plan.chunks, chunk.Planned page plan.granularity := by
  rw [tryBlock] at hplan
  split at hplan
  · cases hplan
    intro chunk hchunk
    obtain ⟨group, -, rfl⟩ := List.mem_map.mp hchunk
    refine ⟨rfl, rfl, fun id hid => ?_⟩
    obtain ⟨lm, hlm, rfl⟩ := List.mem_map.mp hid
    obtain ⟨_, -, hin⟩ := List.mem_flatMap.mp hlm
    exact List.mem_map_of_mem (mem_lines_of_mem_linesOfBlock hin)
  · cases hplan

theorem planned_tryWindow :
    ∀ chunk ∈ (tryWindow config page).chunks,
        chunk.Planned page (tryWindow config page).granularity := by
  intro chunk hchunk
  obtain ⟨⟨ids, targets⟩, hzip, rfl⟩ := List.mem_map.mp hchunk
  obtain ⟨start, -, rfl⟩ := List.mem_map.mp (List.of_mem_zip hzip).1
  exact ⟨rfl, rfl, sliceIds_subset _ _ _⟩

/-- The chunks of a line plan are chunks of the page. -/
theorem planned_planLineFrom (fuel : Nat) : ∀ (lines : List LineManifest) (start : Nat),
    lines.map LineManifest.lineId = page.lines.map LineManifest.lineId →
    ∀ chunk ∈ (planLineFrom config page.pageId fuel lines start).1, chunk.Planned page .line := by
  induction fuel with
  | zero => exact fun _ _ _ _ h => nomatch h
  | succ fuel ih =>
    intro lines start hids chunk hchunk
    rw [planLineFrom] at hchunk
    split at hchunk
    · rcases List.mem_cons.mp hchunk with rfl | hchunk
      · exact ⟨rfl, rfl, hids ▸ sliceIds_subset _ _ _⟩
      · exact ih _ _ (by rwa [lineIds_severTail]) chunk hchunk
    · cases hchunk

/-- **A plan's chunks are of its page and of one granularity.** -/
theorem planned_planPage (config : ChunkPlannerConfig) (page : PageManifest)
    (force : Option ChunkGranularity) : ∀ chunk ∈ (planPage config page force).1.chunks,
      chunk.Planned page (planPage config page force).1.granularity := by
  have hblockOr : ∀ chunk ∈ ((tryBlock config page).getD (tryWindow config page)).chunks,
      chunk.Planned page ((tryBlock config page).getD (tryWindow config page)).granularity := by
    cases hblock : tryBlock config page with
    | some plan => exact planned_tryBlock hblock
    | none => exact planned_tryWindow
  have hauto : ∀ chunk ∈ (autoPlan config page).chunks,
      chunk.Planned page (autoPlan config page).granularity := by
    unfold autoPlan
    cases hpage : tryPage config page with
    | some plan => exact planned_tryPage hpage
    | none => exact hblockOr
  unfold planPage
  split
  · exact planned_planLineFrom _ _ _ rfl
  · exact planned_tryWindow
  · exact hblockOr
  · cases hpage : tryPage config page with
    | some plan => exact planned_tryPage hpage
    | none => exact hauto
  · exact hauto

end Plan

end Saknussemm
