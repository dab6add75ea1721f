import Saknussemm.Run.Claims

/-! # The steps a chunk is made of.

Whatever a chunk's run does to the state, successes, retries, descents,
reverts and absorbed errors included, is a sequence of the few steps
listed here.  An invariant of each of them is an invariant of the chunk. -/

namespace Saknussemm

open Effects Relation

/-! ## The steps -/

/-- Nothing but counters, calls and events changed. -/
structure Quiet (s s' : RunState) : Prop where
  heap : s'.heap = s.heap
  reasons : s'.reasons = s.reasons
  producerOps : s'.producerOps = s.producerOps
  trail : s'.trail = s.trail

/-- Nothing but counters and calls changed. -/
structure Bookkeeping (s s' : RunState) : Prop extends Quiet s s' where
  events : s'.events = s.events

/-- Does the event say that a chunk was answered? -/
def EngineEvent.isAnswer : EngineEvent → Bool
  | chunkCompleted .. => true
  | _ => false

/-- The state after planning a page again. -/
def replanned (config : ChunkPlannerConfig) (page : PageManifest)
    (force : Option ChunkGranularity) (s : RunState) : RunState :=
  let planned := planPage config page force
  { s.write (.sever planned.1.hyphenSplits) (writeLines s.heap planned.2) with
    hyphenSplits := s.hyphenSplits ++ planned.1.hyphenSplits }

section Steps

variable [Unicode] (pipeline : CorrectionPipeline) (page : PageManifest)
  (workspace : PageWorkspace)

/-- One step of a chunk of a page. -/
inductive ChunkStep : RunState → RunState → Prop where
  | quiet {s s' : RunState} (h : Quiet s s') : ChunkStep s s'
  | capture (captured : LineRef → Option (List EditOp × Str)) (s : RunState) :
    ChunkStep s (captureProducerOps captured s)
  | join (join : Join) (textById : Dict Str Str) (s : RunState)
    (h : Claimed workspace s.heap join) (hlines : SingleLines textById) :
    ChunkStep s (visitJoin pipeline.guardConfig join textById s)
  | judge (line : LineRef) (textById : Dict Str Str) (s : RunState) (h : line ∈ workspace.refs)
    (hlines : SingleLines textById) :
    ChunkStep s (judgeLine pipeline.guardConfig workspace textById line s)
  | exhaust (targets : List LineRef) (failure : Option AttemptFailure) (s : RunState)
    (h : ∀ line ∈ targets, line ∈ workspace.refs) :
    ChunkStep s (exhaustTargets workspace targets failure s)
  | absorb (chunk : ChunkRequest) (message : Str) (s : RunState) :
    ChunkStep s (absorbChunkError workspace chunk message s)
  | descend (targets : List LineRef) (finer : ChunkGranularity) (s : RunState)
    (h : ∀ line ∈ targets, line ∈ workspace.refs) :
    ChunkStep s <| replanned pipeline.config (subpageForLines page (linesOf s.heap targets))
      (some finer) s

/-! ## Programs made of them -/

variable {pipeline page workspace}

omit [Unicode] in
theorem mem_refs_of_mem_targetLines {chunk : ChunkRequest} {line : LineRef}
    (h : line ∈ targetLines workspace chunk) : line ∈ workspace.refs := by
  obtain ⟨id, -, hid⟩ := List.mem_filterMap.mp (List.mem_filter.mp h).1
  exact mem_of_lineById hid

theorem steps_emit (event : EngineEvent) :
    Steps (ChunkStep pipeline page workspace) (emit pipeline event) :=
  steps_emit_of (fun _ _ => .quiet ⟨rfl, rfl, rfl, rfl⟩) event

theorem steps_checkAbort : Steps (ChunkStep pipeline page workspace) (checkAbort pipeline) :=
  steps_checkAbort_of fun _ _ => .quiet ⟨rfl, rfl, rfl, rfl⟩

/-! ### Attempts -/

section Attempts

variable {step : RunState → RunState → Prop}

omit [Unicode] in
theorem steps_bookkeeping (hbook : ∀ s s', Bookkeeping s s' → step s s') {f : RunState → RunState}
    (h : ∀ s, Bookkeeping s (f s)) : Steps step (modify f : RunM PUnit) :=
  steps_modify fun s => .single (hbook _ _ (h s))

omit [Unicode] in
theorem steps_produce (hbook : ∀ s s', Bookkeeping s s' → step s s') (producer : EditProducer)
    (request : CorrectionRequest) (attempt : Nat) (temperature : ℚ) :
    Steps step (produce producer request attempt temperature) := by
  apply steps_get_bind
  intro s
  refine Steps.bind (steps_bookkeeping hbook fun _ => ?_) (fun _ => ?_) s
  · exact ⟨⟨rfl, rfl, rfl, rfl⟩, rfl⟩
  split
  all_goals first | exact steps_pure _ | exact steps_throw _

variable (hbook : ∀ s s', Bookkeeping s s' → step s s')
  (hcapture : ∀ captured s, step s (captureProducerOps captured s))

include hbook hcapture

/-- Validating and capturing only record. -/
theorem steps_validateAndCapture [Digest] (producer : EditProducer) (chunk : ChunkRequest)
    (lines : List LineManifest) (ops : List EditOp) :
    Steps step (validateAndCapture pipeline producer chunk lines ops) := by
  unfold validateAndCapture
  simp only
  split
  · exact steps_pure _
  · refine Steps.bind (steps_bookkeeping hbook fun _ => ?_) fun _ => ?_
    · exact ⟨⟨rfl, rfl, rfl, rfl⟩, rfl⟩
    apply Steps.bind (steps_modify fun s => .single (hcapture _ s))
    intro _
    exact steps_pure _

theorem steps_attemptOnce [Digest] (producer : EditProducer) (chunk : ChunkRequest) (attempt : Nat)
    (temperature : ℚ) :
    Steps step (attemptOnce pipeline producer workspace chunk attempt temperature) := by
  apply steps_get_bind
  intro s
  refine Steps.bind (steps_produce hbook _ _ _ _) (fun answer => ?_) s
  cases answer with
  | error failure => exact steps_pure _
  | ok ops => exact steps_validateAndCapture hbook hcapture _ _ _ _

/-- The attempts are made one step after another. -/
theorem steps_attemptChunkFrom [Digest]
    (hemit : ∀ event, event.isAnswer = false → Steps step (emit pipeline event))
    (producer : EditProducer) (chunk : ChunkRequest) (left : Nat) :
    ∀ (attempt : Nat) (violation : Bool),
      Steps step (attemptChunkFrom pipeline producer workspace chunk left attempt violation) := by
  induction left with
  | zero => exact fun _ _ => steps_pure _
  | succ left ih =>
    intro attempt violation
    apply Steps.bind (steps_attemptOnce hbook hcapture _ _ _ _)
    intro answer
    cases answer with
    | ok response => exact steps_pure _
    | error failure =>
      show Steps _ (if _ then _ else _)
      split
      · apply Steps.bind (hemit _ rfl)
        intro _
        refine Steps.bind (steps_bookkeeping hbook fun _ => ?_) fun _ => ih _ _
        exact ⟨⟨rfl, rfl, rfl, rfl⟩, rfl⟩
      · exact steps_pure _

end Attempts

theorem steps_attemptChunk [Digest] (producer : EditProducer) (chunk : ChunkRequest)
    (maxAttempts : Nat) : Steps (ChunkStep pipeline page workspace)
      (attemptChunk pipeline producer workspace chunk maxAttempts) :=
  steps_attemptChunkFrom (fun _ _ h => .quiet h.toQuiet) .capture
    (fun event _ => steps_emit event) _ _ _ _ _

/-- What an answer of a chunk went through, on these lines. -/
def Validated (pipeline : CorrectionPipeline) (workspace : PageWorkspace) (chunk : ChunkRequest)
    (heap : Heap) (response : List LineProposal) : Prop :=
  ∃ entries, validateProposed pipeline.guardConfig chunk
    (linesOf heap (chunkLines workspace chunk)) entries = .ok response

theorem Validated.singleLines {chunk : ChunkRequest} {heap : Heap} {response : List LineProposal}
    (h : Validated pipeline workspace chunk heap response) : SingleLines (textById response) :=
  h.elim fun _ hvalid => singleLines_of_validate hvalid

omit [Unicode] in
theorem yields_quiet {α : Type} {m : RunM α} (hm : Steps Quiet m) (heap : Heap) :
    Yields (fun s => s.heap = heap) m fun _ s => s.heap = heap :=
  (hm.ends fun s s' hs h => by rw [h.heap, hs]).mono (fun _ h => h) (fun _ _ h => h)
    fun _ _ _ => trivial

omit [Unicode] in
theorem quiet_emit (event : EngineEvent) : Steps Quiet (emit pipeline event) :=
  steps_emit_of (fun _ _ => ⟨rfl, rfl, rfl, rfl⟩) event

omit [Unicode] in
theorem quiet_checkAbort : Steps Quiet (checkAbort pipeline) :=
  steps_checkAbort_of fun _ _ => ⟨rfl, rfl, rfl, rfl⟩

/-- An attempt leaves the lines alone, and its answer was validated. -/
theorem yields_attemptOnce [Digest] (producer : EditProducer) (chunk : ChunkRequest) (attempt : Nat)
    (temperature : ℚ) (heap : Heap) : Yields (fun s => s.heap = heap)
      (attemptOnce pipeline producer workspace chunk attempt temperature)
      fun answer s => s.heap = heap ∧
        ∀ response, answer = .ok response → Validated pipeline workspace chunk heap response := by
  apply ends_get_bind
  intro s
  refine Ends.bind (q := fun _ s' => s'.heap = heap ∧ s.heap = heap) ?_ fun answer => ?_
  · apply ends_get_bind
    intro s''
    refine Ends.bind (q := fun _ s' => s'.heap = heap ∧ s.heap = heap)
      (ends_modify fun s' h => ?_) fun _ => ?_
    · obtain ⟨rfl, rfl, h⟩ := h
      exact ⟨h, h⟩
    · split
      all_goals first | exact ends_pure fun _ h => h | exact ends_throw fun _ _ => trivial
  cases answer with
  | error failure => exact ends_pure fun _ h => ⟨h.1, fun _ h => nomatch h⟩
  | ok ops =>
    show Ends _ (validateAndCapture _ _ _ _ _) _ _
    unfold validateAndCapture
    simp only
    -- a valid response leaves its rejections and its operations on record and is handed on
    split
    · exact ends_pure fun _ h => ⟨h.1, fun _ h => nomatch h⟩
    · next response hvalid =>
      refine Ends.bind (q := fun _ s' => s'.heap = heap ∧ s.heap = heap)
        (ends_modify fun _ h => h) fun _ => ?_
      refine Ends.bind (q := fun _ s' => s'.heap = heap ∧ s.heap = heap)
        (ends_modify fun _ h => h) fun _ => ?_
      refine ends_pure fun s' h => ⟨h.1, ?_⟩
      rintro _ ⟨⟩
      exact ⟨_, h.2 ▸ hvalid⟩

/-- The attempts leave the heap alone and hand on a validated response. -/
theorem yields_attemptChunkFrom [Digest] (producer : EditProducer) (chunk : ChunkRequest)
    (heap : Heap) (left : Nat) : ∀ (attempt : Nat) (violation : Bool),
    Yields (fun s => s.heap = heap)
      (attemptChunkFrom pipeline producer workspace chunk left attempt violation)
      fun outcome s => s.heap = heap ∧ ∀ response, outcome.response = some response →
        Validated pipeline workspace chunk heap response := by
  induction left with
  | zero => exact fun _ _ => ends_pure fun _ h => ⟨h, fun _ h => nomatch h⟩
  | succ left ih =>
    intro attempt violation
    refine (yields_attemptOnce producer chunk attempt _ heap).bind fun answer => ?_
    cases answer with
    | ok response =>
      refine ends_pure fun s h => ⟨h.1, ?_⟩
      rintro _ ⟨⟩
      exact h.2 response rfl
    | error failure =>
      show Ends _ (if _ then _ else _) _ _
      split
      · refine Ends.bind (q := fun _ s => s.heap = heap)
          ((yields_quiet (quiet_emit _) heap).mono (fun _ h => h.1) (fun _ _ h => h)
            fun _ _ h => h) fun _ => ?_
        refine Ends.bind (q := fun _ s => s.heap = heap) (ends_modify fun _ h => h) fun _ => ?_
        exact ih _ _
      · exact ends_pure fun _ h => ⟨h.1, fun _ h => nomatch h⟩

/-! ### Reconciling -/

section Claims

variable {step : RunState → RunState → Prop}
  (hemit : ∀ event, event.isAnswer = false → Steps step (emit pipeline event))

include hemit

omit [Unicode] in
theorem steps_resolvePartner (lm : LineManifest) (ref : LineRef) (direction : LinkDirection) :
    Steps step (resolvePartner pipeline workspace lm ref direction) := by
  unfold resolvePartner
  split
  · exact steps_pure _
  · apply Steps.bind (hemit _ rfl)
    intro _
    exact steps_pure _

omit [Unicode] in
theorem steps_claimOutgoing (heap : Heap) (line : LineRef) (claims : Claims) :
    Steps step (claimOutgoing pipeline workspace heap line claims) := by
  unfold claimOutgoing
  simp only
  split
  · exact steps_pure _
  · apply Steps.bind (steps_resolvePartner hemit _ _ _)
    intro head
    cases head <;> exact steps_pure _

omit [Unicode] in
theorem steps_claimIncoming (heap : Heap) (line : LineRef) (claims : Claims) :
    Steps step (claimIncoming pipeline workspace heap line claims) := by
  unfold claimIncoming
  simp only
  split
  · exact steps_pure _
  · apply Steps.bind (steps_resolvePartner hemit _ _ _)
    intro tail
    cases tail <;> exact steps_pure _

omit [Unicode] in
theorem steps_claimJoins (lines : List LineRef) :
    Steps step (claimJoins pipeline workspace lines) := by
  apply steps_get_bind
  intro s
  refine steps_foldlM (fun claims line => ?_) _ _ s
  apply Steps.bind (steps_claimOutgoing hemit _ _ _)
  intro claims
  exact steps_claimIncoming hemit _ _ _

end Claims

/-! ### Walking the units -/

/-- A step that leaves roles and links alone. -/
theorem sameSkeleton_visitJoin (join : Join) (textById : Dict Str Str) (s : RunState) :
    SameSkeleton s.heap (visitJoin pipeline.guardConfig join textById s).heap :=
  sameSkeleton_reconcileOnePair _ _ _ _

/-- What the claims of a walk are worth while it goes on. -/
def AllClaimed (workspace : PageWorkspace) (heap : Heap) (joins : Dict LineRef Join) : Prop :=
  ∀ tail join, joins.get? tail = some join → Claimed workspace heap join

/-- A member is visited one step after another. -/
theorem steps_visitMember {joins : Dict LineRef Join} {s : RunState} {textById : Dict Str Str}
    (htexts : SingleLines textById) (member : LineRef) (writtenHeads : List LineRef)
    (hjoins : AllClaimed workspace s.heap joins) :
    ReflTransGen (ChunkStep pipeline page workspace) s
        (visitMember pipeline.guardConfig joins textById member writtenHeads s).2 ∧
      SameSkeleton s.heap
        (visitMember pipeline.guardConfig joins textById member writtenHeads s).2.heap := by
  unfold visitMember
  cases hjoin : joins.get? member with
  | none => exact ⟨.refl, .refl _⟩
  | some join =>
    simp only
    split
    · exact ⟨.refl, .refl _⟩
    · exact ⟨.single (.join join textById s (hjoins _ _ hjoin) htexts),
        sameSkeleton_visitJoin _ _ _⟩

theorem steps_walkUnitsReconciling {joins : Dict LineRef Join} {textById : Dict Str Str}
    (htexts : SingleLines textById) (order writtenHeads : List LineRef) {s : RunState}
    (hjoins : AllClaimed workspace s.heap joins) :
    ReflTransGen (ChunkStep pipeline page workspace) s
      (walkUnitsReconciling pipeline.guardConfig joins textById order (writtenHeads, s)).2 := by
  induction order generalizing writtenHeads s with
  | nil => exact .refl
  | cons member rest ih =>
    have hvisit := @steps_visitMember _ pipeline page _ _ _ _ htexts member writtenHeads hjoins
    exact hvisit.1.trans (ih _ fun tail join hjoin => (hjoins tail join hjoin).congr hvisit.2)

/-- The units of a chunk are reconciled one step after another. -/
theorem steps_reconcileChunkHyphens {textById : Dict Str Str} (htexts : SingleLines textById)
    {lines : List LineRef} (hlines : ∀ line ∈ lines, line ∈ workspace.refs) :
    Steps (ChunkStep pipeline page workspace)
      (reconcileChunkHyphens pipeline workspace lines textById) := by
  intro s
  refine (steps_claimJoins (fun event _ => steps_emit event) lines).bind_yields
    (yields_claimJoins (h := s.heap) lines) ?_ rfl
  rintro claims s' ⟨hheap, rfl⟩
  have hwalk : ReflTransGen (ChunkStep pipeline page workspace) s' _ :=
    steps_walkUnitsReconciling htexts (walkOrder s'.heap (claimsOf workspace s.heap lines).pool) []
      fun tail join hjoin => hheap ▸ (claimed_of_get? hlines hjoin).1
  rw [Prog.exec_bind_ok (Prog.exec_get s')]
  generalize walkUnitsReconciling _ _ _ _ _ = walked at hwalk ⊢
  exact hwalk

/-! ### Endings -/

theorem steps_applyLineAcceptance {textById : Dict Str Str} (htexts : SingleLines textById)
    {lines : List LineRef} (hlines : ∀ line ∈ lines, line ∈ workspace.refs) (s : RunState) :
    ReflTransGen (ChunkStep pipeline page workspace) s
      (applyLineAcceptance pipeline.guardConfig workspace textById lines s) := by
  unfold applyLineAcceptance
  induction lines generalizing s with
  | nil => exact .refl
  | cons line lines ih =>
    exact .head (.judge line textById s (hlines line (by simp)) htexts)
      (ih (fun line' h => hlines line' (List.mem_cons_of_mem _ h)) _)

/-- A successful chunk is finished one step after another. -/
theorem steps_finishSuccessfulChunk (chunk : ChunkRequest) {response : List LineProposal}
    (htexts : SingleLines (textById response)) :
    Steps (ChunkStep pipeline page workspace)
      (finishSuccessfulChunk pipeline workspace chunk response) := by
  have htargets : ∀ line ∈ targetLines workspace chunk, line ∈ workspace.refs :=
    fun line hline => mem_refs_of_mem_targetLines hline
  apply Steps.bind (steps_reconcileChunkHyphens htexts htargets)
  intro reconciled
  apply Steps.bind (steps_modify (steps_applyLineAcceptance htexts htargets))
  intro _
  apply Steps.bind (steps_emit _)
  intro _
  exact steps_pure _

theorem steps_applyChunkFallback (chunk : ChunkRequest) (failure : Option AttemptFailure) :
    Steps (ChunkStep pipeline page workspace)
      (applyChunkFallback pipeline workspace chunk failure) := by
  apply Steps.bind (steps_emit _)
  intro _
  exact steps_modify fun s =>
    .single (.exhaust _ failure s fun line hline => mem_refs_of_mem_targetLines hline)

theorem steps_fallBackChunk (chunk : ChunkRequest) (failure : Option AttemptFailure) :
    Steps (ChunkStep pipeline page workspace) (fallBackChunk pipeline workspace chunk failure) := by
  apply Steps.bind (steps_applyChunkFallback _ _)
  intro _
  exact steps_modify fun s => .single <| .quiet ⟨rfl, rfl, rfl, rfl⟩

/-! ### The descent -/

theorem steps_replan {targets : List LineRef} (htargets : ∀ line ∈ targets, line ∈ workspace.refs)
    (finer : ChunkGranularity) : Steps (ChunkStep pipeline page workspace)
      (replan pipeline.config (fun heap => subpageForLines page (linesOf heap targets))
        (some finer)) := by
  apply steps_get_bind
  intro s
  exact .single (.descend targets finer s htargets)

/-- Every call of a runner is made of steps. -/
def RunnerSteps (pipeline : CorrectionPipeline) (page : PageManifest) (workspace : PageWorkspace)
    (run : ChunkRunner) : Prop :=
  ∀ chunk budget, Steps (ChunkStep pipeline page workspace) (run chunk budget)

/-- A sub-chunk is run one step after another. -/
theorem steps_descendInto {run : ChunkRunner} (hrun : RunnerSteps pipeline page workspace run)
    (failure : Option AttemptFailure) (state : Nat × ChunkBudget) (sub : ChunkRequest) :
    Steps (ChunkStep pipeline page workspace)
      (descendInto pipeline workspace run failure state sub) := by
  apply Steps.bind steps_checkAbort
  intro _
  show Steps _ (if _ then _ else _)
  split
  · apply Steps.bind (steps_fallBackChunk _ _)
    intro _
    exact steps_pure _
  · apply Steps.bind (hrun _ _)
    intro _
    exact steps_pure _

theorem steps_descendGranularity {run : ChunkRunner}
    (hrun : RunnerSteps pipeline page workspace run)
    (chunk : ChunkRequest) (finer : ChunkGranularity) (failure : Option AttemptFailure)
    (budget : ChunkBudget) : Steps (ChunkStep pipeline page workspace)
      (descendGranularity pipeline page workspace run chunk finer failure budget) := by
  apply Steps.bind (steps_emit _)
  intro _
  apply Steps.bind (steps_replan (fun line hline => mem_refs_of_mem_targetLines hline) finer)
  intro plan
  exact steps_foldlM (steps_descendInto hrun failure) _ _

/-- A failed chunk is handled one step after another. -/
theorem steps_handleChunkFailure {run : ChunkRunner}
    (hrun : RunnerSteps pipeline page workspace run)
    (chunk : ChunkRequest) (outcome : AttemptOutcome) (budget : ChunkBudget) :
    Steps (ChunkStep pipeline page workspace)
      (handleChunkFailure pipeline page workspace run chunk outcome budget) := by
  have hrevert : Steps (ChunkStep pipeline page workspace) (do
      fallBackChunk pipeline workspace chunk outcome.lastFailure
      return ((0, budget) : Nat × ChunkBudget)) := by
    apply Steps.bind (steps_fallBackChunk _ _)
    intro _
    exact steps_pure _
  unfold handleChunkFailure
  split
  · split
    · exact steps_descendGranularity hrun _ _ _ _
    · exact hrevert
  · exact hrevert

/-- A chunk is run one step after another. -/
theorem steps_runChunkWith [Digest] (producer : EditProducer) {run : ChunkRunner}
    (hrun : RunnerSteps pipeline page workspace run) :
    RunnerSteps pipeline page workspace (runChunkWith pipeline producer page workspace run) := by
  intro chunk budget
  unfold runChunkWith
  simp only
  split
  · exact steps_pure _
  · apply Steps.bind (steps_emit _)
    intro _ s
    refine (steps_attemptChunk _ _ _).bind_yields (yields_attemptChunkFrom _ _ s.heap _ _ _)
      (fun outcome s' hend => ?_) rfl
    cases hresponse : outcome.response with
    | some response =>
      have htexts := (hend.2 response hresponse).singleLines
      refine Steps.bind (steps_finishSuccessfulChunk _ htexts) (fun _ => ?_) s'
      exact steps_pure _
    | none => exact steps_handleChunkFailure hrun _ _ _ s'

theorem steps_runChunk [Digest] (producer : EditProducer) (depth : Nat) :
    RunnerSteps pipeline page workspace (runChunk pipeline producer page workspace depth) := by
  induction depth with
  | zero => exact fun _ _ => steps_throw _
  | succ depth ih => exact steps_runChunkWith producer ih

/-- A fault is absorbed in one step. -/
theorem steps_absorb (chunk : ChunkRequest) (fault : Fault) :
    Steps (ChunkStep pipeline page workspace) (absorb pipeline workspace chunk fault) := by
  cases fault with
  | aborted => exact steps_throw _
  | permanent => exact steps_throw _
  | crash message =>
    apply Steps.bind (steps_emit _)
    intro _
    exact steps_throw _
  | domain message =>
    apply Steps.bind (steps_emit _)
    intro _
    apply Steps.bind (steps_modify fun s => .single (.absorb chunk message s))
    intro _
    exact steps_pure _

/-- **Whatever a chunk's run comes to, it is made of steps.** -/
theorem steps_runChunkAbsorbing [Digest] (item : ChunkRequest × EditProducer) :
    Steps (ChunkStep pipeline page workspace)
      (runChunkAbsorbing pipeline page workspace item) := by
  refine Steps.tryCatch ?_ (steps_absorb item.1)
  apply Steps.bind (steps_runChunk item.2 _ _ _)
  intro _
  exact steps_pure _

end Steps

end Saknussemm
