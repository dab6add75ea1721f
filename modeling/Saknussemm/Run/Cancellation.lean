import Saknussemm.Library.Truncation
import Saknussemm.Run.StreamPages

/-! # Cancelling a run.

The probe is polled between pages, between chunks and between the pieces of
a descent.  A run that is cancelled where another one is not has done what
the other does, up to there: no call, no event and no write of its own. -/

namespace Saknussemm

open Effects Relation

/-! ## Going on -/

/-- The run went on from `s`: what was asked, told and done is still there. -/
structure Later (s s' : RunState) : Prop where
  calls : s.calls <+: s'.calls
  events : s.events <+: s'.events
  trail : s.trail <+: s'.trail
  polls : s.polls ≤ s'.polls

theorem Later.refl (s : RunState) : Later s s :=
  ⟨List.prefix_rfl, List.prefix_rfl, List.prefix_rfl, le_rfl⟩

theorem Later.trans {s s' s'' : RunState} (h : Later s s') (h' : Later s' s'') : Later s s'' :=
  ⟨h.calls.trans h'.calls, h.events.trans h'.events, h.trail.trans h'.trail, h.polls.trans h'.polls⟩

/-- Many steps of going on are one. -/
theorem later_of_steps {s s' : RunState} (h : ReflTransGen Later s s') : Later s s' := by
  induction h with
  | refl => exact .refl s
  | tail _ hlast ih => exact ih.trans hlast

/-- What a fold over the state goes on by, it goes on by. -/
theorem later_foldl {α : Type} {f : RunState → α → RunState} (hf : ∀ s a, Later s (f s a))
    (l : List α) (s : RunState) : Later s (l.foldl f s) := by
  induction l generalizing s with
  | nil => exact .refl s
  | cons a l ih => exact (hf s a).trans (ih _)

theorem later_write (s : RunState) (mark : Mark) (heap : Heap) : Later s (s.write mark heap) :=
  ⟨List.prefix_rfl, List.prefix_rfl, List.prefix_append _ _, le_rfl⟩

theorem later_accept (line : LineRef) (text : Str) (s : RunState) : Later s (accept line text s) :=
  later_write s _ _

theorem later_fallBack (line : LineRef) (reason : FallbackReason) (s : RunState) :
    Later s (fallBack line reason s) :=
  ⟨List.prefix_rfl, List.prefix_rfl, List.prefix_append _ _, le_rfl⟩

theorem later_fallBackToSource (lines : List LineRef) (reason : FallbackReason) (s : RunState) :
    Later s (fallBackToSource lines reason s) :=
  later_foldl (fun s line => later_fallBack line reason s) lines s

section Endings

variable {pipeline : CorrectionPipeline} {workspace : PageWorkspace}

theorem later_judgeLine (config : GuardConfig) (textById : Dict Str Str) (line : LineRef)
    (s : RunState) : Later s (judgeLine config workspace textById line s) := by
  unfold judgeLine
  dsimp only
  split
  · exact .refl s
  · split
    · exact .refl s
    · split
      · exact later_fallBack _ _ s
      · exact later_accept _ _ s

theorem later_exhaustTargets (targets : List LineRef) (failure : Option AttemptFailure)
    (s : RunState) : Later s (exhaustTargets workspace targets failure s) :=
  ((later_write s _ _).trans (later_fallBackToSource _ _ _)).trans (later_fallBackToSource _ _ _)

/-- Absorbing an error takes nothing off the record. -/
theorem later_absorbChunkError (chunk : ChunkRequest) (message : Str) (s : RunState) :
    Later s (absorbChunkError workspace chunk message s) := by
  unfold absorbChunkError
  dsimp only
  split
  · exact later_write s _ _
  · have hfell : ∀ fallen n s', Later s s' → Later s
        { fallBackToSource fallen (.chunkErrorAbsorbed message) s' with fallbackChunks := n } := by
      intro fallen n s' h
      have hon := h.trans (later_fallBackToSource fallen (.chunkErrorAbsorbed message) s')
      exact ⟨hon.calls, hon.events, hon.trail, hon.polls⟩
    exact hfell _ _ _ (later_write s _ _)

variable [Unicode]

/-- Visiting a pair takes nothing off the record. -/
theorem later_visitJoin (config : GuardConfig) (join : Join) (textById : Dict Str Str)
    (s : RunState) : Later s (visitJoin config join textById s) := by
  have hfell : ∀ s, Later s (fallBackJoin join s) := fun s =>
    (later_fallBack _ _ s).trans (later_fallBack _ _ _)
  have hnote : Later s (s.note (.join join.tail join.head join.isForward textById)) :=
    later_write s _ _
  suffices h : Later s (reconcileOnePair config join textById s).2 from
    ⟨h.calls, h.events, h.trail, h.polls⟩
  unfold reconcileOnePair
  dsimp only
  split
  · exact hnote.trans (hfell _)
  · apply hnote.trans
    have hsubs : ∀ subs (s s' : RunState), Later s s' → Later s (writeSubs join subs s') :=
      fun _ _ _ h => ⟨h.calls, h.events, h.trail, h.polls⟩
    apply hsubs
    split
    · exact hfell _
    · exact (later_accept _ _ _).trans (later_accept _ _ _)

/-- Walking the units takes nothing off the record. -/
theorem later_walkUnitsReconciling (config : GuardConfig) (joins : Dict LineRef Join)
    (textById : Dict Str Str) (members : List LineRef) (state : List LineRef × RunState) :
    Later state.2 (walkUnitsReconciling config joins textById members state).2 := by
  induction members generalizing state with
  | nil => exact .refl _
  | cons member members ih =>
    refine Later.trans ?_ (ih _)
    unfold visitMember
    split
    · exact .refl _
    · split
      · exact .refl _
      · exact later_visitJoin _ _ _ _

end Endings

section Passes

variable [Unicode] {pipeline : CorrectionPipeline} {document : DocumentManifest}

omit [Unicode] in
theorem later_applyUnitReverts (pass : RevertPass) (reverts : Dict LineRef FallbackReason)
    (s : RunState) : Later s (applyUnitReverts document pass reverts s).2 := by
  unfold applyUnitReverts
  split
  · exact .refl s
  · exact later_foldl (fun s (entry : LineRef × FallbackReason) =>
      later_fallBack entry.1 entry.2 s) _ s

theorem later_preserveBreakChars (s : RunState) : Later s (preserveBreakChars document s) := by
  refine later_foldl (fun s ref => ?_) _ s
  unfold preserveBreakCharOf
  dsimp only
  split
  · exact .refl s
  · split
    · exact .refl s
    · exact later_write s _ _

theorem later_finalizePasses (s : RunState) : Later s (finalizePasses pipeline document s).2 := by
  have hspelt : Later s (preserveBreakChars document (globalAdjacencyPass pipeline document s)) :=
    (later_applyUnitReverts _ _ _).trans (later_preserveBreakChars _)
  unfold finalizePasses lossPolicyPass
  split
  · exact hspelt.trans (later_applyUnitReverts _ _ _)
  · split
    · exact hspelt
    · exact hspelt.trans (later_applyUnitReverts _ _ _)

end Passes

/-! ## The programs go on -/

section Programs

variable {pipeline : CorrectionPipeline} {workspace : PageWorkspace}

theorem goesOn_modify {f : RunState → RunState} (h : ∀ s, Later s (f s)) :
    Steps Later (modify f : RunM PUnit) := steps_modify fun s => .single (h s)

theorem goesOn_emit (event : EngineEvent) : Steps Later (emit pipeline event) := by
  apply steps_get_bind
  intro s
  refine Steps.bind (goesOn_modify fun s => ?_) (fun _ => ?_) s
  · exact ⟨List.prefix_rfl, List.prefix_append _ _, List.prefix_rfl, le_rfl⟩
  · split
    · exact steps_throw _
    · exact steps_pure _

theorem goesOn_checkAbort : Steps Later (checkAbort pipeline) := by
  apply steps_get_bind
  intro s
  refine Steps.bind (goesOn_modify fun s => ?_) (fun _ => ?_) s
  · exact ⟨List.prefix_rfl, List.prefix_rfl, List.prefix_rfl, Nat.le_succ _⟩
  · split
    · exact steps_throw _
    · exact steps_pure _

theorem goesOn_produce (producer : EditProducer) (request : CorrectionRequest) (attempt : Nat)
    (temperature : ℚ) : Steps Later (produce producer request attempt temperature) := by
  apply steps_get_bind
  intro s
  refine Steps.bind (goesOn_modify fun s => ?_) (fun _ => ?_) s
  · exact ⟨List.prefix_append _ _, List.prefix_rfl, List.prefix_rfl, le_rfl⟩
  · split
    all_goals first | exact steps_pure _ | exact steps_throw _

theorem goesOn_replan (config : ChunkPlannerConfig) (page : Heap → PageManifest)
    (force : Option ChunkGranularity) : Steps Later (replan config page force) := by
  apply steps_get_bind
  intro s
  refine Steps.bind (goesOn_modify fun s => ?_) (fun _ => steps_pure _) s
  exact ⟨List.prefix_rfl, List.prefix_rfl, List.prefix_append _ _, le_rfl⟩

theorem goesOn_fallBackChunk (chunk : ChunkRequest) (failure : Option AttemptFailure) :
    Steps Later (fallBackChunk pipeline workspace chunk failure) := by
  refine Steps.bind (Steps.bind (goesOn_emit _) fun _ => ?_) fun _ => ?_
  · exact goesOn_modify (later_exhaustTargets _ failure)
  · exact goesOn_modify fun s => ⟨List.prefix_rfl, List.prefix_rfl, List.prefix_rfl, le_rfl⟩

/-- Routing takes nothing off the record. -/
theorem goesOn_routeAndFilterChunks (chunks : List ChunkRequest) :
    Steps Later (routeAndFilterChunks pipeline workspace chunks) := by
  unfold routeAndFilterChunks
  split
  · exact steps_pure _
  · next scorer _ =>
    apply steps_get_bind
    intro s
    refine Steps.bind (goesOn_modify fun s => ?_) (fun _ => steps_pure _) s
    have hconfirmed : ∀ skip, Later s (confirmSkippedLines workspace skip s) := fun skip =>
      later_foldl (fun s line => later_accept line _ s) _ s
    exact ⟨(hconfirmed _).calls, (hconfirmed _).events, (hconfirmed _).trail, (hconfirmed _).polls⟩

theorem goesOn_planPageChunks (page : PageManifest) :
    Steps Later (planPageChunks pipeline page workspace) := by
  apply Steps.bind (goesOn_replan _ _ _)
  intro plan
  apply Steps.bind (goesOn_routeAndFilterChunks _)
  intro routed
  apply steps_get_bind
  intro s
  split
  · exact steps_throw _ s
  · exact (goesOn_emit _).bind (fun _ => steps_pure _) s

variable [Unicode]

theorem goesOn_finishSuccessfulChunk (chunk : ChunkRequest) (response : List LineProposal) :
    Steps Later (finishSuccessfulChunk pipeline workspace chunk response) := by
  refine Steps.bind ?_ fun reconciled => ?_
  · apply Steps.bind (steps_claimJoins (fun event _ => goesOn_emit event) _)
    intro claims
    apply steps_get_bind
    intro s
    exact .single (later_walkUnitsReconciling _ claims.joins _
      (walkOrder s.heap claims.pool) ([], s))
  · refine Steps.bind (goesOn_modify fun s => ?_) fun _ => ?_
    · exact later_foldl (fun s line => later_judgeLine _ _ line s) _ s
    · exact (goesOn_emit _).bind fun _ => steps_pure _

variable [Digest]

theorem goesOn_validateAndCapture (producer : EditProducer) (chunk : ChunkRequest)
    (lines : List LineManifest) (ops : List EditOp) :
    Steps Later (validateAndCapture pipeline producer chunk lines ops) := by
  unfold validateAndCapture
  dsimp only
  split
  · exact steps_pure _
  · refine Steps.bind (goesOn_modify fun s => ?_) fun _ => ?_
    · exact ⟨List.prefix_rfl, List.prefix_rfl, List.prefix_rfl, le_rfl⟩
    · refine Steps.bind (goesOn_modify fun s => ?_) fun _ => steps_pure _
      exact ⟨List.prefix_rfl, List.prefix_rfl, List.prefix_append _ _, le_rfl⟩

theorem goesOn_attemptOnce (producer : EditProducer) (chunk : ChunkRequest) (attempt : Nat)
    (temperature : ℚ) :
    Steps Later (attemptOnce pipeline producer workspace chunk attempt temperature) := by
  apply steps_get_bind
  intro s
  refine Steps.bind (goesOn_produce _ _ _ _) (fun answer => ?_) s
  cases answer with
  | error failure => exact steps_pure _
  | ok ops => exact goesOn_validateAndCapture _ _ _ _

theorem goesOn_finalizeDocument (document : DocumentManifest) (totals : Nat × Nat) :
    Steps Later (finalizeDocument pipeline document totals) := by
  apply steps_get_bind
  intro s
  have hpasses := @later_finalizePasses _ pipeline document s
  rcases hexec : finalizePasses pipeline document s with ⟨sidecar, s'⟩
  rw [hexec] at hpasses
  refine .single ?_
  show Later s ((set s' >>= fun _ => _ : RunM CorrectionResult).exec s).2
  rw [Prog.exec_bind_ok (show Prog.exec (set s' : RunM PUnit) s = (.ok ⟨⟩, s') from rfl)]
  cases deriveDecisionSet document s' <;> exact hpasses

end Programs

/-! ## Two probes -/

/-- The same engine under another probe. -/
def CorrectionPipeline.probing (pipeline : CorrectionPipeline) (probe : Nat → Bool) :
    CorrectionPipeline :=
  { pipeline with shouldAbort := probe }

/-- The last poll is one that only `probe` answers by cancelling. -/
def CorrectionPipeline.CutBy (pipeline : CorrectionPipeline) (probe : Nat → Bool) (s : RunState) :
    Prop :=
  ∃ n, s.polls = n + 1 ∧ probe n = true ∧ pipeline.shouldAbort n = false

section Probes

variable {pipeline : CorrectionPipeline} {probe : Nat → Bool} {workspace : PageWorkspace}

/-- Under the probe the program is cut short, where it is not the same. -/
abbrev CutShort (pipeline : CorrectionPipeline) (probe : Nat → Bool) {α : Type} (m m' : RunM α) :
    Prop :=
  Truncates Later .aborted (pipeline.CutBy probe) m m'

/-- A poll is where the two part. -/
theorem cut_checkAbort (h : ∀ n, pipeline.shouldAbort n = true → probe n = true) :
    CutShort pipeline probe (checkAbort (pipeline.probing probe)) (checkAbort pipeline) := by
  refine ⟨goesOn_checkAbort, fun s => ?_⟩
  have hpoll : ∀ engine : CorrectionPipeline, (checkAbort engine).exec s =
      (if engine.shouldAbort s.polls then .error .aborted else .ok (),
        { s with polls := s.polls + 1 }) := by
    intro engine
    unfold checkAbort
    rw [Prog.exec_bind_ok (Prog.exec_get s), Prog.exec_bind_ok (Prog.exec_modify _ s)]
    split <;> rfl
  rw [hpoll, hpoll]
  cases hthis : probe s.polls with
  | false =>
    have hthat : pipeline.shouldAbort s.polls = false := by
      cases hthat : pipeline.shouldAbort s.polls with
      | false => rfl
      | true => exact absurd (h _ hthat) (by simp [hthis])
    exact .inl (by simp [CorrectionPipeline.probing, hthis, hthat])
  | true =>
    cases hthat : pipeline.shouldAbort s.polls with
    | true => exact .inl (by simp [CorrectionPipeline.probing, hthis])
    | false =>
      refine .inr ⟨?_, ⟨s.polls, rfl, hthis, hthat⟩, .refl⟩
      simp [CorrectionPipeline.probing, hthis]

theorem cut_emit (event : EngineEvent) :
    CutShort pipeline probe (emit (pipeline.probing probe) event) (emit pipeline event) :=
  (goesOn_emit event).truncates

theorem cut_fallBackChunk (chunk : ChunkRequest) (failure : Option AttemptFailure) :
    CutShort pipeline probe (fallBackChunk (pipeline.probing probe) workspace chunk failure)
      (fallBackChunk pipeline workspace chunk failure) :=
  (goesOn_fallBackChunk chunk failure).truncates

/-- What a descent calls back is cut short. -/
def RunnerCut (pipeline : CorrectionPipeline) (probe : Nat → Bool)
    (run run' : ChunkRunner) : Prop :=
  ∀ chunk budget, CutShort pipeline probe (run chunk budget) (run' chunk budget)

variable (h : ∀ n, pipeline.shouldAbort n = true → probe n = true)

include h

/-- Under a probe a descent is the same descent, cut short. -/
theorem cut_descendGranularity {run run' : ChunkRunner} (hrun : RunnerCut pipeline probe run run')
    (page : PageManifest) (chunk : ChunkRequest) (finer : ChunkGranularity)
    (failure : Option AttemptFailure) (budget : ChunkBudget) : CutShort pipeline probe
      (descendGranularity (pipeline.probing probe) page workspace run chunk finer failure budget)
      (descendGranularity pipeline page workspace run' chunk finer failure budget) := by
  apply Truncates.bind (cut_emit _)
  intro _
  apply Truncates.bind (goesOn_replan _ _ _).truncates
  intro plan
  refine truncates_foldlM (fun state sub => ?_) _ _
  apply Truncates.bind (cut_checkAbort h)
  intro _
  apply Truncates.ite Iff.rfl
  · apply Truncates.bind (cut_fallBackChunk _ _)
    intro _
    exact (steps_pure _).truncates
  · apply Truncates.bind (hrun sub _)
    intro _
    exact (steps_pure _).truncates

/-- Under a probe a failed chunk is handled alike, or cut short. -/
theorem cut_handleChunkFailure {run run' : ChunkRunner} (hrun : RunnerCut pipeline probe run run')
    (page : PageManifest) (chunk : ChunkRequest) (outcome : AttemptOutcome) (budget : ChunkBudget) :
    CutShort pipeline probe
      (handleChunkFailure (pipeline.probing probe) page workspace run chunk outcome budget)
      (handleChunkFailure pipeline page workspace run' chunk outcome budget) := by
  unfold handleChunkFailure
  split
  · split
    · exact cut_descendGranularity h hrun _ _ _ _ _
    · apply Truncates.bind (cut_fallBackChunk _ _)
      intro _
      exact (steps_pure _).truncates
  · apply Truncates.bind (cut_fallBackChunk _ _)
    intro _
    exact (steps_pure _).truncates

variable [Unicode] [Digest]

omit h in
/-- The attempts of a chunk are not polled. -/
theorem cut_attemptChunkFrom (producer : EditProducer) (chunk : ChunkRequest) (left : Nat) :
    ∀ attempt hyphenViolation, CutShort pipeline probe
      (attemptChunkFrom (pipeline.probing probe) producer workspace chunk left attempt
        hyphenViolation)
      (attemptChunkFrom pipeline producer workspace chunk left attempt hyphenViolation) := by
  induction left with
  | zero => exact fun _ _ => (steps_pure _).truncates
  | succ left ih =>
    intro attempt hyphenViolation
    unfold attemptChunkFrom
    apply Truncates.bind (goesOn_attemptOnce _ _ _ _).truncates
    intro answer
    cases answer with
    | ok response => exact (steps_pure _).truncates
    | error failure =>
      refine Truncates.ite Iff.rfl ?_ (steps_pure _).truncates
      apply Truncates.bind (cut_emit _)
      intro _
      refine Truncates.bind (goesOn_modify fun s => ?_).truncates fun _ => ih _ _
      exact ⟨List.prefix_rfl, List.prefix_rfl, List.prefix_rfl, le_rfl⟩

/-- Under a probe a chunk runs alike, or is cut short. -/
theorem cut_runChunk (producer : EditProducer) (page : PageManifest) (depth : Nat) :
    RunnerCut pipeline probe (runChunk (pipeline.probing probe) producer page workspace depth)
      (runChunk pipeline producer page workspace depth) := by
  induction depth with
  | zero => exact fun _ _ => (steps_throw _).truncates
  | succ depth ih =>
    intro chunk budget
    show CutShort _ _ (runChunkWith _ _ _ _ _ _ _) (runChunkWith _ _ _ _ _ _ _)
    unfold runChunkWith
    dsimp only
    split
    · exact (steps_pure _).truncates
    · apply Truncates.bind (cut_emit _)
      intro _
      apply Truncates.bind (cut_attemptChunkFrom _ _ _ _ _)
      intro outcome
      split
      · apply Truncates.bind (goesOn_finishSuccessfulChunk _ _).truncates
        intro _
        exact (steps_pure _).truncates
      · exact cut_handleChunkFailure h ih _ _ _ _

/-- Under a probe an item runs alike, or is cut short. -/
theorem cut_runItem (page : PageManifest) (reconciled : Nat) (item : ChunkRequest × EditProducer) :
    CutShort pipeline probe (runItem (pipeline.probing probe) page workspace reconciled item)
      (runItem pipeline page workspace reconciled item) := by
  apply Truncates.bind (cut_checkAbort h)
  intro _
  refine Truncates.bind (Truncates.tryCatch ?_ (fun fault => ?_) rfl) fun _ =>
    (steps_pure _).truncates
  · apply Truncates.bind (cut_runChunk h _ _ _ _ _)
    intro _
    exact (steps_pure _).truncates
  · apply Steps.truncates
    cases fault with
    | aborted => exact steps_throw _
    | permanent => exact steps_throw _
    | crash message => exact (goesOn_emit _).bind fun _ => steps_throw _
    | domain message =>
      apply Steps.bind (goesOn_emit _)
      intro _
      exact (goesOn_modify (later_absorbChunkError _ _)).bind fun _ => steps_pure _

/-- Under a probe a page is processed alike, or cut short. -/
theorem cut_processPage (document : DocumentManifest) (page : PageManifest) :
    CutShort pipeline probe (processPage (pipeline.probing probe) document page)
      (processPage pipeline document page) := by
  apply truncates_get_bind
  intro s
  apply Truncates.bind (cut_emit _)
  intro _
  apply Truncates.bind (goesOn_planPageChunks page).truncates
  intro items
  apply Truncates.bind (truncates_foldlM (cut_runItem h page) _ _)
  intro reconciled
  apply truncates_get_bind
  intro s
  apply Truncates.bind (cut_emit _)
  intro _
  exact (steps_pure _).truncates

/-- Under a probe the whole pipeline runs alike, or is cut short. -/
theorem cut_runPipeline (document : DocumentManifest) :
    CutShort pipeline probe (runPipeline (pipeline.probing probe) document)
      (runPipeline pipeline document) := by
  refine Truncates.bind (Truncates.bind ?_ fun _ => ?_) fun totals => ?_
  · apply Steps.truncates
    unfold preflight
    split
    · exact steps_pure _
    · exact steps_throw _
  · apply Truncates.bind (cut_emit _)
    intro _
    refine truncates_foldlM (fun totals page => ?_) _ _
    apply Truncates.bind (cut_checkAbort h)
    intro _
    apply Truncates.bind (cut_processPage h document page)
    intro _
    exact (steps_pure _).truncates
  · exact (goesOn_finalizeDocument document totals).truncates

/-- **A run cancelled earlier is the run cut short**: it ends as the other
run does, or it ends cancelled at a poll the other run makes as well, with
the calls, the events and the writes of the other run up to there. -/
theorem run_probing (document : DocumentManifest) :
    run (pipeline.probing probe) document = run pipeline document ∨
      (run (pipeline.probing probe) document).1 = .error .aborted ∧
        (∃ n < (run pipeline document).2.polls, probe n = true ∧ pipeline.shouldAbort n = false) ∧
        Later (run (pipeline.probing probe) document).2 (run pipeline document).2 := by
  refine ((cut_runPipeline h document).cut (initialState document)).imp id fun hcut => ?_
  obtain ⟨hended, ⟨n, hpolls, hprobe, hother⟩, hon⟩ := hcut
  have hlater := later_of_steps hon
  refine ⟨hended, ⟨n, ?_, hprobe, hother⟩, hlater⟩
  exact Nat.lt_of_lt_of_le (hpolls ▸ Nat.lt_succ_self n) hlater.polls

end Probes

/-- Cancelled at its second page, a run of two pages has told what the whole
run tells of the first. -/
theorem run_probing_cleanFiles :
    (@run .ascii .plain (.probing (.plain (.answering []) .default) (· = 2))
      (builtDocument .default cleanFiles)).1 = .error .aborted ∧
    (@run .ascii .plain (.probing (.plain (.answering []) .default) (· = 2))
      (builtDocument .default cleanFiles)).2.events <+:
    (@run .ascii .plain (.plain (.answering []) .default)
      (builtDocument .default cleanFiles)).2.events := by
  have hwhole : (@run .ascii .plain (.plain (.answering []) .default)
    (builtDocument .default cleanFiles)).1.isOk = true := by decide +kernel
  have hcut : (@run .ascii .plain (.probing (.plain (.answering []) .default) (· = 2))
    (builtDocument .default cleanFiles)).1.isOk = false := by decide +kernel
  rcases @run_probing (.plain (.answering []) .default) (· = 2)
    (fun _ h => by cases h) .ascii .plain
    (builtDocument .default cleanFiles) with hsame | ⟨haborted, -, hlater⟩
  · rw [hsame, hwhole] at hcut
    cases hcut
  · exact ⟨haborted, hlater.events⟩

end Saknussemm
