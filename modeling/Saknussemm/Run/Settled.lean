import Saknussemm.Run.Budget
import Saknussemm.Run.Decisions

/-! # Every line of a run ends up decided.

However a chunk ends, its targets are decided: judged, reverted, handed to
finer chunks that cover them, or put back by the absorbed error.  The plan
covers the page, routing and batching lose no target, so a page loop that
ends leaves no line behind. -/

namespace Saknussemm

open Effects Relation

/-! ## Decisions are not taken back -/

/-- Each line is decided, or as it was. -/
def Advances (h h' : Heap) : Prop :=
  ∀ ref, (h' ref).status ≠ .pending ∨ ((h' ref).status = (h ref).status ∧
    (h' ref).correctedText.isSome = (h ref).correctedText.isSome)

section Advancing

variable {h h' h'' : Heap} {s s' : RunState}

theorem Advances.refl (h : Heap) : Advances h h := fun _ => .inr ⟨rfl, rfl⟩

theorem Advances.trans (hs : Advances h h') (hs' : Advances h' h'') : Advances h h'' := by
  intro ref
  rcases hs' ref with hdecided | ⟨hstatus, htext⟩
  · exact .inl hdecided
  · rcases hs ref with hdecided | ⟨hstatus', htext'⟩
    · exact .inl (hstatus ▸ hdecided)
    · exact .inr ⟨hstatus.trans hstatus', htext.trans htext'⟩

theorem Advances.decided (hs : Advances h h') {ref : LineRef} (href : (h ref).status ≠ .pending) :
    (h' ref).status ≠ .pending := by
  rcases hs ref with hdecided | ⟨hstatus, -⟩
  · exact hdecided
  · rwa [hstatus]

theorem advances_set {line : LineRef} {lm : LineManifest}
    (hline : lm.status ≠ .pending ∨
      (lm.status = (h line).status ∧ lm.correctedText.isSome = (h line).correctedText.isSome)) :
    Advances h (h.set line lm) :=
  Heap.forall_set (P := fun ref lm => lm.status ≠ .pending ∨ (lm.status = (h ref).status ∧
    lm.correctedText.isSome = (h ref).correctedText.isSome)) hline (Advances.refl h)

theorem advances_accept (line : LineRef) (text : Str) (s : RunState) :
    Advances s.heap (accept line text s).heap := advances_set (.inl (by simp))

theorem advances_fallBack (line : LineRef) (reason : FallbackReason) (s : RunState) :
    Advances s.heap (fallBack line reason s).heap := advances_set (.inl (by simp))

theorem advances_fallBackToSource (lines : List LineRef) (reason : FallbackReason) (s : RunState) :
    Advances s.heap (fallBackToSource lines reason s).heap := by
  unfold fallBackToSource
  induction lines generalizing s with
  | nil => exact .refl _
  | cons line lines ih => exact (advances_fallBack _ _ _).trans (ih _)

theorem advances_writeSubs (join : Join) (subs : Option Str) (s : RunState) :
    Advances s.heap (writeSubs join subs s).heap := by
  have hsame : ∀ (isForward : Bool) (lm : LineManifest),
      (setSubsContent isForward subs lm).status = lm.status ∧
        (setSubsContent isForward subs lm).correctedText.isSome = lm.correctedText.isSome := by
    intro isForward lm
    unfold setSubsContent
    split <;> exact ⟨rfl, rfl⟩
  exact (advances_set (.inr (hsame _ _))).trans (advances_set (.inr (hsame _ _)))

theorem advances_of_untied (hs : ∀ ref, (h' ref).untied = (h ref).untied) : Advances h h' := by
  intro ref
  have hread : ∀ {α : Type} (f : LineManifest → α), (∀ lm, f lm.untied = f lm) →
      f (h' ref) = f (h ref) := fun f hf => by rw [← hf, hs ref, hf]
  exact .inr ⟨hread LineManifest.status fun _ => rfl,
    congrArg Option.isSome (hread LineManifest.correctedText fun _ => rfl)⟩

/-- Judging a line decides it. -/
theorem advances_judgeLine (config : GuardConfig) (workspace : PageWorkspace)
    (textById : Dict Str Str) (line : LineRef) (s : RunState) :
    Advances s.heap (judgeLine config workspace textById line s).heap := by
  unfold judgeLine
  dsimp only
  split
  · exact .refl _
  · split
    · exact .refl _
    · split
      · exact advances_fallBack _ _ _
      · exact advances_accept _ _ _

/-- A visited pair is decided. -/
theorem advances_visitJoin [Unicode] (config : GuardConfig) (join : Join) (textById : Dict Str Str)
    (s : RunState) : Advances s.heap (visitJoin config join textById s).heap := by
  show Advances s.heap (reconcileOnePair config join textById s).2.heap
  have hfell : Advances s.heap
      (fallBackJoin join (s.note (.join join.tail join.head join.isForward textById))).heap :=
    (advances_fallBack _ _ (s.note _)).trans (advances_fallBack _ _ _)
  unfold reconcileOnePair
  dsimp only
  split
  · exact hfell
  · refine Advances.trans ?_ (advances_writeSubs _ _ _)
    split
    · exact hfell
    · exact (advances_accept _ _ (s.note _)).trans (advances_accept _ _ _)

theorem advances_exhaustTargets (workspace : PageWorkspace) (targets : List LineRef)
    (failure : Option AttemptFailure) (s : RunState) :
    Advances s.heap (exhaustTargets workspace targets failure s).heap :=
  (advances_fallBackToSource _ _ (s.note _)).trans (advances_fallBackToSource _ _ _)

theorem advances_absorbChunkError (workspace : PageWorkspace) (chunk : ChunkRequest) (message : Str)
    (s : RunState) : Advances s.heap (absorbChunkError workspace chunk message s).heap := by
  unfold absorbChunkError
  dsimp only
  split
  · exact .refl _
  · exact advances_fallBackToSource _ _ (s.note _)

/-- A step of a chunk undoes no decision. -/
theorem advances_chunkStep [Unicode] {pipeline : CorrectionPipeline} {page : PageManifest}
    {workspace : PageWorkspace} (haddr : Addressed s.heap)
    (h : ChunkStep pipeline page workspace s s') : Advances s.heap s'.heap := by
  cases h with
  | quiet h =>
    rw [h.heap]
    exact .refl _
  | capture captured => exact .refl _
  | join join textById _ hclaimed hlines => exact advances_visitJoin _ _ _ _
  | judge line textById _ hline hlines => exact advances_judgeLine _ _ _ _ _
  | exhaust targets failure _ htargets => exact advances_exhaustTargets _ _ _ _
  | absorb chunk message => exact advances_absorbChunkError _ _ _ _
  | descend targets finer _ htargets => exact advances_of_untied (untied_replanned haddr rfl _ _)

end Advancing

/-! ## Progress -/

/-- What a run keeps while these lines are decided: a line with a text is. -/
structure Progress (refs : List LineRef) (s : RunState) : Prop where
  addressed : Addressed s.heap
  texts : ∀ ref, (s.heap ref).correctedText.isSome → (s.heap ref).status ≠ .pending
  settled : ∀ ref ∈ refs, (s.heap ref).status ≠ .pending

section Progressing

variable {refs refs' : List LineRef} {s s' : RunState}

theorem Progress.mono (hs : Progress refs s) (hsub : refs' ⊆ refs) : Progress refs' s :=
  ⟨hs.addressed, hs.texts, fun ref href => hs.settled ref (hsub href)⟩

theorem Progress.advance (hs : Progress refs s) (haddr : Addressed s'.heap)
    (h : Advances s.heap s'.heap) : Progress refs s' where
  addressed := haddr
  texts ref htext := by
    rcases h ref with hdecided | ⟨hstatus, hsame⟩
    · exact hdecided
    · rw [hstatus]
      exact hs.texts ref (hsame ▸ htext)
  settled ref href := h.decided (hs.settled ref href)

theorem Progress.quiet (hs : Progress refs s) (h : Quiet s s') : Progress refs s' :=
  hs.advance (h.heap ▸ hs.addressed) (h.heap ▸ .refl _)

/-- More lines are decided. -/
theorem Progress.settle (hs : Progress refs s)
    (h : ∀ ref ∈ refs', (s.heap ref).status ≠ .pending) : Progress (refs ++ refs') s :=
  ⟨hs.addressed, hs.texts, fun ref href =>
    (List.mem_append.mp href).elim (hs.settled ref) (h ref)⟩

variable [Unicode] {pipeline : CorrectionPipeline} {page : PageManifest} {workspace : PageWorkspace}

theorem progress_chunkStep (hs : Progress refs s) (h : ChunkStep pipeline page workspace s s') :
    Progress refs s' :=
  hs.advance ((sameSource_chunkStep hs.addressed h).addressed hs.addressed)
    (advances_chunkStep hs.addressed h)

/-- A program of chunk steps keeps what is decided, however it ends. -/
theorem ends_progress {α : Type} {m : RunM α} (hm : Steps (ChunkStep pipeline page workspace) m) :
    Ends (Progress refs) m (fun _ => Progress refs) fun _ => Progress refs :=
  hm.ends fun _ _ hs h => progress_chunkStep hs h

omit [Unicode] in
theorem ends_emit_progress (event : EngineEvent) :
    Ends (Progress refs) (emit pipeline event) (fun _ => Progress refs) fun _ => Progress refs :=
  (quiet_emit event).ends fun _ _ hs h => hs.quiet h

/-! ## The endings of a chunk -/

omit [Unicode] in
/-- Judging a line that has an answer decides it. -/
theorem settled_judgeLine (hs : Progress refs s) (config : GuardConfig) {textById : Dict Str Str}
    {line : LineRef} (htext : (textById.get? line.lineId).isSome) :
    ((judgeLine config workspace textById line s).heap line).status ≠ .pending := by
  have hid : (s.heap line).lineId = line.lineId := congrArg LineRef.lineId (hs.addressed line)
  unfold judgeLine
  dsimp only
  rw [hid]
  split
  · next hsome => exact hs.texts line hsome
  · cases hget : textById.get? line.lineId with
    | none =>
      rw [hget] at htext
      cases htext
    | some corrected =>
      dsimp only
      split
      · rw [heap_fallBack, if_pos rfl]
        simp
      · rw [heap_accept, if_pos rfl]
        simp

omit [Unicode] in
/-- Accepting the lines of a response settles them. -/
theorem progress_applyLineAcceptance (config : GuardConfig) {textById : Dict Str Str}
    {lines : List LineRef} (htexts : ∀ line ∈ lines, (textById.get? line.lineId).isSome) :
    ∀ {refs : List LineRef} {s : RunState}, Progress refs s →
      Progress (refs ++ lines) (applyLineAcceptance config workspace textById lines s) := by
  unfold applyLineAcceptance
  induction lines with
  | nil =>
    intro refs s hs
    rwa [List.append_nil]
  | cons line lines ih =>
    intro refs s hs
    have hjudged : Progress (refs ++ [line]) (judgeLine config workspace textById line s) := by
      refine (hs.advance ?_ (advances_judgeLine _ _ _ _ _)).settle fun ref href => ?_
      · exact (sameSkeleton_judgeLine _ _ _ _ _).sameSource.addressed hs.addressed
      · obtain rfl := List.mem_singleton.mp href
        exact settled_judgeLine hs config (htexts ref (by simp))
    simpa using ih (fun l hl => htexts l (by simp [hl])) hjudged

/-- **A judged chunk's targets are decided.** -/
theorem ends_finishSuccessfulChunk (page : PageManifest) (chunk : ChunkRequest)
    {response : List LineProposal} (hlines : SingleLines (textById response))
    (htexts : ∀ line ∈ targetLines workspace chunk, ((textById response).get? line.lineId).isSome) :
    Ends (Progress refs) (finishSuccessfulChunk pipeline workspace chunk response)
      (fun _ => Progress (refs ++ targetLines workspace chunk)) fun _ => Progress refs := by
  have htargets : ∀ line ∈ targetLines workspace chunk, line ∈ workspace.refs :=
    fun line hline => mem_refs_of_mem_targetLines hline
  have hsteps : Steps (ChunkStep pipeline page workspace)
      (reconcileChunkHyphens pipeline workspace (targetLines workspace chunk)
          (textById response)) :=
    steps_reconcileChunkHyphens hlines htargets
  refine Ends.bind (q := fun _ => Progress refs) (ends_progress hsteps) fun _ => ?_
  refine Ends.bind (q := fun _ => Progress (refs ++ targetLines workspace chunk))
    (ends_modify fun s hs => progress_applyLineAcceptance _ htexts hs) fun _ => ?_
  refine Ends.bind (q := fun _ => Progress (refs ++ targetLines workspace chunk))
    ((ends_emit_progress _).mono (fun _ h => h) (fun _ _ h => h) fun _ _ h => ?_) fun _ => ?_
  · exact h.mono (List.subset_append_left _ _)
  · exact ends_pure fun _ h => h

omit [Unicode] in
/-- **A reverted chunk's targets are decided.** -/
theorem ends_fallBackChunk (chunk : ChunkRequest) (failure : Option AttemptFailure) :
    Ends (Progress refs) (fallBackChunk pipeline workspace chunk failure)
      (fun _ => Progress (refs ++ targetLines workspace chunk)) fun _ => Progress refs := by
  refine Ends.bind (q := fun _ => Progress (refs ++ targetLines workspace chunk)) ?_
    fun _ => ends_modify fun _ hs => hs.quiet ⟨rfl, rfl, rfl, rfl⟩
  refine Ends.bind (q := fun _ => Progress refs) (ends_emit_progress _) fun _ => ?_
  refine ends_modify fun s hs => ?_
  have haddr := (sameSkeleton_exhaustTargets workspace (targetLines workspace chunk) failure
    s).sameSource.addressed hs.addressed
  refine (hs.advance haddr (advances_exhaustTargets _ _ _ _)).settle fun ref href => ?_
  rw [heap_exhaustTargets, if_pos (.inl href)]
  simp

/-- Every target of a validated chunk was answered. -/
theorem Validated.answered {chunk : ChunkRequest} {heap : Heap} (haddr : Addressed heap)
    {response : List LineProposal} (h : Validated pipeline workspace chunk heap response) :
    ∀ line ∈ targetLines workspace chunk, ((textById response).get? line.lineId).isSome := by
  obtain ⟨entries, hvalid⟩ := h
  intro line hline
  obtain ⟨hchunk, htarget⟩ := List.mem_filter.mp hline
  have hrequired : line.lineId ∈ response.map LineProposal.lineId := by
    apply (validateLlmResponse_eq_ok hvalid).2 _
    unfold ChunkRequest.targets at htarget
    cases htargets : chunk.targetLineIds with
    | some ids => simpa [htargets] using htarget
    | none =>
      show line.lineId ∈ (linesOf heap (chunkLines workspace chunk)).map LineManifest.lineId
      rw [linesOf, List.map_map]
      exact List.mem_map.mpr ⟨line, hchunk, congrArg LineRef.lineId (haddr line)⟩
  have hkey : line.lineId ∈ (textById response).keys := by
    rw [textById, Dict.mem_keys_ofList, List.map_map]
    exact hrequired
  exact Dict.isSome_get?.mpr hkey

/-! ## The descent -/

/-- The lines of the page are in its blocks, as the document has them. -/
structure Housed (page : PageManifest) (workspace : PageWorkspace) : Prop where
  refs : workspace.refs = page.refs
  placed : page.Placed
  block_ids : (page.blocks.map BlockManifest.blockId).Nodup

omit [Unicode] in
/-- The blocks cut down to some lines still hold them. -/
theorem Housed.placed_subpage (h : Housed page workspace) {heap : Heap} (haddr : Addressed heap)
    {targets : List LineRef} (htargets : ∀ line ∈ targets, line ∈ workspace.refs) :
    (subpageForLines page (linesOf heap targets)).Placed := by
  intro lm hlm
  obtain ⟨ref, href, rfl⟩ := List.mem_map.mp hlm
  have hpage : ref ∈ page.refs := h.refs ▸ htargets ref href
  obtain ⟨line, hline, rfl⟩ := List.mem_map.mp hpage
  have hid : (heap (lineRef line)).lineId = line.lineId := congrArg LineRef.lineId (haddr _)
  obtain ⟨block, hblock, hin⟩ := h.placed line hline
  have hkept : line.lineId ∈ (linesOf heap targets).map LineManifest.lineId :=
    List.mem_map.mpr ⟨_, hlm, hid⟩
  refine ⟨_, List.mem_map_of_mem (List.mem_filter.mpr ⟨hblock, ?_⟩), ?_⟩
  · exact List.any_eq_true.mpr ⟨_, hin, by simpa using hkept⟩
  · rw [hid]
    exact List.mem_filter.mpr ⟨hin, by simpa using hkept⟩

omit [Unicode] in
/-- Cutting the blocks down leaves them their ids. -/
theorem nodup_blockIds_subpage (hids : (page.blocks.map BlockManifest.blockId).Nodup)
    (lines : List LineManifest) :
    ((subpageForLines page lines).blocks.map BlockManifest.blockId).Nodup := by
  show (((page.blocks.filter _).map _).map BlockManifest.blockId).Nodup
  rw [List.map_map]
  exact hids.sublist (List.filter_sublist.map BlockManifest.blockId)

omit [Unicode] in
theorem lineById_of_mem_targetLines {chunk : ChunkRequest} {line : LineRef}
    (h : line ∈ targetLines workspace chunk) : workspace.lineById line.lineId = some line := by
  obtain ⟨id, -, hid⟩ := List.mem_filterMap.mp (List.mem_filter.mp h).1
  obtain rfl : line.lineId = id := by simpa using List.find?_some hid
  exact hid

omit [Unicode] in
/-- A line on the page is a target line of any chunk that owns its id. -/
theorem mem_targetLines {chunk : ChunkRequest} {depth : Nat} (hwithin : chunk.Within depth)
    {line : LineRef} (hline : workspace.lineById line.lineId = some line)
    (htarget : line.lineId ∈ chunk.targets) : line ∈ targetLines workspace chunk :=
  List.mem_filter.mpr ⟨List.mem_filterMap.mpr ⟨_, hwithin.targets _ htarget, hline⟩, by simpa⟩

/-- The target lines of several chunks. -/
def targetsOf (workspace : PageWorkspace) (chunks : List ChunkRequest) : List LineRef :=
  chunks.flatMap (targetLines workspace)

omit [Unicode] in
/-- **A descent covers the targets of its chunk.** -/
theorem targetLines_subset_descend (h : Housed page workspace) {heap : Heap}
    (haddr : Addressed heap) (config : ChunkPlannerConfig) (chunk : ChunkRequest)
    (finer : ChunkGranularity) : targetLines workspace chunk ⊆ targetsOf workspace
      (planPage config (subpageForLines page (linesOf heap (targetLines workspace chunk)))
        (some finer)).1.chunks := by
  intro line hline
  have hplaced : (subpageForLines page (linesOf heap (targetLines workspace chunk))).Placed :=
    h.placed_subpage haddr fun line hline => mem_refs_of_mem_targetLines hline
  obtain ⟨sub, hsub, htarget⟩ := covers_planPage config hplaced
    (nodup_blockIds_subpage h.block_ids _) (some finer) (heap line)
    (List.mem_map_of_mem hline)
  rw [show (heap line).lineId = line.lineId from congrArg LineRef.lineId (haddr line)] at htarget
  exact List.mem_flatMap.mpr ⟨sub, hsub, mem_targetLines (within_planPage _ _ _ sub hsub)
    (lineById_of_mem_targetLines hline) htarget⟩

/-- A runner that decides the targets of its chunks. -/
def RunnerSettles (workspace : PageWorkspace) (run : ChunkRunner) : Prop :=
  ∀ chunk budget refs, Ends (Progress refs) (run chunk budget)
    (fun _ => Progress (refs ++ targetLines workspace chunk)) fun _ => Progress refs

omit [Unicode] in
/-- A descent into a sub-chunk settles its targets. -/
theorem ends_descendInto {run : ChunkRunner} (hrun : RunnerSettles workspace run)
    (failure : Option AttemptFailure) (state : Nat × ChunkBudget) (sub : ChunkRequest) :
    Ends (Progress refs) (descendInto pipeline workspace run failure state sub)
      (fun _ => Progress (refs ++ targetLines workspace sub)) fun _ => Progress refs := by
  refine Ends.bind (q := fun _ => Progress refs)
    (quiet_checkAbort.ends fun _ _ hs h => hs.quiet h) fun _ => ?_
  show Ends _ (if _ then _ else _) _ _
  split
  · refine Ends.bind (ends_fallBackChunk _ _) fun _ => ?_
    exact ends_pure fun _ h => h
  · refine Ends.bind (hrun sub _ refs) fun _ => ?_
    exact ends_pure fun _ h => h

/-- A descent settles the targets of the chunk. -/
theorem ends_descendGranularity (h : Housed page workspace) {run : ChunkRunner}
    (hrun : RunnerSettles workspace run) (chunk : ChunkRequest) (finer : ChunkGranularity)
    (failure : Option AttemptFailure) (budget : ChunkBudget) : Ends (Progress refs)
      (descendGranularity pipeline page workspace run chunk finer failure budget)
      (fun _ => Progress (refs ++ targetLines workspace chunk)) fun _ => Progress refs := by
  refine Ends.bind (q := fun _ => Progress refs) (ends_emit_progress _) fun _ => ?_
  refine Ends.bind (q := fun plan s => Progress refs s ∧
    targetLines workspace chunk ⊆ targetsOf workspace plan.chunks) ?_ fun plan => ?_
  · intro s hs
    have hstep : ChunkStep pipeline page workspace s _ := .descend (targetLines workspace chunk)
      finer s fun line hline => mem_refs_of_mem_targetLines hline
    exact ⟨progress_chunkStep hs hstep,
      targetLines_subset_descend h hs.addressed pipeline.config chunk finer⟩
  · refine ends_of_fact fun hcovers => ?_
    have hsub : ∀ done sub (state : Nat × ChunkBudget),
        Ends (Progress (refs ++ targetsOf workspace done))
          (descendInto pipeline workspace run failure state sub)
          (fun _ => Progress (refs ++ targetsOf workspace (done ++ [sub])))
          fun _ => Progress refs := by
      intro done sub state
      refine (ends_descendInto hrun failure state sub).mono (fun _ h => h) (fun _ s hs => ?_)
        fun _ _ h => h.mono (List.subset_append_left _ _)
      simpa [targetsOf] using hs
    refine (ends_foldlM hsub plan.chunks [] (0, budget)).mono (fun s hs => ?_) (fun _ s hs => ?_)
      fun _ _ h => h
    · simpa [targetsOf] using hs
    · rw [List.nil_append] at hs
      exact hs.mono (List.append_subset.mpr ⟨List.subset_append_left _ _,
        fun _ hline => List.mem_append_right _ (hcovers hline)⟩)

/-- A failed chunk settles its targets. -/
theorem ends_handleChunkFailure (h : Housed page workspace) {run : ChunkRunner}
    (hrun : RunnerSettles workspace run) (chunk : ChunkRequest) (outcome : AttemptOutcome)
    (budget : ChunkBudget) : Ends (Progress refs)
      (handleChunkFailure pipeline page workspace run chunk outcome budget)
      (fun _ => Progress (refs ++ targetLines workspace chunk)) fun _ => Progress refs := by
  have hfell : Ends (Progress refs) (do
      fallBackChunk pipeline workspace chunk outcome.lastFailure
      return (0, budget) : RunM (Nat × ChunkBudget))
      (fun _ => Progress (refs ++ targetLines workspace chunk)) fun _ => Progress refs :=
    Ends.bind (ends_fallBackChunk _ _) fun _ => ends_pure fun _ h => h
  unfold handleChunkFailure
  split
  · split
    · exact ends_descendGranularity h hrun _ _ _ _
    · exact hfell
  · exact hfell

/-- **Whatever becomes of a chunk, its targets are decided.** -/
theorem ends_runChunkWith [Digest] (h : Housed page workspace) {run : ChunkRunner}
    (hrun : RunnerSettles workspace run) (producer : EditProducer) :
    RunnerSettles workspace (runChunkWith pipeline producer page workspace run) := by
  intro chunk budget refs
  show Ends _ (if _ then _ else _) _ _
  split
  · next hnone =>
    refine ends_pure fun s hs => ?_
    have hempty : targetLines workspace chunk = [] := by rw [targetLines, hnone, List.filter_nil]
    rwa [hempty, List.append_nil]
  · refine Ends.bind (q := fun _ => Progress refs) (ends_emit_progress _) fun _ => ?_
    intro s hs
    have hattempt : Steps (ChunkStep pipeline page workspace) (attemptChunk pipeline producer
        workspace chunk (budget.attemptsAllowed pipeline.retryPolicy.maxAttempts)) :=
      steps_attemptChunk _ _ _
    -- an attempt leaves the heap alone, so an answer validated on it is still about these lines
    have hboth : Ends (fun s' => Progress refs s' ∧ s'.heap = s.heap)
        (attemptChunk pipeline producer workspace chunk
          (budget.attemptsAllowed pipeline.retryPolicy.maxAttempts))
        (fun outcome s' => Progress refs s' ∧ s'.heap = s.heap ∧
          ∀ response, outcome.response = some response →
            Validated pipeline workspace chunk s.heap response)
        fun _ => Progress refs :=
      ((ends_progress hattempt).and (yields_attemptChunkFrom producer chunk s.heap _ _ _)).mono
        (fun _ h => h) (fun _ _ h => h) fun _ _ h => h.1
    refine (hboth.bind fun outcome => ?_) s ⟨hs, rfl⟩
    intro s' hs'
    cases hresponse : outcome.response with
    | none => exact ends_handleChunkFailure h hrun _ _ _ s' hs'.1
    | some response =>
      have hvalid := hs'.2.2 response hresponse
      refine Ends.bind (ends_finishSuccessfulChunk page chunk hvalid.singleLines
        (hvalid.answered hs.addressed)) (fun _ => ?_) s' hs'.1
      exact ends_pure fun _ h => h

theorem ends_runChunk [Digest] (h : Housed page workspace) (producer : EditProducer) (depth : Nat) :
    RunnerSettles workspace (runChunk pipeline producer page workspace depth) := by
  induction depth with
  | zero => exact fun _ _ _ => ends_throw fun _ h => h
  | succ depth ih => exact ends_runChunkWith h ih producer

omit [Unicode] in
/-- **An absorbed error decides what it left in limbo.** -/
theorem ends_absorb (hpool : (unitPool workspace).Nodup) (chunk : ChunkRequest) (fault : Fault) :
    Ends (Progress refs) (absorb pipeline workspace chunk fault)
      (fun _ => Progress (refs ++ targetLines workspace chunk)) fun _ => Progress refs := by
  cases fault with
  | aborted => exact ends_throw fun _ h => h
  | permanent => exact ends_throw fun _ h => h
  | crash message =>
    exact Ends.bind (q := fun _ => Progress refs) (ends_emit_progress _) fun _ =>
      ends_throw fun _ h => h
  | domain message =>
    refine Ends.bind (q := fun _ => Progress refs) (ends_emit_progress _) fun _ => ?_
    refine Ends.bind (q := fun _ => Progress (refs ++ targetLines workspace chunk))
      (ends_modify fun s hs => ?_) fun _ => ends_pure fun _ h => h
    have haddr := (sameSkeleton_absorbChunkError workspace chunk message s).sameSource.addressed
      hs.addressed
    have hadvances := advances_absorbChunkError workspace chunk message s
    refine (hs.advance haddr hadvances).settle fun line hline => ?_
    by_cases hpending : (s.heap line).status = .pending
    · have htarget : line ∈ undecided s.heap (absorbTargets workspace chunk) := by
        refine List.mem_filter.mpr ⟨?_, by simpa using hpending⟩
        refine List.mem_filterMap.mpr ⟨line.lineId, ?_, lineById_of_mem_targetLines hline⟩
        simpa using (List.mem_filter.mp hline).2
      have hfell := (heap_ending hpool hs.addressed chunk (.absorbed message) line).1 (.inl htarget)
      rw [show absorbChunkError workspace chunk message s =
        (ChunkEnding.absorbed message).apply workspace chunk s from rfl, hfell]
      simp
    · exact hadvances.decided hpending

theorem ends_runItem [Digest] (h : Housed page workspace) (hpool : (unitPool workspace).Nodup)
    (reconciled : Nat) (item : ChunkRequest × EditProducer) :
    Ends (Progress refs) (runItem pipeline page workspace reconciled item)
      (fun _ => Progress (refs ++ targetLines workspace item.1)) fun _ => Progress refs := by
  refine Ends.bind (q := fun _ => Progress refs)
    (quiet_checkAbort.ends fun _ _ hs h => hs.quiet h) fun _ => ?_
  refine Ends.bind (q := fun _ => Progress (refs ++ targetLines workspace item.1)) ?_
    fun _ => ends_pure fun _ h => h
  refine Ends.tryCatch (r := fun _ => Progress refs) ?_ fun fault => ends_absorb hpool _ _
  refine Ends.bind (ends_runChunk h item.2 _ item.1 _ refs) fun _ => ?_
  exact ends_pure fun _ h => h

end Progressing

end Saknussemm
