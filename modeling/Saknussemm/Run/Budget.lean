import Saknussemm.Planning.Coverage

/-! # What a chunk and its descent may cost.

The attempts of one top-level chunk and of every sub-chunk it is cut into
are charged to one budget.  The descent itself is finite: a sub-chunk is
strictly finer than its chunk, whatever the planner made of the request. -/

namespace Saknussemm

open Effects Relation

/-! ## Where no call is made -/

/-- The producer calls are as they were. -/
def SameCalls (s s' : RunState) : Prop := s'.calls = s.calls

section CallFree

variable {pipeline : CorrectionPipeline} {workspace : PageWorkspace}

theorem callFree_emit (event : EngineEvent) : Steps SameCalls (emit pipeline event) :=
  steps_emit_of (fun _ _ => rfl) event

theorem calls_fallBackToSource (lines : List LineRef) (reason : FallbackReason) (s : RunState) :
    (fallBackToSource lines reason s).calls = s.calls := by
  unfold fallBackToSource
  induction lines generalizing s with
  | nil => rfl
  | cons line lines ih => exact ih (fallBack line reason s)

theorem callFree_fallBackChunk (chunk : ChunkRequest) (failure : Option AttemptFailure) :
    Steps SameCalls (fallBackChunk pipeline workspace chunk failure) := by
  refine Steps.bind (Steps.bind (callFree_emit _) fun _ => ?_) fun _ => ?_
  · refine steps_modify fun s => .single ?_
    exact (calls_fallBackToSource _ _ _).trans (calls_fallBackToSource _ _ _)
  · exact steps_modify fun s => .single rfl

theorem callFree_replan (config : ChunkPlannerConfig) (page : Heap → PageManifest)
    (force : Option ChunkGranularity) : Steps SameCalls (replan config page force) := by
  apply steps_get_bind
  intro s
  exact .single rfl

theorem calls_judgeLine (config : GuardConfig) (textById : Dict Str Str) (line : LineRef)
    (s : RunState) : (judgeLine config workspace textById line s).calls = s.calls := by
  unfold judgeLine
  dsimp only
  split
  · rfl
  · split
    · rfl
    · split <;> rfl

variable [Unicode]

theorem calls_visitJoin (config : GuardConfig) (join : Join) (textById : Dict Str Str)
    (s : RunState) : (visitJoin config join textById s).calls = s.calls := by
  show (reconcileOnePair config join textById s).2.calls = s.calls
  unfold reconcileOnePair
  dsimp only
  split
  · rfl
  · show RunState.calls (if _ then _ else _) = _
    split <;> rfl

/-- Walking the units calls no producer. -/
theorem calls_walkUnitsReconciling (config : GuardConfig) (joins : Dict LineRef Join)
    (textById : Dict Str Str) (order writtenHeads : List LineRef) (s : RunState) :
    (walkUnitsReconciling config joins textById order (writtenHeads, s)).2.calls = s.calls := by
  induction order generalizing writtenHeads s with
  | nil => rfl
  | cons member rest ih =>
    have hvisit : (visitMember config joins textById member writtenHeads s).2.calls = s.calls := by
      unfold visitMember
      split
      · rfl
      · split
        · rfl
        · exact calls_visitJoin _ _ _ _
    exact (ih _ _).trans hvisit

/-- Finishing a chunk calls no producer. -/
theorem callFree_finishSuccessfulChunk (chunk : ChunkRequest) (response : List LineProposal) :
    Steps SameCalls (finishSuccessfulChunk pipeline workspace chunk response) := by
  refine Steps.bind ?_ fun reconciled => ?_
  · apply Steps.bind (steps_claimJoins (fun event _ => callFree_emit event) _)
    intro claims
    apply steps_get_bind
    intro s
    exact .single (calls_walkUnitsReconciling _ _ _ _ _ _)
  · refine Steps.bind (steps_modify fun s => .single ?_) fun _ => ?_
    · show (applyLineAcceptance _ _ _ _ s).calls = s.calls
      unfold applyLineAcceptance
      generalize targetLines workspace chunk = lines
      induction lines generalizing s with
      | nil => rfl
      | cons line lines ih => exact (ih _).trans (calls_judgeLine _ _ _ _)
    · apply Steps.bind (callFree_emit _)
      intro _
      exact steps_pure _

end CallFree

/-! ## The meter -/

/-- Started with so much left, a program of chunks never spends more, and
what it returns is what it left. -/
def Metered (budget : ChunkBudget) (m : RunM (Nat × ChunkBudget)) : Prop :=
  ∀ total : Int, Ends (fun s => s.calls.length + budget.remaining = total ∧ 0 ≤ budget.remaining) m
    (fun result s => s.calls.length + result.2.remaining = total ∧ 0 ≤ result.2.remaining)
    fun _ s => s.calls.length ≤ total

section Meter

variable {pipeline : CorrectionPipeline} {workspace : PageWorkspace}

/-- A program without calls leaves the meter where it was. -/
theorem meter_of_callFree {α : Type} {m : RunM α} (hm : Steps SameCalls m)
    {total remaining : Int} :
    Ends (fun s => s.calls.length + remaining = total ∧ 0 ≤ remaining) m
      (fun _ s => s.calls.length + remaining = total ∧ 0 ≤ remaining)
      fun _ s => s.calls.length ≤ total := by
  refine (hm.ends fun s s' hs h => ?_).mono (fun _ h => h) (fun _ _ h => h) fun _ s h => ?_
  · rw [show s'.calls = s.calls from h]
    exact hs
  · obtain ⟨htotal, hleft⟩ := h
    omega

theorem Metered.bind_callFree {α : Type} {m : RunM α} {f : α → RunM (Nat × ChunkBudget)}
    {budget : ChunkBudget} (hm : Steps SameCalls m) (hf : ∀ a, Metered budget (f a)) :
    Metered budget (m >>= f) :=
  fun total => (meter_of_callFree hm).bind fun a => hf a total

theorem metered_pure (n : Nat) (budget : ChunkBudget) : Metered budget (pure (n, budget)) :=
  fun _ => ends_pure fun _ h => h

theorem metered_fallBackChunk (chunk : ChunkRequest) (failure : Option AttemptFailure) (n : Nat)
    (budget : ChunkBudget) : Metered budget (do
      fallBackChunk pipeline workspace chunk failure
      return (n, budget)) :=
  .bind_callFree (callFree_fallBackChunk _ _) fun _ => metered_pure _ _

/-- One call at most. -/
theorem ends_produce_calls (producer : EditProducer) (request : CorrectionRequest) (attempt : Nat)
    (temperature : ℚ) (n : Nat) : Ends (fun s => s.calls.length = n)
      (produce producer request attempt temperature) (fun _ s => s.calls.length = n + 1)
      fun _ s => s.calls.length = n + 1 := by
  apply ends_get_bind
  intro s
  refine Ends.bind (q := fun _ s => s.calls.length = n + 1) (ends_modify fun s' h => ?_) fun _ => ?_
  · obtain ⟨rfl, rfl⟩ := h
    simp
  · split
    all_goals first | exact ends_pure fun _ h => h | exact ends_throw fun _ h => h

variable [Unicode] [Digest]

/-- An attempt calls one producer once. -/
theorem ends_attemptOnce_calls (producer : EditProducer) (chunk : ChunkRequest) (attempt : Nat)
    (temperature : ℚ) (n : Nat) : Ends (fun s => s.calls.length = n)
      (attemptOnce pipeline producer workspace chunk attempt temperature)
      (fun _ s => s.calls.length = n + 1) fun _ s => s.calls.length = n + 1 := by
  apply ends_get_bind
  intro s
  refine (ends_produce_calls producer _ attempt temperature n).mono (fun s' h => ?_)
    (fun _ _ h => h) (fun _ _ h => h) |>.bind fun answer => ?_
  · rw [h.1]
    exact h.2
  · cases answer with
    | error failure => exact ends_pure fun _ h => h
    | ok ops =>
      show Ends _ (validateAndCapture _ _ _ _ _) _ _
      unfold validateAndCapture
      simp only
      split
      · exact ends_pure fun _ h => h
      · refine Ends.bind (q := fun _ s => s.calls.length = n + 1)
          (ends_modify fun _ h => h) fun _ => ?_
        refine Ends.bind (q := fun _ s => s.calls.length = n + 1)
          (ends_modify fun _ h => h) fun _ => ?_
        exact ends_pure fun _ h => h

/-- The attempts counted are the calls made, and no more than allowed. -/
theorem ends_attemptChunkFrom_calls (producer : EditProducer) (chunk : ChunkRequest) (left : Nat) :
    ∀ (attempt : Nat) (violation : Bool) (n : Nat), 1 ≤ attempt → Ends (fun s => s.calls.length = n)
      (attemptChunkFrom pipeline producer workspace chunk left attempt violation)
      (fun outcome s => s.calls.length + attempt = n + outcome.attemptsUsed + 1 ∧
        outcome.attemptsUsed + 1 ≤ attempt + left)
      fun _ s => s.calls.length ≤ n + left := by
  -- induction on the attempts left; an attempt costs one call whether or not it is answered
  induction left with
  | zero =>
    intro attempt violation n hpos
    refine ends_pure fun s h => ⟨?_, ?_⟩
    · show s.calls.length + attempt = n + (attempt - 1) + 1
      omega
    · show attempt - 1 + 1 ≤ attempt
      omega
  | succ left ih =>
    intro attempt violation n hpos
    refine ((ends_attemptOnce_calls producer chunk attempt _ n).mono (fun _ h => h)
      (fun _ _ h => h) fun _ s h => ?_).bind fun answer => ?_
    · show s.calls.length ≤ n + (left + 1)
      omega
    · cases answer with
      | ok response =>
        refine ends_pure fun s h => ⟨?_, ?_⟩
        · show s.calls.length + attempt = n + attempt + 1
          omega
        · show attempt + 1 ≤ attempt + (left + 1)
          omega
      | error failure =>
        show Ends _ (if _ then _ else _) _ _
        split
        · have hemit : ∀ event, Ends (fun s => s.calls.length = n + 1) (emit pipeline event)
              (fun _ s => s.calls.length = n + 1) fun _ s => s.calls.length ≤ n + (left + 1) := by
            intro event
            refine ((callFree_emit event).ends fun s s' hs h => ?_).mono (fun _ h => h)
              (fun _ _ h => h) fun _ s h => ?_
            · rw [show s'.calls = s.calls from h]
              exact hs
            · show s.calls.length ≤ n + (left + 1)
              omega
          refine (hemit _).bind fun _ => ?_
          refine Ends.bind (q := fun _ s => s.calls.length = n + 1)
            (ends_modify fun _ h => h) fun _ => ?_
          refine (ih (attempt + 1) _ (n + 1) (by omega)).mono (fun _ h => h)
            (fun outcome s h => ⟨?_, ?_⟩) fun _ s h => ?_
          · omega
          · omega
          · omega
        · refine ends_pure fun s h => ⟨?_, ?_⟩
          · show s.calls.length + attempt = n + attempt + 1
            omega
          · show attempt + 1 ≤ attempt + (left + 1)
            omega

/-- A runner that keeps to the budgets it is given. -/
def RunnerMetered (run : ChunkRunner) : Prop := ∀ chunk budget, Metered budget (run chunk budget)

omit [Unicode] [Digest] in
theorem metered_descendInto {run : ChunkRunner} (hrun : RunnerMetered run)
    (failure : Option AttemptFailure) (state : Nat × ChunkBudget) (sub : ChunkRequest) :
    Metered state.2 (descendInto pipeline workspace run failure state sub) := by
  refine .bind_callFree (steps_checkAbort_of fun _ _ => rfl) fun _ => ?_
  show Metered _ (if _ then _ else _)
  split
  · exact metered_fallBackChunk _ _ _ _
  · exact fun total => (hrun sub state.2 total).bind fun _ => ends_pure fun _ h => h

omit [Unicode] [Digest] in
theorem metered_descendGranularity {page : PageManifest} {run : ChunkRunner}
    (hrun : RunnerMetered run) (chunk : ChunkRequest) (finer : ChunkGranularity)
    (failure : Option AttemptFailure) (budget : ChunkBudget) :
    Metered budget (descendGranularity pipeline page workspace run chunk finer failure budget) := by
  refine .bind_callFree (callFree_emit _) fun _ => ?_
  refine .bind_callFree (callFree_replan _ _ _) fun plan => fun total => ?_
  -- The meter reads the budget that came out of the sub-chunk before.
  have hfold := ends_foldlM (I :=
      fun (_ : List ChunkRequest) (state : Nat × ChunkBudget) (s : RunState) =>
      (s.calls.length : Int) + state.2.remaining = total ∧ 0 ≤ state.2.remaining)
    (fun _ sub state => @metered_descendInto pipeline workspace run hrun failure state sub total)
      plan.chunks [] (0, budget)
  exact hfold

omit [Unicode] [Digest] in
theorem metered_handleChunkFailure {page : PageManifest} {run : ChunkRunner}
    (hrun : RunnerMetered run) (chunk : ChunkRequest) (outcome : AttemptOutcome)
    (budget : ChunkBudget) :
    Metered budget (handleChunkFailure pipeline page workspace run chunk outcome budget) := by
  unfold handleChunkFailure
  split
  · split
    · exact metered_descendGranularity hrun _ _ _ _
    · exact metered_fallBackChunk _ _ _ _
  · exact metered_fallBackChunk _ _ _ _

/-- A chunk spends what its budget allows. -/
theorem metered_runChunkWith {page : PageManifest} {run : ChunkRunner} (hrun : RunnerMetered run)
    (producer : EditProducer) (chunk : ChunkRequest) (budget : ChunkBudget) :
    Metered budget (runChunkWith pipeline producer page workspace run chunk budget) := by
  show Metered budget (if _ then _ else _)
  split
  · exact metered_pure _ _
  · refine .bind_callFree (callFree_emit _) fun _ => fun total => ?_
    let allowed := budget.attemptsAllowed pipeline.retryPolicy.maxAttempts
    -- the attempts allowed fit in what the budget has left
    have hallowed : 0 ≤ budget.remaining → (allowed : Int) ≤ budget.remaining := by
      intro hleft
      show ((min _ (max budget.remaining 0).toNat : Nat) : Int) ≤ _
      omega
    rintro s ⟨htotal, hleft⟩
    have hcalls := @ends_attemptChunkFrom_calls pipeline workspace _ _ producer chunk
      allowed 1 false s.calls.length (Nat.le_refl _)
    have hattempt : Ends (fun s' => s'.calls.length = s.calls.length)
        (attemptChunk pipeline producer workspace chunk allowed)
        (fun outcome s' =>
          (s'.calls.length : Int) + (budget.spend outcome.attemptsUsed).remaining = total ∧
            0 ≤ (budget.spend outcome.attemptsUsed).remaining)
        fun _ s' => (s'.calls.length : Int) ≤ total := by
      -- each attempt spent one call, which is what the budget is charged
      have hfits := hallowed hleft
      refine hcalls.mono (fun _ h => h) ?_ fun _ s' hmade => by omega
      rintro outcome s' ⟨hmade, hused⟩
      show (s'.calls.length : Int) + (budget.remaining - outcome.attemptsUsed) = total ∧
        0 ≤ budget.remaining - outcome.attemptsUsed
      omega
    refine (hattempt.bind fun outcome => ?_) s rfl
    · cases outcome.response with
      | some response =>
        refine (meter_of_callFree (callFree_finishSuccessfulChunk chunk response)).bind fun _ => ?_
        exact ends_pure fun _ h => h
      | none => exact metered_handleChunkFailure hrun chunk outcome _ total

theorem metered_runChunk (page : PageManifest) (producer : EditProducer) (depth : Nat) :
    RunnerMetered (runChunk pipeline producer page workspace depth) := by
  induction depth with
  | zero =>
    intro chunk budget total
    refine ends_throw fun s h => ?_
    obtain ⟨htotal, hleft⟩ := h
    omega
  | succ depth ih => exact metered_runChunkWith ih producer

/-- **A chunk and its descent never overdraw**, also when their error is
absorbed. -/
theorem calls_runChunkAbsorbing (page : PageManifest) (item : ChunkRequest × EditProducer)
    (s : RunState) :
    ((runChunkAbsorbing pipeline page workspace item).exec s).2.calls.length ≤
      s.calls.length + pipeline.retryPolicy.perChunkBudget := by
  let ceiling : Int := s.calls.length + pipeline.retryPolicy.perChunkBudget
  -- the runner is metered; what is absorbed after it places no call
  have htop : Ends (fun s' => s' = s) (runTopChunk pipeline page workspace item)
      (fun _ s' => (s'.calls.length : Int) ≤ ceiling) fun _ s' =>
          (s'.calls.length : Int) ≤ ceiling := by
    refine ((metered_runChunk page item.2 item.1.granularity.depth item.1
      ⟨pipeline.retryPolicy.perChunkBudget⟩ ceiling).mono ?_ (fun _ _ h => h) fun _ _ h => h).bind
      fun result => ends_pure fun s' h => ?_
    · rintro s' rfl
      exact ⟨rfl, Int.natCast_nonneg _⟩
    · obtain ⟨htotal, hleft⟩ := h
      omega
  have hkept : ∀ fault, Ends (fun s' => (s'.calls.length : Int) ≤ ceiling)
      (absorb pipeline workspace item.1 fault)
      (fun _ s' => (s'.calls.length : Int) ≤ ceiling) fun _ s' =>
          (s'.calls.length : Int) ≤ ceiling := by
    have hsame : ∀ s s' : RunState, (s.calls.length : Int) ≤ ceiling → SameCalls s s' →
        (s'.calls.length : Int) ≤ ceiling := by
      intro s s' hs h
      rw [show s'.calls = s.calls from h]
      exact hs
    intro fault
    cases fault with
    | aborted => exact ends_throw fun _ h => h
    | permanent => exact ends_throw fun _ h => h
    | crash message => exact ((callFree_emit _).ends hsame).bind fun _ => ends_throw fun _ h => h
    | domain message =>
      refine ((callFree_emit _).ends hsame).bind fun _ => ?_
      refine Ends.bind (q := fun _ s' => (s'.calls.length : Int) ≤ ceiling)
        (ends_modify fun s' h => ?_) fun _ => ends_pure fun _ h => h
      apply hsame _ _ h
      unfold SameCalls absorbChunkError
      dsimp only
      split
      · rfl
      · exact calls_fallBackToSource _ _ _
  have hend : ((Prog.exec (runChunkAbsorbing pipeline page workspace item) s).2.calls.length :
      Int) ≤ ceiling := Ends.state (q := fun s' : RunState => (s'.calls.length : Int) ≤ ceiling)
    (htop.tryCatch hkept) rfl
  dsimp only [ceiling] at hend
  omega

end Meter

/-! ## The descent -/

section Descent

theorem depth_downgrade {granularity finer : ChunkGranularity}
    (h : downgradeGranularity granularity = some finer) : finer.depth < granularity.depth := by
  cases granularity <;> cases h <;> decide

/-- **A sub-chunk is strictly finer**, also where the planner settles for
another granularity than it was asked for. -/
theorem depth_lt_of_descend {config : ChunkPlannerConfig} {page : PageManifest}
    {granularity finer : ChunkGranularity} (hfiner : downgradeGranularity granularity = some finer)
    {sub : ChunkRequest} (hsub : sub ∈ (planPage config page (some finer)).1.chunks) :
    sub.granularity.depth < granularity.depth :=
  (within_planPage config page (some finer) sub hsub).depth.trans_lt (depth_downgrade hfiner)

theorem foldlM_congr {β γ : Type} {f g : β → γ → RunM β} {l : List γ}
    (h : ∀ c ∈ l, ∀ b, f b c = g b c) (b : β) : l.foldlM f b = l.foldlM g b := by
  induction l generalizing b with
  | nil => rfl
  | cons c l ih =>
    rw [List.foldlM_cons, List.foldlM_cons, h c (by simp)]
    exact congrArg _ (funext fun b => ih (fun d hd => h d (by simp [hd])) b)

variable [Unicode] [Digest] {pipeline : CorrectionPipeline} {page : PageManifest}
  {workspace : PageWorkspace}

omit [Unicode] [Digest] in
/-- A descent depends on the runner only at finer granularities. -/
theorem descendGranularity_congr {run run' : ChunkRunner} {chunk : ChunkRequest}
    {finer : ChunkGranularity} (hfiner : downgradeGranularity chunk.granularity = some finer)
    (hrun : ∀ sub budget, sub.granularity.depth < chunk.granularity.depth →
      run sub budget = run' sub budget)
    (failure : Option AttemptFailure) (budget : ChunkBudget) :
    descendGranularity pipeline page workspace run chunk finer failure budget =
      descendGranularity pipeline page workspace run' chunk finer failure budget := by
  show (emit pipeline _ >>= _ : RunM _) = emit pipeline _ >>= _
  refine congrArg (emit pipeline _ >>= ·) (funext fun _ => ?_)
  funext s
  show Prog.exec (replan _ _ _ >>= _) s = Prog.exec (replan _ _ _ >>= _) s
  let plan := planPage pipeline.config
    (subpageForLines page (linesOf s.heap (targetLines workspace chunk))) (some finer)
  have hplan : (replan pipeline.config (fun heap =>
      subpageForLines page (linesOf heap (targetLines workspace chunk))) (some finer)).exec s =
      (.ok plan.1, replanned pipeline.config
        (subpageForLines page (linesOf s.heap (targetLines workspace chunk))) (some finer) s) := rfl
  rw [Prog.exec_bind_ok hplan, Prog.exec_bind_ok hplan]
  refine congrArg (Prog.exec · _) (foldlM_congr (fun sub hsub state => ?_) _)
  unfold descendInto
  rw [hrun sub state.2 (depth_lt_of_descend hfiner hsub)]

/-- The runner of a chunk reads its sub-runner at finer chunks only. -/
theorem runChunkWith_congr {run run' : ChunkRunner} {chunk : ChunkRequest}
    (hrun : ∀ sub budget, sub.granularity.depth < chunk.granularity.depth →
      run sub budget = run' sub budget)
    (producer : EditProducer) (budget : ChunkBudget) :
    runChunkWith pipeline producer page workspace run chunk budget =
      runChunkWith pipeline producer page workspace run' chunk budget := by
  have hfailure : ∀ outcome budget, handleChunkFailure pipeline page workspace run chunk
      outcome budget = handleChunkFailure pipeline page workspace run' chunk outcome budget := by
    intro outcome budget
    unfold handleChunkFailure
    split
    · next finer hfiner => rw [descendGranularity_congr hfiner hrun]
    · rfl
  unfold runChunkWith
  simp only [hfailure]

/-- The runner as the source has it, with no count of what is left. -/
def runGranular (pipeline : CorrectionPipeline) (producer : EditProducer) (page : PageManifest)
    (workspace : PageWorkspace) : ChunkRunner :=
  fun chunk => runChunk pipeline producer page workspace chunk.granularity.depth chunk

/-- Any depth that the chunk does not exceed runs it alike. -/
theorem runChunk_congr {producer : EditProducer} (depth : Nat) : ∀ (depth' : Nat)
    (chunk : ChunkRequest) (budget : ChunkBudget), chunk.granularity.depth ≤ depth →
    chunk.granularity.depth ≤ depth' →
      runChunk pipeline producer page workspace depth chunk budget =
      runChunk pipeline producer page workspace depth' chunk budget := by
  have hpos : ∀ granularity : ChunkGranularity, 1 ≤ granularity.depth := by
    intro granularity
    cases granularity <;> decide
  induction depth with
  | zero =>
    intro _ chunk _ hdepth _
    have := hpos chunk.granularity
    omega
  | succ depth ih =>
    intro depth' chunk budget hdepth hdepth'
    cases depth' with
    | zero =>
      have := hpos chunk.granularity
      omega
    | succ depth' =>
      exact runChunkWith_congr (fun sub budget hsub => ih depth' sub budget (by omega) (by omega))
        producer budget

/-- **The count is no bound**: a chunk's runner calls itself back. -/
theorem runGranular_eq (producer : EditProducer) (chunk : ChunkRequest) (budget : ChunkBudget) :
    runGranular pipeline producer page workspace chunk budget =
      runChunkWith pipeline producer page workspace (runGranular pipeline producer page workspace)
        chunk budget := by
  obtain ⟨left, hleft⟩ : ∃ left, chunk.granularity.depth = left + 1 := by
    cases chunk.granularity <;> exact ⟨_, rfl⟩
  unfold runGranular
  rw [hleft]
  exact runChunkWith_congr (fun sub budget hsub => runChunk_congr left _ sub budget
    (by omega) le_rfl) producer budget

end Descent

end Saknussemm
