import Saknussemm.Run.Budget
import Saknussemm.Run.Turns

/-! # What the producers are asked, call after call.

A chunk's attempts repeat one request, numbered from one, and stop at the
first answer that validates.  Nothing else in a run asks a producer, so its
calls are such exchanges one after the other, up to the call that ends it. -/

namespace Saknussemm

open Effects

/-! ## One exchange -/

/-- What an attempt comes to: a failure worth another one, or an answer that
was validated; nothing, where the producer raised what no attempt handles. -/
def attemptResult [Unicode] [Digest] (pipeline : CorrectionPipeline) (producer : EditProducer)
    (chunk : ChunkRequest) (lines : List LineManifest) (before : List ProducerCall)
    (call : ProducerCall) : Option (Except AttemptFailure (List LineProposal)) :=
  match producer.produce before call with
  | .ok ops =>
    match validateProposed pipeline.guardConfig chunk lines
        (scriptToRaw ops lines producer.requiresFullCoverage pipeline.guardConfig
          chunk.targets).entries with
    | .error error => some (.error (.rejected error))
    | .ok response => some (.ok response)
  | .error (.transient message) => some (.error (.transport message))
  | .error (.malformed message) => some (.error (.malformed message))
  | .error (.hyphenIntegrity message) => some (.error (.hyphenIntegrity message))
  | .error (.fatal _) => none

/-- The fault of a call that no page survives. -/
def endingFault (producer : EditProducer) (before : List ProducerCall) (call : ProducerCall) :
    Option Fault :=
  match producer.produce before call with
  | .error (.fatal (.domain _)) => none
  | .error (.fatal fault) => some fault
  | _ => none

/-- The call of one attempt. -/
def attemptCall (pipeline : CorrectionPipeline) (request : CorrectionRequest) (attempt : Nat)
    (violation : Bool) : ProducerCall :=
  ⟨request, attempt, if violation then 0 else pipeline.retryPolicy.temperatureFor attempt⟩

section Exchange

variable [Unicode] [Digest]

/-- The calls of one chunk's attempts from `attempt` on, after the calls
`before`, and the fault they end the run with.  Another one follows only a
failure, and is as cold as can be once a pair was mishandled. -/
def Exchange (pipeline : CorrectionPipeline) (producer : EditProducer) (chunk : ChunkRequest)
    (lines : List LineManifest) (request : CorrectionRequest) :
    List ProducerCall → Nat → Bool → List ProducerCall → Option Fault → Prop
  | _, _, _, [], stop => stop = none
  | before, attempt, violation, call :: rest, stop =>
    call = attemptCall pipeline request attempt violation ∧
      (rest = [] ∧ stop = endingFault producer before call ∨
        ∃ failure, attemptResult pipeline producer chunk lines before call = some (.error failure) ∧
          Exchange pipeline producer chunk lines request (before ++ [call]) (attempt + 1)
            (violation || failure.isHyphenViolation) rest stop)

/-- The calls of a run: exchanges, each about the lines of one chunk as they
were then, with one of the engine's producers.  None follows a fault. -/
inductive Transcript (pipeline : CorrectionPipeline) (document : DocumentManifest) :
    List ProducerCall → Option Fault → Prop where
  | nil : Transcript pipeline document [] none
  | exchange {before calls : List ProducerCall} {stop : Option Fault}
    (h : Transcript pipeline document before none)
    (producer : EditProducer) (given : producer ∈ pipeline.producers)
    (page : PageManifest) (listed : page ∈ document.pages) (start heap : Heap)
    (chunk : ChunkRequest) (allowed : calls.length ≤ pipeline.retryPolicy.maxAttempts)
    (asked : Exchange pipeline producer chunk
      (linesOf heap (chunkLines (workspaceOf document page start) chunk))
      (buildCorrectionRequest (workspaceOf document page start) chunk heap) before 1
        false calls stop) :
    Transcript pipeline document (before ++ calls) stop

end Exchange

section Attempts

variable [Unicode] [Digest] {pipeline : CorrectionPipeline} {workspace : PageWorkspace}
  {producer : EditProducer} {chunk : ChunkRequest}

/-- **One attempt is one call**, and comes to what the producer said. -/
theorem ends_attemptOnce_asked (attempt : Nat) (temperature : ℚ) (before : List ProducerCall)
    (heap : Heap) (call : ProducerCall)
    (hcall : call = ⟨buildCorrectionRequest workspace chunk heap, attempt, temperature⟩) :
    Ends (fun s => s.calls = before ∧ s.heap = heap)
      (attemptOnce pipeline producer workspace chunk attempt temperature)
      (fun answer s => (s.calls = before ++ [call] ∧ s.heap = heap) ∧
        attemptResult pipeline producer
        chunk (linesOf heap (chunkLines workspace chunk)) before call = some answer)
      fun fault s => s.calls = before ++ [call] ∧ ∀ f ∈ endingFault producer before call,
          f = fault := by
  let lines := linesOf heap (chunkLines workspace chunk)
  let told : RunState → Prop := fun s => s.calls = before ++ [call] ∧ s.heap = heap
  -- What was heard: operations still to be checked, or a failure as it stands.
  let heard : Except AttemptFailure (List EditOp) → Prop := fun answer =>
    (∀ ops, answer = .ok ops → producer.produce before call = .ok ops) ∧
      ∀ failure, answer = .error failure →
        attemptResult pipeline producer chunk lines before call = some (.error failure)
  apply ends_get_bind
  rintro s s' ⟨rfl, rfl, rfl⟩
  refine Ends.bind (q := fun answer s => told s ∧ heard answer) ?_ (fun answer => ?_) s' rfl
  · apply ends_get_bind
    intro s
    refine Ends.bind (q := fun _ s'' => told s'' ∧ s = s') (ends_modify ?_) fun _ => ?_
    · rintro s'' ⟨rfl, rfl⟩
      exact ⟨⟨hcall ▸ rfl, rfl⟩, rfl⟩
    · rw [← hcall]
      split
      · next ops hops =>
        refine ends_pure fun s'' h => ⟨h.1, ?_, fun _ h => nomatch h⟩
        rintro _ ⟨⟩
        exact h.2 ▸ hops
      case h_5 fault hraised =>
        refine ends_throw fun s'' h => ⟨h.1.1, ?_⟩
        rw [h.2] at hraised
        unfold endingFault
        rw [hraised]
        cases fault <;> simp
      all_goals
        next hraised =>
        refine ends_pure fun s'' h => ⟨h.1, (fun _ h => nomatch h), ?_⟩
        rintro _ ⟨⟩
        rw [h.2] at hraised
        simp only [attemptResult, hraised]
  · cases answer with
    | error failure => exact ends_pure fun s h => ⟨h.1, h.2.2 failure rfl⟩
    | ok ops =>
      show Ends _ (validateAndCapture _ _ _ _ _) _ _
      unfold validateAndCapture
      simp only
      split
      · next error hrefused =>
        refine ends_pure fun s h => ⟨h.1, ?_⟩
        simp only [attemptResult, h.2.1 ops rfl, hrefused]
      · next response hvalid =>
        refine Ends.bind (q := fun _ s => told s ∧ heard (.ok ops))
          (ends_modify fun _ h => h) fun _ => ?_
        refine Ends.bind (q := fun _ s => told s ∧ heard (.ok ops))
          (ends_modify fun _ h => h) fun _ => ?_
        refine ends_pure fun s h => ⟨h.1, ?_⟩
        simp only [attemptResult, h.2.1 ops rfl, hvalid]

omit [Unicode] [Digest] in
/-- What pins the later attempts is the failure alone. -/
theorem violation_classifyRetry (failure : AttemptFailure) (attempt : Nat) (violation : Bool)
    (policy : RetryPolicy) :
    (violation || (classifyRetry failure attempt violation policy).isHyphenViolation) =
      (violation || failure.isHyphenViolation) := by
  cases violation with
  | true => rfl
  | false =>
    unfold classifyRetry
    cases hviolation : failure.isHyphenViolation with
    | true => rfl
    | false => cases failure <;> rfl

/-- A failure worth another attempt is no fault. -/
theorem endingFault_of_attemptResult {lines : List LineManifest} {before : List ProducerCall}
    {call : ProducerCall} {answer : Except AttemptFailure (List LineProposal)}
    (h : attemptResult pipeline producer chunk lines before call = some answer) :
    endingFault producer before call = none := by
  unfold attemptResult at h
  unfold endingFault
  split at h <;> grind

/-- **The attempts of a chunk are one exchange.** -/
theorem ends_attemptChunkFrom_asked (heap : Heap) (left : Nat) :
    ∀ (attempt : Nat) (violation : Bool) (before : List ProducerCall),
      Ends (fun s => s.calls = before ∧ s.heap = heap)
        (attemptChunkFrom pipeline producer workspace chunk left attempt violation)
        (fun _ s => ∃ calls, s.calls = before ++ calls ∧ calls.length ≤ left ∧
          Exchange pipeline producer chunk (linesOf heap (chunkLines workspace chunk))
            (buildCorrectionRequest workspace chunk heap) before attempt violation calls none)
        fun fault s => ∃ calls stop, (s.calls = before ++ calls ∧ calls.length ≤ left ∧
          Exchange pipeline producer chunk (linesOf heap (chunkLines workspace chunk))
            (buildCorrectionRequest workspace chunk heap) before attempt violation calls stop) ∧
          ∀ f ∈ stop, f = fault := by
  induction left with
  | zero => exact fun _ _ before => ends_pure fun s h =>
    ⟨[], by simpa using h.1, Nat.le_refl _, rfl⟩
  | succ left ih =>
    intro attempt violation before
    let call := attemptCall pipeline (buildCorrectionRequest workspace chunk heap) attempt violation
    refine ((ends_attemptOnce_asked attempt _ before heap call rfl).mono (fun _ h => h)
      (fun _ _ h => h) fun fault s h => ?_).bind fun answer => ?_
    · exact ⟨[call], _, ⟨h.1, by simp, rfl, .inl ⟨rfl, rfl⟩⟩, h.2⟩
    have hone : ∀ {s : RunState}, s.calls = before ++ [call] → attemptResult pipeline producer chunk
        (linesOf heap (chunkLines workspace chunk)) before call = some answer →
        ∃ calls, s.calls = before ++ calls ∧ calls.length ≤ left + 1 ∧
          Exchange pipeline producer chunk (linesOf heap (chunkLines workspace chunk))
            (buildCorrectionRequest workspace chunk heap) before attempt violation calls none :=
      fun hcalls hresult =>
        ⟨[call], hcalls, by simp, rfl, .inl ⟨rfl, (endingFault_of_attemptResult hresult).symm⟩⟩
    cases answer with
    | ok response => exact ends_pure fun s h => hone h.1.1 h.2
    | error failure =>
      let kept : RunState → Prop := fun s => (s.calls = before ++ [call] ∧ s.heap = heap) ∧
        attemptResult pipeline producer chunk
          (linesOf heap (chunkLines workspace chunk)) before call = some (.error failure)
      show Ends kept (if _ then _ else _) _ _
      split
      · have hsame : Steps (fun s s' : RunState => s'.calls = s.calls ∧ s'.heap = s.heap)
            (emit pipeline (.retry chunk attempt failure)) :=
              steps_emit_of (fun _ _ => ⟨rfl, rfl⟩) _
        have hemit : Ends kept (emit pipeline (.retry chunk attempt failure)) (fun _ => kept)
            fun _ => kept :=
          hsame.ends fun s s' h h' => ⟨⟨h'.1.trans h.1.1, h'.2.trans h.1.2⟩, h.2⟩
        refine (hemit.mono (fun _ h => h) (fun _ _ h => h) fun fault s h => ?_).bind fun _ => ?_
        · obtain ⟨calls, hcalls⟩ := hone h.1.1 h.2
          exact ⟨calls, none, hcalls, fun _ h => nomatch h⟩
        refine Ends.bind (q := fun _ => kept) (ends_modify fun _ h => h) fun _ => ?_
        rintro s ⟨⟨hcalls, hheap⟩, hresult⟩
        -- The next attempt starts after this call.
        have hlonger : ∀ {calls : List ProducerCall} {stop : Option Fault}, calls.length ≤ left →
            Exchange pipeline producer chunk (linesOf heap (chunkLines workspace chunk))
              (buildCorrectionRequest workspace chunk heap) (before ++ [call]) (attempt + 1)
              (violation || (classifyRetry failure attempt violation
                pipeline.retryPolicy).isHyphenViolation) calls stop →
            (call :: calls).length ≤ left + 1 ∧
              Exchange pipeline producer chunk (linesOf heap (chunkLines workspace chunk))
                (buildCorrectionRequest workspace chunk heap) before attempt violation
                (call :: calls) stop := by
          intro calls stop hlength hrest
          rw [violation_classifyRetry] at hrest
          exact ⟨Nat.succ_le_succ hlength, rfl, .inr ⟨failure, hresult, hrest⟩⟩
        refine ((ih (attempt + 1) _ (before ++ [call])).mono (fun _ h => h) (fun _ s' h => ?_)
          fun fault s' h => ?_) s ⟨hcalls, hheap⟩
        · obtain ⟨calls, hmade, hlength, hrest⟩ := h
          exact ⟨call :: calls, by simpa using hmade, hlonger hlength hrest⟩
        · obtain ⟨calls, stop, ⟨hmade, hlength, hrest⟩, hstop⟩ := h
          exact ⟨call :: calls, stop, ⟨by simpa using hmade, hlonger hlength hrest⟩, hstop⟩
      · exact ends_pure fun s h => hone h.1.1 h.2

end Attempts

/-! ## A whole run -/

/-- The calls so far, and the run goes on. -/
def Transcribed [Unicode] [Digest] (pipeline : CorrectionPipeline) (document : DocumentManifest)
    (s : RunState) : Prop :=
  Transcript pipeline document s.calls none

/-- The calls of a part of the run that stopped with a fault. -/
def Interrupted [Unicode] [Digest] (pipeline : CorrectionPipeline) (document : DocumentManifest)
    (fault : Fault) (s : RunState) : Prop :=
  ∃ stop, Transcript pipeline document s.calls stop ∧ ∀ f ∈ stop, f = fault

section Runs

variable [Unicode] [Digest] {pipeline : CorrectionPipeline} {document : DocumentManifest}
  {page : PageManifest} {start : Heap}

theorem Transcribed.interrupted {s : RunState} (hs : Transcribed pipeline document s)
    (fault : Fault) : Interrupted pipeline document fault s :=
  ⟨none, hs, fun _ h => nomatch h⟩

/-- Where no call is made the transcript stays. -/
theorem ends_transcribed_of_callFree {α : Type} {m : RunM α} (hm : Steps SameCalls m) :
    Ends (Transcribed pipeline document) m (fun _ => Transcribed pipeline document)
      (Interrupted pipeline document) := by
  refine (hm.ends (P := Transcribed pipeline document) fun s s' hs h => ?_).mono (fun _ h => h)
    (fun _ _ h => h) fun fault s hs => hs.interrupted fault
  show Transcript pipeline document s'.calls none
  rw [show s'.calls = s.calls from h]
  exact hs

/-- **A chunk's attempts add one exchange.** -/
theorem ends_attemptChunk_transcribed (hpage : page ∈ document.pages) {producer : EditProducer}
    (hproducer : producer ∈ pipeline.producers) (chunk : ChunkRequest) {allowed : Nat}
    (hallowed : allowed ≤ pipeline.retryPolicy.maxAttempts) :
    Ends (Transcribed pipeline document)
      (attemptChunk pipeline producer (workspaceOf document page start) chunk allowed)
      (fun _ => Transcribed pipeline document) (Interrupted pipeline document) := by
  intro s hs
  have hextend : ∀ {s' : RunState} {calls : List ProducerCall} {stop : Option Fault},
      s'.calls = s.calls ++ calls → calls.length ≤ allowed →
      Exchange pipeline producer chunk
        (linesOf s.heap (chunkLines (workspaceOf document page start) chunk))
        (buildCorrectionRequest (workspaceOf document page start) chunk s.heap) s.calls 1
          false calls stop →
      Transcript pipeline document s'.calls stop := by
    intro s' calls stop hcalls hlength hasked
    rw [hcalls]
    exact .exchange hs producer hproducer page hpage start s.heap chunk
      (hlength.trans hallowed) hasked
  refine (ends_attemptChunkFrom_asked s.heap allowed 1 false s.calls).mono (fun _ h => h)
    (fun outcome s' h => ?_) (fun fault s' h => ?_) s ⟨rfl, rfl⟩
  · obtain ⟨calls, hcalls, hlength, hasked⟩ := h
    exact hextend hcalls hlength hasked
  · obtain ⟨calls, stop, ⟨hcalls, hlength, hasked⟩, hstop⟩ := h
    exact ⟨stop, hextend hcalls hlength hasked, hstop⟩

/-- A runner whose calls are exchanges. -/
def RunnerAsks (pipeline : CorrectionPipeline) (document : DocumentManifest)
    (run : ChunkRunner) : Prop :=
  ∀ chunk budget, Ends (Transcribed pipeline document) (run chunk budget)
    (fun _ => Transcribed pipeline document) (Interrupted pipeline document)

theorem ends_fallBackChunk_transcribed {workspace : PageWorkspace} (chunk : ChunkRequest)
    (failure : Option AttemptFailure) {α : Type} (result : α) :
    Ends (Transcribed pipeline document) (do
      fallBackChunk pipeline workspace chunk failure
      return result : RunM α) (fun _ => Transcribed pipeline document)
      (Interrupted pipeline document) :=
  (ends_transcribed_of_callFree (callFree_fallBackChunk _ _)).bind fun _ => ends_pure fun _ h => h

/-- A descent is transcribed chunk after chunk. -/
theorem ends_descendGranularity_transcribed {workspace : PageWorkspace} {run : ChunkRunner}
    (hrun : RunnerAsks pipeline document run) (chunk : ChunkRequest) (finer : ChunkGranularity)
    (failure : Option AttemptFailure) (budget : ChunkBudget) :
    Ends (Transcribed pipeline document)
      (descendGranularity pipeline page workspace run chunk finer failure budget)
      (fun _ => Transcribed pipeline document) (Interrupted pipeline document) := by
  apply (ends_transcribed_of_callFree (callFree_emit _)).bind
  intro _
  apply (ends_transcribed_of_callFree (callFree_replan _ _ _)).bind
  intro plan
  refine ends_foldlM_of_mem (I := fun _ => Transcribed pipeline document) (fun sub _ state => ?_) _
  apply (ends_transcribed_of_callFree (steps_checkAbort_of fun _ _ => rfl)).bind
  intro _
  show Ends _ (if _ then _ else _) _ _
  split
  · exact ends_fallBackChunk_transcribed sub failure state
  · exact (hrun sub state.2).bind fun _ => ends_pure fun _ h => h

theorem ends_handleChunkFailure_transcribed {workspace : PageWorkspace} {run : ChunkRunner}
    (hrun : RunnerAsks pipeline document run) (chunk : ChunkRequest) (outcome : AttemptOutcome)
    (budget : ChunkBudget) : Ends (Transcribed pipeline document)
      (handleChunkFailure pipeline page workspace run chunk outcome budget)
      (fun _ => Transcribed pipeline document) (Interrupted pipeline document) := by
  unfold handleChunkFailure
  split
  · split
    · exact ends_descendGranularity_transcribed hrun _ _ _ _
    · exact ends_fallBackChunk_transcribed _ _ _
  · exact ends_fallBackChunk_transcribed _ _ _

/-- A chunk is transcribed at every depth. -/
theorem ends_runChunk_transcribed (hpage : page ∈ document.pages) {producer : EditProducer}
    (hproducer : producer ∈ pipeline.producers) (depth : Nat) :
    RunnerAsks pipeline document
      (runChunk pipeline producer page (workspaceOf document page start) depth) := by
  induction depth with
  | zero => exact fun _ _ => ends_throw fun _ hs => hs.interrupted _
  | succ depth ih =>
    intro chunk budget
    show Ends _ (if _ then _ else _) _ _
    split
    · exact ends_pure fun _ h => h
    · apply (ends_transcribed_of_callFree (callFree_emit _)).bind
      intro _
      apply (ends_attemptChunk_transcribed hpage hproducer chunk (Nat.min_le_left _ _)).bind
      intro outcome
      dsimp only
      cases outcome.response with
      | none => exact ends_handleChunkFailure_transcribed ih _ _ _
      | some response =>
        apply (ends_transcribed_of_callFree (callFree_finishSuccessfulChunk _ _)).bind
        exact fun _ => ends_pure fun _ h => h

omit [Unicode] [Digest] in
/-- A fault of the library's own costs a chunk alone. -/
theorem endingFault_ne_domain (producer : EditProducer) (before : List ProducerCall)
    (call : ProducerCall) (message : Str) : endingFault producer before call ≠
        some (.domain message) := by
  unfold endingFault
  split
  · exact nofun
  · next hfault _ =>
    rintro ⟨⟩
    exact hfault message rfl
  · exact nofun

/-- An exchange never stops on a fault of the domain. -/
theorem Exchange.ne_domain {producer : EditProducer} {chunk : ChunkRequest}
    {lines : List LineManifest} {request : CorrectionRequest} {stop : Option Fault} (message : Str)
    {calls : List ProducerCall} : ∀ {before : List ProducerCall} {attempt : Nat} {violation : Bool},
      Exchange pipeline producer chunk lines request before attempt violation calls stop →
        stop ≠ some (.domain message) := by
  induction calls with
  | nil =>
    rintro _ _ _ rfl
    exact nofun
  | cons call rest ih =>
    rintro before attempt violation ⟨-, ⟨-, rfl⟩ | ⟨failure, -, hrest⟩⟩
    · exact endingFault_ne_domain _ _ _ _
    · exact ih hrest

theorem Transcript.ne_domain {calls : List ProducerCall} {stop : Option Fault}
    (h : Transcript pipeline document calls stop) (message : Str) :
    stop ≠ some (.domain message) := by
  cases h with
  | nil => exact nofun
  | exchange h producer given page listed start heap chunk allowed asked =>
    exact asked.ne_domain message

/-- What an error a run survives leaves is a transcript still. -/
theorem transcribed_of_domain {message : Str} {s : RunState}
    (h : Interrupted pipeline document (.domain message) s) : Transcribed pipeline document s := by
  obtain ⟨stop, hcalls, hstop⟩ := h
  cases stop with
  | none => exact hcalls
  | some fault => exact absurd (congrArg some (hstop fault rfl)) (hcalls.ne_domain message)

/-- The observer may raise this fault. -/
def CorrectionPipeline.Raises (pipeline : CorrectionPipeline) (fault : Fault) : Prop :=
  ∃ events event, pipeline.observer events event = some fault

/-- The calls of a run that stopped with a fault: a producer's, unless the
observer raised one when it was told. -/
def Halted (pipeline : CorrectionPipeline) (document : DocumentManifest) (fault : Fault)
    (s : RunState) : Prop :=
  ∃ stop, Transcript pipeline document s.calls stop ∧ ∀ f ∈ stop, f = fault ∨ pipeline.Raises fault

theorem Interrupted.halted {fault : Fault} {s : RunState}
    (h : Interrupted pipeline document fault s) : Halted pipeline document fault s := by
  obtain ⟨stop, hcalls, hstop⟩ := h
  exact ⟨stop, hcalls, fun f hf => .inl (hstop f hf)⟩

/-- Told of a fault, the observer lets it pass or raises another. -/
theorem ends_emit_halted {fault : Fault} (event : EngineEvent) :
    Ends (Interrupted pipeline document fault) (emit pipeline event)
      (fun _ => Interrupted pipeline document fault) (Halted pipeline document) := by
  apply ends_get_bind
  intro s
  refine Ends.bind (q := fun _ => Interrupted pipeline document fault)
    (ends_modify ?_) fun _ => ?_
  · rintro s' ⟨rfl, stop, hcalls, hstop⟩
    exact ⟨stop, hcalls, hstop⟩
  split
  · next raised hraised =>
    refine ends_throw fun s' h => ?_
    obtain ⟨stop, hcalls, -⟩ := h
    exact ⟨stop, hcalls, fun _ _ => .inr ⟨_, _, hraised⟩⟩
  · exact ends_pure fun _ h => h

/-- A fault is absorbed, or stops the transcript. -/
theorem ends_absorb_transcribed {workspace : PageWorkspace} (chunk : ChunkRequest) (fault : Fault) :
    Ends (Interrupted pipeline document fault) (absorb pipeline workspace chunk fault)
      (fun _ => Transcribed pipeline document) (Halted pipeline document) := by
  cases fault with
  | aborted => exact ends_throw fun _ h => h.halted
  | permanent => exact ends_throw fun _ h => h.halted
  | crash message => exact (ends_emit_halted _).bind fun _ => ends_throw fun _ h => h.halted
  | domain message =>
    refine Ends.mono ?_ (fun _ h => transcribed_of_domain h) (fun _ _ h => h) fun _ _ h => h
    refine Ends.bind ((ends_transcribed_of_callFree (callFree_emit _)).mono (fun _ h => h)
      (fun _ _ h => h) fun _ _ h => h.halted) fun _ => ?_
    refine Ends.bind (q := fun _ => Transcribed pipeline document) (ends_modify fun s hs => ?_)
      fun _ => ends_pure fun _ h => h
    have hcalls : (absorbChunkError workspace chunk message s).calls = s.calls := by
      unfold absorbChunkError
      dsimp only
      split
      · rfl
      · exact calls_fallBackToSource _ _ _
    rw [Transcribed, hcalls]
    exact hs

/-! ### Pages -/

theorem ends_halted_of_callFree {α : Type} {m : RunM α} (hm : Steps SameCalls m) :
    Ends (Transcribed pipeline document) m (fun _ => Transcribed pipeline document)
      (Halted pipeline document) :=
  (ends_transcribed_of_callFree hm).mono (fun _ h => h) (fun _ _ h => h) fun _ _ h => h.halted

theorem ends_runItem_transcribed (hpage : page ∈ document.pages) (reconciled : Nat)
    {item : ChunkRequest × EditProducer} (hproducer : item.2 ∈ pipeline.producers) :
    Ends (Transcribed pipeline document)
      (runItem pipeline page (workspaceOf document page start) reconciled item)
      (fun _ => Transcribed pipeline document) (Halted pipeline document) := by
  apply (ends_halted_of_callFree (steps_checkAbort_of fun _ _ => rfl)).bind
  intro _
  refine Ends.bind (q := fun _ => Transcribed pipeline document) ?_ fun _ => ends_pure fun _ h => h
  apply Ends.tryCatch
  · exact (ends_runChunk_transcribed hpage hproducer _ _ _).bind fun _ => ends_pure fun _ h => h
  · exact fun fault => ends_absorb_transcribed _ _

omit [Unicode] [Digest] in
theorem calls_confirmSkippedLines (workspace : PageWorkspace) (skip : List Str) (s : RunState) :
    (confirmSkippedLines workspace skip s).calls = s.calls := by
  unfold confirmSkippedLines
  generalize skip.filterMap workspace.lineById = lines
  induction lines generalizing s with
  | nil => rfl
  | cons line lines ih => exact ih (accept line (s.heap line).ocrText s)

omit [Unicode] [Digest] in
/-- Routing asks nobody, and gives each chunk to one of the two producers. -/
theorem ends_routeAndFilterChunks_producers (workspace : PageWorkspace) (chunks : List ChunkRequest)
    (before : List ProducerCall) : Ends (fun s => s.calls = before)
      (routeAndFilterChunks pipeline workspace chunks)
      (fun items s => s.calls = before ∧ ∀ item ∈ items, item.2 ∈ pipeline.producers)
      fun _ s => s.calls = before := by
  unfold routeAndFilterChunks
  cases routingScorer pipeline with
  | none =>
    refine ends_pure fun s hs => ⟨hs, fun item hitem => ?_⟩
    obtain ⟨chunk, -, rfl⟩ := List.mem_map.mp hitem
    exact List.mem_cons_self
  | some scorer =>
    apply ends_get_bind
    intro s
    refine Ends.bind (q := fun _ s => s.calls = before) (ends_modify ?_) fun _ => ends_pure ?_
    · rintro s' ⟨rfl, hs⟩
      exact (calls_confirmSkippedLines _ _ s').trans hs
    · refine fun s' hs => ⟨hs, fun item hitem => ?_⟩
      obtain ⟨chunk, -, hin⟩ := List.mem_flatMap.mp hitem
      exact mem_producers_of_workItems hin

/-- Planning a page is transcribed, and names producers of the pipeline. -/
theorem ends_planPageChunks_transcribed (workspace : PageWorkspace) :
    Ends (Transcribed pipeline document) (planPageChunks pipeline page workspace)
      (fun items s => Transcribed pipeline document s ∧ ∀ item ∈ items, item.2 ∈ pipeline.producers)
      (Halted pipeline document) := by
  have hsame : ∀ {before : List ProducerCall} {s : RunState},
      Transcript pipeline document before none →
      s.calls = before → Transcribed pipeline document s := by
    rintro _ _ h rfl
    exact h
  apply (ends_halted_of_callFree (callFree_replan _ _ _)).bind
  intro plan s hs
  refine (((ends_routeAndFilterChunks_producers workspace plan.chunks s.calls).mono (fun _ h => h)
    (fun _ _ h => h) fun fault s' h => ((hsame hs h).interrupted fault).halted).bind
      fun routed => ?_) s rfl
  apply ends_get_bind
  rintro _ s' ⟨rfl, hcalls, hrouted⟩
  have hs' := hsame hs hcalls
  cases hsplit : splitAllForImageCap (linesOf s'.heap workspace.refs) routed with
  | error fault => exact (hs'.interrupted fault).halted
  | ok items =>
    have hgiven : ∀ item ∈ items, item.2 ∈ pipeline.producers := by
      intro item hitem
      obtain ⟨whole, hwhole, heq⟩ := producer_of_mem_splitAllForImageCap hsplit hitem
      exact heq ▸ hrouted whole hwhole
    refine ((ends_halted_of_callFree (callFree_emit _)).bind fun _ => ?_) s' hs'
    exact ends_pure fun _ h => ⟨h, hgiven⟩

/-- A page is transcribed item after item. -/
theorem ends_processPage_transcribed (hpage : page ∈ document.pages) :
    Ends (Transcribed pipeline document) (processPage pipeline document page)
      (fun _ => Transcribed pipeline document) (Halted pipeline document) := by
  apply ends_get_bind
  intro s
  refine Ends.mono (p := Transcribed pipeline document) ?_ (fun s' h => h.1 ▸ h.2) (fun _ _ h => h)
    fun _ _ h => h
  apply (ends_halted_of_callFree (callFree_emit _)).bind
  intro _
  apply (ends_planPageChunks_transcribed _).bind
  intro items
  refine ends_of_fact fun hitems => ?_
  refine Ends.bind (q := fun _ => Transcribed pipeline document) ?_ fun reconciled => ?_
  · exact ends_foldlM_of_mem (I := fun _ => Transcribed pipeline document)
        (fun item hitem reconciled =>
      ends_runItem_transcribed hpage reconciled (hitems item hitem)) 0
  apply ends_get_bind
  intro s
  refine Ends.mono (p := Transcribed pipeline document) ?_ (fun s' h => h.1 ▸ h.2) (fun _ _ h => h)
    fun _ _ h => h
  exact (ends_halted_of_callFree (callFree_emit _)).bind fun _ => ends_pure fun _ h => h

/-- The whole page loop is transcribed. -/
theorem ends_correctDocument_transcribed : Ends (Transcribed pipeline document)
    (correctDocument pipeline document) (fun _ => Transcribed pipeline document)
    (Halted pipeline document) := by
  refine Ends.bind (q := fun _ => Transcribed pipeline document) ?_ fun _ => ?_
  · unfold preflight
    split
    · exact ends_pure fun _ h => h
    · exact ends_throw fun _ h => (h.interrupted _).halted
  apply (ends_halted_of_callFree (callFree_emit _)).bind
  intro _
  refine ends_foldlM_of_mem (I := fun _ => Transcribed pipeline document)
    (fun page hpage totals => ?_) _
  obtain ⟨chunks, reconciled⟩ := totals
  apply (ends_halted_of_callFree (steps_checkAbort_of fun _ _ => rfl)).bind
  intro _
  exact (ends_processPage_transcribed hpage).bind fun _ => ends_pure fun _ h => h

/-! ### The passes -/

omit [Unicode] [Digest] in
theorem calls_applyUnitReverts (pass : RevertPass) (reverts : Dict LineRef FallbackReason)
    (s : RunState) : (applyUnitReverts document pass reverts s).2.calls = s.calls := by
  unfold applyUnitReverts
  split
  · rfl
  · show (revertAll document _ s).calls = s.calls
    unfold revertAll
    generalize List.filter _ _ = entries
    induction entries generalizing s with
    | nil => rfl
    | cons entry entries ih => exact ih (fallBack entry.1 entry.2 s)

omit [Digest] in
/-- Putting breaks back calls no producer. -/
theorem calls_preserveBreakChars (s : RunState) :
    (preserveBreakChars document s).calls = s.calls := by
  unfold preserveBreakChars
  generalize document.refs = refs
  induction refs generalizing s with
  | nil => rfl
  | cons ref refs ih =>
    apply (ih (preserveBreakCharOf ref s)).trans
    unfold preserveBreakCharOf
    dsimp only
    split
    · rfl
    · split <;> rfl

omit [Digest] in
/-- The passes ask nobody. -/
theorem calls_finalizePasses (s : RunState) :
    (finalizePasses pipeline document s).2.calls = s.calls := by
  have hspelt : (preserveBreakChars document
      (globalAdjacencyPass pipeline document s)).calls = s.calls :=
    (calls_preserveBreakChars _).trans (calls_applyUnitReverts _ _ _)
  unfold finalizePasses lossPolicyPass
  split
  · exact (calls_applyUnitReverts _ _ _).trans hspelt
  · split
    · exact hspelt
    · exact (calls_applyUnitReverts _ _ _).trans hspelt

/-- A run asks nobody past its pages. -/
theorem calls_run : (run pipeline document).2.calls =
    ((correctDocument pipeline document).exec (initialState document)).2.calls := by
  rcases @state_run _ pipeline document _ with hstopped | hpassed
  · rw [hstopped]
  · rw [hpassed]
    exact calls_finalizePasses _

/-- **Every run's calls are exchanges**: each chunk's attempts put one request
to one producer, first to last, at the temperatures of the policy; another
attempt follows a failure alone, and no call follows one that a producer's
fault ends the run with. -/
theorem transcript_run (pipeline : CorrectionPipeline) (document : DocumentManifest) :
    ∃ stop, Transcript pipeline document (run pipeline document).2.calls stop ∧
      ∀ fault ∈ stop, ∃ last, (run pipeline document).1 = .error last ∧
        (last = fault ∨ pipeline.Raises last) := by
  have hends := @ends_correctDocument_transcribed _ _ pipeline document
  have hstart : Transcribed pipeline document (initialState document) := .nil
  -- the closing passes call no producer, so the record ends with the page loop
  rw [calls_run]
  rcases hexec : (correctDocument pipeline document).exec (initialState document) with ⟨res, s⟩
  cases res with
  | error fault =>
    -- a run that stops there stops on the fault of its last exchange or one a producer raised
    obtain ⟨stop, hcalls, hstop⟩ := hends.error hstart hexec
    have hfails : (run pipeline document).1 = .error fault := by
      unfold run runPipeline
      rw [Prog.exec_bind_error hexec]
    refine ⟨stop, hcalls, fun f hf => ⟨fault, hfails, ?_⟩⟩
    exact (hstop f hf).imp_left Eq.symm
  | ok totals => exact ⟨none, hends.ok hstart hexec, fun _ h => nomatch h⟩

end Runs

end Saknussemm
