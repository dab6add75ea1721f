import Mathlib.Algebra.Order.BigOperators.Group.List
import Saknussemm.Run.Owners
import Saknussemm.Run.Rounds
import Saknussemm.Run.Tiers

/-! # A line is answered once.

An answered chunk is reported, whatever becomes of the report.  A page's
chunks and their descents share out its lines, so over a run one answered
chunk at most owns a line; and what every answer and everything in between
keeps, the run keeps. -/

namespace Saknussemm

open Effects Relation

/-! ## Answers -/

/-- The event says that a chunk that owns the line was answered. -/
def EngineEvent.answers (ref : LineRef) : EngineEvent → Bool
  | chunkCompleted chunk _ _ _ => chunk.owns ref
  | _ => false

/-- How often a line was answered. -/
def RunState.answersFor (s : RunState) (ref : LineRef) : Nat := s.events.countP
    (EngineEvent.answers ref)

/-- The chunk an event says was started. -/
def EngineEvent.startedChunk : EngineEvent → Option ChunkRequest
  | chunkStarted chunk _ => some chunk
  | _ => none

/-- The chunks started so far. -/
def RunState.started (s : RunState) : List ChunkRequest :=
    s.events.filterMap EngineEvent.startedChunk

theorem answersFor_eq (s : RunState) (ref : LineRef) :
    s.answersFor ref = s.answers.countP (EngineEvent.answers ref) := by
  rw [RunState.answersFor, RunState.answers, List.countP_filter]
  refine List.countP_congr fun event _ => ?_
  cases event <;> simp [EngineEvent.answers, EngineEvent.isAnswer]

theorem Between.answersFor {s s' : RunState} (h : Between s s') (ref : LineRef) :
    s'.answersFor ref = s.answersFor ref := by
  rw [answersFor_eq, answersFor_eq, h.answers]

theorem Between.started {s s' : RunState} (h : Between s s') : s.started ⊆ s'.started :=
  List.filterMap_subset _ h.events.subset

section Answered

variable [Unicode] {pipeline : CorrectionPipeline} {workspace : PageWorkspace}

/-- The joins of a chunk walked. -/
def walkedJoins (pipeline : CorrectionPipeline) (workspace : PageWorkspace) (chunk : ChunkRequest)
    (textById : Dict Str Str) (s : RunState) : List LineRef × RunState :=
  let claims := claimsOf workspace s.heap (targetLines workspace chunk)
  walkUnitsReconciling pipeline.guardConfig claims.joins textById
    (walkOrder s.heap claims.pool) ([], s)

/-- What an answered chunk leaves: its joins walked, its lines judged, and
the answer reported. -/
def answered (pipeline : CorrectionPipeline) (workspace : PageWorkspace) (chunk : ChunkRequest)
    (textById : Dict Str Str) (s : RunState) : RunState :=
  let walked := walkedJoins pipeline workspace chunk textById s
  let judged := applyLineAcceptance pipeline.guardConfig workspace textById
    (targetLines workspace chunk) walked.2
  { judged with events := judged.events ++
      [.chunkCompleted chunk (chunkLines workspace chunk).length
      (targetLines workspace chunk).length walked.1.length] }

omit [Unicode] in
/-- The observer is told, whatever it does about it. -/
theorem state_emit (event : EngineEvent) (s : RunState) :
    ((emit pipeline event).exec s).2 = { s with events := s.events ++ [event] } := by
  unfold emit
  rw [Prog.exec_bind_ok (Prog.exec_get s), Prog.exec_bind_ok (Prog.exec_modify _ s)]
  split <;> rfl

/-- **A chunk is answered**, or an observer stops it before any of its joins
is judged. -/
theorem finish_cases (chunk : ChunkRequest) (response : List LineProposal) (s : RunState) :
    ∃ s', Between s s' ∧ s'.heap = s.heap ∧
      (((finishSuccessfulChunk pipeline workspace chunk response).exec s).2 = s' ∨
        ((finishSuccessfulChunk pipeline workspace chunk response).exec s).2 =
          answered pipeline workspace chunk (textById response) s') := by
  let lines := targetLines workspace chunk
  -- claiming joins tells events and touches no line
  have hquiet : ((claimJoins pipeline workspace lines).exec s).2.heap = s.heap :=
    (steps_claimJoins (fun event _ => quiet_emit event) lines).invariant
      (fun _ _ hs h => h.heap.trans hs) rfl
  have hclaims := @yields_claimJoins pipeline workspace s.heap lines s rfl
  have hbetween : Between s ((claimJoins pipeline workspace lines).exec s).2 :=
    (between_claimJoins lines).invariant (fun _ _ hs h => hs.trans h) (.refl s)
  refine ⟨_, hbetween, hquiet, ?_⟩
  unfold finishSuccessfulChunk
  rcases hexec : (claimJoins pipeline workspace lines).exec s with ⟨res, s'⟩
  rw [hexec] at hclaims hquiet
  cases res with
  -- an invariant breach stops the finish here, before any line is written
  | error fault =>
    left
    have hreconcile : (reconcileChunkHyphens pipeline workspace lines (textById response)).exec s =
        (.error fault, s') := Prog.exec_bind_error hexec
    rw [Prog.exec_bind_error hreconcile]
  | ok claims =>
    right
    obtain ⟨-, rfl⟩ := hclaims
    let walked := walkedJoins pipeline workspace chunk (textById response) s'
    have hwalked : walkUnitsReconciling pipeline.guardConfig (claimsOf workspace s.heap lines).joins
        (textById response) (walkOrder s'.heap (claimsOf workspace s.heap lines).pool) ([], s') =
          walked := by
      rw [← hquiet]
      rfl
    -- otherwise the walk runs on the claims of the heap as it was
    have hreconcile : (reconcileChunkHyphens pipeline workspace lines (textById response)).exec s =
        (.ok walked.1.length, walked.2) := by
      unfold reconcileChunkHyphens
      rw [Prog.exec_bind_ok hexec, Prog.exec_bind_ok (Prog.exec_get s'), hwalked]
      rfl
    rw [Prog.exec_bind_ok hreconcile, Prog.exec_bind_ok (Prog.exec_modify _ walked.2),
      Prog.exec_bind]
    have hemit := @state_emit pipeline (.chunkCompleted chunk (chunkLines workspace chunk).length
      lines.length walked.1.length)
      (applyLineAcceptance pipeline.guardConfig workspace (textById response) lines walked.2)
    rcases htold : (emit pipeline _).exec _ with ⟨res, s''⟩
    rw [htold] at hemit
    cases res <;> exact hemit

/-! ### What an answer changes -/

theorem events_visitJoin (config : GuardConfig) (join : Join) (textById : Dict Str Str)
    (s : RunState) : (visitJoin config join textById s).events = s.events := by
  show (reconcileOnePair config join textById s).2.events = s.events
  unfold reconcileOnePair
  dsimp only
  split
  · rfl
  · show RunState.events (if _ then _ else _) = _
    split <;> rfl

omit [Unicode] in
theorem events_judgeLine (config : GuardConfig) (textById : Dict Str Str) (line : LineRef)
    (s : RunState) : (judgeLine config workspace textById line s).events = s.events := by
  unfold judgeLine
  dsimp only
  split
  · rfl
  · split
    · rfl
    · split <;> rfl

/-- Walking the units tells nothing. -/
theorem events_walkUnitsReconciling (config : GuardConfig) (joins : Dict LineRef Join)
    (textById : Dict Str Str) (members : List LineRef) (state : List LineRef × RunState) :
    (walkUnitsReconciling config joins textById members state).2.events = state.2.events := by
  induction members generalizing state with
  | nil => rfl
  | cons member members ih =>
    apply (ih _).trans
    unfold visitMember
    split
    · rfl
    · split
      · rfl
      · exact events_visitJoin _ _ _ _

omit [Unicode] in
theorem events_applyLineAcceptance (config : GuardConfig) (textById : Dict Str Str)
    (lines : List LineRef) (s : RunState) :
    (applyLineAcceptance config workspace textById lines s).events = s.events := by
  unfold applyLineAcceptance
  induction lines generalizing s with
  | nil => rfl
  | cons line lines ih => exact (ih _).trans (events_judgeLine _ _ _ _)

theorem events_answered (chunk : ChunkRequest) (textById : Dict Str Str) (s : RunState) :
    (answered pipeline workspace chunk textById s).events =
      s.events ++ [.chunkCompleted chunk (chunkLines workspace chunk).length
        (targetLines workspace chunk).length
        (walkedJoins pipeline workspace chunk textById s).1.length] := by
  unfold answered
  dsimp only
  rw [events_applyLineAcceptance, walkedJoins, events_walkUnitsReconciling]

/-- **An answer is counted for the lines its chunk owns.** -/
theorem answersFor_answered (chunk : ChunkRequest) (textById : Dict Str Str) (s : RunState)
    (ref : LineRef) : (answered pipeline workspace chunk textById s).answersFor ref =
      s.answersFor ref + if chunk.owns ref = true then 1 else 0 := by
  rw [RunState.answersFor, events_answered, List.countP_append, List.countP_singleton]
  rfl

end Answered

/-! ## Where an answer comes from -/

/-- The producers an engine may ask. -/
def CorrectionPipeline.producers (pipeline : CorrectionPipeline) : List EditProducer :=
  pipeline.producer :: pipeline.escalationProducer.toList

/-- A routed chunk goes to a producer of the engine. -/
theorem mem_producers_of_workItems {pipeline : CorrectionPipeline} {tiers : Tiers}
    {chunk : ChunkRequest} {item : ChunkRequest × EditProducer}
    (h : item ∈ workItems pipeline.producer (pipeline.escalationProducer.getD pipeline.producer)
      tiers chunk) : item.2 ∈ pipeline.producers := by
  rcases producer_of_mem_workItems h with ⟨hprimary, -⟩ | ⟨⟨hescalated, -⟩, -⟩
  · rw [hprimary]
    exact List.mem_cons_self
  · rw [hescalated]
    cases hescalation : pipeline.escalationProducer with
    | none => exact List.mem_cons_self
    | some escalation => simp [CorrectionPipeline.producers, hescalation]

/-- One of the engine's producers was asked about these lines, and the answer
is what it said, validated. -/
def AnswerOf [Unicode] [Digest] (pipeline : CorrectionPipeline) (workspace : PageWorkspace)
    (chunk : ChunkRequest) (heap : Heap) (response : List LineProposal) : Prop :=
  ∃ producer ∈ pipeline.producers, ∃ before attempt temperature ops,
    producer.produce before ⟨buildCorrectionRequest workspace chunk heap, attempt, temperature⟩ =
        .ok ops ∧
      validateProposed pipeline.guardConfig chunk (linesOf heap (chunkLines workspace chunk))
        (scriptToRaw ops (linesOf heap (chunkLines workspace chunk)) producer.requiresFullCoverage
          pipeline.guardConfig chunk.targets).entries = .ok response

section Asked

variable [Unicode] [Digest] {pipeline : CorrectionPipeline} {workspace : PageWorkspace}

/-- An attempt leaves the heap alone and answers for the chunk it asked
about. -/
theorem yields_attemptOnce_answered {producer : EditProducer}
    (hproducer : producer ∈ pipeline.producers)
    (chunk : ChunkRequest) (attempt : Nat) (temperature : ℚ) (heap : Heap) :
    Yields (fun s => s.heap = heap)
      (attemptOnce pipeline producer workspace chunk attempt temperature)
      fun answer s => s.heap = heap ∧
        ∀ response, answer = .ok response → AnswerOf pipeline workspace chunk heap response := by
  let asked : Except AttemptFailure (List EditOp) → Prop := fun answer => ∀ ops, answer = .ok ops →
    ∃ before, producer.produce before
      ⟨buildCorrectionRequest workspace chunk heap, attempt, temperature⟩ = .ok ops
  apply ends_get_bind
  intro s
  -- first the call: an answer came from the producer, on the request built from this heap
  refine Ends.bind (q := fun answer s' => s'.heap = heap ∧ s.heap = heap ∧ asked answer) ?_
    fun answer => ?_
  · apply ends_get_bind
    intro s''
    refine Ends.bind (q := fun _ s' => s'.heap = heap ∧ s.heap = heap)
      (ends_modify fun s' h => ?_) fun _ => ?_
    · obtain ⟨rfl, rfl, h⟩ := h
      exact ⟨h, h⟩
    · split
      · next ops hops =>
        refine ends_pure fun s' h => ⟨h.1, h.2, ?_⟩
        rintro _ ⟨⟩
        exact ⟨_, h.2 ▸ hops⟩
      all_goals first
        | exact ends_pure fun _ h => ⟨h.1, h.2, fun _ h => nomatch h⟩
        | exact ends_throw fun _ _ => trivial
  cases answer with
  | error failure => exact ends_pure fun _ h => ⟨h.1, fun _ h => nomatch h⟩
  -- then the validation: only a response that passes it is handed on
  | ok ops =>
    show Ends _ (validateAndCapture _ _ _ _ _) _ _
    unfold validateAndCapture
    simp only
    split
    · exact ends_pure fun _ h => ⟨h.1, fun _ h => nomatch h⟩
    · next response hvalid =>
      refine Ends.bind (q := fun _ s' => s'.heap = heap ∧ s.heap = heap ∧ asked (.ok ops))
        (ends_modify fun _ h => h) fun _ => ?_
      refine Ends.bind (q := fun _ s' => s'.heap = heap ∧ s.heap = heap ∧ asked (.ok ops))
        (ends_modify fun _ h => h) fun _ => ?_
      refine ends_pure fun s' h => ⟨h.1, ?_⟩
      rintro _ ⟨⟩
      obtain ⟨before, hops⟩ := h.2.2 ops rfl
      exact ⟨producer, hproducer, before, attempt, temperature, ops, hops, h.2.1 ▸ hvalid⟩

/-- **A chunk that gets an answer was asked for it.** -/
theorem yields_attemptChunkFrom_answered {producer : EditProducer}
    (hproducer : producer ∈ pipeline.producers) (chunk : ChunkRequest) (heap : Heap) (left : Nat) :
    ∀ (attempt : Nat) (violation : Bool), Yields (fun s => s.heap = heap)
      (attemptChunkFrom pipeline producer workspace chunk left attempt violation)
      fun outcome s => s.heap = heap ∧ ∀ response, outcome.response = some response →
        AnswerOf pipeline workspace chunk heap response := by
  induction left with
  | zero => exact fun _ _ => ends_pure fun _ h => ⟨h, fun _ h => nomatch h⟩
  | succ left ih =>
    intro attempt violation
    refine (yields_attemptOnce_answered hproducer chunk attempt _ heap).bind fun answer => ?_
    cases answer with
    | ok response =>
      refine ends_pure fun s h => ⟨h.1, ?_⟩
      rintro _ ⟨⟩
      exact h.2 response rfl
    | error failure =>
      show Ends _ (if _ then _ else _) _ _
      split
      · refine Ends.bind (q := fun _ s => s.heap = heap)
          ((yields_quiet (quiet_emit _) heap).mono (fun _ h => h.1) (fun _ _ h => h)
            fun _ _ h => h) fun _ => ?_
        refine Ends.bind (q := fun _ s => s.heap = heap) (ends_modify fun _ h => h) fun _ => ?_
        exact ih _ _
      · exact ends_pure fun _ h => ⟨h.1, fun _ h => nomatch h⟩

omit [Unicode] [Digest] in
/-- Cutting a page's chunks changes no producer. -/
theorem producer_of_mem_splitAllForImageCap {pageLines : List LineManifest}
    {items split : List (ChunkRequest × EditProducer)}
    (h : splitAllForImageCap pageLines items = .ok split)
    {part : ChunkRequest × EditProducer}
    (hpart : part ∈ split) : ∃ item ∈ items, item.2 = part.2 := by
  obtain ⟨parts, hparts, h⟩ := Fallible.bind_eq_ok.mp h
  cases h
  obtain ⟨pieces, hpieces, hin⟩ := List.mem_flatten.mp hpart
  obtain ⟨item, hitem, hsplit⟩ :=
    Pointwise.exists_of_mem_right (Fallible.mapM_eq_ok.mp hparts) hpieces
  refine ⟨item, hitem, ?_⟩
  unfold splitForImageCap at hsplit
  dsimp only at hsplit
  split at hsplit
  · cases hsplit
    rw [List.mem_singleton.mp hin]
  · obtain ⟨batches, -, hsplit⟩ := Fallible.bind_eq_ok.mp hsplit
    cases hsplit
    obtain ⟨batch, -, rfl⟩ := List.mem_map.mp hin
    rfl

end Asked

/-! ## Turns -/

/-- What every answer on a page keeps, and everything in between. -/
structure Rounds [Unicode] [Digest] (pipeline : CorrectionPipeline) (page : PageManifest)
    (workspace : PageWorkspace) (Good : RunState → Prop) : Prop where
  addressed : ∀ s, Good s → Addressed s.heap
  between : ∀ s s', Good s → Between s s' → Good s'
  answered : ∀ s chunk response, Good s → chunk ∈ s.started → chunk.Tidy page.pageId →
    AnswerOf pipeline workspace chunk s.heap response →
      Good (answered pipeline workspace chunk (textById response) s)

/-- The line was answered so often at most. -/
def Counted (Good : RunState → Prop) (ref : LineRef) (n : Nat) (s : RunState) : Prop :=
  Good s ∧ s.answersFor ref ≤ n

/-- One more, for a chunk that owns the line. -/
def ChunkRequest.turn (chunk : ChunkRequest) (ref : LineRef) : Nat :=
  if chunk.owns ref = true then 1 else 0

section Turns

variable [Unicode] [Digest] {pipeline : CorrectionPipeline} {page : PageManifest}
    {workspace : PageWorkspace}
  {Good : RunState → Prop} {ref : LineRef} {n : Nat}

omit [Unicode] [Digest] in
theorem Counted.mono {m : Nat} {s : RunState} (hs : Counted Good ref n s) (h : n ≤ m) :
    Counted Good ref m s := ⟨hs.1, hs.2.trans h⟩

/-- A runner counts the answer of its chunk once. -/
def RunnerCounts (page : PageManifest) (Good : RunState → Prop) (ref : LineRef)
    (run : ChunkRunner) : Prop :=
  ∀ chunk budget n, chunk.Tidy page.pageId → Ends (Counted Good ref n) (run chunk budget)
    (fun _ => Counted Good ref (n + chunk.turn ref)) fun _ => Counted Good ref (n + chunk.turn ref)

omit [Unicode] [Digest] in
theorem sum_turns (chunks : List ChunkRequest) (ref : LineRef) :
    (chunks.map (·.turn ref)).sum = chunks.countP (·.owns ref) := by
  induction chunks with
  | nil => rfl
  | cons chunk chunks ih =>
    rw [List.map_cons, List.sum_cons, ih, List.countP_cons, Nat.add_comm]
    rfl

omit [Unicode] [Digest] in
/-- The turns of a fold add up. -/
theorem ends_turns {β γ : Type} {f : β → γ → RunM β} (turn : γ → Nat) {l : List γ}
    (hf : ∀ c ∈ l, ∀ b n, Ends (Counted Good ref n) (f b c)
      (fun _ => Counted Good ref (n + turn c)) fun _ => Counted Good ref (n + turn c)) :
    ∀ b n, Ends (Counted Good ref n) (l.foldlM f b)
      (fun _ => Counted Good ref (n + (l.map turn).sum))
      fun _ => Counted Good ref (n + (l.map turn).sum) := by
  induction l with
  | nil => exact fun b n => ends_pure fun _ hs => hs
  | cons c l ih =>
    intro b n
    rw [List.foldlM_cons, List.map_cons, List.sum_cons, ← Nat.add_assoc]
    refine Ends.bind ((hf c (by simp) b n).mono (fun _ h => h) (fun _ _ h => h) fun _ _ hs => ?_)
      fun b' => ih (fun c hc => hf c (by simp [hc])) b' _
    exact hs.mono (Nat.le_add_right _ _)

variable (h : Rounds pipeline page workspace Good)

include h

theorem Rounds.counted_between {s s' : RunState} (hs : Counted Good ref n s) (hb : Between s s') :
    Counted Good ref n s' := ⟨h.between s s' hs.1 hb, hb.answersFor ref ▸ hs.2⟩

theorem Rounds.ends_between {α : Type} {m : RunM α} (hm : Steps Between m) :
    Ends (Counted Good ref n) m (fun _ => Counted Good ref n) fun _ => Counted Good ref n :=
  hm.ends fun _ _ => h.counted_between

theorem Rounds.ends_emit {event : EngineEvent} (hevent : event.isAnswer = false) :
    Ends (Counted Good ref n) (emit pipeline event) (fun _ => Counted Good ref n)
      fun _ => Counted Good ref n := h.ends_between (between_emit hevent)

/-- **An answer is one turn.** -/
theorem Rounds.finish {chunk : ChunkRequest} {response : List LineProposal} {s : RunState}
    (hs : Counted Good ref n s) (hstarted : chunk ∈ s.started) (htidy : chunk.Tidy page.pageId)
    (hvalid : AnswerOf pipeline workspace chunk s.heap response) :
    Counted Good ref (n + chunk.turn ref)
      ((finishSuccessfulChunk pipeline workspace chunk response).exec s).2 := by
  obtain ⟨s', hb, hheap, hstopped | hanswered⟩ :=
    @finish_cases _ pipeline workspace chunk response s
  · rw [hstopped]
    exact (h.counted_between hs hb).mono (Nat.le_add_right _ _)
  · rw [hanswered]
    have hs' := h.counted_between hs hb
    refine ⟨h.answered s' chunk response hs'.1 (hb.started hstarted) htidy (hheap ▸ hvalid), ?_⟩
    rw [answersFor_answered]
    exact Nat.add_le_add_right hs'.2 _

theorem Rounds.ends_fallBackChunk (chunk : ChunkRequest) (failure : Option AttemptFailure) :
    Ends (Counted Good ref n) (fallBackChunk pipeline workspace chunk failure)
      (fun _ => Counted Good ref n) fun _ => Counted Good ref n :=
  h.ends_between (between_fallBackChunk chunk failure)

/-- A descent into a sub-chunk costs at most the sub-chunk's turn. -/
theorem Rounds.ends_descendInto {run : ChunkRunner} (hrun : RunnerCounts page Good ref run)
    (failure : Option AttemptFailure) (state : Nat × ChunkBudget) {sub : ChunkRequest}
    (hsub : sub.Tidy page.pageId) :
    Ends (Counted Good ref n) (descendInto pipeline workspace run failure state sub)
      (fun _ => Counted Good ref (n + sub.turn ref))
      fun _ => Counted Good ref (n + sub.turn ref) := by
  have hmono : ∀ s, Counted Good ref n s → Counted Good ref (n + sub.turn ref) s :=
    fun _ hs => hs.mono (Nat.le_add_right _ _)
  refine Ends.bind (q := fun _ => Counted Good ref n)
    ((h.ends_between between_checkAbort).mono (fun _ h => h) (fun _ _ h => h) fun _ => hmono)
    fun _ => ?_
  show Ends _ (if _ then _ else _) _ _
  split
  · refine Ends.bind ((h.ends_fallBackChunk sub failure).mono (fun _ h => h) (fun _ => hmono)
      fun _ => hmono) fun _ => ?_
    exact ends_pure fun _ h => h
  · refine Ends.bind (hrun sub _ n hsub) fun _ => ?_
    exact ends_pure fun _ h => h

/-- A descent costs at most the chunk's own turn. -/
theorem Rounds.ends_descendGranularity (hhoused : workspace.refs = page.refs)
    (hlists : page.Listed) {run : ChunkRunner} (hrun : RunnerCounts page Good ref run)
    {chunk : ChunkRequest} (htidy : chunk.Tidy page.pageId) (finer : ChunkGranularity)
    (failure : Option AttemptFailure) (budget : ChunkBudget) : Ends (Counted Good ref n)
      (descendGranularity pipeline page workspace run chunk finer failure budget)
      (fun _ => Counted Good ref (n + chunk.turn ref))
      fun _ => Counted Good ref (n + chunk.turn ref) := by
  have hmono : ∀ s, Counted Good ref n s → Counted Good ref (n + chunk.turn ref) s :=
    fun _ hs => hs.mono (Nat.le_add_right _ _)
  refine Ends.bind (q := fun _ => Counted Good ref n)
    ((h.ends_emit rfl).mono (fun _ h => h) (fun _ _ h => h) fun _ => hmono) fun _ => ?_
  refine Ends.bind (q := fun plan s => Counted Good ref n s ∧
    (∀ sub ∈ plan.chunks, sub.Tidy page.pageId) ∧
      plan.chunks.countP (·.owns ref) ≤ chunk.turn ref) ?_ fun plan => ?_
  · intro s hs
    have hdescend := countP_owns_descend hhoused hlists htidy (h.addressed s hs.1)
      pipeline.config finer
    exact ⟨h.counted_between hs (between_replanned rfl _ _), hdescend.1, hdescend.2 ref⟩
  · refine ends_of_fact fun hplan => ?_
    obtain ⟨hsubs, hcount⟩ := hplan
    have hturns := ends_turns (·.turn ref)
      (fun sub hsub state n => h.ends_descendInto (n := n) hrun failure state (hsubs sub hsub))
      (0, budget) n
    rw [sum_turns] at hturns
    exact hturns.mono (fun _ h => h) (fun _ _ hs => hs.mono (Nat.add_le_add_left hcount n))
      fun _ _ hs => hs.mono (Nat.add_le_add_left hcount n)

/-- A failed chunk costs at most its turn. -/
theorem Rounds.ends_handleChunkFailure (hhoused : workspace.refs = page.refs)
    (hlists : page.Listed) {run : ChunkRunner} (hrun : RunnerCounts page Good ref run)
    {chunk : ChunkRequest} (htidy : chunk.Tidy page.pageId) (outcome : AttemptOutcome)
    (budget : ChunkBudget) : Ends (Counted Good ref n)
      (handleChunkFailure pipeline page workspace run chunk outcome budget)
      (fun _ => Counted Good ref (n + chunk.turn ref))
      fun _ => Counted Good ref (n + chunk.turn ref) := by
  have hmono : ∀ s, Counted Good ref n s → Counted Good ref (n + chunk.turn ref) s :=
    fun _ hs => hs.mono (Nat.le_add_right _ _)
  have hfell : Ends (Counted Good ref n) (do
      fallBackChunk pipeline workspace chunk outcome.lastFailure
      return (0, budget) : RunM (Nat × ChunkBudget))
      (fun _ => Counted Good ref (n + chunk.turn ref))
      fun _ => Counted Good ref (n + chunk.turn ref) :=
    Ends.bind ((h.ends_fallBackChunk _ _).mono (fun _ h => h) (fun _ => hmono) fun _ => hmono)
      fun _ => ends_pure fun _ h => h
  unfold handleChunkFailure
  split
  · split
    · exact h.ends_descendGranularity hhoused hlists hrun htidy _ _ _
    · exact hfell
  · exact hfell

/-- **A chunk and its whole descent are one turn.** -/
theorem Rounds.ends_runChunkWith (hhoused : workspace.refs = page.refs)
    (hlists : page.Listed) {run : ChunkRunner} (hrun : RunnerCounts page Good ref run)
    {producer : EditProducer} (hproducer : producer ∈ pipeline.producers) :
    RunnerCounts page Good ref (runChunkWith pipeline producer page workspace run) := by
  intro chunk budget n htidy
  -- a phase that takes no turn leaves the count where it was, hence below the chunk's turn
  have hmono : ∀ s, Counted Good ref n s → Counted Good ref (n + chunk.turn ref) s :=
    fun _ hs => hs.mono (Nat.le_add_right _ _)
  show Ends _ (if _ then _ else _) _ _
  split
  · exact ends_pure hmono
  · refine Ends.bind (q := fun _ s => Counted Good ref n s ∧ chunk ∈ s.started)
      (fun s hs => ?_) fun _ => ?_
    · let event := EngineEvent.chunkStarted chunk (chunkLines workspace chunk).length
      have hcounted : Counted Good ref n ((emit pipeline event).exec s).2 :=
        (h.ends_emit (by rfl)).state hs
      have hstate := @state_emit pipeline event s
      rcases hexec : (emit pipeline event).exec s with ⟨res, s'⟩
      rw [hexec] at hstate hcounted
      cases res with
      | error fault => exact hmono _ hcounted
      | ok _ =>
        have hevents : s'.events = s.events ++ [event] := congrArg RunState.events hstate
        refine ⟨hcounted, ?_⟩
        rw [RunState.started, hevents]
        exact List.mem_filterMap.mpr ⟨event, by simp, rfl⟩
    -- the attempts leave the heap alone, and an answer they return names the chunk's targets
    · intro s hs
      let attempts := attemptChunk pipeline producer workspace chunk
        (budget.attemptsAllowed pipeline.retryPolicy.maxAttempts)
      have hsteps : Steps Between attempts := between_attemptChunk producer chunk _
      have hboth : Ends (fun s' => (Counted Good ref n s' ∧ chunk ∈ s'.started) ∧ s'.heap = s.heap)
          attempts
          (fun outcome s' => (Counted Good ref n s' ∧ chunk ∈ s'.started) ∧ s'.heap = s.heap ∧
            ∀ response, outcome.response = some response →
              AnswerOf pipeline workspace chunk s.heap response)
          fun _ => Counted Good ref (n + chunk.turn ref) :=
        ((hsteps.ends (P := fun s => Counted Good ref n s ∧ chunk ∈ s.started)
          fun _ _ hs hb => ⟨h.counted_between hs.1 hb, hb.started hs.2⟩).and
          (yields_attemptChunkFrom_answered hproducer chunk s.heap _ _ _)).mono
          (fun _ h => h) (fun _ _ h => h) fun _ s' hs' => hmono s' hs'.1.1
      refine (hboth.bind fun outcome => ?_) s ⟨hs, rfl⟩
      intro s' hs'
      cases hresponse : outcome.response with
      | none => exact h.ends_handleChunkFailure hhoused hlists hrun htidy _ _ s' hs'.1.1
      | some response =>
        have hvalid := hs'.2.2 response hresponse
        have hfinish := h.finish hs'.1.1 hs'.1.2 htidy (hs'.2.1 ▸ hvalid)
        -- the finish is judged from the state the attempts ended in, so the count is read there
        have hends : Ends (· = s') (finishSuccessfulChunk pipeline workspace chunk response)
            (fun _ => Counted Good ref (n + chunk.turn ref))
            fun _ => Counted Good ref (n + chunk.turn ref) := by
          intro t ht
          rw [show t = s' from ht]
          rcases hexec : (finishSuccessfulChunk pipeline workspace chunk response).exec s' with
            ⟨res, s''⟩
          rw [hexec] at hfinish
          cases res <;> exact hfinish
        refine Ends.bind hends (fun _ => ?_) s' rfl
        exact ends_pure fun _ h => h

theorem Rounds.ends_runChunk (hhoused : workspace.refs = page.refs)
    (hlists : page.Listed) {producer : EditProducer} (hproducer : producer ∈ pipeline.producers)
    (depth : Nat) :
    RunnerCounts page Good ref (runChunk pipeline producer page workspace depth) := by
  induction depth with
  | zero => exact fun _ _ _ _ => ends_throw fun _ hs => hs.mono (Nat.le_add_right _ _)
  | succ depth ih => exact h.ends_runChunkWith hhoused hlists ih hproducer

/-- What is absorbed takes no turn. -/
theorem Rounds.ends_absorb (chunk : ChunkRequest) (fault : Fault) :
    Ends (Counted Good ref n) (absorb pipeline workspace chunk fault) (fun _ => Counted Good ref n)
      fun _ => Counted Good ref n := by
  cases fault with
  | aborted => exact ends_throw fun _ h => h
  | permanent => exact ends_throw fun _ h => h
  | crash message => exact Ends.bind (h.ends_emit (by rfl)) fun _ => ends_throw fun _ h => h
  | domain message =>
    refine (h.ends_emit rfl).bind fun _ => ?_
    refine Ends.bind (q := fun _ => Counted Good ref n) (ends_modify fun s hs => ?_) fun _ =>
      ends_pure fun _ h => h
    exact h.counted_between hs (between_absorbChunkError chunk message s)

/-- An item of the page costs at most its turn. -/
theorem Rounds.ends_runItem (hhoused : workspace.refs = page.refs)
    (hlists : page.Listed) (reconciled : Nat) {item : ChunkRequest × EditProducer}
    (htidy : item.1.Tidy page.pageId) (hproducer : item.2 ∈ pipeline.producers) :
    Ends (Counted Good ref n) (runItem pipeline page workspace reconciled item)
      (fun _ => Counted Good ref (n + item.1.turn ref))
      fun _ => Counted Good ref (n + item.1.turn ref) := by
  refine Ends.bind (q := fun _ => Counted Good ref n)
    ((h.ends_between between_checkAbort).mono (fun _ h => h) (fun _ _ h => h)
      fun _ _ hs => hs.mono (Nat.le_add_right _ _)) fun _ => ?_
  refine Ends.bind (q := fun _ => Counted Good ref (n + item.1.turn ref)) ?_
    fun _ => ends_pure fun _ h => h
  refine Ends.tryCatch (r := fun _ => Counted Good ref (n + item.1.turn ref)) ?_
    fun fault => h.ends_absorb _ _
  refine Ends.bind (h.ends_runChunk hhoused hlists hproducer _ item.1 _ n htidy) fun _ => ?_
  exact ends_pure fun _ h => h

/-! ### A page -/

/-- Routing keeps the chunks tidy and the line owned at most as often. -/
theorem Rounds.ends_routeAndFilterChunks {chunks : List ChunkRequest}
    (hchunks : ∀ chunk ∈ chunks, chunk.Tidy page.pageId) :
    Ends (Counted Good ref n) (routeAndFilterChunks pipeline workspace chunks)
      (fun items s => Counted Good ref n s ∧
        (∀ item ∈ items, item.1.Tidy page.pageId ∧ item.2 ∈ pipeline.producers) ∧
          items.countP (fun item => item.1.owns ref) ≤ chunks.countP (·.owns ref))
      fun _ => Counted Good ref n := by
  unfold routeAndFilterChunks
  cases routingScorer pipeline with
  | none =>
    refine ends_pure fun s hs => ⟨hs, fun item hitem => ?_, ?_⟩
    · obtain ⟨chunk, hchunk, rfl⟩ := List.mem_map.mp hitem
      exact ⟨hchunks chunk hchunk, List.mem_cons_self⟩
    · rw [List.countP_map]
      exact Nat.le_refl _
  | some scorer =>
    apply ends_get_bind
    intro s
    refine Ends.bind (q := fun _ => Counted Good ref n) (ends_modify ?_) fun _ => ends_pure ?_
    · rintro s' ⟨rfl, hs⟩
      have hskipped := @between_confirmSkippedLines workspace
        (scorePageIntoTiers pipeline scorer (linesOf s'.heap workspace.refs)).skip s'
      exact h.counted_between hs (hskipped.trans (between_bookkeeping ⟨⟨rfl, rfl, rfl, rfl⟩, rfl⟩))
    · refine fun s' hs => ⟨hs, fun item hitem => ?_, ?_⟩
      · obtain ⟨chunk, hchunk, hin⟩ := List.mem_flatMap.mp hitem
        exact ⟨(part_of_mem_workItems hin).tidy (hchunks chunk hchunk),
          mem_producers_of_workItems hin⟩
      · rw [List.countP_flatMap, ← sum_turns]
        exact List.sum_le_sum (fun chunk _ => countP_owns_workItems chunk ref)

/-- The lines of a page, as the plan of the page reads them. -/
theorem Rounds.ends_planPageChunks (hhoused : workspace.refs = page.refs) (hlists : page.Listed)
    (hids : (page.refs.map LineRef.lineId).Nodup) :
    Ends (Counted Good ref n) (planPageChunks pipeline page workspace)
      (fun items s => Counted Good ref n s ∧
        (∀ item ∈ items, item.1.Tidy page.pageId ∧ item.2 ∈ pipeline.producers) ∧
          items.countP (fun item => item.1.owns ref) ≤ if page.pageId = ref.pageId then 1 else 0)
      fun _ => Counted Good ref n := by
  -- accepting and falling back rewrite texts only, so the heap lists the page's ids throughout
  have hlineIds : ∀ {s : RunState}, Good s →
      (linesOf s.heap page.refs).map LineManifest.lineId = page.refs.map LineRef.lineId := by
    intro s hs
    rw [linesOf, List.map_map]
    exact List.map_congr_left fun ref _ => congrArg LineRef.lineId (h.addressed s hs ref)
  refine Ends.bind (q := fun plan s => Counted Good ref n s ∧
    (∀ chunk ∈ plan.chunks, chunk.Tidy page.pageId) ∧
      plan.chunks.countP (·.owns ref) ≤ if page.pageId = ref.pageId then 1 else 0) ?_ fun plan => ?_
  · intro s hs
    have hnodup : ((currentPage s.heap page).lines.map LineManifest.lineId).Nodup := by
      show ((linesOf s.heap page.refs).map LineManifest.lineId).Nodup
      rw [hlineIds hs.1]
      exact hids
    have hcurrent : (currentPage s.heap page).Listed := by
      refine ⟨fun lm hlm => ?_, hlists.block_ids⟩
      have hid : lm.lineId ∈ page.refs.map LineRef.lineId := by
        rw [← hlineIds hs.1]
        exact List.mem_map_of_mem hlm
      obtain ⟨_, href, hid⟩ := List.mem_map.mp hid
      obtain ⟨old, hold, rfl⟩ := List.mem_map.mp href
      rw [← hid]
      exact hlists.once old hold
    have hplanned : Between s (replanned pipeline.config (currentPage s.heap page) none s) :=
      between_replanned rfl _ _
    refine ⟨h.counted_between hs hplanned, tidy_planPage hnodup hcurrent none, ?_⟩
    -- the plan owns the line at most once, and only on the line's own page
    apply (countP_owns_planPage hnodup hcurrent none ref).trans
    split
    · next hon => rw [if_pos (show page.pageId = ref.pageId from hon.1)]
    · exact Nat.zero_le _
  · refine ends_of_fact fun hplan => ?_
    obtain ⟨htidy, hcount⟩ := hplan
    refine (h.ends_routeAndFilterChunks htidy).bind fun routed => ?_
    apply ends_get_bind
    intro s
    cases hsplit : splitAllForImageCap (linesOf s.heap workspace.refs) routed with
    | error fault =>
      apply ends_throw
      rintro s' ⟨rfl, hs, -⟩
      exact hs
    | ok items =>
      intro s' hs'
      obtain ⟨rfl, hs, hrouted, hle⟩ := hs'
      have hnodup : ((linesOf s'.heap workspace.refs).map LineManifest.lineId).Nodup := by
        rw [hhoused, hlineIds hs.1]
        exact hids
      -- splitting for the image cap deals the owned lines out again without repeating one
      obtain ⟨hitems, hshare⟩ :=
        parts_splitAllForImageCap hnodup (fun item hitem => (hrouted item hitem).1) hsplit ref
      have hgiven : ∀ item ∈ items, item.2 ∈ pipeline.producers := by
        intro item hitem
        obtain ⟨whole, hwhole, heq⟩ := producer_of_mem_splitAllForImageCap hsplit hitem
        exact heq ▸ (hrouted whole hwhole).2
      refine Ends.bind (q := fun _ => Counted Good ref n) (h.ends_emit (by rfl)) (fun _ => ?_) s' hs
      exact ends_pure fun _ hs =>
        ⟨hs, fun item hitem => ⟨hitems item hitem, hgiven item hitem⟩,
          hshare.trans (hle.trans hcount)⟩

omit h in
/-- **A page is one turn of its lines.** -/
theorem ends_processPage_counted {document : DocumentManifest} {start : RunState}
    (h : Rounds pipeline page (workspaceOf document page start.heap) Good) (hlists : page.Listed)
    (hids : (page.refs.map LineRef.lineId).Nodup) (hstart : Counted Good ref n start) :
    Ends (· = start) (processPage pipeline document page)
      (fun _ => Counted Good ref (n + if page.pageId = ref.pageId then 1 else 0))
      fun _ => Counted Good ref (n + if page.pageId = ref.pageId then 1 else 0) := by
  let turn := if page.pageId = ref.pageId then 1 else 0
  have hmono : ∀ s, Counted Good ref n s → Counted Good ref (n + turn) s :=
    fun _ hs => hs.mono (Nat.le_add_right _ _)
  apply ends_get_bind
  rintro s s' ⟨rfl, rfl⟩
  refine Ends.bind (q := fun _ => Counted Good ref n)
    ((h.ends_emit (by rfl)).mono (fun _ h => h) (fun _ _ h => h) fun _ => hmono)
    (fun _ => ?_) s' hstart
  refine Ends.bind ((h.ends_planPageChunks rfl hlists hids).mono (fun _ h => h) (fun _ _ h => h)
    fun _ => hmono) fun items => ?_
  refine ends_of_fact fun hshared => ?_
  obtain ⟨hitems, hcount⟩ := hshared
  refine Ends.bind (q := fun _ => Counted Good ref (n + turn)) ?_ fun reconciled => ?_
  · have hturns := ends_turns (fun item : ChunkRequest × EditProducer => item.1.turn ref)
      (fun item hitem reconciled n =>
        h.ends_runItem (n := n) rfl hlists reconciled (hitems item hitem).1
          (hitems item hitem).2) 0 n
    have hsum : (items.map fun item => item.1.turn ref).sum ≤ turn := by
      have heq := sum_turns (items.map Prod.fst) ref
      rw [List.map_map, List.countP_map] at heq
      exact heq.le.trans hcount
    exact hturns.mono (fun _ h => h) (fun _ _ hs => hs.mono (Nat.add_le_add_left hsum n))
      fun _ _ hs => hs.mono (Nat.add_le_add_left hsum n)
  · apply ends_get_bind
    intro s
    refine Ends.bind (q := fun _ => Counted Good ref (n + turn)) ?_ fun _ => ends_pure fun _ h => h
    exact (h.ends_emit (by rfl)).mono (fun _ hs => hs.1 ▸ hs.2) (fun _ _ h => h) fun _ _ h => h

end Turns

end Saknussemm
