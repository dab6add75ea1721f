import Saknussemm.Run.Stream

/-! # A chunk is told as the protocol allows.

The runner of a chunk is followed event by event, down through the chunks it
is cut down to: siblings are of one granularity, and strictly finer than the
chunk they are cut from, so each finds its parent on top of the descent. -/

namespace Saknussemm

open Effects

/-! ## Being on a page -/

/-- The stream of the run has led there; every line is where its ref says. -/
structure RunState.At (pages : List Str) (X : StreamState → Prop) (s : RunState) : Prop where
  lines : Addressed s.heap
  reads : (streamMonitor pages).Reads RunState.events X s

/-- On a page of a kind. -/
def OnPage (X : OpenPage → Prop) : StreamState → Prop
  | .running page => X page
  | _ => False

/-- Nothing is told, and every line stays where it is. -/
structure Untold (s s' : RunState) : Prop where
  events : s'.events = s.events
  lines : Addressed s.heap → Addressed s'.heap

theorem Between.untold {s s' : RunState} (h : Between s s') (hevents : s'.events = s.events) :
    Untold s s' := ⟨hevents, fun hs => (h.lines hs).source.addressed hs⟩

section Rules

variable {pages : List Str} {pipeline : CorrectionPipeline}

theorem RunState.At.mono {X Y : StreamState → Prop} {s : RunState} (h : s.At pages X)
    (hXY : ∀ x, X x → Y x) : s.At pages Y := ⟨h.lines, h.reads.mono hXY⟩

theorem RunState.At.onPage {X Y : OpenPage → Prop} {s : RunState} (h : s.At pages (OnPage X))
    (hXY : ∀ page, X page → Y page) : s.At pages (OnPage Y) := by
  refine h.mono fun x hx => ?_
  cases x with
  | running page => exact hXY page hx
  | _ => exact hx

theorem ends_silent {α : Type} {m : RunM α} (hm : Steps Untold m) (X : StreamState → Prop) :
    Ends (RunState.At pages X) m (fun _ => RunState.At pages X) fun _ => RunState.At pages X :=
  hm.ends fun _ _ hs h => ⟨h.lines hs.lines, hs.reads.of_log_eq h.events⟩

/-- An event that comes in turn, whatever the observer does about it. -/
theorem ends_emit_at {X Y : StreamState → Prop} {event : EngineEvent}
    (h : ∀ x, X x → ∃ y, (streamMonitor pages).step x event = some y ∧ Y y) :
    Ends (RunState.At pages X) (emit pipeline event) (fun _ => RunState.At pages Y)
      fun _ => RunState.At pages Y := by
  intro s hs
  have hstate := @state_emit pipeline event s
  have hemit : ((emit pipeline event).exec s).2.At pages Y :=
    ⟨hstate ▸ hs.lines, hs.reads.log_append (congrArg RunState.events hstate) h⟩
  rcases hexec : (emit pipeline event).exec s with ⟨res, s'⟩
  rw [hexec] at hemit
  cases res <;> exact hemit

theorem step_running {page page' : OpenPage} {event : EngineEvent}
    (h : page.step event = some page') :
    (streamMonitor pages).step (.running page) event = some (.running page') := by
  cases event with
  | pageCompleted => cases h
  | _ => exact congrArg (Option.map StreamState.running) h

theorem ends_emit_page {X Y : OpenPage → Prop} {event : EngineEvent}
    (h : ∀ page, X page → ∃ page', page.step event = some page' ∧ Y page') :
    Ends (RunState.At pages (OnPage X)) (emit pipeline event)
      (fun _ => RunState.At pages (OnPage Y)) fun _ => RunState.At pages (OnPage Y) := by
  refine ends_emit_at fun x hx => ?_
  cases x with
  | running page =>
    obtain ⟨page', hstep, hY⟩ := h page hx
    exact ⟨.running page', step_running hstep, hY⟩
  | _ => exact hx.elim

theorem untold_checkAbort : Steps Untold (checkAbort pipeline) :=
  steps_checkAbort_of fun _ _ => ⟨rfl, id⟩

theorem untold_modify {f : RunState → RunState} (h : ∀ s, Untold s (f s)) :
    Steps Untold (modify f : RunM PUnit) := steps_modify fun s => .single (h s)

/-- The state read first is any state. -/
theorem ends_get_at {α : Type} {f : RunState → RunM α} {p : RunState → Prop}
    {q : α → RunState → Prop}
    {r : Fault → RunState → Prop} (h : ∀ s, Ends p (f s) q r) : Ends p (get >>= f) q r :=
  ends_get_bind fun s => (h s).mono (fun _ hs => hs.1 ▸ hs.2) (fun _ _ h => h) fun _ _ h => h

/-- What is done between two events may be passed over. -/
theorem ends_silent_bind {α β : Type} {m : RunM α} {f : α → RunM β} {X : StreamState → Prop}
    {q : β → RunState → Prop} {r : Fault → RunState → Prop} (hm : Steps Untold m)
    (hf : ∀ a, Ends (RunState.At pages X) (f a) q r) (hr : ∀ fault s, s.At pages X → r fault s) :
    Ends (RunState.At pages X) (m >>= f) q r :=
  Ends.bind ((ends_silent hm X).mono (fun _ h => h) (fun _ _ h => h) hr) hf

/-- An event that comes in turn, and the rest. -/
theorem ends_emit_bind {β : Type} {event : EngineEvent} {f : Unit → RunM β} {X Y : OpenPage → Prop}
    {q : β → RunState → Prop} {r : Fault → RunState → Prop}
    (h : ∀ page, X page → ∃ page', page.step event = some page' ∧ Y page')
    (hf : Ends (RunState.At pages (OnPage Y)) (f ()) q r)
    (hr : ∀ fault s, s.At pages (OnPage Y) → r fault s) :
    Ends (RunState.At pages (OnPage X)) (emit pipeline event >>= f) q r :=
  Ends.bind ((ends_emit_page h).mono (fun _ h => h) (fun _ _ h => h) hr) fun _ => hf

end Rules

/-! ## One chunk -/

/-- All but the top-level chunk's own doings. -/
def OpenPage.Within (page page' : OpenPage) : Prop := page'.cleared = page.cleared

/-- The chunk is being asked for. -/
def OpenPage.Attempting (page : OpenPage) (chunk : ChunkRequest) (lineCount : Nat)
    (page' : OpenPage) : Prop :=
  ∃ attempt, page' = { page with phase := .attempting chunk lineCount attempt }

/-- The chunk may be reported as answered. -/
def OpenPage.Answering (page : OpenPage) (chunk : ChunkRequest) (lineCount : Nat)
    (page' : OpenPage) : Prop :=
  page.Attempting chunk lineCount page' ∨ page' = { page with phase := .claiming chunk lineCount }

/-- The chunk is done with: chunks no coarser were cut down for it, and so
many joins came of it. -/
def OpenPage.Finished (page : OpenPage) (depth reconciled : Nat) (page' : OpenPage) : Prop :=
  ∃ cut : List ChunkRequest, (∀ chunk ∈ cut, chunk.granularity.depth ≤ depth) ∧
    page' = { page with
      ancestors := cut ++ page.ancestors
      phase := .closed
      subtotal := page.subtotal + reconciled }

section Chunk

variable [Unicode] [Digest] {pages : List Str} {pipeline : CorrectionPipeline}
  {workspace : PageWorkspace} {page : OpenPage} {chunk : ChunkRequest} {lineCount : Nat}

omit [Unicode] [Digest] in
theorem OpenPage.Answering.within {page' : OpenPage} (h : page.Answering chunk lineCount page') :
    page.Within page' := by
  obtain ⟨attempt, rfl⟩ | rfl := h <;> rfl

/-- The attempts are numbered as they come. -/
theorem ends_attemptChunkFrom_at (producer : EditProducer) (left : Nat) :
    ∀ (attempt : Nat) (violation : Bool), Ends
      (RunState.At pages (OnPage (· = { page with phase := .attempting chunk lineCount attempt })))
      (attemptChunkFrom pipeline producer workspace chunk left attempt violation)
      (fun _ => RunState.At pages (OnPage (page.Attempting chunk lineCount)))
      fun _ => RunState.At pages (OnPage (page.Attempting chunk lineCount)) := by
  have hnow : ∀ attempt s, RunState.At pages
      (OnPage (· = { page with phase := .attempting chunk lineCount attempt })) s →
      RunState.At pages (OnPage (page.Attempting chunk lineCount)) s :=
    fun attempt s hs => hs.onPage fun _ h => ⟨attempt, h⟩
  have honce : ∀ attempt temperature,
      Steps Untold (attemptOnce pipeline producer workspace chunk attempt
      temperature) := fun attempt temperature => steps_attemptOnce
    (fun _ _ h => ⟨h.events, fun hs => h.heap ▸ hs⟩)
    (fun _ _ => ⟨rfl, id⟩) producer chunk attempt temperature
  -- induction on the attempts left; only a retry tells the monitor anything
  induction left with
  | zero => exact fun attempt _ => ends_pure (hnow attempt)
  | succ left ih =>
    intro attempt violation
    unfold attemptChunkFrom
    refine ends_silent_bind (honce attempt _) (fun answer => ?_) fun _ => hnow attempt
    cases answer with
    | ok response => exact ends_pure (hnow attempt)
    | error failure =>
      dsimp only
      split
      · refine ends_emit_bind (Y := (· = { page with
          phase := .attempting chunk lineCount (attempt + 1) })) ?_ ?_ fun _ => hnow (attempt + 1)
        · rintro p rfl
          exact ⟨_, if_pos ⟨rfl, rfl⟩, rfl⟩
        · refine ends_silent_bind ?_ (fun _ => ih (attempt + 1) _) fun _ => hnow (attempt + 1)
          exact untold_modify fun _ => ⟨rfl, id⟩
      · exact ends_pure (hnow attempt)

omit [Unicode] [Digest] in
/-- Claiming the joins stays inside the answer. -/
theorem ends_claimJoins_at (lines : List LineRef) :
    Ends (RunState.At pages (OnPage (page.Answering chunk lineCount)))
      (claimJoins pipeline workspace lines)
      (fun _ => RunState.At pages (OnPage (page.Answering chunk lineCount)))
      fun _ => RunState.At pages (OnPage (page.Answering chunk lineCount)) := by
  -- only an unresolved partner is told, and the monitor takes that at any point of an answer
  have hresolve : ∀ lm ref direction,
      Ends (RunState.At pages (OnPage (page.Answering chunk lineCount)))
      (resolvePartner pipeline workspace lm ref direction)
      (fun _ => RunState.At pages (OnPage (page.Answering chunk lineCount)))
      fun _ => RunState.At pages (OnPage (page.Answering chunk lineCount)) := by
    intro lm ref direction
    unfold resolvePartner
    split
    · exact ends_pure fun _ h => h
    · refine ends_emit_bind (fun p hp => ?_) (ends_pure fun _ h => h) fun _ _ h => h
      obtain ⟨attempt, rfl⟩ | rfl := hp
      · exact ⟨_, rfl, .inr rfl⟩
      · exact ⟨_, rfl, .inr rfl⟩
  apply ends_get_bind
  intro s
  have hstep : ∀ claims line, Ends (RunState.At pages (OnPage (page.Answering chunk lineCount)))
      (do
        let claims ← claimOutgoing pipeline workspace s.heap line claims
        claimIncoming pipeline workspace s.heap line claims)
      (fun _ => RunState.At pages (OnPage (page.Answering chunk lineCount)))
      fun _ => RunState.At pages (OnPage (page.Answering chunk lineCount)) := by
    intro claims line
    refine Ends.bind (q := fun _ => RunState.At pages (OnPage (page.Answering chunk lineCount))) ?_
      fun claims => ?_
    · unfold claimOutgoing
      dsimp only
      split
      · exact ends_pure fun _ h => h
      · refine (hresolve _ _ _).bind fun head => ?_
        cases head <;> exact ends_pure fun _ h => h
    · unfold claimIncoming
      dsimp only
      split
      · exact ends_pure fun _ h => h
      · refine (hresolve _ _ _).bind fun tail => ?_
        cases tail <;> exact ends_pure fun _ h => h
  have hfold := ends_foldlM (I :=
    fun _ _ => RunState.At pages (OnPage (page.Answering chunk lineCount)))
    (fun _ line claims => hstep claims line) lines []
  exact (hfold _).mono (fun _ h => h.1 ▸ h.2) (fun _ _ h => h) (fun _ _ h => h)

omit [Digest] in
/-- An answered chunk is reported with the joins it reconciled. -/
theorem ends_finish_at (response : List LineProposal) :
    Ends (RunState.At pages (OnPage (page.Answering chunk (chunkLines workspace chunk).length)))
      (finishSuccessfulChunk pipeline workspace chunk response)
      (fun reconciled => RunState.At pages
        (OnPage (page.Finished chunk.granularity.depth reconciled)))
      fun _ => RunState.At pages (OnPage page.Within) := by
  have hwithin : ∀ s, RunState.At pages
      (OnPage (page.Answering chunk (chunkLines workspace chunk).length)) s →
      RunState.At pages (OnPage page.Within) s := fun s hs => hs.onPage fun _ h => h.within
  -- joins and lines are settled in silence; only the completed event moves the monitor
  have hreconcile : Ends
      (RunState.At pages (OnPage (page.Answering chunk (chunkLines workspace chunk).length)))
      (reconcileChunkHyphens pipeline workspace (targetLines workspace chunk) (textById response))
      (fun _ => RunState.At pages
        (OnPage (page.Answering chunk (chunkLines workspace chunk).length)))
      fun _ => RunState.At pages (OnPage page.Within) := by
    refine Ends.bind ((ends_claimJoins_at _).mono (fun _ h => h) (fun _ _ h => h) fun _ => hwithin)
      fun claims => ?_
    refine (ends_silent (steps_get_bind fun s => ?_) _).mono (fun _ h => h) (fun _ _ h => h)
      fun _ => hwithin
    have hwalked := sameSkeleton_walkUnitsReconciling pipeline.guardConfig claims.joins
      (textById response) (walkOrder s.heap claims.pool) ([], s)
    exact .single ⟨events_walkUnitsReconciling _ _ _ _ _, fun hs => hwalked.sameSource.addressed hs⟩
  refine Ends.bind hreconcile fun reconciled => ?_
  refine ends_silent_bind ?_ (fun _ => ?_) fun _ => hwithin
  · exact untold_modify fun s => ⟨events_applyLineAcceptance _ _ _ s,
      (sameSkeleton_applyLineAcceptance _ _ _ _ _).sameSource.addressed⟩
  refine ends_emit_bind (Y := (· = { page with
    phase := .closed, subtotal := page.subtotal + reconciled })) ?_ (ends_pure fun s hs => ?_)
    fun _ s hs => ?_
  · rintro p (⟨attempt, rfl⟩ | rfl) <;>
      exact ⟨_, if_pos ⟨rfl, rfl, List.length_filter_le _ _⟩, rfl⟩
  · apply hs.onPage
    rintro p rfl
    exact ⟨[], by simp, rfl⟩
  · apply hs.onPage
    rintro p rfl
    rfl

/-! ## The descent -/

omit [Unicode] [Digest] in
theorem descent_of_finished {depth reconciled : Nat} {parent : ChunkRequest}
    {rest : List ChunkRequest}
    {page' : OpenPage} (h : page.Finished depth reconciled page')
    (hanc : page.ancestors = parent :: rest)
    {granularity : ChunkGranularity} (hgrain : granularity.depth = depth)
    (hfiner : depth < parent.granularity.depth) :
    page'.descent granularity = parent :: rest := by
  obtain ⟨cut, hcut, rfl⟩ := h
  show List.dropWhile _ (cut ++ page.ancestors) = _
  rw [hgrain, List.dropWhile_append_of_pos fun chunk hchunk =>
    by simpa using hcut chunk hchunk, hanc]
  exact List.dropWhile_cons_of_neg (by simpa using hfiner)

/-- A chunk starts, unless it has no line to show. -/
def OpenPage.Starts (workspace : PageWorkspace) (chunk : ChunkRequest)
    (page page' : OpenPage) : Prop :=
  if chunkLines workspace chunk = [] then page.phase = .closed ∧ page' = page
  else page.startChunk chunk (chunkLines workspace chunk).length = some page'

/-- A runner of chunks down from a depth tells of each what the protocol
allows. -/
def RunnerFollows (pages : List Str) (workspace : PageWorkspace) (pageId : Str) (depth : Nat)
    (run : ChunkRunner) : Prop :=
  ∀ (page page' : OpenPage) (chunk : ChunkRequest) (budget : ChunkBudget), page.pageId = pageId →
    chunk.granularity.depth ≤ depth → page.Starts workspace chunk page' →
      Ends (RunState.At pages (OnPage (· = page))) (run chunk budget)
        (fun result => RunState.At pages (OnPage (page'.Finished chunk.granularity.depth result.1)))
        fun _ => RunState.At pages (OnPage fun p => chunkLines workspace chunk ≠ [] ∧
          page'.Within p)

omit [Unicode] [Digest] in
theorem RunnerFollows.mono {pageId : Str} {depth depth' : Nat} {run : ChunkRunner}
    (h : RunnerFollows pages workspace pageId depth run) (hle : depth' ≤ depth) :
    RunnerFollows pages workspace pageId depth' run :=
  fun page page' chunk budget hpage hdepth => h page page' chunk budget hpage (hdepth.trans hle)

omit [Unicode] [Digest] in
/-- **What a chunk is cut down to may start**, and ends as more of the same
descent. -/
theorem starts_sub {depth total : Nat} {parent sub : ChunkRequest} {rest : List ChunkRequest}
    {page' : OpenPage} (h : page.Finished depth total page')
    (hanc : page.ancestors = parent :: rest)
    (hfiner : depth < parent.granularity.depth) (hgrain : sub.granularity.depth = depth)
    (hpage : sub.pageId = page.pageId) (htargets : sub.lineIds ⊆ parent.targets) :
    ∃ page'', page'.Starts workspace sub page'' ∧
      (∀ reconciled p, page''.Finished depth reconciled p →
        page.Finished depth (total + reconciled) p) ∧
      ∀ p, page''.Within p → page.Within p := by
  have hdescent := descent_of_finished h hanc hgrain hfiner
  obtain ⟨cut, hcut, rfl⟩ := h
  let page' : OpenPage := { page with
    ancestors := cut ++ page.ancestors
    phase := .closed
    subtotal := page.subtotal + total }
  by_cases hlines : chunkLines workspace sub = []
  · refine ⟨page', ?_, ?_, fun p hp => hp⟩
    · rw [OpenPage.Starts, if_pos hlines]
      exact ⟨rfl, rfl⟩
    · rintro reconciled p ⟨cut', hcut', rfl⟩
      refine ⟨cut' ++ cut, fun chunk hchunk => ?_, by simp [page', Nat.add_assoc]⟩
      exact (List.mem_append.mp hchunk).elim (hcut' chunk) (hcut chunk)
  · refine ⟨{ page' with
      ancestors := parent :: rest
      phase := .attempting sub (chunkLines workspace sub).length 1 }, ?_, ?_, fun p hp => hp⟩
    · rw [OpenPage.Starts, if_neg hlines, OpenPage.startChunk,
        if_pos ⟨rfl, hpage, List.length_pos_iff.mpr hlines⟩, hdescent]
      exact if_pos htargets
    · rintro reconciled p ⟨cut', hcut', rfl⟩
      exact ⟨cut', hcut', by simp [page', hanc, Nat.add_assoc]⟩

omit [Unicode] [Digest] in
theorem ends_fallBackChunk_at {X Y : OpenPage → Prop} (failure : Option AttemptFailure)
    (h : ∀ page, X page → ∃ page', page.warn chunk = some page' ∧ Y page') :
    Ends (RunState.At pages (OnPage X)) (fallBackChunk pipeline workspace chunk failure)
      (fun _ => RunState.At pages (OnPage Y)) fun _ => RunState.At pages (OnPage Y) := by
  refine Ends.bind (q := fun _ => RunState.At pages (OnPage Y)) (ends_emit_bind h ?_ fun _ _ h => h)
    fun _ => ends_silent ?_ _
  · refine ends_silent ?_ _
    exact untold_modify fun s => (between_exhaustTargets _ _ s).untold
      ((events_fallBackToSource _ _ _).trans (events_fallBackToSource _ _ _))
  · exact untold_modify fun _ => ⟨rfl, id⟩

omit [Unicode] [Digest] in
/-- The monitor follows a descent into a sub-chunk. -/
theorem ends_descendInto_at {run : ChunkRunner} {depth : Nat}
    (hrun : RunnerFollows pages workspace page.pageId depth run) {parent sub : ChunkRequest}
    {rest : List ChunkRequest}
    (hanc : page.ancestors = parent :: rest) (hfiner : depth < parent.granularity.depth)
    (hgrain : sub.granularity.depth = depth) (hpage : sub.pageId = page.pageId)
    (htargets : sub.lineIds ⊆ parent.targets) (failure : Option AttemptFailure)
    (state : Nat × ChunkBudget) :
    Ends (RunState.At pages (OnPage (page.Finished depth state.1)))
      (descendInto pipeline workspace run failure state sub)
      (fun state' => RunState.At pages (OnPage (page.Finished depth state'.1)))
      fun _ => RunState.At pages (OnPage page.Within) := by
  have hwithin : ∀ total s, RunState.At pages (OnPage (page.Finished depth total)) s →
      RunState.At pages (OnPage page.Within) s := by
    refine fun total s hs => hs.onPage ?_
    rintro p ⟨cut, -, rfl⟩
    rfl
  refine ends_silent_bind untold_checkAbort (fun _ => ?_) fun _ => hwithin state.1
  show Ends _ (if _ then _ else _) _ _
  -- no budget left: the sub-chunk falls back and the warning is attributed to the chunk above
  split
  · refine Ends.bind (q := fun _ => RunState.At pages (OnPage (page.Finished depth state.1)))
      ((ends_fallBackChunk_at failure ?_).mono (fun _ h => h) (fun _ _ h => h) fun _ =>
        hwithin state.1)
      fun _ => ends_pure fun _ h => h
    intro p hp
    have hdescent := descent_of_finished hp hanc hgrain hfiner
    obtain ⟨cut, -, rfl⟩ := hp
    refine ⟨_, ?_, [], by simp, rfl⟩
    unfold OpenPage.warn
    dsimp only
    rw [hdescent]
    exact (if_pos htargets).trans (by rw [List.nil_append, hanc])
  -- otherwise the sub-chunk runs on the page as it stands, deeper by one
  · intro s hs
    obtain ⟨hlines, x, hx, hX⟩ := hs
    cases x with
    | running p =>
      obtain ⟨page'', hstarts, hdone, hfailed⟩ :=
        @starts_sub workspace page depth state.1 parent sub rest
        p hX hanc hfiner hgrain hpage htargets
      have hpageId : p.pageId = page.pageId := by
        obtain ⟨cut, -, rfl⟩ := hX
        rfl
      have hsub : Ends (RunState.At pages (OnPage (· = p))) (run sub state.2)
          (fun result => RunState.At pages (OnPage (page.Finished depth (state.1 + result.1))))
          fun _ => RunState.At pages (OnPage page.Within) :=
        (hrun p page'' sub state.2 hpageId hgrain.le hstarts).mono (fun _ h => h)
          (fun result s hs => hs.onPage fun p hp => hdone result.1 p (hgrain ▸ hp))
          fun _ s hs => hs.onPage fun p hp => hfailed p hp.2
      refine (?_ : Ends (RunState.At pages (OnPage (· = p))) _ _ _) s ⟨hlines, .running p, hx, rfl⟩
      exact hsub.bind fun result => ends_pure fun _ h => h
    | _ => exact hX.elim

variable {manifest : PageManifest}

omit [Unicode] [Digest] in
/-- A forced granularity is never exceeded. -/
theorem depth_granularity_planPage (config : ChunkPlannerConfig) (page : PageManifest)
    (finer : ChunkGranularity) : (planPage config page (some finer)).1.granularity.depth ≤
        finer.depth := by
  cases finer with
  | page => cases (planPage config page (some .page)).1.granularity <;> decide
  | block =>
    show ((tryBlock config page).getD (tryWindow config page)).granularity.depth ≤ _
    unfold tryBlock
    dsimp only
    split
    · exact Nat.le_refl _
    · exact Nat.le_succ _
  | window => exact Nat.le_refl _
  | line => exact Nat.le_refl _

omit [Unicode] [Digest] in
/-- Planning what a chunk is cut down to tells nothing, and plans for it. -/
theorem ends_replan_at (config : ChunkPlannerConfig) (finer : ChunkGranularity)
    (X : StreamState → Prop) : Ends (RunState.At pages X)
      (replan config (fun heap => subpageForLines manifest
        (linesOf heap (targetLines workspace chunk))) (some finer))
      (fun plan s => s.At pages X ∧ plan.granularity.depth ≤ finer.depth ∧ ∀ sub ∈ plan.chunks,
        sub.pageId = manifest.pageId ∧ sub.granularity = plan.granularity ∧
          sub.lineIds ⊆ chunk.targets)
      fun _ => RunState.At pages X := by
  intro s hs
  let sub := subpageForLines manifest (linesOf s.heap (targetLines workspace chunk))
  have huntold : Untold s (replanned config sub (some finer) s) :=
    (@between_replanned sub (targetLines workspace chunk) s rfl _ _).untold rfl
  refine ⟨⟨huntold.lines hs.lines, hs.reads.of_log_eq huntold.events⟩,
    depth_granularity_planPage _ sub _, fun chunk' hchunk' => ?_⟩
  have hplanned := planned_planPage config sub (some finer) chunk' hchunk'
  refine ⟨hplanned.pageId, hplanned.grain, fun id hid => ?_⟩
  obtain ⟨lm, hlm, rfl⟩ := List.mem_map.mp (hplanned.lineIds hid)
  obtain ⟨ref, href, rfl⟩ := List.mem_map.mp hlm
  rw [show (s.heap ref).lineId = ref.lineId from congrArg LineRef.lineId (hs.lines ref)]
  exact of_decide_eq_true (List.mem_filter.mp href).2

omit [Unicode] [Digest] in
/-- The monitor follows a descent. -/
theorem ends_descendGranularity_at {run : ChunkRunner} {depth : Nat}
    (hrun : RunnerFollows pages workspace page.pageId depth run)
    (hpage : manifest.pageId = page.pageId) (hwithin : chunk.granularity.depth ≤ depth + 1)
    {finer : ChunkGranularity}
    (hfiner : downgradeGranularity chunk.granularity = some finer) {budget : ChunkBudget}
    (hleft : 0 < budget.remaining) (failure : Option AttemptFailure) :
    Ends (RunState.At pages (OnPage (page.Attempting chunk (chunkLines workspace chunk).length)))
      (descendGranularity pipeline manifest workspace run chunk finer failure budget)
      (fun result => RunState.At pages (OnPage (page.Finished chunk.granularity.depth result.1)))
      fun _ => RunState.At pages (OnPage page.Within) := by
  -- the warning opens a level: this chunk becomes the nearest ancestor
  let opened : OpenPage := { page with ancestors := chunk :: page.ancestors, phase := .closed }
  have hopened : ∀ s, RunState.At pages (OnPage (· = opened)) s →
      RunState.At pages (OnPage page.Within) s := by
    refine fun s hs => hs.onPage ?_
    rintro p rfl
    rfl
  refine ends_emit_bind (Y := (· = opened)) ?_ ?_ fun _ => hopened
  · rintro p ⟨attempt, rfl⟩
    exact ⟨_, if_pos ⟨rfl, hfiner, rfl, List.length_filter_le _ _, hleft⟩, rfl⟩
  refine Ends.bind ((ends_replan_at pipeline.config finer _).mono (fun _ h => h) (fun _ _ h => h)
    fun _ => hopened) fun plan => ends_of_fact fun hplan => ?_
  obtain ⟨hdepth, hsubs⟩ := hplan
  -- what was replanned is strictly finer, so the induction hypothesis covers every sub-chunk
  have hstrict : plan.granularity.depth < chunk.granularity.depth :=
    hdepth.trans_lt (depth_downgrade hfiner)
  have hrun' : RunnerFollows pages workspace opened.pageId plan.granularity.depth run :=
    hrun.mono (by omega)
  have hsub : ∀ sub ∈ plan.chunks, ∀ state, Ends
      (RunState.At pages (OnPage (opened.Finished plan.granularity.depth state.1)))
      (descendInto pipeline workspace run failure state sub)
      (fun state' => RunState.At pages (OnPage (opened.Finished plan.granularity.depth state'.1)))
      fun _ => RunState.At pages (OnPage opened.Within) := fun sub hsub state =>
    ends_descendInto_at hrun' rfl hstrict (congrArg _ (hsubs sub hsub).2.1)
      ((hsubs sub hsub).1.trans hpage) (hsubs sub hsub).2.2 failure state
  have hfold := ends_foldlM_of_mem (I := fun (state : Nat × ChunkBudget) =>
    RunState.At pages (OnPage (opened.Finished plan.granularity.depth state.1))) hsub (0, budget)
  refine hfold.mono (fun s hs => hs.onPage ?_) (fun result s hs => hs.onPage ?_) fun _ s hs =>
    hs.onPage fun p hp => hp
  · rintro p rfl
    exact ⟨[], by simp, rfl⟩
  -- closing the level leaves this chunk itself among those already cut
  · rintro p ⟨cut, hcut, rfl⟩
    refine ⟨cut ++ [chunk], fun c hc => ?_, by simp [opened]⟩
    rcases List.mem_append.mp hc with hin | hlast
    · exact (hcut c hin).trans hstrict.le
    · exact List.mem_singleton.mp hlast ▸ Nat.le_refl _

omit [Unicode] [Digest] in
/-- The monitor follows a failed chunk. -/
theorem ends_handleChunkFailure_at {run : ChunkRunner} {depth : Nat}
    (hrun : RunnerFollows pages workspace page.pageId depth run)
    (hpage : manifest.pageId = page.pageId) (hwithin : chunk.granularity.depth ≤ depth + 1)
    (outcome : AttemptOutcome) (budget : ChunkBudget) :
    Ends (RunState.At pages (OnPage (page.Attempting chunk (chunkLines workspace chunk).length)))
      (handleChunkFailure pipeline manifest workspace run chunk outcome budget)
      (fun result => RunState.At pages (OnPage (page.Finished chunk.granularity.depth result.1)))
      fun _ => RunState.At pages (OnPage page.Within) := by
  have hfallen : Ends (RunState.At pages
      (OnPage (page.Attempting chunk (chunkLines workspace chunk).length))) (do
        fallBackChunk pipeline workspace chunk outcome.lastFailure
        return (0, budget))
      (fun result => RunState.At pages (OnPage (page.Finished chunk.granularity.depth result.1)))
      fun _ => RunState.At pages (OnPage page.Within) := by
    refine Ends.bind (q := fun _ => RunState.At pages
      (OnPage (page.Finished chunk.granularity.depth 0)))
      ((ends_fallBackChunk_at outcome.lastFailure ?_).mono (fun _ h => h) (fun _ _ h => h)
        fun _ s hs => hs.onPage ?_) fun _ => ends_pure fun _ h => h
    · rintro p ⟨attempt, rfl⟩
      exact ⟨_, if_pos rfl, [], by simp, rfl⟩
    · rintro p ⟨cut, -, rfl⟩
      rfl
  unfold handleChunkFailure
  split
  · next finer hfiner =>
    split
    · next hdescend =>
      refine ends_descendGranularity_at hrun hpage hwithin hfiner ?_ _
      have hnot : budget.exhausted = false := by simpa using (Bool.and_eq_true_iff.mp hdescend).2
      simpa [ChunkBudget.exhausted] using hnot
    · exact hfallen
  · exact hfallen

omit [Unicode] [Digest] in
/-- A started chunk is at its first attempt. -/
theorem attempting_of_startChunk {page' : OpenPage} {lineCount : Nat}
    (h : page.startChunk chunk lineCount = some page') :
    page'.phase = .attempting chunk lineCount 1 ∧ page'.pageId = page.pageId := by
  unfold OpenPage.startChunk at h
  split at h
  · split at h
    · split at h
      · cases h
        exact ⟨rfl, rfl⟩
      · cases h
    · split at h
      · cases h
        exact ⟨rfl, rfl⟩
      · cases h
  · cases h

/-- **A chunk runner tells of its chunk what the protocol allows**, at every
depth of the descent. -/
theorem runnerFollows_runChunk (producer : EditProducer) (manifest : PageManifest)
    (pages : List Str) (depth : Nat) : RunnerFollows pages workspace manifest.pageId depth
      (runChunk pipeline producer manifest workspace depth) := by
  -- induction on the granularity's depth, which each descent lowers
  induction depth with
  | zero =>
    intro page page' chunk budget _ hdepth
    cases hgrain : chunk.granularity <;> rw [hgrain] at hdepth <;> cases hdepth
  | succ depth ih =>
    intro page page' chunk budget hpage hdepth hstarts
    unfold OpenPage.Starts at hstarts
    show Ends _ (if _ then _ else _) _ _
    by_cases hlines : chunkLines workspace chunk = []
    · rw [if_pos hlines] at hstarts ⊢
      obtain ⟨hclosed, rfl⟩ := hstarts
      refine ends_pure fun s hs => hs.onPage ?_
      rintro p rfl
      refine ⟨[], by simp, ?_⟩
      cases p
      grind
    -- the started event opens the chunk; the attempts, then the finish or the failure, close it
    · rw [if_neg hlines] at hstarts ⊢
      obtain ⟨hphase, hpageId⟩ := attempting_of_startChunk hstarts
      have hinside : ∀ X : OpenPage → Prop, (∀ p, X p → page'.Within p) → ∀ s : RunState,
          s.At pages (OnPage X) →
          s.At pages (OnPage fun p => chunkLines workspace chunk ≠ [] ∧ page'.Within p) :=
        fun X hX s hs => hs.onPage fun p hp => ⟨hlines, hX p hp⟩
      have hstarted : page'.Attempting chunk (chunkLines workspace chunk).length page' :=
        ⟨1, by rw [← hphase]⟩
      refine ends_emit_bind (Y := (· = page')) ?_ ?_ fun _ => hinside _ fun p hp => hp ▸ rfl
      · rintro p rfl
        exact ⟨page', hstarts, rfl⟩
      have hattempts := @ends_attemptChunkFrom_at _ _ pages pipeline workspace page' chunk
        (chunkLines workspace chunk).length producer
        (budget.attemptsAllowed pipeline.retryPolicy.maxAttempts) 1 false
      refine Ends.bind (hattempts.mono (fun s hs => hs.onPage ?_) (fun _ _ h => h)
        fun _ => hinside _ fun p hp => OpenPage.Answering.within (.inl hp)) fun outcome => ?_
      · rintro p rfl
        rw [← hphase]
      · dsimp only
        split
        · refine Ends.bind ((ends_finish_at _).mono (fun s hs => hs.onPage fun _ => .inl)
            (fun _ _ h => h) fun _ => hinside _ fun _ h => h) fun reconciled => ?_
          exact ends_pure fun _ h => h
        · have hfailure := @ends_handleChunkFailure_at pages pipeline workspace page' chunk manifest
            (runChunk pipeline producer manifest workspace depth) depth (hpageId.trans hpage ▸ ih)
            (hpageId.trans hpage).symm hdepth outcome (budget.spend outcome.attemptsUsed)
          exact hfailure.mono (fun _ h => h) (fun _ _ h => h) fun _ => hinside _ fun _ h => h

end Chunk

end Saknussemm
