import Saknussemm.Run.Steps
import Saknussemm.Run.UnitFallback

/-! # The steps a run is made of.

A page is planned, some of its lines may be confirmed without a call, and
its chunks run.  Planning cuts links and nothing else, so whatever a run
has decided by the end of its pages was decided by one of these steps. -/

namespace Saknussemm

open Effects Relation

/-! ## What planning leaves alone -/

/-- A line without what severing a link changes. -/
def LineManifest.untied (lm : LineManifest) : LineManifest :=
  { lm with
    hyphenRole := .none
    hyphenPairLineId := none
    hyphenPairPageId := none
    hyphenSubsContent := none
    hyphenSourceExplicit := false
    hyphenForwardPairId := none
    hyphenForwardPairPageId := none
    hyphenForwardSubsContent := none
    hyphenForwardExplicit := false }

theorem map_set_of_eq {α β : Type*} {f : α → β} {l : List α} {i : Nat} {x x' : α}
    (hx : l[i]? = some x) (h : f x' = f x) : (l.set i x').map f = l.map f := by
  apply List.ext_getElem?
  intro k
  rw [List.map_set, List.getElem?_set, List.getElem?_map]
  split
  · next hik =>
    subst hik
    obtain ⟨hlt, rfl⟩ := List.getElem?_eq_some_iff.mp hx
    simp [hlt, h]
  · rfl

theorem untied_splitForwardLink (tail head : LineManifest) :
    (splitForwardLink tail head).1.untied = tail.untied ∧
      (splitForwardLink tail head).2.1.untied = head.untied := by
  unfold splitForwardLink
  constructor <;> dsimp only <;> split <;> rfl

/-- A cut changes links only. -/
theorem untied_severTail (lines : List LineManifest) (chain : List Str) (last : Nat) :
    (severTail lines chain last).1.map LineManifest.untied = lines.map LineManifest.untied := by
  unfold severTail
  split
  · next tail partnerId partner htail _ _ =>
    split
    · rfl
    · split
      · next head hhead =>
        have huntied := untied_splitForwardLink tail head
        have hmap := map_set_of_eq htail huntied.1
        have hk : ((lines.set last (splitForwardLink tail head).1).map
            LineManifest.untied)[partner]? = some head.untied := by
          rw [hmap, List.getElem?_map, hhead]
          rfl
        rw [List.getElem?_map, Option.map_eq_some_iff] at hk
        obtain ⟨x, hx, hxu⟩ := hk
        exact (map_set_of_eq hx (huntied.2.trans hxu.symm)).trans hmap
      · rfl
  · rfl

theorem untied_planLineFrom (config : ChunkPlannerConfig) (pageId : Str) (fuel start : Nat)
    (lines : List LineManifest) :
    (planLineFrom config pageId fuel lines start).2.2.map LineManifest.untied =
      lines.map LineManifest.untied := by
  induction fuel generalizing lines start with
  | zero => rfl
  | succ fuel ih =>
    rw [planLineFrom]
    split
    · exact (ih _ _).trans (untied_severTail _ _ _)
    · rfl

/-- **A plan only cuts links.** -/
theorem untied_planPage (config : ChunkPlannerConfig) (page : PageManifest)
    (force : Option ChunkGranularity) :
    (planPage config page force).2.map LineManifest.untied =
        page.lines.map LineManifest.untied := by
  unfold planPage
  split
  · exact untied_planLineFrom _ _ _ _ _
  all_goals rfl

theorem writeLines_cases (heap : Heap) (lines : List LineManifest) (ref : LineRef) :
    writeLines heap lines ref = heap ref ∨
      ∃ lm ∈ lines, lineRef lm = ref ∧ writeLines heap lines ref = lm := by
  rw [writeLines]
  cases hfind : lines.find? (lineRef · = ref) with
  | none => exact .inl rfl
  | some lm =>
    exact .inr ⟨lm, List.mem_of_find?_eq_some hfind, by simpa using List.find?_some hfind, rfl⟩

/-- Writing lines back that only lost links. -/
theorem untied_writeLines {heap : Heap} (haddr : Addressed heap) {refs : List LineRef}
    {lines : List LineManifest}
    (hlines : lines.map LineManifest.untied = (linesOf heap refs).map LineManifest.untied)
    (ref : LineRef) : (writeLines heap lines ref).untied = (heap ref).untied := by
  rcases writeLines_cases heap lines ref with hsame | ⟨lm, hlm, rfl, hwritten⟩
  · rw [hsame]
  · rw [hwritten]
    have hmem : lm.untied ∈ (linesOf heap refs).map LineManifest.untied := by
      rw [← hlines]
      exact List.mem_map_of_mem hlm
    obtain ⟨old, hold, heq⟩ := List.mem_map.mp hmem
    obtain ⟨r, -, rfl⟩ := List.mem_map.mp hold
    have href : lineRef lm = r := by
      rw [show lineRef lm = lineRef lm.untied from rfl, ← heq]
      exact haddr r
    rw [← heq, href]

theorem untied_replanned {s : RunState} (haddr : Addressed s.heap) {page : PageManifest}
    {refs : List LineRef} (hpage : page.lines = linesOf s.heap refs) (config : ChunkPlannerConfig)
    (force : Option ChunkGranularity) (ref : LineRef) :
    ((replanned config page force s).heap ref).untied = (s.heap ref).untied :=
  untied_writeLines haddr (hpage ▸ untied_planPage config page force) ref

/-! ## The steps of a page -/

section Pages

variable [Unicode] (pipeline : CorrectionPipeline) (document : DocumentManifest)

/-- One step of a page whose work began on the lines `start`. -/
inductive PageStep (page : PageManifest) (start : Heap) : RunState → RunState → Prop where
  | chunk {s s' : RunState}
    (h : ChunkStep pipeline page (workspaceOf document page start) s s') : PageStep page start s s'
  | plan (s : RunState) :
    PageStep page start s (replanned pipeline.config (currentPage s.heap page) none s)
  | confirm (scorer : Str → ℚ) (s : RunState)
    (h : s.heap = writeLines start (linesOf start page.refs)) :
    PageStep page start s <| confirmSkippedLines (workspaceOf document page start)
      (scorePageIntoTiers pipeline scorer (linesOf s.heap page.refs)).skip s

/-- One step of the pages of a run. -/
inductive RunStep : RunState → RunState → Prop where
  | quiet {s s' : RunState} (h : Quiet s s') : RunStep s s'
  | page {page : PageManifest} {start : Heap} {s s' : RunState} (hpage : page ∈ document.pages)
    (h : PageStep pipeline document page start s s') : RunStep s s'

variable {pipeline document} {page : PageManifest} {start : Heap}

theorem pageStep_quiet {s s' : RunState} (h : Quiet s s') :
    PageStep pipeline document page start s s' := .chunk (.quiet h)

theorem steps_page_of_chunk {α : Type} {m : RunM α}
    (h : Steps (ChunkStep pipeline page (workspaceOf document page start)) m) :
    Steps (PageStep pipeline document page start) m :=
  h.mono fun _ _ => .chunk

theorem steps_routeAndFilterChunks (chunks : List ChunkRequest) {s : RunState}
    (h : s.heap = writeLines start (linesOf start page.refs)) :
    ReflTransGen (PageStep pipeline document page start) s
      ((routeAndFilterChunks pipeline (workspaceOf document page start) chunks).exec s).2 := by
  unfold routeAndFilterChunks
  cases routingScorer pipeline with
  | none => exact .refl
  | some scorer =>
    refine .head (.confirm scorer s h) ?_
    exact .single (pageStep_quiet ⟨rfl, rfl, rfl, rfl⟩)

omit [Unicode] in
theorem yields_replan (heap : Heap) :
    Yields (fun s => s.heap = heap)
      (replan pipeline.config (fun heap => currentPage heap page) none)
      fun _ s => s.heap = writeLines heap (linesOf heap page.refs) := by
  rintro s rfl
  rfl

/-- A page is planned one step after another. -/
theorem steps_planPageChunks {s : RunState} (h : s.heap = start) :
    ReflTransGen (PageStep pipeline document page start) s
      ((planPageChunks pipeline page (workspaceOf document page start)).exec s).2 := by
  have hreplan : Steps (PageStep pipeline document page start)
      (replan pipeline.config (fun heap => currentPage heap page) none) :=
    fun s => .single (.plan s)
  refine hreplan.bind_yields (yields_replan start) (fun plan s' hs' => ?_) h
  have hroute : ReflTransGen (PageStep pipeline document page start) s' _ :=
    steps_routeAndFilterChunks plan.chunks hs'
  rw [Prog.exec_bind]
  generalize (routeAndFilterChunks pipeline _ plan.chunks).exec s' = routed at hroute ⊢
  obtain ⟨result, s''⟩ := routed
  cases result with
  | error fault => exact hroute
  | ok routed =>
    refine hroute.trans (steps_get_bind (fun s => ?_) s'')
    split
    · exact steps_throw _ s
    · refine Steps.bind (steps_page_of_chunk (steps_emit _)) (fun _ => ?_) s
      exact steps_pure _

theorem steps_runItem [Digest] (reconciled : Nat) (item : ChunkRequest × EditProducer) :
    Steps (PageStep pipeline document page start)
      (runItem pipeline page (workspaceOf document page start) reconciled item) := by
  apply Steps.bind (steps_page_of_chunk steps_checkAbort)
  intro _
  apply Steps.bind (steps_page_of_chunk (steps_runChunkAbsorbing item))
  intro _
  exact steps_pure _

/-- **A page's work is made of its steps.** -/
theorem steps_processPage [Digest] (s : RunState) :
    ReflTransGen (PageStep pipeline document page s.heap) s
      ((processPage pipeline document page).exec s).2 := by
  unfold processPage
  rw [Prog.exec_bind_ok (Prog.exec_get s)]
  have hemit := @yields_emit pipeline s.heap
    (.pageStarted page.pageId (linesOf s.heap page.refs).length
      ((linesOf s.heap page.refs).countP opensForward))
  refine Steps.bind_yields (steps_page_of_chunk (steps_emit _)) hemit (fun _ s' hs' => ?_) rfl
  have hplan : ReflTransGen (PageStep pipeline document page s.heap) s' _ :=
    steps_planPageChunks hs'
  -- what follows the plan: the chunks one by one, then the event that closes the page
  have hrest : ∀ items : List (ChunkRequest × EditProducer),
      Steps (PageStep pipeline document page s.heap)
        (do
          let reconciled ← items.foldlM
            (runItem pipeline page (workspaceOf document page s.heap)) 0
          let s ← get
          let corrections := (linesOf s.heap page.refs).countP fun lm =>
            lm.correctedText.any (· ≠ lm.ocrText)
          emit pipeline (.pageCompleted page.pageId corrections reconciled)
          return (items.length, reconciled) : RunM (Nat × Nat)) := by
    intro items
    apply Steps.bind (steps_foldlM steps_runItem _ _)
    intro reconciled
    apply steps_get_bind
    intro s
    refine Steps.bind (steps_page_of_chunk (steps_emit _)) (fun _ => ?_) s
    exact steps_pure _
  rw [Prog.exec_bind]
  generalize (planPageChunks pipeline page _).exec s' = planned at hplan ⊢
  obtain ⟨result, s''⟩ := planned
  cases result with
  | ok items => exact hplan.trans (hrest items s'')
  | error fault => exact hplan

/-! ## The steps of the run -/

theorem steps_emit_run (event : EngineEvent) :
    Steps (RunStep pipeline document) (emit pipeline event) :=
  steps_emit_of (fun _ _ => .quiet ⟨rfl, rfl, rfl, rfl⟩) event

theorem steps_checkAbort_run : Steps (RunStep pipeline document) (checkAbort pipeline) :=
  steps_checkAbort_of fun _ _ => .quiet ⟨rfl, rfl, rfl, rfl⟩

/-- The page loop runs one page after another. -/
theorem steps_processPages [Digest] {pages : List PageManifest}
    (hpages : ∀ page ∈ pages, page ∈ document.pages) (totals : Nat × Nat) :
    Steps (RunStep pipeline document)
      (pages.foldlM
        (fun (chunks, reconciled) page => do
          checkAbort pipeline
          let (pageChunks, pageReconciled) ← processPage pipeline document page
          return (chunks + pageChunks, reconciled + pageReconciled))
        totals) := by
  induction pages generalizing totals with
  | nil => exact steps_pure _
  | cons page pages ih =>
    rw [List.foldlM_cons]
    refine Steps.bind ?_ fun totals => ih (fun p hp => hpages p (by simp [hp])) totals
    apply Steps.bind steps_checkAbort_run
    intro _
    refine Steps.bind (fun s => ?_) fun _ => steps_pure _
    exact (steps_processPage s).lift id fun _ _ => .page (hpages page (by simp))

/-- **What a run does before its last passes is made of steps.** -/
theorem steps_correctDocument [Digest] :
    Steps (RunStep pipeline document) (correctDocument pipeline document) := by
  refine Steps.bind (fun s => ?_) fun _ => ?_
  · unfold preflight
    split <;> exact .refl
  · apply Steps.bind (steps_emit_run _)
    intro _
    exact steps_processPages (fun _ h => h) _

end Pages

end Saknussemm
