import Saknussemm.Run.StreamChunks

/-! # A run is told as the protocol allows.

Planned chunks start one after the other, each closed by its own ending or by
the error absorbed for it, and pages follow each other in the document's
order. -/

namespace Saknussemm

open Effects

theorem events_absorbChunkError (workspace : PageWorkspace) (chunk : ChunkRequest) (message : Str)
    (s : RunState) : (absorbChunkError workspace chunk message s).events = s.events := by
  unfold absorbChunkError
  dsimp only
  split
  · rfl
  · exact events_fallBackToSource _ _ (s.note _)

/-! ## One page -/

/-- Between two planned chunks, so many of them still to come. -/
structure OpenPage.Ready (base : OpenPage) (left total : Nat) (page : OpenPage) : Prop where
  pageId : page.pageId = base.pageId
  lineCount : page.lineCount = base.lineCount
  later : page.later = base.later
  grain : page.granularity = base.granularity
  unstarted : left ≤ page.unstarted
  closed : page.phase = .closed
  ancestors : ∀ chunk ∈ page.ancestors, chunk.granularity.depth ≤ base.granularity.depth
  total : page.reconciled + page.subtotal = total

section Page

variable [Unicode] [Digest] {pages : List Str} {pipeline : CorrectionPipeline}
  {manifest : PageManifest} {workspace : PageWorkspace} {base page : OpenPage} {left total : Nat}

omit [Unicode] [Digest] in
/-- **A planned chunk may start**: what it leaves is ready for the next, and
so is what an error in it leaves. -/
theorem OpenPage.Ready.starts {chunk : ChunkRequest} (h : base.Ready (left + 1) total page)
    (hpage : chunk.pageId = base.pageId) (hgrain : chunk.granularity = base.granularity) :
    ∃ page', page.Starts workspace chunk page' ∧
      (∀ reconciled p, page'.Finished chunk.granularity.depth reconciled p →
        base.Ready left (total + reconciled) p) ∧
      (chunkLines workspace chunk ≠ [] → ∀ p, page'.Within p →
        p.top = some chunk ∧ base.Ready left total { p.cleared with top := none }) := by
  by_cases hlines : chunkLines workspace chunk = []
  -- a chunk without lines tells nothing, so the page is left as it stands
  · refine ⟨page, ?_, ?_, fun hsome => absurd hlines hsome⟩
    · rw [OpenPage.Starts, if_pos hlines]
      exact ⟨h.closed, rfl⟩
    · rintro reconciled p ⟨cut, hcut, rfl⟩
      refine ⟨h.pageId, h.lineCount, h.later, h.grain, Nat.le_of_succ_le h.unstarted, rfl, ?_, ?_⟩
      · intro c hc
        rcases List.mem_append.mp hc with hin | hin
        · exact hgrain ▸ hcut c hin
        · exact h.ancestors c hin
      · show page.reconciled + (page.subtotal + reconciled) = _
        rw [← Nat.add_assoc, h.total]
  -- a top chunk finds nothing open above it, and closes the subtotal of the one before
  · have hdescent : page.descent chunk.granularity = [] :=
      List.dropWhile_eq_nil_iff.mpr fun c hc => by simpa [hgrain] using h.ancestors c hc
    have hunstarted : 0 < page.unstarted := Nat.lt_of_lt_of_le (Nat.succ_pos left) h.unstarted
    refine ⟨{ page with
      unstarted := page.unstarted - 1
      top := some chunk
      ancestors := []
      phase := .attempting chunk (chunkLines workspace chunk).length 1
      reconciled := page.reconciled + page.subtotal
      subtotal := 0 }, ?_, ?_, fun _ p hp => ?_⟩
    · rw [OpenPage.Starts, if_neg hlines, OpenPage.startChunk,
        if_pos ⟨h.closed, hpage.trans h.pageId.symm, List.length_pos_iff.mpr hlines⟩, hdescent]
      exact if_pos ⟨hgrain.trans h.grain.symm, hunstarted⟩
    · rintro reconciled p ⟨cut, hcut, rfl⟩
      refine ⟨h.pageId, h.lineCount, h.later, h.grain,
        Nat.le_sub_one_of_lt h.unstarted, rfl, ?_, ?_⟩
      · intro c hc
        rw [List.append_nil] at hc
        exact hgrain ▸ hcut c hc
      · show page.reconciled + page.subtotal + (0 + reconciled) = _
        rw [h.total, Nat.zero_add]
    · have htop := congrArg OpenPage.top hp
      refine ⟨htop, ?_⟩
      rw [hp]
      exact ⟨h.pageId, h.lineCount, h.later, h.grain, Nat.le_sub_one_of_lt h.unstarted, rfl,
        fun c hc => absurd hc List.not_mem_nil, h.total⟩

/-- A planned chunk is run, whatever becomes of it. -/
theorem ends_runItem_at {item : ChunkRequest × EditProducer} (hpage : item.1.pageId = base.pageId)
    (hgrain : item.1.granularity = base.granularity) (hmanifest : manifest.pageId = base.pageId) :
    Ends (RunState.At pages (OnPage (base.Ready (left + 1) total)))
      (runItem pipeline manifest workspace total item)
      (fun total' => RunState.At pages (OnPage (base.Ready left total')))
      fun _ => RunState.At pages fun _ => True := by
  have htrue : ∀ {X : StreamState → Prop} (_ : Fault) (s : RunState), s.At pages X →
      s.At pages fun _ => True := fun _ _ hs => hs.mono fun _ _ => trivial
  -- the runner and the absorbing handler, each from the state in which the chunk may start
  refine ends_silent_bind untold_checkAbort (fun _ => ?_) htrue
  rintro s ⟨hlines, x, hx, hX⟩
  cases x with
  | running page =>
    obtain ⟨page', hstarts, hdone, hfailed⟩ := @OpenPage.Ready.starts workspace base page left total
      item.1 hX hpage hgrain
    have hrun := @runnerFollows_runChunk _ _ pipeline workspace item.2 manifest pages
      item.1.granularity.depth page page' item.1 ⟨pipeline.retryPolicy.perChunkBudget⟩
      (hX.pageId.trans hmanifest.symm) (Nat.le_refl _) hstarts
    have htop : Ends (RunState.At pages (OnPage (· = page)))
        (runTopChunk pipeline manifest workspace item)
        (fun more => RunState.At pages (OnPage (base.Ready left (total + more))))
        fun _ => RunState.At pages (OnPage fun p => p.top = some item.1 ∧
          base.Ready left total { p.cleared with top := none }) := by
      refine Ends.bind (hrun.mono (fun _ h => h) (fun _ _ h => h) fun _ s hs =>
        hs.onPage fun p hp => hfailed hp.1 p hp.2) fun result => ends_pure fun s hs => ?_
      exact hs.onPage fun p hp => hdone result.1 p hp
    -- a fault that is not the domain's leaves the page, so nothing is asked of the monitor after it
    have htold : ∀ fault, Ends (RunState.At pages (OnPage fun p => p.top = some item.1 ∧
        base.Ready left total { p.cleared with top := none }))
          (emit pipeline (.chunkError item.1 fault))
        (fun _ => RunState.At pages (OnPage (base.Ready left total)))
        fun _ => RunState.At pages (OnPage (base.Ready left total)) := fun fault =>
      ends_emit_page fun p hp => ⟨_, if_pos hp.1, hp.2⟩
    have habsorb : ∀ fault, Ends (RunState.At pages (OnPage fun p => p.top = some item.1 ∧
        base.Ready left total { p.cleared with top := none }))
          (absorb pipeline workspace item.1 fault)
        (fun more => RunState.At pages (OnPage (base.Ready left (total + more))))
        fun _ => RunState.At pages fun _ => True := by
      intro fault
      cases fault with
      | aborted => exact ends_throw (htrue .aborted)
      | permanent => exact ends_throw (htrue .permanent)
      | crash message =>
        exact Ends.bind ((htold _).mono (fun _ h => h) (fun _ _ h => h) htrue) fun _ =>
          ends_throw (htrue (.crash message))
      | domain message =>
        refine Ends.bind ((htold _).mono (fun _ h => h) (fun _ _ h => h) htrue) fun _ => ?_
        refine ends_silent_bind ?_ (fun _ => ends_pure fun _ h => h) htrue
        exact untold_modify fun s => (between_absorbChunkError item.1 message s).untold
          (events_absorbChunkError _ _ _ _)
    refine (?_ : Ends (RunState.At pages (OnPage (· = page))) _ _ _) s
      ⟨hlines, .running page, hx, rfl⟩
    exact Ends.bind (htop.tryCatch habsorb) fun more => ends_pure fun _ h => h
  | _ => exact hX.elim

/-- The monitor follows the items of a page. -/
theorem ends_items_at (hmanifest : manifest.pageId = base.pageId)
    (items : List (ChunkRequest × EditProducer)) :
    ∀ total, (∀ item ∈ items, item.1.pageId = base.pageId ∧ item.1.granularity = base.granularity) →
      Ends (RunState.At pages (OnPage (base.Ready items.length total)))
        (items.foldlM (runItem pipeline manifest workspace) total)
        (fun total' => RunState.At pages (OnPage (base.Ready 0 total')))
        fun _ => RunState.At pages fun _ => True := by
  induction items with
  | nil => exact fun total _ => ends_pure fun _ h => h
  | cons item items ih =>
    intro total hitems
    rw [List.foldlM_cons]
    obtain ⟨hpage, hgrain⟩ := hitems item (by simp)
    exact Ends.bind (ends_runItem_at hpage hgrain hmanifest) fun total' =>
      ih total' fun item hin => hitems item (by simp [hin])

omit [Unicode] [Digest] in
theorem untold_confirmSkippedLines (skip : List Str) (s : RunState) :
    Untold s (confirmSkippedLines workspace skip s) := by
  apply (between_confirmSkippedLines skip s).untold
  unfold confirmSkippedLines
  generalize skip.filterMap workspace.lineById = lines
  induction lines generalizing s with
  | nil => rfl
  | cons line lines ih => exact ih (accept line (s.heap line).ocrText s)

omit [Unicode] [Digest] in
/-- Routing and batching leave a chunk its page and its granularity. -/
theorem same_of_mem_workItems {producer escalation : EditProducer} {tiers : Tiers}
    {chunk : ChunkRequest} {item : ChunkRequest × EditProducer}
    (h : item ∈ workItems producer escalation tiers chunk) :
    item.1.pageId = chunk.pageId ∧ item.1.granularity = chunk.granularity := by
  unfold workItems at h
  dsimp only at h
  rcases List.mem_append.mp h with h | h
  · split at h
    · cases h
    · rw [List.mem_singleton.mp h]
      split <;> exact ⟨rfl, rfl⟩
  · split at h
    · cases h
    · rw [List.mem_singleton.mp h]
      exact ⟨rfl, rfl⟩

omit [Unicode] [Digest] in
/-- Splitting for the image cap keeps page and granularity. -/
theorem same_of_mem_splitAll {pageLines : List LineManifest}
    {items split : List (ChunkRequest × EditProducer)}
    (h : splitAllForImageCap pageLines items = .ok split)
    {part : ChunkRequest × EditProducer} (hpart : part ∈ split) :
    ∃ item ∈ items, part.1.pageId = item.1.pageId ∧ part.1.granularity = item.1.granularity := by
  obtain ⟨parts, hparts, h⟩ := Fallible.bind_eq_ok.mp h
  cases h
  have hall := Fallible.mapM_eq_ok.mp hparts
  clear hparts h
  induction hall with
  | nil => cases hpart
  | @cons item piece items pieces hitem _ ih =>
    rw [List.flatten_cons] at hpart
    rcases List.mem_append.mp hpart with hin | hin
    · refine ⟨item, by simp, ?_⟩
      unfold splitForImageCap at hitem
      dsimp only at hitem
      split at hitem
      · cases hitem
        rw [List.mem_singleton.mp hin]
        exact ⟨rfl, rfl⟩
      · obtain ⟨batches, -, hitem⟩ := Fallible.bind_eq_ok.mp hitem
        cases hitem
        obtain ⟨batch, -, rfl⟩ := List.mem_map.mp hin
        exact ⟨rfl, rfl⟩
    · obtain ⟨item', hitem', hsame⟩ := ih hin
      exact ⟨item', by simp [hitem'], hsame⟩

omit [Unicode] [Digest] in
/-- Routing tells nothing and keeps page and granularity. -/
theorem ends_route_at {granularity : ChunkGranularity} {chunks : List ChunkRequest} {pageId : Str}
    (hchunks : ∀ chunk ∈ chunks, chunk.pageId = pageId ∧ chunk.granularity = granularity)
    (X : StreamState → Prop) :
    Ends (RunState.At pages X) (routeAndFilterChunks pipeline workspace chunks)
      (fun items s => s.At pages X ∧
        ∀ item ∈ items, item.1.pageId = pageId ∧ item.1.granularity = granularity)
      fun _ => RunState.At pages X := by
  unfold routeAndFilterChunks
  split
  · refine ends_pure fun s hs => ⟨hs, fun item hitem => ?_⟩
    obtain ⟨chunk, hchunk, rfl⟩ := List.mem_map.mp hitem
    exact hchunks chunk hchunk
  · next scorer _ =>
    refine ends_get_at fun s => ?_
    dsimp only
    refine ends_silent_bind ?_
      (fun _ => ends_pure fun s hs => ⟨hs, fun item hitem => ?_⟩) fun _ _ h => h
    · refine untold_modify fun s' => ?_
      have huntold := @untold_confirmSkippedLines workspace (scorePageIntoTiers pipeline scorer
        (linesOf s.heap workspace.refs)).skip s'
      exact ⟨huntold.events, huntold.lines⟩
    · obtain ⟨chunk, hchunk, hin⟩ := List.mem_flatMap.mp hitem
      obtain ⟨hpage, hgrain⟩ := same_of_mem_workItems hin
      obtain ⟨hpage', hgrain'⟩ := hchunks chunk hchunk
      exact ⟨hpage.trans hpage', hgrain.trans hgrain'⟩

/-- The page as it is when its chunks were planned. -/
def plannedPage (pageId : Str) (lineCount : Nat) (later : List Str) (granularity : ChunkGranularity)
    (count : Nat) : OpenPage :=
  ⟨pageId, lineCount, later, granularity, count, none, [], .closed, 0, 0⟩

omit [Unicode] [Digest] in
/-- The monitor follows the plan of a page. -/
theorem ends_planPageChunks_at {lineCount : Nat} {later : List Str} :
    Ends (RunState.At pages (· = .planning manifest.pageId lineCount later))
      (planPageChunks pipeline manifest workspace)
      (fun items s => ∃ granularity, s.At pages (OnPage
          ((plannedPage manifest.pageId lineCount later granularity items.length).Ready
            items.length 0)) ∧
        ∀ item ∈ items, item.1.pageId = manifest.pageId ∧ item.1.granularity = granularity)
      fun _ => RunState.At pages fun _ => True := by
  have htrue : ∀ {X : StreamState → Prop} (_ : Fault) (s : RunState), s.At pages X →
      s.At pages fun _ => True := fun _ _ hs => hs.mono fun _ _ => trivial
  refine Ends.bind (q := fun plan s => s.At pages (· = .planning manifest.pageId lineCount later) ∧
    ∀ chunk ∈ plan.chunks, chunk.pageId = manifest.pageId ∧ chunk.granularity = plan.granularity)
    ?_ fun plan => ends_of_fact fun hchunks => ?_
  -- planning itself is silent, and every chunk of the plan is at the plan's granularity
  · intro s hs
    have huntold : Untold s (replanned pipeline.config (currentPage s.heap manifest) none s) :=
      (@between_replanned (currentPage s.heap manifest) manifest.refs s rfl _ _).untold rfl
    refine ⟨⟨huntold.lines hs.lines, hs.reads.of_log_eq huntold.events⟩, fun chunk hchunk => ?_⟩
    have hplanned := planned_planPage pipeline.config (currentPage s.heap manifest)
      none chunk hchunk
    exact ⟨hplanned.pageId, hplanned.grain⟩
  -- then the chunks routed, split for the image cap and announced, still of that page
  refine Ends.bind ((ends_route_at hchunks _).mono (fun _ h => h) (fun _ _ h => h)
      htrue) fun routed =>
    ends_of_fact fun hrouted => ?_
  refine ends_get_at fun s => ?_
  split
  · exact ends_throw (htrue .aborted)
  · next items hsplit =>
    have hitems : ∀ item ∈ items, item.1.pageId = manifest.pageId ∧
        item.1.granularity = plan.granularity := by
      intro item hitem
      obtain ⟨from', hfrom, hpage, hgrain⟩ := same_of_mem_splitAll hsplit hitem
      obtain ⟨hpage', hgrain'⟩ := hrouted from' hfrom
      exact ⟨hpage.trans hpage', hgrain.trans hgrain'⟩
    refine Ends.bind (q := fun _ => RunState.At pages
      (OnPage ((plannedPage manifest.pageId lineCount later
      plan.granularity items.length).Ready items.length 0))) ((ends_emit_at ?_).mono (fun _ h => h)
      (fun _ _ h => h) htrue) fun _ => ends_pure fun s hs => ⟨plan.granularity, hs, hitems⟩
    rintro x rfl
    exact ⟨_, if_pos rfl, rfl, rfl, rfl, rfl, Nat.le_refl _, rfl,
      fun c hc => absurd hc List.not_mem_nil, rfl⟩

/-- **A page is told from its start to its end.** -/
theorem ends_processPage_at {document : DocumentManifest} {later : List Str} :
    Ends (RunState.At pages (· = .idle (manifest.pageId :: later)))
      (processPage pipeline document manifest)
      (fun _ => RunState.At pages (· = .idle later)) fun _ => RunState.At pages fun _ => True := by
  have htrue : ∀ {X : StreamState → Prop} (_ : Fault) (s : RunState), s.At pages X →
      s.At pages fun _ => True := fun _ _ hs => hs.mono fun _ _ => trivial
  refine ends_get_at fun s => ?_
  refine Ends.bind (q := fun _ => RunState.At pages
    (· = .planning manifest.pageId manifest.refs.length
    later)) ((ends_emit_at ?_).mono (fun _ h => h) (fun _ _ h => h) htrue) fun _ => ?_
  · rintro x rfl
    exact ⟨_, (if_pos rfl).trans (by rw [linesOf, List.length_map]), rfl⟩
  refine Ends.bind ends_planPageChunks_at fun items s hs => ?_
  obtain ⟨granularity, hs, hitems⟩ := hs
  let base := plannedPage manifest.pageId manifest.refs.length later granularity items.length
  have hmanifest : manifest.pageId = base.pageId := rfl
  refine Ends.bind (ends_items_at hmanifest items 0 hitems) (fun total => ?_) s hs
  refine ends_get_at fun s => ?_
  refine Ends.bind (q := fun _ => RunState.At pages (· = .idle later)) ((ends_emit_at ?_).mono
    (fun _ h => h) (fun _ _ h => h) htrue) fun _ => ends_pure fun _ h => h
  intro x hx
  cases x with
  | running p =>
    refine ⟨_, if_pos ⟨hx.closed, hx.pageId.symm, ?_, hx.total.symm⟩,
      congrArg StreamState.idle hx.later⟩
    rw [hx.lineCount]
    exact (List.countP_le_length).trans (by rw [linesOf, List.length_map]; exact Nat.le_refl _)
  | _ => exact hx.elim

end Page

/-! ## The run -/

/-- **The stream of a run follows the protocol**, whatever the producers
answer, the observer raises and the probe cancels; and a run that returns has
told all its pages to the end. -/
theorem follows_run [Unicode] [Digest] (pipeline : CorrectionPipeline)
    (document : DocumentManifest) :
    (streamMonitor (document.pages.map PageManifest.pageId)).Follows
    (run pipeline document).2.events ∧
      ((run pipeline document).1.isOk = true →
        (streamMonitor (document.pages.map PageManifest.pageId)).read
          (run pipeline document).2.events = some (.idle [])) := by
  let pages := document.pages.map PageManifest.pageId
  have hlength : document.pages.length = pages.length := (List.length_map _).symm
  have htrue : ∀ {X : StreamState → Prop} (_ : Fault) (s : RunState), s.At pages X →
      s.At pages fun _ => True := fun _ _ hs => hs.mono fun _ _ => trivial
  -- between two pages the monitor idles on exactly the pages that are left
  let I : List PageManifest → RunState → Prop := fun done =>
    RunState.At pages (· = .idle ((document.pages.drop done.length).map PageManifest.pageId))
  have hleft : ∀ {done page rest}, done ++ page :: rest = document.pages →
      document.pages.drop done.length = page :: rest ∧
          document.pages.drop (done ++ [page]).length = rest := by
    intro done page rest h
    rw [← h, List.drop_left, show done ++ page :: rest = (done ++ [page]) ++
      rest by simp, List.drop_left]
    exact ⟨rfl, rfl⟩
  have hnone : (document.pages.drop document.pages.length).map PageManifest.pageId = [] := by
    rw [List.drop_length]
    rfl
  have hpages : Ends (I []) (processPages pipeline document) (fun _ => I document.pages)
      fun _ => RunState.At pages fun _ => True := by
    refine ends_processPages_of I (fun done page rest _ => ?_) fun done page rest h => ?_
    · exact (ends_silent untold_checkAbort _).mono (fun _ h => h) (fun _ _ h => h) htrue
    · obtain ⟨hbefore, hafter⟩ := hleft h
      show Ends (RunState.At pages (· = .idle ((document.pages.drop done.length).map _))) _
        (fun _ => RunState.At pages
          (· = .idle ((document.pages.drop (done ++ [page]).length).map _))) _
      rw [hbefore, hafter]
      exact ends_processPage_at
  -- the door says nothing, and `run_started` names as many pages as the monitor expects
  have hends : Ends (RunState.At pages (· = .opening pages)) (correctDocument pipeline document)
      (fun _ => RunState.At pages (· = .idle [])) fun _ => RunState.At pages fun _ => True := by
    unfold correctDocument preflight
    refine Ends.bind (q := fun _ => RunState.At pages (· = .opening pages)) ?_ fun _ => ?_
    · cases ensureIdentities document with
      | ok _ => exact ends_pure fun _ h => h
      | error _ => exact ends_throw (htrue .aborted)
    refine Ends.bind (q := fun _ => I [])
      ((ends_emit_at ?_).mono (fun _ h => h) (fun _ _ h => h) htrue)
      fun _ => hpages.mono (fun _ h => h) (fun _ _ h => ?_) fun _ _ h => h
    · rintro x rfl
      exact ⟨_, if_pos hlength, rfl⟩
    · exact hnone ▸ h
  have hstart : (initialState document).At pages (· = .opening pages) :=
    ⟨addressed_heap document, _, rfl, rfl⟩
  have hend := hends _ hstart
  -- the closing passes emit nothing, so the stream ends where the page loop left it
  rw [passed_run.events]
  unfold run runPipeline
  rw [Prog.exec_bind]
  rcases hexec : (correctDocument pipeline document).exec (initialState document) with ⟨res, s⟩
  rw [hexec] at hend
  cases res with
  | error fault => exact ⟨hend.reads.follows, fun h => nomatch h⟩
  | ok totals =>
    refine ⟨hend.reads.follows, fun _ => ?_⟩
    obtain ⟨x, hx, rfl⟩ := hend.reads
    exact hx

example : ((streamMonitor ["p1".toList, "p2".toList]).read
    (@run .ascii .plain (.plain (.answering [])
    .default) (builtDocument .default cleanFiles)).2.events) = some (.idle []) := by decide +kernel

end Saknussemm
