import Saknussemm.Linking.Build
import Saknussemm.Run.Dispatch

/-! # Every run keeps to its budgets and decides every line.

The page loop attends to every line of every page, the passes over the
document take no decision back, and the record of the decisions refuses
nothing. -/

namespace Saknussemm

open Effects

section Completion

variable [Unicode] {refs : List LineRef} {pipeline : CorrectionPipeline}
  {document : DocumentManifest} {page : PageManifest} {s : RunState}

/-! ## Page after page -/

omit [Unicode] in
/-- On its page an id finds its line. -/
theorem lineById_of_mem_refs (hdoc : document.Identified) (hpage : page ∈ document.pages)
    (heap : Heap) {ref : LineRef} (href : ref ∈ page.refs) :
    (workspaceOf document page heap).lineById ref.lineId = some ref := by
  have hsome : ((workspaceOf document page heap).lineById ref.lineId).isSome := by
    rw [PageWorkspace.lineById, List.find?_isSome]
    exact ⟨ref, href, by simp⟩
  obtain ⟨found, hfound⟩ := Option.isSome_iff_exists.mp hsome
  have hid : found.lineId = ref.lineId := by simpa using List.find?_some hfound
  have hmem : found ∈ page.refs := mem_of_lineById hfound
  have hpageId := (hdoc.pageId_of_mem_refs hpage hmem).trans
    (hdoc.pageId_of_mem_refs hpage href).symm
  rw [hfound]
  cases found
  cases ref
  grind

/-- **A page's work decides its lines.** -/
theorem ends_processPage_progress [Digest] (hdoc : document.Identified) (hplaced : page.Placed)
    (hids : (page.blocks.map BlockManifest.blockId).Nodup) (hpage : page ∈ document.pages) :
    Yields (Progress refs) (processPage pipeline document page)
      fun _ => Progress (refs ++ page.refs) := by
  apply ends_get_bind
  intro start
  let workspace := workspaceOf document page start.heap
  have hhoused : Housed page workspace := ⟨rfl, hplaced, hids⟩
  have hpool : (unitPool workspace).Nodup := hdoc.nodup_unitPool hpage start.heap
  refine Ends.bind (q := fun _ => Progress refs)
    ((ends_emit_progress _).mono (fun _ h => h.1 ▸ h.2) (fun _ _ h => h) fun _ _ _ => trivial)
    fun _ => ?_
  refine (ends_planPageChunks hhoused).bind fun items => ?_
  refine Ends.bind (q := fun _ => Progress (refs ++ page.refs)) ?_ fun _ => ?_
  · intro s hs
    -- The lines decided before the calls, then those the calls decide.
    let settled := page.refs.filter fun ref => (s.heap ref).status ≠ .pending
    have hsettled : Progress (refs ++ settled) s :=
      hs.1.settle fun ref href => by simpa using (List.mem_filter.mp href).2
    have hitem : ∀ done item reconciled,
        Ends (Progress (refs ++ settled ++ targetsOf workspace (done.map Prod.fst)))
          (runItem pipeline page workspace reconciled item)
          (fun _ => Progress (refs ++ settled ++
            targetsOf workspace ((done ++ [item]).map Prod.fst)))
          fun _ _ => True := by
      intro done item reconciled
      refine (ends_runItem hhoused hpool reconciled item).mono (fun _ h => h) (fun _ s hs => ?_)
        fun _ _ _ => trivial
      simpa [targetsOf] using hs
    have hcovers : page.refs ⊆ settled ++ targetsOf workspace (items.map Prod.fst) := by
      intro ref href
      have hline := lineById_of_mem_refs hdoc hpage start.heap href
      rcases hs.2 ref hline with hdecided | ⟨chunk, hchunk, htarget, hshown⟩
      · exact List.mem_append_left _ (List.mem_filter.mpr ⟨href, by simpa using hdecided⟩)
      · refine List.mem_append_right _ (List.mem_flatMap.mpr ⟨chunk, hchunk, ?_⟩)
        exact List.mem_filter.mpr ⟨List.mem_filterMap.mpr ⟨_, hshown, hline⟩, by simpa⟩
    refine ((ends_foldlM hitem items [] 0).mono (fun _ h => h) (fun _ s' hs' => ?_)
      fun _ _ _ => trivial) s (by simpa [targetsOf] using hsettled)
    refine hs'.mono (List.append_subset.mpr ⟨fun ref href => ?_, fun ref href => ?_⟩)
    · exact List.mem_append_left _ (List.mem_append_left _ href)
    · rw [List.append_assoc]
      exact List.mem_append_right _ (hcovers href)
  · apply ends_get_bind
    intro s
    refine Ends.bind (q := fun _ => Progress (refs ++ page.refs))
      ((ends_emit_progress _).mono (fun _ h => h.1 ▸ h.2) (fun _ _ h => h) fun _ _ _ => trivial)
      fun _ => ends_pure fun _ h => h

/-- What a page loop that ends has decided. -/
theorem yields_processPages [Digest] (hdoc : document.Identified) {pages : List PageManifest}
    (hpages : ∀ page ∈ pages, page ∈ document.pages ∧ page.Placed ∧
      (page.blocks.map BlockManifest.blockId).Nodup) (totals : Nat × Nat) :
    ∀ refs, Yields (Progress refs)
      (pages.foldlM
        (fun (chunks, reconciled) page => do
          checkAbort pipeline
          let (pageChunks, pageReconciled) ← processPage pipeline document page
          return (chunks + pageChunks, reconciled + pageReconciled) : Nat × Nat → PageManifest →
            RunM (Nat × Nat)) totals)
      fun _ => Progress (refs ++ pages.flatMap PageManifest.refs) := by
  induction pages generalizing totals with
  | nil =>
    intro refs
    exact ends_pure fun _ h => by simpa using h
  | cons page pages ih =>
    intro refs
    rw [List.foldlM_cons, List.flatMap_cons, ← List.append_assoc]
    refine Ends.bind (q := fun _ => Progress (refs ++ page.refs)) ?_
      fun totals => ih (fun p hp => hpages p (by simp [hp])) totals _
    refine Ends.bind (q := fun _ => Progress refs)
      ((quiet_checkAbort.ends fun _ _ hs h => hs.quiet h).mono (fun _ h => h) (fun _ _ h => h)
        fun _ _ _ => trivial) fun _ => ?_
    obtain ⟨hpage, hplaced, hids⟩ := hpages page (by simp)
    refine Ends.bind (ends_processPage_progress hdoc hplaced hids hpage) fun _ => ?_
    exact ends_pure fun _ h => h

omit [Unicode] in
/-- The identity checks at the door, read over a document whose lines carry
their page's id. -/
theorem identified_of_door (hlines : ∀ page ∈ document.pages, ∀ lm ∈ page.lines,
    lm.pageId = page.pageId) (hdoor : ensureIdentities document = .ok ()) :
    document.Identified := by
  refine ⟨hlines, ?_⟩
  have hrefs : document.refs = document.lines.map lineRef := by
    rw [DocumentManifest.refs, DocumentManifest.lines, List.map_flatMap]
    rfl
  rw [hrefs]
  exact nodup_refs hdoor hlines

omit [Unicode] in
/-- The door admits no page with a block id twice. -/
theorem blockIds_of_door (hdoor : ensureIdentities document = .ok ())
    (hpage : page ∈ document.pages) : (page.blocks.map BlockManifest.blockId).Nodup := by
  apply (uniqueIdentities_iff.mp ((ensureIdentities_ok hdoor).1 page hpage)).2.1 page
  exact List.mem_filter.mpr ⟨hpage, by simp⟩

omit [Unicode] in
theorem progress_initialState (htexts : ∀ lm ∈ document.lines, lm.correctedText.isSome →
    lm.status ≠ .pending) : Progress [] (initialState document) := by
  refine ⟨addressed_heap document, fun ref (htext : (document.heap ref).correctedText.isSome) => ?_,
    by simp⟩
  show (document.heap ref).status ≠ .pending
  rcases heap_cases document ref with hmem | hoff
  · exact htexts _ hmem htext
  · rw [hoff] at htext
    cases htext

/-- **When the page loop ends no line is undecided.** -/
theorem yields_correctDocument_progress [Digest] (hlines : ∀ page ∈ document.pages,
    ∀ lm ∈ page.lines, lm.pageId = page.pageId) (hplaced : ∀ page ∈ document.pages, page.Placed) :
    Yields (Progress []) (correctDocument pipeline document) fun _ => Progress document.refs := by
  unfold correctDocument preflight
  cases hdoor : ensureIdentities document with
  | error error =>
    refine Ends.bind (q := fun _ _ => False) (ends_throw fun _ _ => trivial) fun _ => ?_
    exact fun _ h => h.elim
  | ok _ =>
    refine Ends.bind (q := fun _ => Progress []) (ends_pure fun _ h => h) fun _ => ?_
    refine Ends.bind (q := fun _ => Progress [])
      ((ends_emit_progress _).mono (fun _ h => h) (fun _ _ h => h) fun _ _ _ => trivial) fun _ => ?_
    refine yields_processPages (identified_of_door hlines hdoor) (fun page hpage => ?_) _ []
    exact ⟨hpage, hplaced page hpage, blockIds_of_door hdoor hpage⟩

/-! ## The passes -/

omit [Unicode] in
theorem advances_applyUnitReverts (pass : RevertPass) (reverts : Dict LineRef FallbackReason)
    (s : RunState) : Advances s.heap (applyUnitReverts document pass reverts s).2.heap := by
  unfold applyUnitReverts
  split
  · exact .refl _
  · show Advances s.heap (revertAll document _ s).heap
    unfold revertAll
    generalize List.filter _ _ = entries
    induction entries generalizing s with
    | nil => exact .refl _
    | cons entry entries ih => exact (advances_fallBack _ _ _).trans (ih _)

theorem advances_preserveBreakCharOf (ref : LineRef) (s : RunState) :
    Advances s.heap (preserveBreakCharOf ref s).heap := by
  unfold preserveBreakCharOf
  dsimp only
  split
  · exact .refl _
  · next text htext =>
    split
    · exact .refl _
    · exact advances_set (.inr ⟨rfl, by rw [htext]; rfl⟩)

/-- **The passes take no decision back.** -/
theorem advances_finalizePasses (s : RunState) :
    Advances s.heap (finalizePasses pipeline document s).2.heap := by
  have hadjacency : Advances s.heap (globalAdjacencyPass pipeline document s).heap :=
    advances_applyUnitReverts _ _ _
  have hspelling : Advances s.heap
      (preserveBreakChars document (globalAdjacencyPass pipeline document s)).heap := by
    apply hadjacency.trans
    generalize globalAdjacencyPass pipeline document s = s
    unfold preserveBreakChars
    generalize document.refs = refs
    induction refs generalizing s with
    | nil => exact .refl _
    | cons ref refs ih => exact (advances_preserveBreakCharOf ref s).trans (ih _)
  unfold finalizePasses lossPolicyPass
  split
  · exact hspelling.trans (advances_applyUnitReverts _ _ _)
  · split
    · exact hspelling
    · exact hspelling.trans (advances_applyUnitReverts _ _ _)

omit [Unicode] in
theorem deriveDecisionSet_eq_ok {s : RunState}
    (h : ∀ ref ∈ document.refs, (s.heap ref).status ≠ .pending) :
    deriveDecisionSet document s = .ok (document.refs.map (decisionOf s)) := by
  have hnone : document.refs.filter (fun ref => (s.heap ref).status = .pending) = [] := by
    rw [List.filter_eq_nil_iff]
    intro ref href
    simpa using h ref href
  rw [deriveDecisionSet, hnone]

/-- **A run keeps to its budgets, descends finitely, and decides every
line**: a chunk and its whole descent make no more calls than one budget,
whatever the producer does; the runner calls itself at strictly finer
chunks only; and where the page loop ends, no line is undecided and the
decisions are recorded. -/
theorem run_completes [Digest] (document : DocumentManifest)
    (hlines : ∀ page ∈ document.pages, ∀ lm ∈ page.lines, lm.pageId = page.pageId)
    (hplaced : ∀ page ∈ document.pages, page.Placed)
    (htexts : ∀ lm ∈ document.lines, lm.correctedText.isSome → lm.status ≠ .pending)
    (pipeline : CorrectionPipeline) :
    (∀ (page : PageManifest) (workspace : PageWorkspace) (item : ChunkRequest × EditProducer)
      (s : RunState), ((runChunkAbsorbing pipeline page workspace item).exec s).2.calls.length ≤
        s.calls.length + pipeline.retryPolicy.perChunkBudget) ∧
    (∀ (page : PageManifest) (workspace : PageWorkspace) (producer : EditProducer)
      (chunk : ChunkRequest) (budget : ChunkBudget),
      runGranular pipeline producer page workspace chunk budget =
        runChunkWith pipeline producer page workspace
          (runGranular pipeline producer page workspace) chunk budget) ∧
    (∀ (page : PageManifest) (granularity finer : ChunkGranularity),
      downgradeGranularity granularity = some finer →
        ∀ sub ∈ (planPage pipeline.config page (some finer)).1.chunks,
          sub.granularity.depth < granularity.depth) ∧
    ∀ totals s, (correctDocument pipeline document).exec (initialState document) = (.ok totals, s) →
      (∀ ref ∈ document.refs, (s.heap ref).status ≠ .pending) ∧
        ∃ result, (run pipeline document).1 = .ok result := by
  refine ⟨fun page _ => calls_runChunkAbsorbing page, fun _ _ => runGranular_eq,
    fun _ _ _ hfiner sub hsub => depth_lt_of_descend hfiner hsub, fun totals s hexec => ?_⟩
  -- after the pages nothing is pending, and the closing passes only ever decide more
  have hprogress : Progress document.refs s :=
    (yields_correctDocument_progress hlines hplaced).ok (progress_initialState htexts) hexec
  refine ⟨hprogress.settled, ?_⟩
  rcases hpasses : finalizePasses pipeline document s with ⟨sidecar, s'⟩
  have hdecided : ∀ ref ∈ document.refs, (s'.heap ref).status ≠ .pending := by
    intro ref href
    have hadvances : Advances s.heap (finalizePasses pipeline document s).2.heap :=
      advances_finalizePasses s
    rw [hpasses] at hadvances
    exact hadvances.decided (hprogress.settled ref href)
  unfold run runPipeline
  rw [Prog.exec_bind_ok hexec]
  unfold finalizeDocument
  rw [Prog.exec_bind_ok (Prog.exec_get s), hpasses]
  dsimp only
  have hset : Prog.exec (set s' : RunM PUnit) s = (.ok ⟨⟩, s') := rfl
  rw [Prog.exec_bind_ok hset, deriveDecisionSet_eq_ok hdecided]
  exact ⟨_, rfl⟩

end Completion

/-- Two clean pages, whose every line a producer leaves alone. -/
theorem run_completes_cleanFiles :
    ∃ result, (@run .ascii .plain (.plain (.answering []) .default)
      (builtDocument .default cleanFiles)).1 = .ok result := by
  have hok : ((@correctDocument .ascii .plain (.plain (.answering []) .default)
      (builtDocument .default cleanFiles)).exec
      (initialState (builtDocument .default cleanFiles))).1.isOk = true := by decide +kernel
  have hruns := (@run_completes .ascii .plain (builtDocument .default cleanFiles)
    (by decide +kernel)
    (by decide +kernel) (by decide +kernel) (.plain (.answering []) .default)).2.2.2
  rcases hexec : (@correctDocument .ascii .plain (.plain (.answering []) .default)
    (builtDocument .default cleanFiles)).exec (initialState (builtDocument .default cleanFiles))
    with ⟨res, s⟩
  rw [hexec] at hok
  cases res with
  | error fault => cases hok
  | ok totals => exact (hruns totals s hexec).2

end Saknussemm
