import Saknussemm.Run.Decisions

/-! # Pages one after the other.

A page's work reaches lines of other pages only where a hyphen link
crosses to them.  A line without a role is named by no such link, so it is
still undecided when its own page begins, which is when it may be
confirmed without a call. -/

namespace Saknussemm

open Effects Relation

/-! ## What a page's work reaches -/

section Reach

variable [Unicode] {s s' : RunState} {pipeline : CorrectionPipeline} {page : PageManifest}
  {workspace : PageWorkspace}

omit [Unicode] in
/-- Judging a line leaves every other alone. -/
theorem heap_judgeLine_of_ne (config : GuardConfig) (textById : Dict Str Str) {line ref : LineRef}
    (h : ref ≠ line) (s : RunState) :
    (judgeLine config workspace textById line s).heap ref = s.heap ref := by
  unfold judgeLine
  dsimp only
  split
  · rfl
  · split
    · rfl
    · split
      · rw [heap_fallBack, if_neg h]
      · rw [heap_accept, if_neg h]

/-- Visiting a pair leaves every other line alone. -/
theorem heap_visitJoin_of_ne (config : GuardConfig) (join : Join) (textById : Dict Str Str)
    {ref : LineRef} (htail : ref ≠ join.tail) (hhead : ref ≠ join.head) (s : RunState) :
    (visitJoin config join textById s).heap ref = s.heap ref := by
  show (reconcileOnePair config join textById s).2.heap ref = _
  have hfell : ∀ s, (fallBackJoin join s).heap ref = s.heap ref := by
    intro s
    rw [fallBackJoin, heap_fallBack, if_neg hhead, heap_fallBack, if_neg htail]
  have hsubs : ∀ subs s, (writeSubs join subs s).heap ref = s.heap ref := by
    intro subs s
    rw [writeSubs]
    dsimp only
    rw [Heap.set_of_ne htail, Heap.set_of_ne hhead]
  unfold reconcileOnePair
  dsimp only
  split
  · exact hfell _
  · rw [hsubs]
    split
    · exact hfell _
    · rw [heap_accept, if_neg hhead, heap_accept, if_neg htail]
      rfl

omit [Unicode] in
theorem mem_unitPool_of_mem_unitRefs {heap : Heap} (hpool : (unitPool workspace).Nodup)
    (haddr : Addressed heap) {seeds : List LineRef} (hseeds : ∀ ref ∈ seeds, ref ∈ workspace.refs)
    {ref : LineRef} (h : ref ∈ unitRefs workspace heap seeds) : ref ∈ unitPool workspace := by
  rcases (mem_unitRefs_iff hpool haddr seeds ref).mp h with hseed | ⟨hin, -⟩
  · exact List.mem_append_left _ (hseeds ref hseed)
  · exact hin

omit [Unicode] in
/-- Planning some lines again touches no other. -/
theorem heap_replanned_of_not_mem (haddr : Addressed s.heap) {refs : List LineRef}
    (hpage : page.lines = linesOf s.heap refs) {config : ChunkPlannerConfig}
    {force : Option ChunkGranularity} {ref : LineRef} (href : ref ∉ refs) :
    (replanned config page force s).heap ref = s.heap ref := by
  rcases writeLines_cases s.heap (planPage config page force).2 ref with hsame
    | ⟨lm, hlm, hlmref, -⟩
  · exact hsame
  · have hmem := List.mem_map_of_mem (f := LineManifest.untied) hlm
    rw [untied_planPage, hpage] at hmem
    obtain ⟨old, hold, heq⟩ := List.mem_map.mp hmem
    obtain ⟨r, hr, rfl⟩ := List.mem_map.mp hold
    have hr' : r = ref := by
      rw [← haddr r, show lineRef (s.heap r) = lineRef (s.heap r).untied from rfl, heq]
      exact hlmref
    exact absurd (hr' ▸ hr) href

/-- **A chunk leaves the lines outside its page's sight alone.** -/
theorem heap_chunkStep_of_not_mem (hpool : (unitPool workspace).Nodup) (haddr : Addressed s.heap)
    (h : ChunkStep pipeline page workspace s s') {ref : LineRef} (href : ref ∉ unitPool workspace) :
    s'.heap ref = s.heap ref := by
  have hrefs : ref ∉ workspace.refs := fun hin => href (List.mem_append_left _ hin)
  have hpartner : ref ∉ workspace.crossPagePartners := fun hin => href (List.mem_append_right _ hin)
  cases h with
  | quiet h => rw [h.heap]
  | capture captured => rfl
  -- a join writes its tail and its head, each of them in the page or among its partners
  | join join textById _ hclaimed hlines =>
    rcases hclaimed.owned with ⟨htail, next, -, -, hhead⟩ | ⟨hhead, -, -, htail⟩
    · refine heap_visitJoin_of_ne _ _ _ ?_ ?_ _
      · rintro rfl
        exact hrefs htail
      · rintro rfl
        exact hrefs (mem_of_lineById hhead)
    · refine heap_visitJoin_of_ne _ _ _ ?_ ?_ _
      · rintro rfl
        exact hpartner htail
      · rintro rfl
        exact hrefs hhead
  | judge line textById _ hline hlines =>
    refine heap_judgeLine_of_ne _ _ ?_ _
    rintro rfl
    exact hrefs hline
  | exhaust targets failure _ htargets =>
    rw [heap_exhaustTargets, if_neg]
    rintro (htarget | ⟨hunit, -⟩)
    · exact hrefs (htargets ref htarget)
    · refine href (mem_unitPool_of_mem_unitRefs hpool ?_ htargets hunit)
      exact (sameSkeleton_fallBackToSource _ _ _).sameSource.addressed haddr
  -- only undecided targets and their units fall
  | absorb chunk message =>
    unfold absorbChunkError
    dsimp only
    split
    · rfl
    · show (fallBackToSource _ _ _).heap ref = _
      rw [heap_fallBackToSource, if_neg]
      · rfl
      · intro hunit
        refine href (mem_unitPool_of_mem_unitRefs hpool haddr (fun r hr => ?_) hunit)
        obtain ⟨id, -, hid⟩ := List.mem_filterMap.mp (List.mem_filter.mp hr).1
        exact mem_of_lineById hid
  | descend targets finer _ htargets =>
    exact heap_replanned_of_not_mem haddr rfl fun hin => hrefs (htargets ref hin)

/-- A chunk changes the links of no line outside its page. -/
theorem skeleton_chunkStep_of_not_mem (haddr : Addressed s.heap)
    (h : ChunkStep pipeline page workspace s s') {ref : LineRef} (href : ref ∉ workspace.refs) :
    (s'.heap ref).skeleton = (s.heap ref).skeleton := by
  cases h with
  | quiet h => rw [h.heap]
  | capture captured => rfl
  | join join textById _ hclaimed hlines => exact sameSkeleton_visitJoin _ _ _ ref
  | judge line textById _ hline hlines => exact sameSkeleton_judgeLine _ _ _ _ _ ref
  | exhaust targets failure _ htargets => exact sameSkeleton_exhaustTargets _ _ _ _ ref
  | absorb chunk message => exact sameSkeleton_absorbChunkError _ _ _ _ ref
  | descend targets finer _ htargets =>
    rw [heap_replanned_of_not_mem haddr rfl fun hin => href (htargets ref hin)]

end Reach

/-! ## Lines whose page is still to come -/

section Phases

variable {document : DocumentManifest}

/-- The line has its document's links, and without a role it is undecided. -/
structure Fresh (document : DocumentManifest) (heap : Heap) (ref : LineRef) : Prop where
  skeleton : (heap ref).skeleton = (document.heap ref).skeleton
  pending : (document.heap ref).hyphenRole = .none → (heap ref).status = .pending

/-- Every link that crosses to another page names a line with a role. -/
def DocumentManifest.CrossingsRoled (document : DocumentManifest) : Prop :=
  ∀ page ∈ document.pages, ∀ ref ∈ crossPagePartners document page document.heap,
    (document.heap ref).hyphenRole ≠ .none

/-- The partners across a page are read off the skeletons of its lines. -/
theorem crossPagePartners_congr {page : PageManifest} {h h' : Heap}
    (hs : ∀ ref ∈ page.refs, (h' ref).skeleton = (h ref).skeleton) :
    crossPagePartners document page h' = crossPagePartners document page h := by
  have hslots : ∀ lm : LineManifest,
      [(lm.hyphenPairLineId, lm.hyphenPairPageId),
        (lm.hyphenForwardPairId, lm.hyphenForwardPairPageId)] =
      [(lm.skeleton.hyphenPairLineId, lm.skeleton.hyphenPairPageId),
        (lm.skeleton.hyphenForwardPairId, lm.skeleton.hyphenForwardPairPageId)] := fun _ => rfl
  have hflat : ((linesOf h' page.refs).flatMap fun lm =>
      [(lm.hyphenPairLineId, lm.hyphenPairPageId),
        (lm.hyphenForwardPairId, lm.hyphenForwardPairPageId)]) =
      (linesOf h page.refs).flatMap fun lm =>
        [(lm.hyphenPairLineId, lm.hyphenPairPageId),
          (lm.hyphenForwardPairId, lm.hyphenForwardPairPageId)] := by
    simp only [linesOf, List.flatMap_map]
    refine List.flatMap_congr fun ref href => ?_
    rw [hslots (h' ref), hs ref href, ← hslots]
  rw [crossPagePartners, crossPagePartners, hflat]

variable [Unicode] {pipeline : CorrectionPipeline} {page : PageManifest} {start : Heap}
  {s s' : RunState}

omit [Unicode] in
theorem writeLines_self (haddr : Addressed start) (refs : List LineRef) :
    writeLines start (linesOf start refs) = start := by
  funext ref
  rcases writeLines_cases start (linesOf start refs) ref with hsame | ⟨lm, hlm, hlmref, hwritten⟩
  · exact hsame
  · obtain ⟨r, -, rfl⟩ := List.mem_map.mp hlm
    rw [hwritten, ← hlmref, haddr r]

omit [Unicode] in
theorem decided_confirm (lines : List LineRef) (hs : Decided s)
    (hlines : ∀ line ∈ lines, (s.heap line).status ≠ .fallback) :
    Decided (lines.foldl (fun s line => accept line (s.heap line).ocrText s) s) := by
  induction lines generalizing s with
  | nil => exact hs
  | cons line lines ih =>
    refine ih (hs.accept (hlines line (by simp))) fun line' hline' => ?_
    rw [heap_accept]
    split
    · simp
    · exact hlines line' (by simp [hline'])

omit [Unicode] in
/-- Only a line without a role is skipped. -/
theorem role_of_mem_skip {scorer : Str → ℚ} {lines : List LineManifest} {lineId : Str}
    (h : lineId ∈ (scorePageIntoTiers pipeline scorer lines).skip) :
    ∃ lm ∈ lines, lm.lineId = lineId ∧ lm.hyphenRole = .none := by
  obtain ⟨tiers, htiers, hskip⟩ := List.mem_flatMap.mp h
  obtain ⟨lm, hlm, rfl⟩ := List.mem_map.mp htiers
  refine ⟨lm, hlm, ?_⟩
  unfold tierOf at hskip
  dsimp only at hskip
  split at hskip
  · cases hskip
  · dsimp only at hskip
    split at hskip
    · next hrole => exact ⟨(List.mem_singleton.mp hskip).symm, hrole⟩
    · cases hskip
  · split at hskip
    · cases hskip
    · split at hskip <;> cases hskip

/-- **A page's steps keep its lines decided as they may be**, when it began
with the links of its document and its lines without a role undecided. -/
theorem decided_pageStep (hdoc : document.Identified) (hpage : page ∈ document.pages)
    (hs : Decided s) (haddr : Addressed s.heap) (hstart : Addressed start)
    (hfresh : ∀ ref ∈ page.refs, Fresh document start ref)
    (h : PageStep pipeline document page start s s') : Decided s' := by
  cases h with
  | chunk h => exact hs.chunkStep haddr h
  | plan => exact hs.replanned (untied_replanned haddr rfl _ _)
  | confirm scorer _ hheap =>
    rw [writeLines_self hstart] at hheap
    refine decided_confirm _ hs fun line hline => ?_
    obtain ⟨id, hid, hfound⟩ := List.mem_filterMap.mp hline
    have hmem : line ∈ page.refs := mem_of_lineById hfound
    have hlineId : line.lineId = id := by simpa using List.find?_some hfound
    obtain ⟨lm, hlm, hlmId, hrole⟩ := role_of_mem_skip hid
    obtain ⟨r, hr, rfl⟩ := List.mem_map.mp hlm
    have hr' : r = line := by
      have hrId : r.lineId = (s.heap r).lineId := congrArg LineRef.lineId (haddr r).symm
      have hpageId := (hdoc.pageId_of_mem_refs hpage hr).trans
        (hdoc.pageId_of_mem_refs hpage hmem).symm
      cases r
      cases line
      grind
    subst hr'
    rw [hheap] at hrole ⊢
    have hdocument : (document.heap r).hyphenRole = .none := by
      rw [show (document.heap r).hyphenRole = (document.heap r).skeleton.hyphenRole from rfl,
        ← (hfresh r hr).skeleton]
      exact hrole
    rw [(hfresh r hr).pending hdocument]
    simp

/-- **Lines of other pages stay fresh.** -/
theorem fresh_pageStep (haddr : Addressed s.heap) (hdoc : document.Identified)
    (hroled : document.CrossingsRoled) (hpage : page ∈ document.pages)
    (hfresh : ∀ ref ∈ page.refs, Fresh document start ref)
    (h : PageStep pipeline document page start s s') {ref : LineRef} (href : ref ∉ page.refs)
    (hs : Fresh document s.heap ref) : Fresh document s'.heap ref := by
  cases h with
  -- another page's chunk writes a foreign line only as a partner, which bears a role
  | chunk h =>
    refine ⟨(skeleton_chunkStep_of_not_mem haddr h href).trans hs.skeleton, fun hrole => ?_⟩
    rw [heap_chunkStep_of_not_mem (hdoc.nodup_unitPool hpage start) haddr h]
    · exact hs.pending hrole
    · rw [unitPool, List.mem_append, not_or]
      refine ⟨href, fun hpartner => hroled page hpage ref ?_ hrole⟩
      rwa [← crossPagePartners_congr fun r hr => (hfresh r hr).skeleton]
  | plan =>
    have hsame : (replanned pipeline.config (currentPage s.heap page) none s).heap ref =
        s.heap ref := heap_replanned_of_not_mem haddr rfl href
    exact ⟨by rw [hsame]; exact hs.skeleton, by rw [hsame]; exact hs.pending⟩
  -- confirming accepts lines of this page only
  | confirm scorer _ hheap =>
    have hsame : ∀ lines : List LineRef, ref ∉ lines → ∀ s : RunState,
        (lines.foldl (fun s line => accept line (s.heap line).ocrText s) s).heap ref =
          s.heap ref := by
      intro lines
      induction lines with
      | nil => exact fun _ _ => rfl
      | cons line lines ih =>
        intro hnot s
        rw [List.mem_cons, not_or] at hnot
        rw [List.foldl_cons, ih hnot.2, heap_accept, if_neg hnot.1]
    have hkept : (confirmSkippedLines (workspaceOf document page start)
        (scorePageIntoTiers pipeline scorer (linesOf s.heap page.refs)).skip s).heap ref =
        s.heap ref := by
      refine hsame _ (fun hline => href ?_) s
      obtain ⟨id, -, hfound⟩ := List.mem_filterMap.mp hline
      exact mem_of_lineById hfound
    exact ⟨by rw [hkept]; exact hs.skeleton, by rw [hkept]; exact hs.pending⟩

/-! ## Page after page -/

/-- Where a run stands with these pages still to come. -/
structure Phase (document : DocumentManifest) (rest : List PageManifest) (s : RunState) : Prop where
  sourced : Sourced document s
  decided : Decided s
  fresh : ∀ page ∈ rest, ∀ ref ∈ page.refs, Fresh document s.heap ref

omit [Unicode] in
theorem Phase.quiet {rest : List PageManifest} (hs : Phase document rest s) (h : Quiet s s') :
    Phase document rest s' where
  sourced := by
    rw [Sourced, h.heap]
    exact hs.sourced
  decided := hs.decided.quiet h
  fresh page hpage ref href := by
    rw [h.heap]
    exact hs.fresh page hpage ref href

omit [Unicode] in
theorem ends_quiet {α : Type} {m : RunM α} {rest : List PageManifest} (hm : Steps Quiet m) :
    Ends (Phase document rest) m (fun _ => Phase document rest) fun _ => Phase document rest :=
  hm.ends fun _ _ hs h => hs.quiet h

/-- **A page's work leaves the later pages to come.** -/
theorem ends_processPage [Digest] (hdoc : document.Identified) (hroled : document.CrossingsRoled)
    {rest : List PageManifest} (hrest : (page :: rest) <:+ document.pages) :
    Ends (Phase document (page :: rest)) (processPage pipeline document page)
      (fun _ => Phase document rest) fun _ => Phase document rest := by
  intro s hs
  have hpage : page ∈ document.pages := hrest.subset (by simp)
  have hfresh := hs.fresh page (by simp)
  have hother : ∀ q ∈ rest, ∀ ref ∈ q.refs, ref ∉ page.refs := by
    obtain ⟨front, hfront⟩ := hrest
    have hnodup := hdoc.refs
    rw [DocumentManifest.refs, ← hfront, List.flatMap_append, List.flatMap_cons] at hnodup
    have hdisjoint := (List.nodup_append.mp (List.nodup_append.mp hnodup).2.1).2.2
    intro q hq ref href hin
    exact hdisjoint ref hin ref (List.mem_flatMap.mpr ⟨q, hq, href⟩) rfl
  have hsteps : ReflTransGen (PageStep pipeline document page s.heap) s
      ((processPage pipeline document page).exec s).2 := steps_processPage s
  have hend : Phase document rest ((processPage pipeline document page).exec s).2 := by
    generalize ((processPage pipeline document page).exec s).2 = s' at hsteps ⊢
    induction hsteps with
    | refl => exact ⟨hs.sourced, hs.decided, fun q hq => hs.fresh q (by simp [hq])⟩
    | tail _ hstep ih =>
      exact ⟨sourced_runStep ih.sourced (.page hpage hstep),
        decided_pageStep hdoc hpage ih.decided ih.sourced.addressed
          hs.sourced.addressed hfresh hstep,
        fun q hq ref href => fresh_pageStep ih.sourced.addressed hdoc hroled hpage hfresh hstep
          (hother q hq ref href) (ih.fresh q hq ref href)⟩
  rcases hexec : (processPage pipeline document page).exec s with ⟨res, s'⟩
  rw [hexec] at hend
  cases res <;> exact hend

/-- The page loop goes through the phases of the pages left. -/
theorem ends_processPages [Digest] (hdoc : document.Identified) (hroled : document.CrossingsRoled)
    {pages : List PageManifest} (hpages : pages <:+ document.pages) (totals : Nat × Nat) :
    Ends (Phase document pages)
      (pages.foldlM
        (fun (chunks, reconciled) page => do
          checkAbort pipeline
          let (pageChunks, pageReconciled) ← processPage pipeline document page
          return (chunks + pageChunks, reconciled + pageReconciled) : Nat × Nat → PageManifest →
            RunM (Nat × Nat)) totals)
      (fun _ => Phase document []) fun _ => Phase document [] := by
  have hlast : ∀ {rest : List PageManifest} {s : RunState}, Phase document rest s →
      Phase document [] s := fun hs => ⟨hs.sourced, hs.decided, by simp⟩
  induction pages generalizing totals with
  | nil => exact ends_pure fun _ hs => hs
  | cons page pages ih =>
    rw [List.foldlM_cons]
    refine Ends.bind (q := fun _ => Phase document pages) ?_
      fun totals => ih ((List.suffix_cons _ _).trans hpages) totals
    refine Ends.bind (q := fun _ => Phase document (page :: pages))
      ((ends_quiet quiet_checkAbort).mono (fun _ h => h) (fun _ _ h => h) fun _ _ => hlast)
      fun _ => ?_
    refine Ends.bind (q := fun _ => Phase document pages)
      ((ends_processPage hdoc hroled hpages).mono (fun _ h => h) (fun _ _ h => h) fun _ _ => hlast)
      fun _ => ends_pure fun _ h => h

/-- **However its pages end, a run has decided its lines as it may.** -/
theorem ends_correctDocument_phase [Digest]
    (hdoc : ensureIdentities document = .ok () → document.Identified ∧ document.CrossingsRoled) :
    Ends (Phase document document.pages) (correctDocument pipeline document)
      (fun _ => Phase document []) fun _ => Phase document [] := by
  have hlast : ∀ {rest : List PageManifest} {s : RunState}, Phase document rest s →
      Phase document [] s := fun hs => ⟨hs.sourced, hs.decided, by simp⟩
  unfold correctDocument preflight
  cases hdoor : ensureIdentities document with
  | error error =>
    refine Ends.bind (q := fun _ _ => False) (ends_throw fun _ => hlast) fun _ => ?_
    exact fun _ h => h.elim
  | ok _ =>
    refine Ends.bind (q := fun _ => Phase document document.pages)
      (ends_pure fun _ h => h) fun _ => ?_
    refine Ends.bind (q := fun _ => Phase document document.pages)
      ((ends_quiet (quiet_emit _)).mono (fun _ h => h) (fun _ _ h => h) fun _ _ => hlast) fun _ =>
        ?_
    exact ends_processPages (hdoc hdoor).1 (hdoc hdoor).2 (List.suffix_refl _) _

end Phases

end Saknussemm
