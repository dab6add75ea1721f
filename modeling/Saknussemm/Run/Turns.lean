import Saknussemm.Run.Answers
import Saknussemm.Run.Completion

/-! # Every line gets one turn.

A run is its pages in their order, each page once, and then the passes,
which answer nothing and judge no join. -/

namespace Saknussemm

open Effects

section Turns

variable [Unicode] {pipeline : CorrectionPipeline} {document : DocumentManifest}

/-! ## Page after page -/

/-- What the page loop keeps, told by the pages done so far. -/
theorem ends_processPages_of [Digest] (I : List PageManifest → RunState → Prop)
    {r : Fault → RunState → Prop}
    (habort : ∀ done page rest, done ++ page :: rest = document.pages →
      Ends (I done) (checkAbort pipeline) (fun _ => I done) r)
    (hpage : ∀ done page rest, done ++ page :: rest = document.pages →
      Ends (I done) (processPage pipeline document page) (fun _ => I (done ++ [page])) r) :
    Ends (I []) (processPages pipeline document) (fun _ => I document.pages) r := by
  refine ends_foldlM_of_append (fun done page rest hdone totals => ?_) (0, 0)
  obtain ⟨chunks, reconciled⟩ := totals
  refine (habort done page rest hdone).bind fun _ => ?_
  exact Ends.bind (hpage done page rest hdone) fun _ => ends_pure fun _ h => h

/-- What the run keeps up to its passes, past the door. -/
theorem ends_correctDocument_of [Digest] (hdoor : ensureIdentities document = .ok ())
    (I : List PageManifest → RunState → Prop) {r : Fault → RunState → Prop}
    (hemit : ∀ event, event.isAnswer = false → Ends (I []) (emit pipeline event) (fun _ => I []) r)
    (hpages : Ends (I []) (processPages pipeline document) (fun _ => I document.pages) r) :
    Ends (I []) (correctDocument pipeline document) (fun _ => I document.pages) r := by
  unfold correctDocument preflight
  rw [hdoor]
  refine Ends.bind (q := fun _ => I []) (ends_pure fun _ h => h) fun _ => ?_
  exact Ends.bind (hemit _ (by rfl)) fun _ => hpages

/-- A document refused at the door leaves nothing behind. -/
theorem state_refused [Digest] (hdoor : ensureIdentities document ≠ .ok ()) (s : RunState) :
    ((correctDocument pipeline document).exec s).2 = s := by
  unfold correctDocument preflight
  cases hidentities : ensureIdentities document with
  | ok _ => exact absurd hidentities hdoor
  | error error => rfl

/-! ## The passes -/

/-- What the passes change: decisions, and marks that are no join's. -/
structure Passed (s s' : RunState) : Prop where
  joins : s'.joins = s.joins
  events : s'.events = s.events
  lines : SameSkeleton s.heap s'.heap

omit [Unicode] in
theorem Passed.refl (s : RunState) : Passed s s := ⟨rfl, rfl, .refl _⟩

omit [Unicode] in
theorem Passed.trans {s s' s'' : RunState} (h : Passed s s') (h' : Passed s' s'') : Passed s s'' :=
  ⟨h'.joins.trans h.joins, h'.events.trans h.events, h.lines.trans h'.lines⟩

omit [Unicode] in
theorem passed_fallBack (line : LineRef) (reason : FallbackReason) (s : RunState) :
    Passed s (fallBack line reason s) :=
  ⟨joins_of_trail rfl rfl, rfl, sameSkeleton_fallBack _ _ _⟩

omit [Unicode] in
theorem passed_applyUnitReverts (pass : RevertPass) (reverts : Dict LineRef FallbackReason)
    (s : RunState) : Passed s (applyUnitReverts document pass reverts s).2 := by
  unfold applyUnitReverts
  split
  · exact .refl s
  · show Passed s (revertAll document _ s)
    unfold revertAll
    generalize List.filter _ _ = entries
    induction entries generalizing s with
    | nil => exact .refl s
    | cons entry entries ih => exact (passed_fallBack entry.1 entry.2 s).trans (ih _)

/-- Putting breaks back is a closing pass. -/
theorem passed_preserveBreakChars (s : RunState) : Passed s (preserveBreakChars document s) := by
  unfold preserveBreakChars
  generalize document.refs = refs
  induction refs generalizing s with
  | nil => exact .refl s
  | cons ref refs ih =>
    refine Passed.trans ?_ (ih (preserveBreakCharOf ref s))
    unfold preserveBreakCharOf
    dsimp only
    split
    · exact .refl s
    · split
      · exact .refl s
      · exact ⟨joins_of_trail rfl rfl, rfl, sameSkeleton_renormalise _ _ _⟩

/-- **The passes answer no chunk, judge no join and cut no link.** -/
theorem passed_finalizePasses (s : RunState) : Passed s (finalizePasses pipeline document s).2 := by
  have hspelt : Passed s (preserveBreakChars document (globalAdjacencyPass pipeline document s)) :=
    (passed_applyUnitReverts _ _ _).trans (passed_preserveBreakChars _)
  unfold finalizePasses lossPolicyPass
  split
  · exact hspelt.trans (passed_applyUnitReverts _ _ _)
  · split
    · exact hspelt
    · exact hspelt.trans (passed_applyUnitReverts _ _ _)

/-- A run stops with its pages, or leaves what the passes make of them. -/
theorem state_run [Digest] :
    let s := ((correctDocument pipeline document).exec (initialState document)).2
    (run pipeline document).2 = s ∨ (run pipeline document).2 =
    (finalizePasses pipeline document s).2 := by
  unfold run runPipeline
  dsimp only
  rw [Prog.exec_bind]
  rcases (correctDocument pipeline document).exec (initialState document) with ⟨res, s⟩
  cases res with
  | error fault => exact .inl rfl
  | ok totals =>
    right
    show ((finalizeDocument pipeline document totals).exec s).2 = _
    unfold finalizeDocument
    rw [Prog.exec_bind_ok (Prog.exec_get s)]
    rcases finalizePasses pipeline document s with ⟨sidecar, s'⟩
    dsimp only
    rw [Prog.exec_bind_ok (show Prog.exec (set s' : RunM PUnit) s = (.ok ⟨⟩, s') from rfl)]
    cases deriveDecisionSet document s' <;> rfl

/-- A run leaves what its pages left, but for the passes. -/
theorem passed_run [Digest] : Passed
    ((correctDocument pipeline document).exec (initialState document)).2
    (run pipeline document).2 := by
  rcases @state_run _ pipeline document _ with hstopped | hpassed
  · rw [hstopped]
    exact .refl _
  · rw [hpassed]
    exact passed_finalizePasses _

/-! ## One answer for each line -/

/-- Walking the units keeps the skeletons. -/
theorem sameSkeleton_walkUnitsReconciling (config : GuardConfig) (joins : Dict LineRef Join)
    (textById : Dict Str Str) (members : List LineRef) (state : List LineRef × RunState) :
    SameSkeleton state.2.heap
      (walkUnitsReconciling config joins textById members state).2.heap := by
  induction members generalizing state with
  | nil => exact .refl _
  | cons member members ih =>
    refine SameSkeleton.trans ?_ (ih _)
    unfold visitMember
    split
    · exact .refl _
    · split
      · exact .refl _
      · exact sameSkeleton_reconcileOnePair _ _ _ _

omit [Unicode] in
theorem sameSkeleton_applyLineAcceptance (config : GuardConfig) (workspace : PageWorkspace)
    (textById : Dict Str Str) (lines : List LineRef) (s : RunState) :
    SameSkeleton s.heap (applyLineAcceptance config workspace textById lines s).heap := by
  unfold applyLineAcceptance
  induction lines generalizing s with
  | nil => exact .refl _
  | cons line lines ih => exact (sameSkeleton_judgeLine _ _ _ _ _).trans (ih _)

/-- An answer changes decisions only. -/
theorem sameSkeleton_answered (workspace : PageWorkspace) (chunk : ChunkRequest)
    (textById : Dict Str Str) (s : RunState) :
    SameSkeleton s.heap (answered pipeline workspace chunk textById s).heap :=
  (sameSkeleton_walkUnitsReconciling _ _ _ _ _).trans (sameSkeleton_applyLineAcceptance _ _ _ _ _)

theorem rounds_addressed [Digest] (page : PageManifest) (workspace : PageWorkspace) :
    Rounds pipeline page workspace fun s => Addressed s.heap where
  addressed _ hs := hs
  between _ _ hs h := (h.lines hs).source.addressed hs
  answered _ _ _ hs _ _ _ := (sameSkeleton_answered _ _ _ _).sameSource.addressed hs

omit [Unicode] in
theorem DocumentManifest.Identified.nodup_lineIds (hdoc : document.Identified) {page : PageManifest}
    (hpage : page ∈ document.pages) : (page.refs.map LineRef.lineId).Nodup := by
  have hrefs : page.refs.Nodup := by
    have hnodup := hdoc.refs
    rw [DocumentManifest.refs, List.nodup_flatMap] at hnodup
    exact hnodup.1 page hpage
  refine hrefs.map_on fun x hx y hy hid => ?_
  have hpageId := (hdoc.pageId_of_mem_refs hpage hx).trans (hdoc.pageId_of_mem_refs hpage hy).symm
  cases x
  cases y
  grind

/-- The page's turns of a line: one, on its own page. -/
def turns (ref : LineRef) (pages : List PageManifest) : Nat :=
  pages.countP fun page => page.pageId = ref.pageId

omit [Unicode] in
theorem turns_append_singleton (ref : LineRef) (pages : List PageManifest) (page : PageManifest) :
    turns ref (pages ++ [page]) = turns ref pages + if page.pageId = ref.pageId then 1 else 0 := by
  rw [turns, List.countP_append, List.countP_singleton, turns]
  simp only [decide_eq_true_eq]

omit [Unicode] in
theorem turns_le (ref : LineRef) {done : List PageManifest} {pages : List PageManifest}
    (h : done.Sublist pages) : turns ref done ≤ turns ref pages := h.countP_le

omit [Unicode] in
theorem turns_le_one (hids : (document.pages.map PageManifest.pageId).Nodup) (ref : LineRef) :
    turns ref document.pages ≤ 1 := by
  have hcount := List.nodup_iff_count_le_one.mp hids ref.pageId
  rw [List.count, List.countP_map] at hcount
  refine (List.countP_mono_left fun page _ h => ?_).trans hcount
  simpa using h

/-- What the pages of a document keep, each from its start on. -/
structure Paged [Digest] (pipeline : CorrectionPipeline) (document : DocumentManifest)
    (Kept : Heap → RunState → Prop) : Prop where
  initial : Kept document.heap (initialState document)
  restart : ∀ start s, Kept start s → Kept s.heap s
  between : ∀ start s s', Kept start s → Between s s' → Kept start s'
  rounds : ∀ page ∈ document.pages, ∀ start s, Kept start s →
    Rounds pipeline page (workspaceOf document page start) (Kept start)

/-- **What every page keeps the run keeps**, up to its passes and wherever it
stops, with one answer at most for a line. -/
theorem Paged.correctDocument [Digest] {Kept : Heap → RunState → Prop}
    (h : Paged pipeline document Kept) (hdoor : ensureIdentities document = .ok ())
    (hdoc : document.Identified) (hlists : ∀ page ∈ document.pages, page.ListsOnce)
    (ref : LineRef) : ∃ start, Counted (Kept start) ref 1
      ((correctDocument pipeline document).exec (initialState document)).2 := by
  have hle := turns_le_one (nodup_pageIds hdoor) ref
  -- between two pages the line was met as many times as the pages done hold it
  let I : List PageManifest → RunState → Prop := fun done s =>
    ∃ start, Counted (Kept start) ref (turns ref done) s
  let r : Fault → RunState → Prop := fun _ s => ∃ start, Counted (Kept start) ref 1 s
  have hone : ∀ {done s}, turns ref done ≤ 1 → I done s →
      ∃ start, Counted (Kept start) ref 1 s := by
    rintro done s hturns ⟨start, hs⟩
    exact ⟨start, hs.mono hturns⟩
  have hbetween : ∀ {done : List PageManifest} {α : Type} {m : RunM α}, turns ref done ≤ 1 →
      Steps Between m → Ends (I done) m (fun _ => I done) r := by
    intro done α m hturns hm
    refine (hm.ends fun s s' hs hb => ?_).mono (fun _ h => h) (fun _ _ h => h) fun _
      _ => hone hturns
    obtain ⟨start, hkept, hcount⟩ := hs
    exact ⟨start, h.between start s s' hkept hb, hb.answersFor ref ▸ hcount⟩
  have hdone : ∀ {done page rest}, done ++ page :: rest = document.pages →
      turns ref (done ++ [page]) ≤ 1 ∧ turns ref done ≤ 1 ∧ page ∈ document.pages := by
    intro done page rest hpages
    have hbefore : done ++ [page] <+: document.pages := ⟨rest, by rw [← hpages]; simp⟩
    exact ⟨(turns_le ref hbefore.sublist).trans hle,
      (turns_le ref ((List.prefix_append _ _).trans hbefore).sublist).trans hle, by simp [← hpages]⟩
  have hpages : Ends (I []) (processPages pipeline document) (fun _ => I document.pages) r := by
    refine ends_processPages_of I (fun done page rest h => ?_) fun done page rest hpages => ?_
    · exact hbetween (hdone h).2.1 between_checkAbort
    -- a page starts again from the heap it finds, and adds at most its own turn
    · rintro s ⟨start, hkept, hcount⟩
      obtain ⟨hturns, -, hpage⟩ := hdone hpages
      have hkept := h.restart start s hkept
      have hcounted := ends_processPage_counted (h.rounds page hpage s.heap s hkept)
        ⟨hlists page hpage, blockIds_of_door hdoor hpage⟩
        (hdoc.nodup_lineIds hpage)
          (show Counted (Kept s.heap) ref (turns ref done) s from ⟨hkept, hcount⟩)
      rw [← turns_append_singleton] at hcounted
      exact (hcounted.mono (fun _ h => h) (fun _ s' hs' => (⟨s.heap, hs'⟩ : I (done ++ [page]) s'))
        fun _ s' hs' => hone hturns ⟨s.heap, hs'⟩) s rfl
  have hends := ends_correctDocument_of hdoor I
    (fun event hevent => hbetween (Nat.zero_le _) (between_emit hevent)) hpages
  exact (hends.mono (fun _ h => h) (fun _ s hs => hone hle hs) fun _ _ h => h).state
    (show I [] (initialState document) from ⟨document.heap, h.initial, Nat.le_refl _⟩)

/-- **No line is answered twice**: over a whole run, whatever the producers
answer, however chunks fail and descend and wherever the run stops, one
answered chunk at most owns a line. -/
theorem answersFor_run_le [Digest] (pipeline : CorrectionPipeline) (document : DocumentManifest)
    (hlines : ∀ page ∈ document.pages, ∀ lm ∈ page.lines, lm.pageId = page.pageId)
    (hlists : ∀ page ∈ document.pages, page.ListsOnce) (ref : LineRef) :
    (run pipeline document).2.answersFor ref ≤ 1 := by
  rw [RunState.answersFor, passed_run.events]
  by_cases hdoor : ensureIdentities document = .ok ()
  -- what is kept along the pages is only that the heap answers under its own references
  · have hpaged : Paged pipeline document fun _ s => Addressed s.heap :=
      ⟨addressed_heap document, fun _ _ hs => hs,
        fun _ _ _ hs h => (h.lines hs).source.addressed hs, fun _ _ _ _ _ => rounds_addressed _ _⟩
    obtain ⟨-, -, hcount⟩ := hpaged.correctDocument hdoor
      (identified_of_door hlines hdoor) hlists ref
    exact hcount
  · rw [state_refused hdoor]
    exact Nat.zero_le _

end Turns

/-- A word over two pages, each line of it a target once. -/
theorem answersFor_run_cleanFiles : (@run .ascii .plain (.plain (.answering []) .default)
    (builtDocument .default cleanFiles)).2.answersFor ⟨"p2".toList, "l2".toList⟩ ≤ 1 :=
  @answersFor_run_le .ascii .plain _ _ (by decide +kernel) (by decide +kernel) _

end Saknussemm
