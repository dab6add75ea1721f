import Saknussemm.Library.Pointwise
import Saknussemm.Planning.LinePlan
import Saknussemm.Run.Lifecycle

/-! # A broken word falls whole.

No run should leave one side of a hyphen link on its source and the other
corrected.  The joins of a chain are judged one after the other and a
chunk's ending reaches no farther than its page can see, so a step may tear
a link; a run none of whose steps does keeps every word whole. -/

namespace Saknussemm

open Effects Relation

/-! ## Live links -/

/-- Two lines of the document, the first of which continues onto the
second. -/
def Continues (document : DocumentManifest) (heap : Heap) (tail head : LineRef) : Prop :=
  tail ∈ document.refs ∧ head ∈ document.refs ∧ forwardPartnerRef (heap tail) = some head

/-- The two lines are the sides of one broken word. -/
def Sides (document : DocumentManifest) (heap : Heap) (x y : LineRef) : Prop :=
  Continues document heap x y ∨ Continues document heap y x

/-- No word is reverted on one line and corrected on the other. -/
def Whole (document : DocumentManifest) (heap : Heap) : Prop :=
  ∀ x y, Sides document heap x y → (heap x).status = .fallback → (heap y).status ≠ .corrected

instance (document : DocumentManifest) (heap : Heap) (x y : LineRef) :
    Decidable (Sides document heap x y) :=
  inferInstanceAs (Decidable ((_ ∧ _ ∧ _) ∨ (_ ∧ _ ∧ _)))

section Links

variable {document : DocumentManifest} {h h' : Heap} {x y : LineRef}

theorem Sides.symm (hs : Sides document h x y) : Sides document h y x := Or.symm hs

/-- Links that were only cut were there before. -/
def FewerLinks (h h' : Heap) : Prop := ∀ ref,
  forwardPartnerRef (h' ref) = forwardPartnerRef (h ref) ∨ forwardPartnerRef (h' ref) = none

theorem Sides.of_fewer (hlinks : FewerLinks h h') (hs : Sides document h' x y) :
    Sides document h x y := by
  have hcontinues : ∀ {x y : LineRef}, Continues document h' x y → Continues document h x y := by
    rintro x y ⟨hx, hy, hforward⟩
    rcases hlinks x with hsame | hnone
    · exact ⟨hx, hy, hsame ▸ hforward⟩
    · rw [hnone] at hforward
      cases hforward
  exact hs.imp hcontinues hcontinues

theorem SameSkeleton.fewer (hs : SameSkeleton h h') : FewerLinks h h' := fun ref => .inl
    (hs.forward ref)

/-- Some lines are put back, and each line they are linked to is, or is not
corrected. -/
theorem Whole.putBack (hw : Whole document h) (hlinks : FewerLinks h h') (fallen : LineRef → Prop)
    (hfell : ∀ ref, fallen ref → (h' ref).status = .fallback)
    (hstands : ∀ ref, ¬ fallen ref → (h' ref).status = (h ref).status)
    (hedge : ∀ x y, Sides document h x y → fallen x → ¬ fallen y → (h y).status ≠ .corrected) :
    Whole document h' := by
  intro x y hsides hx
  have hbefore := hsides.of_fewer hlinks
  by_cases hy : fallen y
  · rw [hfell y hy]
    simp
  · rw [hstands y hy]
    by_cases hxf : fallen x
    · exact hedge x y hbefore hxf hy
    · exact hw x y hbefore (hstands x hxf ▸ hx)

/-- One line is corrected, and no line it is linked to has fallen. -/
theorem Whole.correct (hw : Whole document h) (hlinks : FewerLinks h h') (line : LineRef)
    (hline : (h' line).status = .corrected)
    (hstands : ∀ ref, ref ≠ line → (h' ref).status = (h ref).status)
    (hedge : ∀ y, Sides document h line y → (h y).status ≠ .fallback) : Whole document h' := by
  intro x y hsides hx
  have hbefore := hsides.of_fewer hlinks
  have hxline : x ≠ line := by
    rintro rfl
    rw [hline] at hx
    cases hx
  rw [hstands x hxline] at hx
  by_cases hy : y = line
  · subst hy
    exact absurd hx (hedge x hbefore.symm)
  · rw [hstands y hy]
    exact hw x y hbefore hx

end Links

/-! ## What a step must find -/

/-- The lines an exhausted chunk puts back: its targets, and what shares a
unit with one of them and bears no target's id. -/
def exhausted (workspace : PageWorkspace) (heap : Heap) (targets : List LineRef) : List LineRef :=
  targets ++ (unitRefs workspace heap targets).filter (·.lineId ∉ targets.map LineRef.lineId)

/-- The join falls: a member has fallen, or the pair does not reconcile. -/
def joinFalls [Unicode] (config : GuardConfig) (heap : Heap) (join : Join)
    (textById : Dict Str Str) : Prop :=
  (heap join.tail).status = .fallback ∨ (heap join.head).status = .fallback ∨
    joinOutcome config join.isForward (heap join.tail) (heap join.head) textById = .fallback

/-- Is it the reason of a line judged by itself? -/
def FallbackReason.judged : FallbackReason → Bool
  | orphanHyphenCompleted => true
  | hyphenPartnerFellBack => true
  | line _ => true
  | _ => false

/-- No line outside these is corrected and linked to one of them. -/
def Detached (document : DocumentManifest) (heap : Heap) (fallen : List LineRef) : Prop :=
  ∀ x ∈ fallen, ∀ y ∈ document.refs, Sides document heap x y → y ∉ fallen →
    (heap y).status ≠ .corrected

/-- What a step must find for the words around it to stay whole: a line is
accepted while no line it is linked to has fallen, and what falls leaves no
corrected line behind it. -/
def KeepsWhole [Unicode] (config : GuardConfig) (document : DocumentManifest) :
    Snapshot × Mark → Prop
  | (before, .accept line _) => ∀ y ∈ document.refs, Sides document before.heap line y →
      (before.heap y).status ≠ .fallback
  | (before, .fallBack line reason) => reason.judged = true → Detached document before.heap [line]
  | (before, .join tail head isForward textById) =>
      joinFalls config before.heap ⟨tail, head, isForward⟩ textById →
        Detached document before.heap [tail, head]
  | (before, .exhaust targets workspace) =>
      Detached document before.heap (exhausted workspace before.heap targets)
  | (before, .absorb targets workspace) =>
      Detached document before.heap (unitRefs workspace before.heap (undecided before.heap targets))
  | _ => True

instance [Unicode] (config : GuardConfig) (heap : Heap) (join : Join) (textById : Dict Str Str) :
    Decidable (joinFalls config heap join textById) := inferInstanceAs (Decidable (_ ∨ _ ∨ _))

instance (document : DocumentManifest) (heap : Heap) (fallen : List LineRef) :
    Decidable (Detached document heap fallen) := inferInstanceAs (Decidable (∀ _ ∈ _, ∀ _ ∈ _, _))

instance [Unicode] (config : GuardConfig) (document : DocumentManifest) :
    (entry : Snapshot × Mark) → Decidable (KeepsWhole config document entry)
  | (_, .accept _ _) => inferInstanceAs (Decidable (∀ _ ∈ _, _))
  | (_, .fallBack _ _) => inferInstanceAs (Decidable (_ → _))
  | (_, .join _ _ _ _) => inferInstanceAs (Decidable (_ → _))
  | (_, .exhaust _ _) => inferInstanceAs (Decidable (Detached _ _ _))
  | (_, .absorb _ _) => inferInstanceAs (Decidable (Detached _ _ _))
  | (_, .renormalise _ _) => .isTrue trivial
  | (_, .sever _) => .isTrue trivial
  | (_, .capture _) => .isTrue trivial

/-! ## Plans only cut links -/

section Plans

/-- The line keeps its forward link, or loses it. -/
def Loses (lm lm' : LineManifest) : Prop := lineRef lm' = lineRef lm ∧
  (forwardPartnerRef lm' = forwardPartnerRef lm ∨ forwardPartnerRef lm' = none)

theorem Loses.refl (lm : LineManifest) : Loses lm lm := ⟨rfl, .inl rfl⟩

theorem Loses.trans {x y z : LineManifest} (h : Loses x y) (h' : Loses y z) : Loses x z := by
  refine ⟨h'.1.trans h.1, ?_⟩
  rcases h'.2 with hsame | hnone
  · rw [hsame]
    exact h.2
  · exact .inr hnone

section Split

/-! What splitting a link does to its two lines, a plan does to the lines of
its page. -/

variable {R : LineManifest → LineManifest → Prop} (hrefl : ∀ lm, R lm lm)
  (htrans : ∀ x y z, R x y → R y z → R x z)
  (hsplit : ∀ tail head, (forwardPartnerRef tail).isSome = true →
    R tail (splitForwardLink tail head).1 ∧ R head (splitForwardLink tail head).2.1)

theorem forall₂_set {lines lines' : List LineManifest} (hlines : List.Forall₂ R lines lines')
    {i : Nat} {lm lm' : LineManifest} (hlm : lines[i]? = some lm) (h : R lm lm') :
    List.Forall₂ R lines (lines'.set i lm') := by
  induction hlines generalizing i with
  | nil => exact .nil
  | cons hhead htail ih =>
    cases i with
    | zero =>
      cases hlm
      exact .cons h htail
    | succ i => exact .cons hhead (ih hlm)

include hrefl hsplit

/-- Cutting a chain changes its lines one by one. -/
theorem forall₂_severTail (lines : List LineManifest) (chain : List Str) (last : Nat) :
    List.Forall₂ R lines (severTail lines chain last).1 := by
  have hself : List.Forall₂ R lines lines := List.forall₂_same.mpr fun lm _ => hrefl lm
  unfold severTail
  split
  · next tail partnerId partner htail hpartnerId _ =>
    split
    · exact hself
    · split
      · next head hhead =>
        rw [htail, Option.bind_some, forwardPartnerId, Option.map_eq_some_iff] at hpartnerId
        obtain ⟨ref, hforward, -⟩ := hpartnerId
        have hcut := hsplit tail head (by rw [hforward]; rfl)
        exact forall₂_set (forall₂_set hself htail hcut.1) hhead hcut.2
      · exact hself
  · exact hself

include htrans

theorem forall₂_planLineFrom (config : ChunkPlannerConfig) (pageId : Str) (fuel : Nat) :
    ∀ (lines : List LineManifest) (start : Nat),
      List.Forall₂ R lines (planLineFrom config pageId fuel lines start).2.2 := by
  induction fuel with
  | zero => exact fun lines _ => List.forall₂_same.mpr fun lm _ => hrefl lm
  | succ fuel ih =>
    intro lines start
    rw [planLineFrom]
    split
    · exact Pointwise.trans htrans (forall₂_severTail hrefl hsplit _ _ _) (ih _ _)
    · exact List.forall₂_same.mpr fun lm _ => hrefl lm

theorem forall₂_planPage (config : ChunkPlannerConfig) (page : PageManifest)
    (force : Option ChunkGranularity) :
    List.Forall₂ R page.lines (planPage config page force).2 := by
  unfold planPage
  split
  · exact forall₂_planLineFrom hrefl htrans hsplit _ _ _ _ _
  all_goals exact List.forall₂_same.mpr fun lm _ => hrefl lm

/-- **Planning again relates every line to itself as splitting does.** -/
theorem related_replanned {s : RunState} (haddr : Addressed s.heap) {page : PageManifest}
    {refs : List LineRef} (hpage : page.lines = linesOf s.heap refs)
    (hrefs : ∀ x y, R x y → lineRef y = lineRef x) (config : ChunkPlannerConfig)
    (force : Option ChunkGranularity) (ref : LineRef) :
    R (s.heap ref) ((replanned config page force s).heap ref) := by
  show R _ (writeLines s.heap _ _)
  rcases writeLines_cases s.heap (planPage config page force).2 ref with hsame
    | ⟨lm, hlm, rfl, hwritten⟩
  · rw [hsame]
    exact hrefl _
  · obtain ⟨old, hold, hrelated⟩ := Pointwise.exists_of_mem_right
      (forall₂_planPage hrefl htrans hsplit config page force) hlm
    rw [hpage] at hold
    obtain ⟨r, -, rfl⟩ := List.mem_map.mp hold
    have hr : r = lineRef lm := by rw [hrefs _ _ hrelated, haddr r]
    subst hr
    rw [hwritten]
    exact hrelated

end Split

theorem loses_split (tail head : LineManifest) (_ : (forwardPartnerRef tail).isSome = true) :
    Loses tail (splitForwardLink tail head).1 ∧ Loses head (splitForwardLink tail head).2.1 := by
  refine ⟨⟨splitForwardLink_tail_ref, .inr splitForwardLink_tail_forward⟩,
    splitForwardLink_head_ref, ?_⟩
  rw [splitForwardLink_head_forward]
  split
  · exact .inr rfl
  · exact .inl rfl

theorem fewerLinks_replanned {s : RunState} (haddr : Addressed s.heap) {page : PageManifest}
    {refs : List LineRef} (hpage : page.lines = linesOf s.heap refs) (config : ChunkPlannerConfig)
    (force : Option ChunkGranularity) :
    FewerLinks s.heap (replanned config page force s).heap := by
  intro ref
  exact (related_replanned Loses.refl (fun _ _ _ => .trans) loses_split haddr hpage
    (fun _ _ h => h.1) config force ref).2

end Plans

/-! ## The steps of a chunk -/

section Steps

variable [Unicode] {document : DocumentManifest} {pipeline : CorrectionPipeline}
  {page : PageManifest} {workspace : PageWorkspace} {s s' : RunState}

omit [Unicode] in
theorem trail_fallBackToSource (lines : List LineRef) (reason : FallbackReason) (s : RunState) :
    s.trail <+: (fallBackToSource lines reason s).trail := by
  unfold fallBackToSource
  induction lines generalizing s with
  | nil => exact List.prefix_refl _
  | cons line lines ih => exact (List.prefix_append _ _).trans (ih (fallBack line reason s))

/-- Visiting a pair adds to the trail. -/
theorem trail_visitJoin (config : GuardConfig) (join : Join) (textById : Dict Str Str)
    (s : RunState) : s.trail <+: (visitJoin config join textById s).trail := by
  show s.trail <+: (reconcileOnePair config join textById s).2.trail
  have hfell : ∀ s, s.trail <+: (fallBackJoin join s).trail := fun s =>
    (List.prefix_append _ _).trans (List.prefix_append _ _)
  have hnote : s.trail <+: (s.note (.join join.tail join.head join.isForward textById)).trail :=
    List.prefix_append _ _
  unfold reconcileOnePair
  dsimp only
  split
  · exact hnote.trans (hfell _)
  · apply hnote.trans
    show _ <+: RunState.trail (if _ then _ else _)
    split
    · exact hfell _
    · exact (List.prefix_append _ _).trans (List.prefix_append _ _)

omit [Unicode] in
theorem trail_judgeLine (config : GuardConfig) (textById : Dict Str Str) (line : LineRef)
    (s : RunState) : s.trail <+: (judgeLine config workspace textById line s).trail := by
  unfold judgeLine
  dsimp only
  split
  · exact List.prefix_refl _
  · split
    · exact List.prefix_refl _
    · split <;> exact List.prefix_append _ _

omit [Unicode] in
theorem trail_absorbChunkError (chunk : ChunkRequest) (message : Str) (s : RunState) :
    (s.note (.absorb (absorbTargets workspace chunk) workspace)).trail <+:
      (absorbChunkError workspace chunk message s).trail := by
  unfold absorbChunkError
  dsimp only
  split
  · exact List.prefix_refl _
  · exact trail_fallBackToSource _ _ (s.note _)

/-- **A step only adds to the trail.** -/
theorem trail_chunkStep (h : ChunkStep pipeline page workspace s s') : s.trail <+: s'.trail := by
  have hnote : ∀ mark, s.trail <+: (s.note mark).trail := fun mark => List.prefix_append _ _
  cases h with
  | quiet h => exact h.trail ▸ List.prefix_refl s.trail
  | capture captured => exact hnote _
  | join join textById _ hclaimed hlines => exact trail_visitJoin _ _ _ _
  | judge line textById _ hline hlines => exact trail_judgeLine _ _ _ _
  | exhaust targets failure _ htargets =>
    exact (hnote _).trans ((trail_fallBackToSource _ _ (s.note _)).trans
      (trail_fallBackToSource _ _ _))
  | absorb chunk message => exact (hnote _).trans (trail_absorbChunkError _ _ _)
  | descend targets finer _ htargets => exact List.prefix_append _ _

omit [Unicode] in
theorem Whole.congr {h h' : Heap} (hw : Whole document h) (hlinks : FewerLinks h h')
    (hstatus : ∀ ref, (h' ref).status = (h ref).status) : Whole document h' := by
  intro x y hsides hx
  rw [hstatus] at hx ⊢
  exact hw x y (hsides.of_fewer hlinks) hx

omit [Unicode] in
theorem whole_replanned (hw : Whole document s.heap) (haddr : Addressed s.heap)
    {page : PageManifest} {refs : List LineRef} (hpage : page.lines = linesOf s.heap refs)
    (config : ChunkPlannerConfig) (force : Option ChunkGranularity) :
    Whole document (replanned config page force s).heap := by
  refine hw.congr (fewerLinks_replanned haddr hpage _ _) fun ref => ?_
  show LineManifest.status (LineManifest.untied _) = LineManifest.status (LineManifest.untied _)
  rw [untied_replanned haddr hpage]

omit [Unicode] in
/-- Writing subs decides nothing. -/
theorem status_writeSubs (join : Join) (subs : Option Str) (s : RunState) (ref : LineRef) :
    ((writeSubs join subs s).heap ref).status = (s.heap ref).status := by
  have hset : ∀ (isForward : Bool) (lm : LineManifest),
      (setSubsContent isForward subs lm).status = lm.status := by
    intro isForward lm
    unfold setSubsContent
    split <;> rfl
  have hread : ∀ (heap : Heap) (isForward : Bool) (line : LineRef),
      (heap.set line (setSubsContent isForward subs (heap line)) ref).status =
          (heap ref).status := by
    intro heap isForward line
    by_cases href : ref = line
    · subst href
      rw [Heap.set_self, hset]
    · rw [Heap.set_of_ne href]
  exact (hread _ _ _).trans (hread _ _ _)

omit [Unicode] in
/-- Accepting a line keeps words whole when its mark may. -/
theorem whole_accept (hw : Whole document s.heap) {line : LineRef} {text : Str}
    (hedge : ∀ y ∈ document.refs, Sides document s.heap line y → (s.heap y).status ≠ .fallback) :
    Whole document (accept line text s).heap := by
  refine hw.correct (sameSkeleton_accept _ _ _).fewer line ?_ (fun ref href => ?_)
    fun y hy => ?_
  · rw [heap_accept, if_pos rfl]
  · rw [heap_accept, if_neg href]
  · exact hedge y (hy.elim (·.2.1) (·.1)) hy

omit [Unicode] in
/-- Lines may fall together that leave no corrected line behind. -/
theorem whole_fallBackToSource (hw : Whole document s.heap) {lines : List LineRef}
    (reason : FallbackReason) (hdetached : Detached document s.heap lines) :
    Whole document (fallBackToSource lines reason s).heap := by
  refine hw.putBack (sameSkeleton_fallBackToSource _ _ _).fewer (· ∈ lines)
    (fun ref href => ?_) (fun ref href => ?_) fun x y hsides hx hy =>
      hdetached x hx y (hsides.elim (·.2.1) (·.1)) hsides hy
  · rw [heap_fallBackToSource, if_pos href]
  · rw [heap_fallBackToSource, if_neg href]

/-- **A join that finds its members' other partners fit keeps words
whole.** -/
theorem whole_visitJoin (hw : Whole document s.heap) (config : GuardConfig) (join : Join)
    (textById : Dict Str Str)
    (hkeeps : ∀ entry ∈ (visitJoin config join textById s).trail,
      KeepsWhole config document entry) :
    Whole document (visitJoin config join textById s).heap := by
  let noted := s.note (.join join.tail join.head join.isForward textById)
  have htrail : (⟨s.heap, s.producerOps⟩, .join join.tail join.head join.isForward textById) ∈
      noted.trail := List.mem_append_right _ (List.mem_singleton_self _)
  have hfell : Detached document s.heap [join.tail, join.head] →
      Whole document (fallBackJoin join noted).heap := fun hdetached =>
    whole_fallBackToSource (s := noted) hw (.hyphenPair .fallback) hdetached
  have hpair : ∀ entry ∈ (reconcileOnePair config join textById s).2.trail,
      KeepsWhole config document entry := hkeeps
  show Whole document (reconcileOnePair config join textById s).2.heap
  unfold reconcileOnePair at hpair ⊢
  dsimp only at hpair ⊢
  -- a member already fallen: the pair falls, and the entry's mark says its units stay whole
  by_cases hmember : (s.heap join.tail).status = .fallback ∨ (s.heap join.head).status = .fallback
  · rw [if_pos hmember] at hpair ⊢
    apply hfell
    have hmark := hpair _ (((List.prefix_append _ _).trans (List.prefix_append _ _)).subset htrail)
    exact hmark (hmember.elim .inl fun h => .inr (.inl h))
  · rw [if_neg hmember] at hpair ⊢
    refine Whole.congr ?_ (sameSkeleton_writeSubs _ _ _).fewer (status_writeSubs _ _ _)
    -- otherwise the outcome decides, each write with its own mark
    by_cases houtcome : joinOutcome config join.isForward (s.heap join.tail) (s.heap join.head)
        textById = .fallback
    · rw [if_pos houtcome] at hpair ⊢
      apply hfell
      have hmark := hpair _ (((List.prefix_append _ _).trans
        (List.prefix_append _ _)).subset htrail)
      exact hmark (.inr (.inr houtcome))
    · rw [if_neg houtcome] at hpair ⊢
      have htailMark := hpair _ ((List.prefix_append _ _).subset
        (List.mem_append_right _ (List.mem_singleton_self _)))
      have hheadMark := hpair _ (List.mem_append_right _ (List.mem_singleton_self _))
      exact whole_accept (whole_accept hw htailMark) hheadMark

omit [Unicode] in
/-- A line refused at judgement bears a reason of judgement. -/
theorem judged_of_lineRefusal {config : GuardConfig} {heap : Heap} {lm : LineManifest}
    {corrected : Str} {reason : FallbackReason}
    (h : lineRefusal config workspace heap lm corrected = some reason) : reason.judged = true := by
  unfold lineRefusal at h
  split at h
  · cases h
    rfl
  · split at h
    · cases h
      rfl
    · obtain ⟨rejection, -, rfl⟩ := Option.map_eq_some_iff.mp h
      rfl

/-- Judging a line keeps words whole when its mark may. -/
theorem whole_judgeLine (hw : Whole document s.heap) (config : GuardConfig)
    (textById : Dict Str Str) (line : LineRef)
    (hkeeps : ∀ entry ∈ (judgeLine config workspace textById line s).trail,
      KeepsWhole config document entry) :
    Whole document (judgeLine config workspace textById line s).heap := by
  revert hkeeps
  unfold judgeLine
  dsimp only
  split
  · exact fun _ => hw
  · split
    · exact fun _ => hw
    · split
      · next reason hreason =>
        intro hkeeps
        have hmark := hkeeps _ (List.mem_append_right _ (List.mem_singleton_self _))
        exact whole_fallBackToSource hw reason (hmark (judged_of_lineRefusal hreason))
      · intro hkeeps
        exact whole_accept hw (hkeeps _ (List.mem_append_right _ (List.mem_singleton_self _)))

omit [Unicode] in
/-- **An exhausted chunk puts back what it may.** -/
theorem heap_exhausted (hpool : (unitPool workspace).Nodup) (haddr : Addressed s.heap)
    (targets : List LineRef) (failure : Option AttemptFailure) (ref : LineRef) :
    ((exhaustTargets workspace targets failure s).heap ref).status =
      if ref ∈ exhausted workspace s.heap targets then .fallback else (s.heap ref).status := by
  let fallen := fallBackToSource targets (.allAttemptsExhausted failure)
    (s.note (.exhaust targets workspace))
  have hsame : SameSkeleton s.heap fallen.heap := sameSkeleton_fallBackToSource _ _ _
  have hunit : ref ∈ unitRefs workspace fallen.heap targets ↔
      ref ∈ unitRefs workspace s.heap targets := by
    rw [mem_unitRefs_iff hpool (hsame.sameSource.addressed haddr), mem_unitRefs_iff hpool haddr,
      connected_congr hsame]
  have hmem : ref ∈ exhausted workspace s.heap targets ↔ ref ∈ targets ∨
      ref ∈ unitRefs workspace fallen.heap targets ∧
        ref.lineId ∉ targets.map LineRef.lineId := by
    rw [exhausted, List.mem_append, List.mem_filter, hunit, decide_eq_true_eq]
  rw [heap_exhaustTargets]
  by_cases href : ref ∈ exhausted workspace s.heap targets
  · rw [if_pos href, if_pos (hmem.mp href)]
  · rw [if_neg href, if_neg fun h => href (hmem.mpr h)]

/-- **A step that finds what it must keeps words whole.** -/
theorem whole_chunkStep (hw : Whole document s.heap) (haddr : Addressed s.heap)
    (hpool : (unitPool workspace).Nodup) (h : ChunkStep pipeline page workspace s s')
    (hkeeps : ∀ entry ∈ s'.trail, KeepsWhole pipeline.guardConfig document entry) :
    Whole document s'.heap := by
  cases h with
  | quiet h =>
    rw [h.heap]
    exact hw
  | capture captured => exact hw
  | join join textById _ hclaimed hlines => exact whole_visitJoin hw _ _ _ hkeeps
  | judge line textById _ hline hlines => exact whole_judgeLine hw _ _ _ hkeeps
  -- a failed chunk puts a set of lines back; no unit straddles the set
  | exhaust targets failure _ htargets =>
    have hmark := hkeeps (⟨s.heap, s.producerOps⟩, .exhaust targets workspace) <|
      ((trail_fallBackToSource _ _ (s.note _)).trans (trail_fallBackToSource _ _ _)).subset
        (List.mem_append_right _ (List.mem_singleton_self _))
    refine hw.putBack (sameSkeleton_exhaustTargets _ _ _ _).fewer
      (· ∈ exhausted workspace s.heap targets) (fun ref href => ?_)
      (fun ref href => ?_) fun x y hsides hx hy =>
        hmark x hx y (hsides.elim (·.2.1) (·.1)) hsides hy
    · rw [heap_exhausted hpool haddr, if_pos href]
    · rw [heap_exhausted hpool haddr, if_neg href]
  | absorb chunk message =>
    have hmark := hkeeps (⟨s.heap, s.producerOps⟩,
        .absorb (absorbTargets workspace chunk) workspace) <|
      (trail_absorbChunkError chunk message s).subset
        (List.mem_append_right _ (List.mem_singleton_self _))
    unfold absorbChunkError
    dsimp only
    split
    · exact hw
    · exact whole_fallBackToSource (s := s.note _) hw (.chunkErrorAbsorbed message) hmark
  | descend targets finer _ htargets => exact whole_replanned hw haddr rfl _ _

end Steps

end Saknussemm
