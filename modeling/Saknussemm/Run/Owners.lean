import Mathlib.Data.List.Flatten
import Saknussemm.Planning.Partition
import Saknussemm.Run.Tiers

/-! # The chunk that owns a line.

A page's plan, its routing and its batching share out the lines of the page,
and so does every descent.  One chunk at most owns a line, among those a page
runs and among those a chunk is cut into. -/

namespace Saknussemm

open Effects

/-- The chunk shows the line and corrects it. -/
def ChunkRequest.owns (chunk : ChunkRequest) (ref : LineRef) : Bool :=
  chunk.pageId = ref.pageId && ref.lineId ∈ chunk.lineIds && ref.lineId ∈ chunk.targets

/-- The targets a chunk shows. -/
def ChunkRequest.shownTargets (chunk : ChunkRequest) : List Str :=
  chunk.lineIds.filter (· ∈ chunk.targets)

/-- A chunk of a page that shows each of its targets once. -/
structure ChunkRequest.Tidy (pageId : Str) (chunk : ChunkRequest) : Prop where
  page : chunk.pageId = pageId
  once : chunk.shownTargets.Nodup

/-- The blocks of the page list each of its lines once. -/
def PageManifest.ListsOnce (page : PageManifest) : Prop :=
  ∀ lm ∈ page.lines, (page.blocks.flatMap BlockManifest.lineIds).count lm.lineId = 1

instance (page : PageManifest) : Decidable page.ListsOnce :=
  inferInstanceAs (Decidable (∀ lm ∈ page.lines, _))

/-- Blocks that list each line of the page once and have ids of their own, as
the door leaves them. -/
structure PageManifest.Listed (page : PageManifest) : Prop where
  once : page.ListsOnce
  block_ids : (page.blocks.map BlockManifest.blockId).Nodup

theorem owns_iff {chunk : ChunkRequest} {ref : LineRef} :
    chunk.owns ref = true ↔ chunk.pageId = ref.pageId ∧ ref.lineId ∈ chunk.shownTargets := by
  rw [ChunkRequest.owns, Bool.and_eq_true, Bool.and_eq_true, decide_eq_true_eq, decide_eq_true_eq,
    decide_eq_true_eq, ChunkRequest.shownTargets, List.mem_filter, decide_eq_true_eq, and_assoc]

/-! ## Blocks -/

section Blocks

variable {page : PageManifest}

/-- A line stands in at most as many blocks as lists name it. -/
theorem countP_blocks_le (blocks : List BlockManifest) (lineId : Str) :
    blocks.countP (lineId ∈ ·.lineIds) ≤ (blocks.flatMap BlockManifest.lineIds).count lineId ∧
      (blocks.countP (lineId ∈ ·.lineIds) = 0 →
        (blocks.flatMap BlockManifest.lineIds).count lineId = 0) := by
  induction blocks with
  | nil => exact ⟨Nat.le_refl _, fun _ => rfl⟩
  | cons block blocks ih =>
    rw [List.countP_cons, List.flatMap_cons, List.count_append]
    by_cases hin : lineId ∈ block.lineIds
    · have hpos := List.count_pos_iff.mpr hin
      simp only [hin, decide_true, if_true]
      omega
    · have hzero := List.count_eq_zero_of_not_mem hin
      simp only [hin, decide_false, Bool.false_eq_true, if_false]
      omega

theorem PageManifest.ListsOnce.inOneBlock (h : page.ListsOnce) : page.InOneBlock := by
  intro lm hlm
  have hcount := countP_blocks_le page.blocks lm.lineId
  rw [h lm hlm] at hcount
  by_contra hne
  have hzero : page.blocks.countP (lm.lineId ∈ ·.lineIds) = 0 := by omega
  exact absurd (hcount.2 hzero) (by omega)

/-- Cut down to some lines, the blocks list these as they did. -/
theorem flatMap_lineIds_subpage (page : PageManifest) (lines : List LineManifest) :
    (subpageForLines page lines).blocks.flatMap BlockManifest.lineIds =
      (page.blocks.flatMap BlockManifest.lineIds).filter (· ∈ lines.map LineManifest.lineId) := by
  unfold subpageForLines
  dsimp only
  generalize lines.map LineManifest.lineId = kept
  induction page.blocks with
  | nil => rfl
  | cons block blocks ih =>
    rw [List.flatMap_cons, List.filter_append, ← ih, List.filter_cons]
    cases hany : block.lineIds.any (· ∈ kept) with
    | true => rfl
    | false =>
      rw [List.filter_eq_nil_iff.mpr (List.any_eq_false.mp hany)]
      rfl

/-- **The lines a descent plans again are still listed once.** -/
theorem PageManifest.ListsOnce.subpage (h : page.ListsOnce) {lines : List LineManifest}
    (hlines : lines.map LineManifest.lineId ⊆ page.lines.map LineManifest.lineId) :
    (subpageForLines page lines).ListsOnce := by
  intro lm hlm
  have hkept : lm.lineId ∈ lines.map LineManifest.lineId := List.mem_map_of_mem hlm
  obtain ⟨old, hold, hid⟩ := List.mem_map.mp (hlines hkept)
  rw [flatMap_lineIds_subpage, List.count_filter (by simpa using hkept), ← hid]
  exact h old hold

theorem PageManifest.Listed.subpage (h : page.Listed) {lines : List LineManifest}
    (hlines : lines.map LineManifest.lineId ⊆ page.lines.map LineManifest.lineId) :
    (subpageForLines page lines).Listed :=
  ⟨h.once.subpage hlines, nodup_blockIds_subpage h.block_ids lines⟩

end Blocks

/-! ## Planning -/

section Plan

variable {config : ChunkPlannerConfig} {page : PageManifest}

theorem shownTargets_nodup {chunk : ChunkRequest} (h : chunk.lineIds.Nodup) :
    chunk.shownTargets.Nodup := h.filter _

/-- A chunk of listed blocks names each line once. -/
theorem tidy_blockChunk (hlists : page.Listed) {group : List Str}
    (hgroup : group.Sublist (page.blocks.map BlockManifest.blockId)) :
    (blockChunk page group).Tidy page.pageId := by
  refine ⟨rfl, shownTargets_nodup ?_⟩
  show ((group.flatMap (linesOfBlock page)).map LineManifest.lineId).Nodup
  obtain ⟨blocks, hsub, rfl⟩ := List.sublist_map_iff.mp hgroup
  obtain ⟨known, hknown⟩ : ∃ known : Str → Bool, ∀ id, known id = (lineById page.lines id).isSome :=
    ⟨_, fun _ => rfl⟩
  -- a block's group is its listed lines, less the ids the page does not know
  have hids : ∀ block ∈ blocks,
      (linesOfBlock page block.blockId).map LineManifest.lineId = block.lineIds.filter known := by
    intro block hblock
    rw [linesOfBlock_eq hlists.block_ids (hsub.subset hblock), List.map_filterMap,
      ← List.filterMap_eq_filter]
    refine List.filterMap_congr fun id _ => ?_
    cases hfound : lineById page.lines id with
    | none => simp [Option.guard, hknown, hfound]
    | some lm =>
      have hid : lm.lineId = id := by simpa using List.find?_some hfound
      simp [Option.guard, hknown, hfound, hid]
  have hmap : ((blocks.map BlockManifest.blockId).flatMap (linesOfBlock page)).map
      LineManifest.lineId = (blocks.flatMap BlockManifest.lineIds).filter known := by
    rw [List.flatMap_map, List.map_flatMap, List.filter_flatMap]
    exact List.flatMap_congr hids
  rw [hmap]
  apply List.Nodup.sublist ((hsub.flatMap _).filter _)
  rw [List.nodup_iff_count_le_one]
  intro id
  by_cases hfound : known id = true
  · obtain ⟨lm, hlm⟩ := Option.isSome_iff_exists.mp (hknown id ▸ hfound)
    have hid : lm.lineId = id := by simpa using List.find?_some hlm
    rw [List.count_filter hfound, ← hid, hlists.once lm (List.mem_of_find?_eq_some hlm)]
  · rw [List.count_eq_zero_of_not_mem fun hmem => hfound (List.mem_filter.mp hmem).2]
    exact Nat.zero_le 1

theorem tidy_makeChunk (granularity : ChunkGranularity) (blockId : Option Str)
    (targets : Option (List Str)) {lineIds : List Str} (h : lineIds.Nodup) :
    (makeChunk page.pageId granularity lineIds blockId targets).Tidy page.pageId :=
  ⟨rfl, shownTargets_nodup h⟩

theorem nodup_sliceIds {lines : List LineManifest} (hids : (lines.map LineManifest.lineId).Nodup)
    (start stop : Nat) : (sliceIds lines start stop).Nodup :=
  hids.sublist (((List.take_sublist _ _).trans (List.drop_sublist _ _)).map _)

variable (hids : (page.lines.map LineManifest.lineId).Nodup)

include hids

theorem tidy_tryPage {plan : ChunkPlan} (hplan : tryPage config page = some plan) :
    ∀ chunk ∈ plan.chunks, chunk.Tidy page.pageId := by
  rw [tryPage] at hplan
  split at hplan
  · cases hplan
    intro chunk hchunk
    rw [List.mem_singleton.mp hchunk]
    exact tidy_makeChunk _ _ _ hids
  · cases hplan

omit hids in
theorem tidy_tryBlock (hlists : page.Listed) {plan : ChunkPlan}
    (hplan : tryBlock config page = some plan) : ∀ chunk ∈ plan.chunks, chunk.Tidy page.pageId := by
  rw [tryBlock] at hplan
  split at hplan
  · cases hplan
    intro chunk hchunk
    obtain ⟨group, hgroup, rfl⟩ := List.mem_map.mp hchunk
    obtain ⟨root, -, rfl⟩ := List.mem_map.mp hgroup
    exact tidy_blockChunk hlists List.filter_sublist
  · cases hplan

theorem tidy_tryWindow : ∀ chunk ∈ (tryWindow config page).chunks, chunk.Tidy page.pageId := by
  intro chunk hchunk
  obtain ⟨⟨ids, targets⟩, hzip, rfl⟩ := List.mem_map.mp hchunk
  obtain ⟨start, -, rfl⟩ := List.mem_map.mp (List.of_mem_zip hzip).1
  exact tidy_makeChunk _ _ _ (nodup_sliceIds hids _ _)

omit hids in
/-- A line plan names each line once in a chunk. -/
theorem tidy_planLineFrom (fuel : Nat) : ∀ (lines : List LineManifest) (start : Nat),
    (lines.map LineManifest.lineId).Nodup →
    ∀ chunk ∈ (planLineFrom config page.pageId fuel lines start).1, chunk.Tidy page.pageId := by
  induction fuel with
  | zero => exact fun _ _ _ _ h => nomatch h
  | succ fuel ih =>
    intro lines start hids chunk hchunk
    rw [planLineFrom] at hchunk
    split at hchunk
    · rcases List.mem_cons.mp hchunk with rfl | hchunk
      · exact tidy_makeChunk _ _ _ (nodup_sliceIds hids _ _)
      · exact ih _ _ (by rwa [lineIds_severTail]) chunk hchunk
    · cases hchunk

/-- **A plan is made of tidy chunks.** -/
theorem tidy_planPage (hlists : page.Listed) (force : Option ChunkGranularity) :
    ∀ chunk ∈ (planPage config page force).1.chunks, chunk.Tidy page.pageId := by
  have hblockOr : ∀ chunk ∈ ((tryBlock config page).getD (tryWindow config page)).chunks,
      chunk.Tidy page.pageId := by
    cases hblock : tryBlock config page with
    | some plan => exact tidy_tryBlock hlists hblock
    | none => exact tidy_tryWindow hids
  have hauto : ∀ chunk ∈ (autoPlan config page).chunks, chunk.Tidy page.pageId := by
    unfold autoPlan
    cases hpage : tryPage config page with
    | some plan => exact tidy_tryPage hids hpage
    | none => exact hblockOr
  unfold planPage
  split
  · exact tidy_planLineFrom _ _ _ hids
  · exact tidy_tryWindow hids
  · exact hblockOr
  · cases hpage : tryPage config page with
    | some plan => exact tidy_tryPage hids hpage
    | none => exact hauto
  · exact hauto

/-- **One chunk of a plan at most owns a line**, and none a line that is not
on the page. -/
theorem countP_owns_planPage (hlists : page.Listed) (force : Option ChunkGranularity)
    (ref : LineRef) : (planPage config page force).1.chunks.countP (·.owns ref) ≤
      if page.pageId = ref.pageId ∧
          ref.lineId ∈ page.lines.map LineManifest.lineId then 1 else 0 := by
  have hparts := partitions_planPage config hlists.once.inOneBlock hlists.block_ids hids force
  have htidy := @tidy_planPage config page hids hlists force
  split
  · next hon =>
    obtain ⟨lm, hlm, hid⟩ := List.mem_map.mp hon.2
    rw [← hparts.once lm hlm, ChunkPlan.owners, hid]
    refine List.countP_mono_left fun chunk _ howns => ?_
    exact (List.mem_filter.mp (owns_iff.mp howns).2).2
  · next hoff =>
    rw [Nat.le_zero, List.countP_eq_zero]
    intro chunk hchunk howns
    obtain ⟨hpage, hshown⟩ := owns_iff.mp howns
    exact hoff ⟨(htidy chunk hchunk).page ▸ hpage,
      hparts.inside chunk hchunk _ (List.mem_of_mem_filter hshown)⟩

end Plan

/-! ## Routing and batching -/

section Items

variable {ref : LineRef} {pageId : Str}

/-- Some of a chunk's work. -/
structure ChunkRequest.Part (chunk part : ChunkRequest) : Prop where
  page : part.pageId = chunk.pageId
  shown : part.shownTargets ⊆ chunk.shownTargets
  once : chunk.shownTargets.Nodup → part.shownTargets.Nodup

theorem ChunkRequest.Part.refl (chunk : ChunkRequest) : chunk.Part chunk :=
  ⟨rfl, List.Subset.refl _, id⟩

theorem ChunkRequest.Part.tidy {chunk part : ChunkRequest} (h : chunk.Part part)
    (hchunk : chunk.Tidy pageId) : part.Tidy pageId :=
  ⟨h.page.trans hchunk.page, h.once hchunk.once⟩

theorem ChunkRequest.Part.owns {chunk part : ChunkRequest} (h : chunk.Part part)
    (hpart : part.owns ref = true) : chunk.owns ref = true := by
  rw [owns_iff] at hpart ⊢
  exact ⟨h.page ▸ hpart.1, h.shown hpart.2⟩

/-- Fewer targets are part of the chunk. -/
theorem part_of_targets (chunk : ChunkRequest) {targets : List Str} (h : targets ⊆ chunk.targets) :
    chunk.Part { chunk with targetLineIds := some targets } := by
  have hfilter : ({ chunk with targetLineIds := some targets } : ChunkRequest).shownTargets =
      chunk.shownTargets.filter (· ∈ targets) := by
    rw [ChunkRequest.shownTargets, ChunkRequest.shownTargets, List.filter_filter]
    refine List.filter_congr fun id _ => ?_
    have hkept := @h id
    show decide (id ∈ targets) = _
    by_cases hin : id ∈ targets
    · simp [hin, hkept hin]
    · simp [hin]
  refine ⟨rfl, ?_, ?_⟩
  · rw [hfilter]
    exact List.filter_subset_self _
  · rw [hfilter]
    exact fun hnodup => hnodup.filter _

/-- A work item is part of the chunk it came from. -/
theorem part_of_mem_workItems {producer escalation : EditProducer} {tiers : Tiers}
    {chunk : ChunkRequest} {item : ChunkRequest × EditProducer}
    (h : item ∈ workItems producer escalation tiers chunk) : chunk.Part item.1 := by
  have hkept : ∀ p : Str → Bool,
      (chunk.targets.filter (· ∉ tiers.skip)).filter p ⊆ chunk.targets := fun p id hid =>
    List.mem_of_mem_filter (List.mem_of_mem_filter hid)
  unfold workItems at h
  dsimp only at h
  rcases List.mem_append.mp h with h | h
  · split at h
    · cases h
    · rw [List.mem_singleton.mp h]
      split
      · exact .refl chunk
      · exact part_of_targets chunk (hkept _)
  · split at h
    · cases h
    · rw [List.mem_singleton.mp h]
      exact part_of_targets chunk (hkept _)

/-- One part at most owns what a chunk owns. -/
theorem countP_parts_le {items : List (ChunkRequest × EditProducer)} {chunk : ChunkRequest}
    (hparts : ∀ item ∈ items, chunk.Part item.1)
    (hcount : items.countP (fun item => decide (ref.lineId ∈ item.1.shownTargets)) ≤ 1) :
    items.countP (fun item => item.1.owns ref) ≤ if chunk.owns ref = true then 1 else 0 := by
  split
  · refine Nat.le_trans (List.countP_mono_left fun item _ howns => ?_) hcount
    exact decide_eq_true (owns_iff.mp howns).2
  · next hnot =>
    rw [Nat.le_zero, List.countP_eq_zero]
    exact fun item hitem howns => hnot ((hparts item hitem).owns howns)

theorem countP_owns_workItems {producer escalation : EditProducer} {tiers : Tiers}
    (chunk : ChunkRequest) (ref : LineRef) :
    (workItems producer escalation tiers chunk).countP (fun item => item.1.owns ref) ≤
      if chunk.owns ref = true then 1 else 0 := by
  apply countP_parts_le (fun item => part_of_mem_workItems)
  have htargets := @countP_workItems producer escalation tiers chunk ref.lineId
  refine Nat.le_trans (List.countP_mono_left fun item _ hshown => ?_) (Nat.le_trans htargets.le ?_)
  · exact (List.mem_filter.mp (of_decide_eq_true hshown)).2
  · split <;> omega

/-- Batches of one chunk are parts of it, and one of them at most shows a
line as its target. -/
theorem parts_of_shares {chunk : ChunkRequest} {cap : Nat} {batches : List (List Str)}
    (h : SharesTargets chunk cap batches) :
    (∀ batch ∈ batches, chunk.Part (batchChunk chunk batch)) ∧
      (chunk.shownTargets.Nodup → ∀ lineId,
        batches.countP (fun batch =>
            decide (lineId ∈ (batchChunk chunk batch).shownTargets)) ≤ 1) := by
  have hshown : ∀ batch, (batchChunk chunk batch).shownTargets =
      (batchChunk chunk batch).targets := by
    intro batch
    show batch.filter (· ∈ batch.filter (· ∈ chunk.targets)) = batch.filter (· ∈ chunk.targets)
    refine List.filter_congr fun id hid => ?_
    simp [hid]
  have hsub : ∀ batch ∈ batches, (batchChunk chunk batch).shownTargets.Sublist
      (batches.flatMap fun batch => (batchChunk chunk batch).targets) := by
    intro batch hbatch
    rw [hshown]
    exact List.sublist_flatten_of_mem (List.mem_map_of_mem hbatch)
  refine ⟨fun batch hbatch => ⟨rfl, fun id hid => ?_, fun hnodup => ?_⟩, fun hnodup lineId => ?_⟩
  · exact h.targets.subset ((hsub batch hbatch).subset hid)
  · exact (h.targets.nodup_iff.mpr hnodup).sublist (hsub batch hbatch)
  -- the batches share out the targets, so no id is counted twice
  · have hcount : (batches.flatMap fun batch => (batchChunk chunk batch).targets).count
        lineId ≤ 1 := by
      rw [h.targets.count_eq]
      exact List.nodup_iff_count_le_one.mp hnodup lineId
    refine Nat.le_trans ?_ hcount
    clear hcount hsub h
    induction batches with
    | nil => exact Nat.le_refl _
    | cons batch batches ih =>
      rw [List.countP_cons, List.flatMap_cons, List.count_append, hshown]
      by_cases hin : lineId ∈ (batchChunk chunk batch).targets
      · have hpos := List.count_pos_iff.mpr hin
        simp only [hin, decide_true, if_true]
        omega
      · simp only [hin, decide_false, Bool.false_eq_true, if_false]
        omega

variable {pageLines : List LineManifest} (hids : (pageLines.map LineManifest.lineId).Nodup)

include hids

/-- Parts of a split chunk own its lines no more often than it did. -/
theorem parts_splitForImageCap {item : ChunkRequest × EditProducer}
    {parts : List (ChunkRequest × EditProducer)} (hnodup : item.1.shownTargets.Nodup)
    (h : splitForImageCap pageLines item = .ok parts) (ref : LineRef) :
    (∀ part ∈ parts, item.1.Part part.1) ∧
      parts.countP (fun part => part.1.owns ref) ≤ if item.1.owns ref = true then 1 else 0 := by
  have hcut := cut_splitForImageCap hids h
  by_cases hall : ∀ cap ∈ item.2.imageCap, item.1.lineIds.length ≤ cap
  · rw [hcut.kept hall]
    refine ⟨fun part hpart => ?_, ?_⟩
    · rw [List.mem_singleton.mp hpart]
      exact .refl _
    · rw [List.countP_singleton]
  · push Not at hall
    obtain ⟨cap, hcap, hlt⟩ := hall
    obtain ⟨batches, rfl, hshares, -⟩ := hcut.cut cap hcap hlt
    obtain ⟨hparts, honce⟩ := parts_of_shares hshares
    have hmap : ∀ part ∈ batches.map fun batch => (batchChunk item.1 batch, item.2),
        item.1.Part part.1 := by
      intro part hpart
      obtain ⟨batch, hbatch, rfl⟩ := List.mem_map.mp hpart
      exact hparts batch hbatch
    refine ⟨hmap, countP_parts_le hmap ?_⟩
    rw [List.countP_map]
    exact honce hnodup ref.lineId

/-- **Batching leaves a line to one call at most.** -/
theorem parts_splitAllForImageCap {items split : List (ChunkRequest × EditProducer)}
    (hitems : ∀ item ∈ items, item.1.Tidy pageId)
    (h : splitAllForImageCap pageLines items = .ok split)
    (ref : LineRef) : (∀ part ∈ split, part.1.Tidy pageId) ∧
      split.countP (fun part => part.1.owns ref) ≤ items.countP fun item => item.1.owns ref := by
  obtain ⟨parts, hparts, h⟩ := Fallible.bind_eq_ok.mp h
  cases h
  have hall := Fallible.mapM_eq_ok.mp hparts
  clear hparts h
  induction hall with
  | nil => exact ⟨by simp, Nat.le_refl _⟩
  | @cons item part items parts hitem _ ih =>
    have htidy := hitems item (by simp)
    obtain ⟨hpart, hcount⟩ := parts_splitForImageCap hids htidy.once hitem ref
    obtain ⟨hrest, hcounts⟩ := ih fun item hin => hitems item (by simp [hin])
    refine ⟨fun piece hpiece => ?_, ?_⟩
    · rw [List.flatten_cons] at hpiece
      rcases List.mem_append.mp hpiece with hin | hin
      · exact (hpart piece hin).tidy htidy
      · exact hrest piece hin
    · rw [List.flatten_cons, List.countP_append, List.countP_cons]
      omega

end Items

/-! ## Target lines -/

section Targets

variable {workspace : PageWorkspace} {chunk : ChunkRequest}

/-- The targets of a chunk are looked up in its own order. -/
theorem map_lineId_targetLines (workspace : PageWorkspace) (chunk : ChunkRequest) :
    ((targetLines workspace chunk).map LineRef.lineId).Sublist chunk.shownTargets := by
  have hids : ∀ ids : List Str, ((ids.filterMap workspace.lineById).filter fun ref =>
      decide (ref.lineId ∈ chunk.targets)).map LineRef.lineId |>.Sublist <|
        ids.filter (· ∈ chunk.targets) := by
    intro ids
    induction ids with
    | nil => exact .slnil
    | cons id ids ih =>
      rw [List.filterMap_cons, List.filter_cons]
      cases hfound : workspace.lineById id with
      | none =>
        dsimp only
        split
        · exact ih.cons _
        · exact ih
      | some ref =>
        dsimp only
        rw [List.filter_cons, lineId_of_lineById hfound]
        split
        · rw [List.map_cons, lineId_of_lineById hfound]
          exact ih.cons_cons _
        · exact ih
  exact hids chunk.lineIds

theorem mem_targetLines_iff (hids : (workspace.refs.map LineRef.lineId).Nodup) {ref : LineRef}
    (href : ref ∈ workspace.refs) :
    ref ∈ targetLines workspace chunk ↔ ref.lineId ∈ chunk.shownTargets := by
  constructor
  · exact fun h => (map_lineId_targetLines workspace chunk).subset (List.mem_map_of_mem h)
  · intro h
    obtain ⟨hshown, htarget⟩ := List.mem_filter.mp h
    refine List.mem_filter.mpr
      ⟨List.mem_filterMap.mpr ⟨_, hshown, lineById_of_mem hids href⟩, htarget⟩

/-- **A descent leaves a line to one chunk at most.** -/
theorem countP_owns_descend {page : PageManifest} (hhoused : workspace.refs = page.refs)
    (hlists : page.Listed) (htidy : chunk.Tidy page.pageId) {heap : Heap} (haddr : Addressed heap)
    (config : ChunkPlannerConfig) (finer : ChunkGranularity) :
    (∀ sub ∈ (planPage config (subpageForLines page (linesOf heap (targetLines workspace chunk)))
        (some finer)).1.chunks, sub.Tidy page.pageId) ∧
      ∀ ref, (planPage config (subpageForLines page (linesOf heap (targetLines workspace chunk)))
        (some finer)).1.chunks.countP (·.owns ref) ≤ if chunk.owns ref = true then 1 else 0 := by
  have hmap : (linesOf heap (targetLines workspace chunk)).map LineManifest.lineId =
      (targetLines workspace chunk).map LineRef.lineId := by
    rw [linesOf, List.map_map]
    exact List.map_congr_left fun ref _ => congrArg LineRef.lineId (haddr ref)
  have hsubIds : ((linesOf heap (targetLines workspace chunk)).map LineManifest.lineId).Nodup := by
    rw [hmap]
    exact htidy.once.sublist (map_lineId_targetLines _ _)
  have hsubLists : (subpageForLines page (linesOf heap (targetLines workspace chunk))).Listed := by
    refine hlists.subpage fun id hid => ?_
    rw [hmap] at hid
    obtain ⟨ref, href, rfl⟩ := List.mem_map.mp hid
    obtain ⟨lm, hlm, rfl⟩ := List.mem_map.mp (hhoused ▸ mem_refs_of_mem_targetLines href)
    exact List.mem_map_of_mem hlm
  refine ⟨tidy_planPage hsubIds hsubLists (some finer), fun ref => ?_⟩
  apply (countP_owns_planPage hsubIds hsubLists (some finer) ref).trans
  split
  · next hon =>
    obtain ⟨hpage, hin⟩ := hon
    change ref.lineId ∈ (linesOf heap (targetLines workspace chunk)).map LineManifest.lineId at hin
    rw [hmap] at hin
    rw [if_pos (owns_iff.mpr ⟨htidy.page.trans hpage, (map_lineId_targetLines _ _).subset hin⟩)]
  · exact Nat.zero_le _

end Targets

end Saknussemm
