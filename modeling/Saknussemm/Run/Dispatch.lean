import Saknussemm.Library.Pointwise
import Saknussemm.Run.Settled

/-! # From the plan of a page to its producer calls.

Routing decides the lines a score confirms and shares the others between
two producers; batching cuts a chunk to the images of one call.  Neither
loses a target, so what a page's plan covers its calls cover. -/

namespace Saknussemm

open Effects

/-- Some chunk owns the line and shows it. -/
def Served (chunks : List ChunkRequest) (lineId : Str) : Prop :=
  ∃ chunk ∈ chunks, lineId ∈ chunk.targets ∧ lineId ∈ chunk.lineIds

section Dispatch

/-! ## Routing -/

/-- **Routing loses no target**: it is skipped, or one of the two producers
has it. -/
theorem served_workItems {producer escalation : EditProducer} {tiers : Tiers}
    {chunk : ChunkRequest} {lineId : Str} (htarget : lineId ∈ chunk.targets)
    (hshown : lineId ∈ chunk.lineIds) : lineId ∈ tiers.skip ∨
      Served ((workItems producer escalation tiers chunk).map Prod.fst) lineId := by
  by_cases hskip : lineId ∈ tiers.skip
  · exact .inl hskip
  · right
    let kept := chunk.targets.filter (· ∉ tiers.skip)
    have hkept : lineId ∈ kept := List.mem_filter.mpr ⟨htarget, by simpa using hskip⟩
    let primary := kept.filter (· ∉ tiers.escalate)
    let escalated := kept.filter (· ∈ tiers.escalate)
    by_cases hescalate : lineId ∈ tiers.escalate
    · have hmem : lineId ∈ escalated := List.mem_filter.mpr ⟨hkept, by simpa using hescalate⟩
      refine ⟨{ chunk with targetLineIds := some escalated }, ?_, hmem, hshown⟩
      refine List.mem_map.mpr ⟨({ chunk with targetLineIds := some escalated }, escalation),
        List.mem_append_right _ ?_, rfl⟩
      rw [if_neg (List.ne_nil_of_mem hmem)]
      exact List.mem_singleton_self _
    · have hmem : lineId ∈ primary := List.mem_filter.mpr ⟨hkept, by simpa using hescalate⟩
      let item := if primary = chunk.targets then (chunk, producer)
        else ({ chunk with targetLineIds := some primary }, producer)
      have hitem : lineId ∈ item.1.targets ∧ lineId ∈ item.1.lineIds := by
        dsimp only [item]
        split
        · exact ⟨htarget, hshown⟩
        · exact ⟨hmem, hshown⟩
      refine ⟨item.1, List.mem_map.mpr ⟨item, List.mem_append_left _ ?_, rfl⟩, hitem⟩
      rw [if_neg (List.ne_nil_of_mem hmem)]
      exact List.mem_singleton_self _

/-! ## Batching -/

theorem mem_unitVisibleOnPage {lines : List LineManifest} {lineId : Str} {unit : List Str}
    (h : unitVisibleOnPage lines lineId = some unit) : lineId ∈ unit := by
  unfold unitVisibleOnPage at h
  simpa using List.find?_some h

/-- A fresh line is one of its own members. -/
theorem mem_batchMembers {pageLines : List LineManifest} {chunk : ChunkRequest}
    {assigned : List Str} {lineId : Str} (hshown : lineId ∈ chunk.lineIds)
    (hnew : lineId ∉ assigned) : lineId ∈ batchMembers pageLines chunk assigned lineId := by
  unfold batchMembers
  dsimp only
  split
  · exact List.mem_filter.mpr ⟨hshown, by simp⟩
  · next unit hunit =>
    have hmem : lineId ∈ unit := by
      split at hunit
      · exact mem_unitVisibleOnPage hunit
      · cases hunit
    exact List.mem_filter.mpr ⟨hshown, by simpa using ⟨hmem, hnew⟩⟩

/-- What is assigned is in the batches. -/
def Batches.Accounted (batches : Batches) : Prop :=
  batches.assigned = batches.done.flatten ++ batches.current

variable {pageLines : List LineManifest} {chunk : ChunkRequest} {cap : Nat}

/-- A member taken into the batches is accounted for. -/
theorem addToBatch_ok {batches batches' : Batches} {lineId : Str} (hb : batches.Accounted)
    (hshown : lineId ∈ chunk.lineIds)
    (h : addToBatch pageLines chunk cap batches lineId = .ok batches') :
    batches'.Accounted ∧ batches.assigned ⊆ batches'.assigned ∧
      (lineId ∈ chunk.targets → lineId ∈ batches'.assigned) := by
  unfold addToBatch at h
  split at h
  · next hdone =>
    cases h
    exact ⟨hb, List.Subset.refl _, fun htarget => hdone.elim id fun hnot => absurd htarget hnot⟩
  · next hnew =>
    rw [not_or] at hnew
    have hmem := @mem_batchMembers pageLines chunk batches.assigned lineId hshown hnew.1
    dsimp only at h
    split at h
    · cases h
    · split at h
      · cases h
        refine ⟨?_, List.subset_append_left _ _, fun _ => List.mem_append_right _ hmem⟩
        show batches.assigned ++ _ = (batches.done ++ [batches.current]).flatten ++ _
        rw [hb, List.flatten_append, List.flatten_singleton]
      · cases h
        refine ⟨?_, List.subset_append_left _ _, fun _ => List.mem_append_right _ hmem⟩
        show batches.assigned ++ _ = batches.done.flatten ++ (batches.current ++ _)
        rw [hb, List.append_assoc]

/-- The loop takes every id it is given. -/
theorem foldlM_addToBatch_ok {ids : List Str} (hids : ids ⊆ chunk.lineIds) :
    ∀ {batches batches' : Batches}, batches.Accounted →
      ids.foldlM (addToBatch pageLines chunk cap) batches = .ok batches' →
      batches'.Accounted ∧ batches.assigned ⊆ batches'.assigned ∧
        ∀ lineId ∈ ids, lineId ∈ chunk.targets → lineId ∈ batches'.assigned := by
  induction ids with
  | nil =>
    intro batches batches' hb h
    cases h
    exact ⟨hb, List.Subset.refl _, by simp⟩
  | cons id ids ih =>
    intro batches batches' hb h
    rw [List.foldlM_cons] at h
    obtain ⟨between, hadd, hrest⟩ := Fallible.bind_eq_ok.mp h
    obtain ⟨hb', hsub, hid⟩ := addToBatch_ok hb (hids (by simp)) hadd
    obtain ⟨hb'', hsub', hids'⟩ := ih (fun x hx => hids (by simp [hx])) hb' hrest
    refine ⟨hb'', fun x hx => hsub' (hsub hx), ?_⟩
    rintro lineId (- | ⟨_, hmem⟩) htarget
    · exact hsub' (hid htarget)
    · exact hids' lineId hmem htarget

/-- **Batching loses no target.** -/
theorem served_splitForImageCap {item : ChunkRequest × EditProducer}
    {items : List (ChunkRequest × EditProducer)}
    (h : splitForImageCap pageLines item = .ok items) {lineId : Str}
    (htarget : lineId ∈ item.1.targets) (hshown : lineId ∈ item.1.lineIds) :
    Served (items.map Prod.fst) lineId := by
  unfold splitForImageCap at h
  dsimp only at h
  split at h
  · cases h
    exact ⟨item.1, List.mem_singleton_self _, htarget, hshown⟩
  · obtain ⟨batches, hbatches, h⟩ := Fallible.bind_eq_ok.mp h
    cases h
    have hstart : Batches.Accounted ⟨[], [], []⟩ := rfl
    obtain ⟨haccounted, -, hall⟩ := foldlM_addToBatch_ok (List.Subset.refl _) hstart hbatches
    have hassigned := hall lineId hshown htarget
    rw [haccounted, List.mem_append, List.mem_flatten] at hassigned
    obtain ⟨batch, hbatch, hin⟩ : ∃ batch ∈ batches.done ++
        if batches.current = [] then [] else [batches.current], lineId ∈ batch := by
      rcases hassigned with ⟨batch, hbatch, hin⟩ | hcurrent
      · exact ⟨batch, List.mem_append_left _ hbatch, hin⟩
      · refine ⟨batches.current, List.mem_append_right _ ?_, hcurrent⟩
        rw [if_neg (List.ne_nil_of_mem hcurrent)]
        exact List.mem_singleton_self _
    refine ⟨batchChunk item.1 batch, ?_, ?_, hin⟩
    · exact List.mem_map.mpr ⟨_, List.mem_map_of_mem hbatch, rfl⟩
    · exact List.mem_filter.mpr ⟨hin, by simpa using htarget⟩

/-- Splitting for the image cap serves the lines it was given. -/
theorem served_splitAllForImageCap {items split : List (ChunkRequest × EditProducer)}
    (h : splitAllForImageCap pageLines items = .ok split) {lineId : Str}
    (hserved : Served (items.map Prod.fst) lineId) : Served (split.map Prod.fst) lineId := by
  unfold splitAllForImageCap at h
  obtain ⟨parts, hparts, h⟩ := Fallible.bind_eq_ok.mp h
  cases h
  obtain ⟨chunk, hchunk, htarget, hshown⟩ := hserved
  obtain ⟨item, hitem, rfl⟩ := List.mem_map.mp hchunk
  obtain ⟨part, hpart, hsplit⟩ := Pointwise.exists_of_mem_left (Fallible.mapM_eq_ok.mp hparts) hitem
  obtain ⟨sub, hsub, hserves⟩ := served_splitForImageCap hsplit htarget hshown
  obtain ⟨piece, hpiece, rfl⟩ := List.mem_map.mp hsub
  exact ⟨piece.1, List.mem_map_of_mem (List.mem_flatten.mpr ⟨part, hpart, hpiece⟩), hserves⟩

/-! ## The calls of a page -/

/-- A confirmed line is pending no more. -/
theorem heap_confirm_of_mem {lines : List LineRef} {line : LineRef} (h : line ∈ lines) :
    ∀ s : RunState,
      ((lines.foldl (fun s line => accept line (s.heap line).ocrText s) s).heap line).status ≠
        .pending := by
  have hadvances : ∀ (lines : List LineRef) (s : RunState), Advances s.heap
      (lines.foldl (fun s line => accept line (s.heap line).ocrText s) s).heap := by
    intro lines
    induction lines with
    | nil => exact fun s => .refl _
    | cons line lines ih => exact fun s => (advances_accept _ _ _).trans (ih _)
  induction lines with
  | nil => cases h
  | cons other lines ih =>
    intro s
    rw [List.foldl_cons]
    rcases List.mem_cons.mp h with rfl | hmem
    · apply (hadvances lines _).decided
      rw [heap_accept, if_pos rfl]
      simp
    · exact ih hmem _

theorem advances_confirmSkippedLines (workspace : PageWorkspace) (skip : List Str) (s : RunState) :
    Advances s.heap (confirmSkippedLines workspace skip s).heap := by
  unfold confirmSkippedLines
  generalize skip.filterMap workspace.lineById = lines
  induction lines generalizing s with
  | nil => exact .refl _
  | cons line lines ih => exact (advances_accept _ _ _).trans (ih _)

variable {refs : List LineRef} {pipeline : CorrectionPipeline} {page : PageManifest}
  {workspace : PageWorkspace}

/-- The line is decided, or one of the chunks serves it. -/
def Attended (workspace : PageWorkspace) (chunks : List ChunkRequest) (s : RunState) : Prop :=
  ∀ line, workspace.lineById line.lineId = some line →
    (s.heap line).status ≠ .pending ∨ Served chunks line.lineId

/-- Routing attends to the lines of the chunks it is given. -/
theorem ends_routeAndFilterChunks (chunks : List ChunkRequest) : Yields
    (fun s => Progress refs s ∧ Attended workspace chunks s)
    (routeAndFilterChunks pipeline workspace chunks)
    fun items s => Progress refs s ∧ Attended workspace (items.map Prod.fst) s := by
  unfold routeAndFilterChunks
  cases routingScorer pipeline with
  | none =>
    refine ends_pure fun s hs => ⟨hs.1, ?_⟩
    rw [List.map_map]
    exact (List.map_id chunks).symm ▸ hs.2
  | some scorer =>
    apply ends_get_bind
    intro s
    let tiers := scorePageIntoTiers pipeline scorer (linesOf s.heap workspace.refs)
    refine Ends.bind (q := fun _ s' => Progress refs s' ∧ ∀ line,
      workspace.lineById line.lineId = some line → (s'.heap line).status ≠ .pending ∨
        line.lineId ∉ tiers.skip ∧ Served chunks line.lineId) (ends_modify fun s' h => ?_)
      fun _ => ends_pure fun s' h => ⟨h.1, fun line hline => ?_⟩
    · obtain ⟨rfl, hprogress, hattended⟩ := h
      have hadvances := advances_confirmSkippedLines workspace tiers.skip s'
      have haddr := (sameSkeleton_confirmSkippedLines workspace tiers.skip
        s').sameSource.addressed hprogress.addressed
      refine ⟨(hprogress.advance haddr hadvances).quiet ⟨rfl, rfl, rfl, rfl⟩, fun line hline => ?_⟩
      by_cases hskip : line.lineId ∈ tiers.skip
      · exact .inl (heap_confirm_of_mem (List.mem_filterMap.mpr ⟨_, hskip, hline⟩) s')
      · exact (hattended line hline).imp hadvances.decided fun hserved => ⟨hskip, hserved⟩
    · refine (h.2 line hline).imp id fun ⟨hskip, chunk, hchunk, htarget, hshown⟩ => ?_
      obtain ⟨sub, hsub, hserves⟩ := (served_workItems htarget hshown).resolve_left hskip
      obtain ⟨item, hitem, rfl⟩ := List.mem_map.mp hsub
      exact ⟨item.1, List.mem_map_of_mem (List.mem_flatMap.mpr ⟨chunk, hchunk, hitem⟩), hserves⟩

/-- A planned page attends to every line of its workspace. -/
theorem ends_planPageChunks (h : Housed page workspace) : Yields (Progress refs)
    (planPageChunks pipeline page workspace)
    fun items s => Progress refs s ∧ Attended workspace (items.map Prod.fst) s := by
  refine Ends.bind (q := fun plan s => Progress refs s ∧ Attended workspace plan.chunks s) ?_
    fun plan => ?_
  · intro s hs
    have hadvances : Advances s.heap
        (replanned pipeline.config (currentPage s.heap page) none s).heap :=
      advances_of_untied (untied_replanned hs.addressed rfl _ _)
    have haddr : Addressed (replanned pipeline.config (currentPage s.heap page) none s).heap :=
      (sameSource_of_untied (untied_replanned hs.addressed rfl _ _)).addressed hs.addressed
    -- a line not told apart by a skip is a target of some chunk of the plan
    refine ⟨hs.advance haddr hadvances, fun line hline => .inr ?_⟩
    have hmem : line ∈ page.refs := h.refs ▸ mem_of_lineById hline
    have hid : (s.heap line).lineId = line.lineId := congrArg LineRef.lineId (hs.addressed line)
    have hplaced : (currentPage s.heap page).Placed := by
      intro lm hlm
      obtain ⟨ref, href, rfl⟩ := List.mem_map.mp hlm
      obtain ⟨old, hold, rfl⟩ := List.mem_map.mp href
      obtain ⟨block, hblock, hin⟩ := h.placed old hold
      have hold' : (s.heap (lineRef old)).lineId = old.lineId :=
        congrArg LineRef.lineId (hs.addressed _)
      exact ⟨block, hblock, hold' ▸ hin⟩
    obtain ⟨chunk, hchunk, htarget⟩ := covers_planPage pipeline.config hplaced h.block_ids none
      (s.heap line) (List.mem_map_of_mem hmem)
    rw [hid] at htarget
    exact ⟨chunk, hchunk, htarget, (within_planPage _ _ _ chunk hchunk).targets _ htarget⟩
  · refine (ends_routeAndFilterChunks plan.chunks).bind fun routed => ?_
    apply ends_get_bind
    intro s
    -- splitting for the image cap drops no target
    cases hsplit : splitAllForImageCap (linesOf s.heap workspace.refs) routed with
    | error fault => exact ends_throw fun _ _ => trivial
    | ok items =>
      have hkept : Attended workspace (routed.map Prod.fst) s →
          Attended workspace (items.map Prod.fst) s := fun hattended line hline =>
        (hattended line hline).imp id (served_splitAllForImageCap hsplit)
      refine Ends.bind (q := fun _ s => Progress refs s ∧ Attended workspace (items.map Prod.fst) s)
        (fun s' hs' => ?_) fun _ => ends_pure fun _ h => h
      obtain ⟨rfl, hprogress, hattended⟩ := hs'
      have hemit := (@quiet_emit pipeline (.chunkPlanned page.pageId items.length
        plan.granularity)).ends (P := fun s => Progress refs s ∧
          Attended workspace (items.map Prod.fst) s) (fun s s'' hs h => ⟨hs.1.quiet h, by
            rw [Attended, h.heap]
            exact hs.2⟩)
      exact (hemit.mono (fun _ h => h) (fun _ _ h => h) fun _ _ _ => trivial) s'
        ⟨hprogress, hkept hattended⟩

end Dispatch

end Saknussemm
