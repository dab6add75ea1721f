import Saknussemm.Planning.Blocks
import Saknussemm.Planning.Targets
import Saknussemm.Run.Pages

/-! # A plan leaves no line out.

Whatever granularity it settles for, every line of the page is a target of
one of its chunks, and no chunk is coarser than asked. -/

namespace Saknussemm

/-- Every line of the page is in a block. -/
def PageManifest.Placed (page : PageManifest) : Prop :=
  ∀ lm ∈ page.lines, ∃ block ∈ page.blocks, lm.lineId ∈ block.lineIds

instance (page : PageManifest) : Decidable page.Placed :=
  inferInstanceAs (Decidable (∀ lm ∈ page.lines, ∃ block ∈ page.blocks, lm.lineId ∈ block.lineIds))

/-- Every line is a target of some chunk. -/
def ChunkPlan.Covers (plan : ChunkPlan) (lines : List LineManifest) : Prop :=
  ∀ lm ∈ lines, ∃ chunk ∈ plan.chunks, lm.lineId ∈ chunk.targets

/-- A chunk as the planner makes them: at most that coarse, its targets
among its lines. -/
structure ChunkRequest.Within (depth : Nat) (chunk : ChunkRequest) : Prop where
  depth : chunk.granularity.depth ≤ depth
  targets : ∀ lineId ∈ chunk.targets, lineId ∈ chunk.lineIds

section Coverage

variable {config : ChunkPlannerConfig} {page : PageManifest}

/-! ## PAGE and BLOCK -/

theorem covers_tryPage {plan : ChunkPlan} (hplan : tryPage config page = some plan) :
    plan.Covers page.lines := by
  rw [tryPage] at hplan
  split at hplan
  · cases hplan
    exact fun lm hlm => ⟨_, List.mem_singleton_self _, List.mem_map_of_mem hlm⟩
  · cases hplan

theorem within_makeChunk (pageId : Str) (granularity : ChunkGranularity) (lineIds : List Str)
    (blockId : Option Str) :
    (makeChunk pageId granularity lineIds blockId none).Within granularity.depth :=
  ⟨Nat.le_refl _, fun _ h => h⟩

theorem within_tryPage {plan : ChunkPlan} (hplan : tryPage config page = some plan) :
    ∀ chunk ∈ plan.chunks, chunk.Within ChunkGranularity.page.depth := by
  rw [tryPage] at hplan
  split at hplan
  · cases hplan
    intro chunk hchunk
    rw [List.mem_singleton.mp hchunk]
    exact within_makeChunk _ _ _ _
  · cases hplan

/-- Blocks cover the lines they list. -/
theorem covers_tryBlock (hplaced : page.Placed)
    (hids : (page.blocks.map BlockManifest.blockId).Nodup) {plan : ChunkPlan}
    (hplan : tryBlock config page = some plan) : plan.Covers page.lines := by
  rw [tryBlock] at hplan
  split at hplan
  · cases hplan
    intro lm hlm
    obtain ⟨block, hblock, hid⟩ := hplaced lm hlm
    obtain ⟨found, hfound⟩ : ∃ found, lineById page.lines lm.lineId = some found := by
      cases hfind : lineById page.lines lm.lineId with
      | some found => exact ⟨found, rfl⟩
      | none =>
        rw [lineById, List.find?_eq_none] at hfind
        simpa using hfind lm hlm
    have hfoundId : found.lineId = lm.lineId := by simpa using List.find?_some hfound
    let ids := page.blocks.map BlockManifest.blockId
    have hmem : block.blockId ∈ ids := List.mem_map_of_mem hblock
    let group := ids.filter fun id => blockRoot page id = blockRoot page block.blockId
    refine ⟨blockChunk page group, List.mem_map.mpr ⟨group, ?_, rfl⟩, ?_⟩
    · refine List.mem_map.mpr ⟨blockRoot page block.blockId, ?_, rfl⟩
      exact List.mem_eraseDups.mpr (List.mem_map_of_mem hmem)
    · refine List.mem_map.mpr ⟨found, List.mem_flatMap.mpr ⟨block.blockId, ?_, ?_⟩, hfoundId⟩
      · exact List.mem_filter.mpr ⟨hmem, by simp⟩
      · rw [linesOfBlock_eq hids hblock]
        exact List.mem_filterMap.mpr ⟨lm.lineId, hid, hfound⟩
  · cases hplan

theorem within_tryBlock {plan : ChunkPlan} (hplan : tryBlock config page = some plan) :
    ∀ chunk ∈ plan.chunks, chunk.Within ChunkGranularity.block.depth := by
  rw [tryBlock] at hplan
  split at hplan
  · cases hplan
    intro chunk hchunk
    obtain ⟨group, -, rfl⟩ := List.mem_map.mp hchunk
    exact within_makeChunk _ _ _ _
  · cases hplan

/-! ## WINDOW -/

/-- A line of some window is a target of one. -/
theorem exists_targetWindow {windows units : List (List Str)} {lineId : Str}
    (h : membership windows lineId ≠ []) : ∃ j, targetWindow windows units lineId = some j := by
  rw [targetWindow_eq]
  obtain ⟨init, hinit⟩ : ∃ init, (membership windows lineId).getLast? = some init :=
    ⟨_, List.getLast?_eq_some_getLast h⟩
  rw [hinit]
  clear hinit
  induction units generalizing init with
  | nil => exact ⟨init, rfl⟩
  | cons members units ih =>
    rw [List.foldl_cons]
    cases pinnedWindow windows members lineId with
    | none => exact ih init
    | some common => exact ih common

/-- Every line stands in a window. -/
theorem membership_windowLineIds {lm : LineManifest} (hlm : lm ∈ page.lines) :
    membership (windowLineIds config page.lines) lm.lineId ≠ [] := by
  obtain ⟨i, hi, rfl⟩ := List.getElem_of_mem hlm
  obtain ⟨s, hs⟩ := exists_lastStart config hi
  obtain ⟨j, hj⟩ := List.mem_iff_getElem?.mp hs.mem
  refine List.ne_nil_of_mem (mem_membership.mpr ⟨?_, ?_⟩ : j ∈ _)
  · rw [length_windowLineIds]
    exact (List.getElem?_eq_some_iff.mp hj).1
  · rw [windowLineIds_getD hj, sliceIds]
    have hend := hs.lt_windowEnd
    have hle := hs.le
    refine List.mem_map.mpr ⟨page.lines[i], List.mem_iff_getElem?.mpr ⟨i - s, ?_⟩, rfl⟩
    rw [List.getElem?_take, if_pos (by omega), List.getElem?_drop,
      show s + (i - s) = i by omega, List.getElem?_eq_getElem hi]

/-- Windows cover the page. -/
theorem covers_tryWindow : (tryWindow config page).Covers page.lines := by
  intro lm hlm
  let windows := windowLineIds config page.lines
  let visited := page.lines.filter fun lm => membership windows lm.lineId ≠ []
  let units := (deriveHyphenGroups visited).map fun group =>
    (group.members.map LineRef.lineId).filter fun id => membership windows id ≠ []
  obtain ⟨j, hj⟩ := @exists_targetWindow windows units lm.lineId (membership_windowLineIds hlm)
  obtain ⟨hlt, hin⟩ := mem_of_targetWindow hj
  let targets := (windows.getD j []).filter fun lineId => targetWindow windows units lineId = some j
  have htargets : (assignWindowTargets windows page.lines)[j]? = some targets := by
    simp only [assignWindowTargets, List.getElem?_map]
    rw [List.getElem?_range hlt]
    rfl
  have hwindow : windows[j]? = some windows[j] := List.getElem?_eq_getElem hlt
  refine ⟨makeChunk page.pageId .window windows[j] none (some targets), ?_, ?_⟩
  · refine List.mem_map.mpr ⟨(windows[j], targets), ?_, rfl⟩
    refine List.mem_iff_getElem?.mpr ⟨j, ?_⟩
    rw [List.getElem?_zip_eq_some]
    exact ⟨hwindow, htargets⟩
  · exact List.mem_filter.mpr ⟨hin, by simpa using hj⟩

/-- A window plan asks for windows. -/
theorem within_tryWindow :
    ∀ chunk ∈ (tryWindow config page).chunks, chunk.Within ChunkGranularity.window.depth := by
  intro chunk hchunk
  obtain ⟨⟨ids, targets⟩, hzip, rfl⟩ := List.mem_map.mp hchunk
  refine ⟨Nat.le_refl _, fun lineId hid => ?_⟩
  obtain ⟨j, hj⟩ := List.mem_iff_getElem?.mp hzip
  rw [List.getElem?_zip_eq_some] at hj
  obtain ⟨hids, htargets⟩ := hj
  simp only [assignWindowTargets, List.getElem?_map, Option.map_eq_some_iff] at htargets
  obtain ⟨k, hk, rfl⟩ := htargets
  obtain rfl : k = j := by
    have := List.getElem?_eq_some_iff.mp hk
    obtain ⟨hlt, heq⟩ := this
    simpa using heq.symm
  have hmem := (List.mem_filter.mp hid).1
  rw [List.getD_eq_getElem?_getD, hids] at hmem
  exact hmem

/-! ## LINE -/

theorem lineIds_severTail (lines : List LineManifest) (chain : List Str) (last : Nat) :
    (severTail lines chain last).1.map LineManifest.lineId = lines.map LineManifest.lineId := by
  have hmap := congrArg (List.map LineManifest.lineId) (untied_severTail lines chain last)
  rwa [List.map_map, List.map_map] at hmap

/-- A chain never ends before it starts. -/
theorem followChain_ge (cap : Nat) (lines : List LineManifest) (start fuel last : Nat) :
    last ≤ followChain cap lines start fuel last := by
  induction fuel generalizing last with
  | zero => exact Nat.le_refl _
  | succ fuel ih =>
    rw [followChain]
    split
    · exact Nat.le_refl _
    · split_ifs
      · exact Nat.le_refl _
      · exact Nat.le_refl _
      · next partner _ _ _ => exact Nat.le_trans (by omega) (ih partner)

/-- Every line from `start` on is owned by a chain. -/
theorem covers_planLineFrom (pageId : Str) (fuel : Nat) :
    ∀ (lines : List LineManifest) (start i : Nat), start ≤ i → i < lines.length →
      lines.length - start ≤ fuel →
      ∀ lineId ∈ (lines.map LineManifest.lineId)[i]?,
        ∃ chunk ∈ (planLineFrom config pageId fuel lines start).1, lineId ∈ chunk.targets := by
  induction fuel with
  | zero =>
    intro lines start i hle hlt hfuel
    omega
  | succ fuel ih =>
    intro lines start i hle hlt hfuel lineId hid
    rw [planLineFrom, if_pos (by omega)]
    let last := followChain config.maxLinesPerRequest lines start lines.length start
    have hlast : start ≤ last := followChain_ge _ _ _ _ _
    by_cases hin : i ≤ last
    · refine ⟨_, List.mem_cons_self, ?_⟩
      show lineId ∈ sliceIds lines start (last + 1)
      rw [sliceIds, List.map_take, List.map_drop]
      refine List.mem_iff_getElem?.mpr ⟨i - start, ?_⟩
      rw [List.getElem?_take, if_pos (by omega), List.getElem?_drop,
        show start + (i - start) = i by omega]
      exact hid
    · let severed := (severTail lines (sliceIds lines start (last + 1)) last).1
      have hsever : severed.map LineManifest.lineId = lines.map LineManifest.lineId :=
        lineIds_severTail _ _ _
      have hlen : severed.length = lines.length := by
        simpa using congrArg List.length hsever
      obtain ⟨chunk, hchunk, htarget⟩ := ih severed (last + 1) i (by omega) (by omega) (by omega)
        lineId (by rw [hsever]; exact hid)
      exact ⟨chunk, List.mem_cons_of_mem _ hchunk, htarget⟩

/-- A line plan asks for lines. -/
theorem within_planLineFrom (pageId : Str) (fuel : Nat) :
    ∀ (lines : List LineManifest) (start : Nat),
      ∀ chunk ∈ (planLineFrom config pageId fuel lines start).1,
        chunk.Within ChunkGranularity.line.depth := by
  induction fuel with
  | zero => exact fun _ _ _ h => nomatch h
  | succ fuel ih =>
    intro lines start chunk hchunk
    rw [planLineFrom] at hchunk
    split at hchunk
    · rcases List.mem_cons.mp hchunk with rfl | hchunk
      · exact within_makeChunk _ _ _ _
      · exact ih _ _ chunk hchunk
    · cases hchunk

/-! ## Any plan -/

theorem covers_autoPlan (hplaced : page.Placed)
    (hids : (page.blocks.map BlockManifest.blockId).Nodup) :
    (autoPlan config page).Covers page.lines := by
  unfold autoPlan
  cases hpage : tryPage config page with
  | some plan => exact covers_tryPage hpage
  | none =>
    cases hblock : tryBlock config page with
    | some plan => exact covers_tryBlock hplaced hids hblock
    | none => exact covers_tryWindow

/-- **Every line of a page is a target of its plan.** -/
theorem covers_planPage (config : ChunkPlannerConfig) (hplaced : page.Placed)
    (hids : (page.blocks.map BlockManifest.blockId).Nodup)
    (force : Option ChunkGranularity) : (planPage config page force).1.Covers page.lines := by
  unfold planPage
  split
  · intro lm hlm
    obtain ⟨i, hi, rfl⟩ := List.getElem_of_mem hlm
    exact covers_planLineFrom page.pageId page.lines.length page.lines 0 i (Nat.zero_le _) hi
      (Nat.sub_le _ _) _ (by rw [List.getElem?_map, List.getElem?_eq_getElem hi]; rfl)
  · exact covers_tryWindow
  · cases hblock : tryBlock config page with
    | some plan => exact covers_tryBlock hplaced hids hblock
    | none => exact covers_tryWindow
  · cases hpage : tryPage config page with
    | some plan => exact covers_tryPage hpage
    | none => exact covers_autoPlan hplaced hids
  · exact covers_autoPlan hplaced hids

theorem ChunkRequest.Within.mono {depth depth' : Nat} {chunk : ChunkRequest}
    (h : chunk.Within depth) (hle : depth ≤ depth') : chunk.Within depth' :=
  ⟨h.depth.trans hle, h.targets⟩

/-- The planner never asks for more than a page. -/
theorem within_autoPlan : ∀ chunk ∈ (autoPlan config page).chunks,
    chunk.Within ChunkGranularity.page.depth := by
  unfold autoPlan
  intro chunk hchunk
  cases hpage : tryPage config page with
  | some plan =>
    rw [hpage] at hchunk
    exact within_tryPage hpage chunk hchunk
  | none =>
    rw [hpage] at hchunk
    cases hblock : tryBlock config page with
    | some plan =>
      rw [hblock] at hchunk
      exact (within_tryBlock hblock chunk hchunk).mono (by decide)
    | none =>
      rw [hblock] at hchunk
      exact (within_tryWindow chunk hchunk).mono (by decide)

/-- **No chunk is coarser than the level forced.** -/
theorem within_planPage (config : ChunkPlannerConfig) (page : PageManifest)
    (force : Option ChunkGranularity) : ∀ chunk ∈ (planPage config page force).1.chunks,
      chunk.Within (force.getD .page).depth := by
  unfold planPage
  intro chunk hchunk
  split at hchunk
  · exact within_planLineFrom _ _ _ _ chunk hchunk
  · exact within_tryWindow chunk hchunk
  · cases hblock : tryBlock config page with
    | some plan =>
      rw [hblock] at hchunk
      exact within_tryBlock hblock chunk hchunk
    | none =>
      rw [hblock] at hchunk
      exact (within_tryWindow chunk hchunk).mono (by decide)
  · cases hpage : tryPage config page with
    | some plan =>
      rw [hpage] at hchunk
      exact within_tryPage hpage chunk hchunk
    | none =>
      rw [hpage] at hchunk
      exact within_autoPlan chunk hchunk
  · exact within_autoPlan chunk hchunk

end Coverage

end Saknussemm
