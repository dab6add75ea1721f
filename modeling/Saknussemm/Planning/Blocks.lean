import Saknussemm.Planning.Links

/-! # PAGE and BLOCK plans cut nothing.

A PAGE plan is one chunk.  A BLOCK plan puts the blocks a hyphen unit
spans into one group, by the union of the members' blocks pair by pair,
and a group is one chunk. -/

namespace Saknussemm

variable {config : ChunkPlannerConfig} {page : PageManifest}

/-- A PAGE plan holds every pair of lines of the page. -/
theorem together_tryPage {plan : ChunkPlan} (hplan : tryPage config page = some plan)
    {x y : LineManifest} (hx : x ∈ page.lines) (hy : y ∈ page.lines) :
    plan.Together x.lineId y.lineId := by
  rw [tryPage] at hplan
  split at hplan
  · cases hplan
    exact ⟨_, List.mem_singleton_self _, List.mem_map_of_mem hx, List.mem_map_of_mem hy⟩
  · cases hplan

/-! ## The lines of a block -/

/-- Blocks with ids of their own have their own lines. -/
theorem linesOfBlock_eq (hids : (page.blocks.map BlockManifest.blockId).Nodup)
    {block : BlockManifest} (hblock : block ∈ page.blocks) :
    linesOfBlock page block.blockId = block.lineIds.filterMap (lineById page.lines) := by
  let entry := fun block : BlockManifest =>
    (block.blockId, block.lineIds.filterMap (lineById page.lines))
  have hkeys : ((page.blocks.map entry).map Prod.fst).Nodup := by
    rw [List.map_map]
    exact hids
  have hget : (blockLines page).get? block.blockId = some (entry block).2 := by
    show Dict.get? (Dict.ofList (page.blocks.map entry)) _ = _
    rw [Dict.ofList_of_nodup hkeys]
    exact Dict.get?_of_mem hkeys (List.mem_map_of_mem hblock)
  rw [linesOfBlock, hget]
  rfl

/-- A block's lines are the page's. -/
theorem mem_lines_of_mem_linesOfBlock {blockId : Str} {lm : LineManifest}
    (h : lm ∈ linesOfBlock page blockId) : lm ∈ page.lines := by
  rw [linesOfBlock] at h
  cases hget : (blockLines page).get? blockId with
  | none =>
    rw [hget] at h
    cases h
  | some lines =>
    rw [hget, Option.getD_some] at h
    obtain ⟨block, -, heq⟩ := List.mem_map.mp (Dict.mem_of_mem_ofList (Dict.mem_of_get? hget))
    obtain rfl : _ = lines := congrArg Prod.snd heq
    obtain ⟨_, -, hfound⟩ := List.mem_filterMap.mp h
    exact List.mem_of_find?_eq_some hfound

namespace PageManifest.WellLinked

variable (h : page.WellLinked)

include h

theorem lineById_eq_some {x : LineManifest} (hx : x ∈ page.lines) :
    lineById page.lines x.lineId = some x := by
  cases hf : lineById page.lines x.lineId with
  | none =>
    rw [lineById, List.find?_eq_none] at hf
    simpa using hf x hx
  | some y =>
    have hy : y ∈ page.lines := List.mem_of_find?_eq_some hf
    have hid : y.lineId = x.lineId := by simpa using List.find?_some hf
    rw [List.inj_on_of_nodup_map h.line_ids hy hx hid]

/-- The blocks of two members of a group are connected. -/
theorem blockRoot_eq {group : HyphenGroup} (hgroup : group ∈ deriveHyphenGroups page.lines)
    {x y : LineManifest} (hx : x ∈ page.lines) (hy : y ∈ page.lines)
    (hxm : lineRef x ∈ group.members) (hym : lineRef y ∈ group.members) :
    blockRoot page x.blockId = blockRoot page y.blockId := by
  let memberBlocks := group.members.filterMap fun ref =>
    (lineById page.lines ref.lineId).map LineManifest.blockId
  let linked := memberBlocks.filter (· ∈ page.blocks.map BlockManifest.blockId)
  have hmem : ∀ {z : LineManifest}, z ∈ page.lines → lineRef z ∈ group.members →
      z.blockId ∈ linked := by
    intro z hz hzm
    obtain ⟨block, hblock, hid, -⟩ := h.in_block z hz
    refine List.mem_filter.mpr ⟨List.mem_filterMap.mpr ⟨lineRef z, hzm, ?_⟩, ?_⟩
    · show (lineById page.lines z.lineId).map LineManifest.blockId = some z.blockId
      rw [h.lineById_eq_some hz]
      rfl
    · rw [← hid]
      simpa using ⟨block, hblock, rfl⟩
  have hconnected := UnionFind.eqvGen_zip_tail (hmem hx hxm) (hmem hy hym)
  apply (UnionFind.sameRoot_iff (Nat.le_refl _) _ _).mpr
  -- `union(a, b)` lists the pair the other way round
  have hlisted : ∀ a b, UnionFind.Listed (linked.zip linked.tail) a b →
      Relation.EqvGen (UnionFind.Listed ((linkedBlocks page).map Prod.swap)) a b := by
    intro a b hab
    refine .symm _ _ (.rel _ _ (List.mem_map.mpr ⟨(a, b), ?_, rfl⟩))
    exact List.mem_flatMap.mpr ⟨group, hgroup, hab⟩
  exact Relation.EqvGen.eqvGen_le hlisted _ _ hconnected

/-- **A BLOCK plan holds every link of the page in one chunk.** -/
theorem together_tryBlock {plan : ChunkPlan} (hplan : tryBlock config page = some plan)
    {x y : LineManifest} (hx : x ∈ page.lines) (hy : y ∈ page.lines)
    (hxy : forwardPartnerRef x = some (lineRef y)) : plan.Together x.lineId y.lineId := by
  rw [tryBlock] at hplan
  split at hplan
  · cases hplan
    obtain ⟨group, hgroup, hxm, hym⟩ : ∃ group ∈ deriveHyphenGroups page.lines,
        lineRef x ∈ group.members ∧ lineRef y ∈ group.members := by
      refine exists_group h.refs (List.mem_map_of_mem hx) (List.mem_map_of_mem hy) ?_
        (connected_of_link hx hy hxy)
      rintro heq
      exact h.ne_of_link hx hxy heq
    have hroot := h.blockRoot_eq hgroup hx hy hxm hym
    let root := blockRoot page x.blockId
    let ids := (page.blocks.map BlockManifest.blockId).filter fun id => blockRoot page id = root
    have hmem : ∀ z ∈ page.lines, blockRoot page z.blockId = root →
        z.lineId ∈ (blockChunk page ids).targets := by
      intro z hz hzroot
      obtain ⟨block, hblock, hid, hlists⟩ := h.in_block z hz
      refine List.mem_map.mpr ⟨z, List.mem_flatMap.mpr ⟨block.blockId, ?_, ?_⟩, rfl⟩
      · refine List.mem_filter.mpr ⟨List.mem_map_of_mem hblock, ?_⟩
        rw [hid, hzroot, decide_eq_true_eq]
      · rw [linesOfBlock_eq h.block_ids hblock]
        exact List.mem_filterMap.mpr ⟨z.lineId, hlists, h.lineById_eq_some hz⟩
    refine ⟨blockChunk page ids, List.mem_map_of_mem ?_, hmem x hx rfl, hmem y hy hroot.symm⟩
    obtain ⟨block, hblock, hid, -⟩ := h.in_block x hx
    refine List.mem_map.mpr ⟨root, ?_, rfl⟩
    rw [List.mem_eraseDups, List.map_map]
    exact List.mem_map.mpr ⟨block, hblock, by rw [Function.comp_apply, hid]⟩
  · cases hplan

end PageManifest.WellLinked

end Saknussemm
