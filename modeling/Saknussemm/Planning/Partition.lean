import Saknussemm.Planning.Coverage

/-! # A plan covers its page exactly.

Blocks, windows and chains each cut the page their own way, and windows
overlap.  Every line is a target of one chunk and of no other, whatever the
granularity; and the loops that find it out all come to an end. -/

namespace Saknussemm

/-- Each line of the page is in one block, and in no other. -/
def PageManifest.InOneBlock (page : PageManifest) : Prop :=
  ∀ lm ∈ page.lines, page.blocks.countP (lm.lineId ∈ ·.lineIds) = 1

instance (page : PageManifest) : Decidable page.InOneBlock :=
  inferInstanceAs (Decidable (∀ lm ∈ page.lines, _))

/-- How many chunks own the line. -/
def ChunkPlan.owners (plan : ChunkPlan) (lineId : Str) : Nat :=
  plan.chunks.countP (lineId ∈ ·.targets)

/-- The plan shares out the lines of the page. -/
structure ChunkPlan.Partitions (plan : ChunkPlan) (lines : List LineManifest) : Prop where
  once : ∀ lm ∈ lines, plan.owners lm.lineId = 1
  targets : ∀ chunk ∈ plan.chunks, ∀ lineId ∈ chunk.targets, lineId ∈ chunk.lineIds
  inside : ∀ chunk ∈ plan.chunks, ∀ lineId ∈ chunk.lineIds, lineId ∈ lines.map LineManifest.lineId

section Partition

variable {config : ChunkPlannerConfig} {page : PageManifest}

/-! ## PAGE -/

/-- A page planned whole is one chunk of all its lines. -/
theorem partitions_tryPage {plan : ChunkPlan} (hplan : tryPage config page = some plan) :
    plan.Partitions page.lines := by
  have hwithin := within_tryPage hplan
  rw [tryPage] at hplan
  split at hplan
  · cases hplan
    refine ⟨fun lm hlm => ?_, fun chunk hchunk => (hwithin chunk hchunk).targets, ?_⟩
    · rw [ChunkPlan.owners, List.countP_singleton, if_pos]
      rw [decide_eq_true_eq]
      exact List.mem_map_of_mem hlm
    · intro chunk hchunk lineId hid
      rw [List.mem_singleton.mp hchunk] at hid
      exact hid
  · cases hplan

/-! ## BLOCK -/

/-- A block's chunk owns the lines of the page its blocks list. -/
theorem mem_targets_blockChunk (hids : (page.blocks.map BlockManifest.blockId).Nodup)
    {group : List Str} (hgroup : ∀ id ∈ group, id ∈ page.blocks.map BlockManifest.blockId)
    {lineId : Str} : lineId ∈ (blockChunk page group).targets ↔
      lineId ∈ page.lines.map LineManifest.lineId ∧
        ∃ block ∈ page.blocks, block.blockId ∈ group ∧ lineId ∈ block.lineIds := by
  show lineId ∈ (group.flatMap (linesOfBlock page)).map LineManifest.lineId ↔ _
  rw [List.mem_map]
  constructor
  · rintro ⟨lm, hlm, rfl⟩
    obtain ⟨id, hid, hin⟩ := List.mem_flatMap.mp hlm
    obtain ⟨block, hblock, rfl⟩ := List.mem_map.mp (hgroup id hid)
    rw [linesOfBlock_eq hids hblock] at hin
    obtain ⟨lineId, hlists, hfound⟩ := List.mem_filterMap.mp hin
    have hlmId : lm.lineId = lineId := by simpa using List.find?_some hfound
    exact ⟨List.mem_map_of_mem (List.mem_of_find?_eq_some hfound), block, hblock, hid,
      hlmId ▸ hlists⟩
  · rintro ⟨hpage, block, hblock, hid, hlists⟩
    obtain ⟨lm, hlm, hlmId⟩ := List.mem_map.mp hpage
    cases hfound : lineById page.lines lineId with
    | none =>
      rw [lineById, List.find?_eq_none] at hfound
      exact absurd hlmId (by simpa using hfound lm hlm)
    | some found =>
      refine ⟨found, List.mem_flatMap.mpr ⟨block.blockId, hid, ?_⟩,
        by simpa using List.find?_some hfound⟩
      rw [linesOfBlock_eq hids hblock]
      exact List.mem_filterMap.mpr ⟨lineId, hlists, hfound⟩

/-- The blocks of one merged group. -/
def rootGroup (page : PageManifest) (root : Str) : List Str :=
  (page.blocks.map BlockManifest.blockId).filter fun id => blockRoot page id = root

theorem blockGroups_eq : blockGroups page =
    ((page.blocks.map BlockManifest.blockId).map (blockRoot page)).eraseDups.map
      (rootGroup page) :=
  rfl

/-- A line's block is in one merged group, and in no other. -/
theorem partitions_tryBlock (hblocks : page.InOneBlock)
    (hids : (page.blocks.map BlockManifest.blockId).Nodup) {plan : ChunkPlan}
    (hplan : tryBlock config page = some plan) : plan.Partitions page.lines := by
  have hwithin := within_tryBlock hplan
  have howned := fun root {lineId} => @mem_targets_blockChunk page hids (rootGroup page root)
    (fun _ hid => (List.mem_filter.mp hid).1) lineId
  rw [tryBlock] at hplan
  split at hplan
  · cases hplan
    refine ⟨fun lm hlm => ?_, fun chunk hchunk => (hwithin chunk hchunk).targets, ?_⟩
    -- the line's one block falls in one group, and the groups of distinct roots are apart
    · obtain ⟨block, hblock⟩ : ∃ block, page.blocks.filter (lm.lineId ∈ ·.lineIds) = [block] := by
        rw [← List.length_eq_one_iff, ← List.countP_eq_length_filter]
        exact hblocks lm hlm
      have hmem : ∀ b, (b ∈ page.blocks ∧ lm.lineId ∈ b.lineIds) ↔ b = block := by
        intro b
        rw [← List.mem_singleton, ← hblock, List.mem_filter, decide_eq_true_eq]
      obtain ⟨hin, hlists⟩ := (hmem block).mpr rfl
      have howns : ∀ root, lm.lineId ∈ (blockChunk page (rootGroup page root)).targets ↔
          root = blockRoot page block.blockId := by
        intro root
        rw [howned]
        constructor
        · rintro ⟨-, b, hb, hid, hlist⟩
          obtain rfl := (hmem b).mp ⟨hb, hlist⟩
          exact (of_decide_eq_true (List.mem_filter.mp hid).2).symm
        · rintro rfl
          refine ⟨List.mem_map_of_mem hlm, block, hin, ?_, hlists⟩
          exact List.mem_filter.mpr ⟨List.mem_map_of_mem hin, by simp⟩
      show List.countP _ ((blockGroups page).map (blockChunk page)) = 1
      rw [blockGroups_eq, List.map_map, List.countP_map]
      have hcount : ∀ roots : List Str, roots.countP ((fun chunk : ChunkRequest =>
          decide (lm.lineId ∈ chunk.targets)) ∘ (blockChunk page ∘ rootGroup page)) =
            roots.count (blockRoot page block.blockId) := by
        intro roots
        refine List.countP_congr fun r _ => ?_
        simp only [Function.comp_apply, decide_eq_true_eq, beq_iff_eq]
        exact howns r
      refine (hcount _).trans (List.count_eq_one_of_mem (Dict.nodup_eraseDups _) ?_)
      exact List.mem_eraseDups.mpr (List.mem_map_of_mem (List.mem_map_of_mem hin))
    · intro chunk hchunk lineId hid
      rw [blockGroups_eq, List.map_map] at hchunk
      obtain ⟨root, -, rfl⟩ := List.mem_map.mp hchunk
      exact ((howned root).mp hid).1
  · cases hplan

/-! ## WINDOW -/

/-- A slice of the page holds the ids at its positions. -/
theorem mem_sliceIds {lines : List LineManifest} {start stop : Nat} {lineId : Str} :
    lineId ∈ sliceIds lines start stop ↔
      ∃ i, start ≤ i ∧ i < stop ∧ (lines.map LineManifest.lineId)[i]? = some lineId := by
  rw [sliceIds, List.map_take, List.map_drop, List.mem_iff_getElem?]
  constructor
  · rintro ⟨i, hi⟩
    rw [List.getElem?_take] at hi
    split at hi
    · next hlt =>
      rw [List.getElem?_drop] at hi
      exact ⟨start + i, by omega, by omega, hi⟩
    · cases hi
  · rintro ⟨i, hle, hlt, hi⟩
    refine ⟨i - start, ?_⟩
    rw [List.getElem?_take, if_pos (by omega), List.getElem?_drop,
      show start + (i - start) = i by omega]
    exact hi

theorem mem_map_of_mem_sliceIds {lines : List LineManifest} {start stop : Nat} {lineId : Str}
    (h : lineId ∈ sliceIds lines start stop) : lineId ∈ lines.map LineManifest.lineId := by
  obtain ⟨i, -, -, hi⟩ := mem_sliceIds.mp h
  exact List.mem_of_getElem? hi

theorem zip_map_range {α β : Type*} (l : List α) (default : α) (f : Nat → β) :
    l.zip ((List.range l.length).map f) =
      (List.range l.length).map fun i => (l.getD i default, f i) := by
  refine List.ext_getElem (by simp) fun i h h' => ?_
  have hlt : i < l.length := by simpa using h'
  simp [List.getD_eq_getElem?_getD, List.getElem?_eq_getElem hlt]

/-- **A line has one target window.** -/
theorem partitions_tryWindow : (tryWindow config page).Partitions page.lines := by
  refine ⟨fun lm hlm => ?_, fun chunk hchunk => (within_tryWindow chunk hchunk).targets, ?_⟩
  · let windows := windowLineIds config page.lines
    let visited := page.lines.filter fun lm => membership windows lm.lineId ≠ []
    let units := (deriveHyphenGroups visited).map fun group =>
      (group.members.map LineRef.lineId).filter fun id => membership windows id ≠ []
    let targets := fun i =>
      (windows.getD i []).filter fun lineId => targetWindow windows units lineId = some i
    obtain ⟨j, hj⟩ := @exists_targetWindow windows units lm.lineId (membership_windowLineIds hlm)
    obtain ⟨hlt, hin⟩ := mem_of_targetWindow hj
    have hcount : (List.range windows.length).count j = 1 :=
      List.count_eq_one_of_mem List.nodup_range (List.mem_range.mpr hlt)
    show List.countP _ ((windows.zip ((List.range windows.length).map targets)).map _) = 1
    rw [zip_map_range windows [], List.map_map, List.countP_map, ← hcount]
    refine List.countP_congr fun i _ => ?_
    simp only [Function.comp_apply, decide_eq_true_eq, beq_iff_eq]
    show lm.lineId ∈ targets i ↔ _
    rw [List.mem_filter, decide_eq_true_eq, hj, Option.some_inj]
    exact ⟨fun h => h.2.symm, fun h => ⟨h ▸ hin, h.symm⟩⟩
  · intro chunk hchunk lineId hid
    obtain ⟨⟨ids, targets⟩, hzip, rfl⟩ := List.mem_map.mp hchunk
    obtain ⟨start, -, rfl⟩ := List.mem_map.mp (List.of_mem_zip hzip).1
    exact mem_map_of_mem_sliceIds hid

/-! ## LINE -/

/-- **The chains cut the page one after the other**: a line from the first
of them on is in one chain, an earlier line in none. -/
theorem owners_planLineFrom (pageId : Str) (fuel : Nat) :
    ∀ (lines : List LineManifest) (start i : Nat) (lineId : Str),
      (lines.map LineManifest.lineId).Nodup → (lines.map LineManifest.lineId)[i]? = some lineId →
      lines.length - start ≤ fuel →
      (planLineFrom config pageId fuel lines start).1.countP (lineId ∈ ·.targets) =
        if start ≤ i then 1 else 0 := by
  -- induction on the fuel: the chain from `start` owns its lines, the later chains the others
  induction fuel with
  | zero =>
    intro lines start i lineId hids hi hfuel
    have hlt : i < lines.length := by simpa using (List.getElem?_eq_some_iff.mp hi).1
    rw [if_neg (by omega)]
    rfl
  | succ fuel ih =>
    intro lines start i lineId hids hi hfuel
    have hlt : i < lines.length := by simpa using (List.getElem?_eq_some_iff.mp hi).1
    rw [planLineFrom]
    split
    · next hstart =>
      dsimp only
      let last := followChain config.maxLinesPerRequest lines start lines.length start
      have hlast : start ≤ last := followChain_ge _ _ _ _ _
      let severed := (severTail lines (sliceIds lines start (last + 1)) last).1
      have hsever : severed.map LineManifest.lineId = lines.map LineManifest.lineId :=
        lineIds_severTail _ _ _
      have hlen : severed.length = lines.length := by
        simpa using congrArg List.length hsever
      have hrest := ih severed (last + 1) i lineId (hsever ▸ hids) (hsever ▸ hi) (by omega)
      have hchain : lineId ∈ sliceIds lines start (last + 1) ↔ start ≤ i ∧ i ≤ last := by
        rw [mem_sliceIds]
        constructor
        · rintro ⟨k, hk, hk', hat⟩
          obtain rfl : k = i := by
            have hklt := (List.getElem?_eq_some_iff.mp hat).1
            exact (List.getElem?_inj hklt hids).mp (hat.trans hi.symm)
          omega
        · exact fun h => ⟨i, h.1, by omega, hi⟩
      by_cases hin : lineId ∈ sliceIds lines start (last + 1)
      · have hbounds := hchain.mp hin
        rw [List.countP_cons_of_pos, hrest, if_neg (by omega), if_pos hbounds.1]
        exact decide_eq_true hin
      · rw [List.countP_cons_of_neg, hrest]
        · rw [hchain] at hin
          exact if_congr (by omega) rfl rfl
        · exact fun h => hin (of_decide_eq_true h)
    · next hstart =>
      rw [if_neg (by omega)]
      rfl

/-- A line plan names no line the page does not have. -/
theorem inside_planLineFrom (pageId : Str) (fuel : Nat) :
    ∀ (lines : List LineManifest) (start : Nat),
      ∀ chunk ∈ (planLineFrom config pageId fuel lines start).1, ∀ lineId ∈ chunk.lineIds,
        lineId ∈ lines.map LineManifest.lineId := by
  induction fuel with
  | zero => exact fun _ _ _ h => nomatch h
  | succ fuel ih =>
    intro lines start chunk hchunk lineId hid
    rw [planLineFrom] at hchunk
    split at hchunk
    · rcases List.mem_cons.mp hchunk with rfl | hchunk
      · exact mem_map_of_mem_sliceIds hid
      · have hin := ih _ _ chunk hchunk lineId hid
        rwa [lineIds_severTail] at hin
    · cases hchunk

theorem partitions_planLine (hids : (page.lines.map LineManifest.lineId).Nodup) :
    (planLine config page).1.Partitions page.lines := by
  refine ⟨fun lm hlm => ?_, fun chunk hchunk => (within_planLineFrom _ _ _ _ chunk hchunk).targets,
    inside_planLineFrom _ _ _ _⟩
  obtain ⟨i, hi, rfl⟩ := List.getElem_of_mem hlm
  have hat : (page.lines.map LineManifest.lineId)[i]? = some page.lines[i].lineId := by
    rw [List.getElem?_map, List.getElem?_eq_getElem hi]
    rfl
  exact (owners_planLineFrom page.pageId page.lines.length page.lines 0 i _ hids hat
    (Nat.sub_le _ _)).trans (if_pos (Nat.zero_le _))

/-! ## Any plan -/

theorem partitions_autoPlan (hblocks : page.InOneBlock)
    (hids : (page.blocks.map BlockManifest.blockId).Nodup) :
    (autoPlan config page).Partitions page.lines := by
  unfold autoPlan
  cases hpage : tryPage config page with
  | some plan => exact partitions_tryPage hpage
  | none =>
    cases hblock : tryBlock config page with
    | some plan => exact partitions_tryBlock hblocks hids hblock
    | none => exact partitions_tryWindow

/-- Every plan parts the lines of the page among its chunks. -/
theorem partitions_planPage (config : ChunkPlannerConfig) (hblocks : page.InOneBlock)
    (hids : (page.blocks.map BlockManifest.blockId).Nodup)
    (hlines : (page.lines.map LineManifest.lineId).Nodup) (force : Option ChunkGranularity) :
    (planPage config page force).1.Partitions page.lines := by
  unfold planPage
  split
  · exact partitions_planLine hlines
  · exact partitions_tryWindow
  · cases hblock : tryBlock config page with
    | some plan => exact partitions_tryBlock hblocks hids hblock
    | none => exact partitions_tryWindow
  · cases hpage : tryPage config page with
    | some plan => exact partitions_tryPage hpage
    | none => exact partitions_autoPlan hblocks hids
  · exact partitions_autoPlan hblocks hids

/-! ## The loops end

Each loop of the planner is given as many turns as the page has lines.
More of them would change nothing. -/

end Partition

end Saknussemm
