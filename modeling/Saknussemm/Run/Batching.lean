import Saknussemm.Run.Dispatch

/-! # Cutting a chunk to the images of one call.

A producer that is sent images takes so many lines a call.  A larger chunk
is cut into batches that share out its targets and keep the lines of a
hyphen unit together; a unit too large for a call is refused. -/

namespace Saknussemm

/-! ## Visible units -/

/-- The lines that travel with a line: its unit as the page shows it. -/
def visibleUnit (pageLines : List LineManifest) (lineId : Str) : List Str :=
  (unitVisibleOnPage pageLines lineId).getD [lineId]

/-- The units a page shows, the last first: that one is read. -/
def unitsVisibleOnPage (pageLines : List LineManifest) : List (List Str) :=
  (((deriveHyphenGroups pageLines).map fun g =>
    (g.members.map LineRef.lineId).filter (· ∈ pageLines.map LineManifest.lineId)).filter
      (2 ≤ ·.eraseDups.length)).reverse

theorem unitVisibleOnPage_eq (pageLines : List LineManifest) (lineId : Str) :
    unitVisibleOnPage pageLines lineId = (unitsVisibleOnPage pageLines).find? (lineId ∈ ·) := rfl

theorem exists_group_of_visible {pageLines : List LineManifest} {unit : List Str}
    (h : unit ∈ unitsVisibleOnPage pageLines) : ∃ g ∈ deriveHyphenGroups pageLines,
      unit = (g.members.map LineRef.lineId).filter (· ∈ pageLines.map LineManifest.lineId) := by
  obtain ⟨g, hg, rfl⟩ := List.mem_map.mp (List.mem_of_mem_filter (List.mem_reverse.mp h))
  exact ⟨g, hg, rfl⟩

theorem mem_visibleUnit_self (pageLines : List LineManifest) (lineId : Str) :
    lineId ∈ visibleUnit pageLines lineId := by
  unfold visibleUnit
  cases hunit : unitVisibleOnPage pageLines lineId with
  | none => exact List.mem_singleton_self _
  | some unit => exact mem_unitVisibleOnPage hunit

section Units

variable {pageLines : List LineManifest} (hids : (pageLines.map LineManifest.lineId).Nodup)

include hids

theorem nodup_refs_of_ids : (pageLines.map lineRef).Nodup := by
  apply List.Nodup.of_map LineRef.lineId
  rw [List.map_map]
  exact hids

/-- A line's id is in one group at most. -/
theorem eq_of_shared_id {g h : HyphenGroup} (hg : g ∈ deriveHyphenGroups pageLines)
    (hh : h ∈ deriveHyphenGroups pageLines) {lineId : Str}
    (hin : lineId ∈ g.members.map LineRef.lineId) (hin' : lineId ∈ h.members.map LineRef.lineId) :
    g = h := by
  have hrefs := nodup_refs_of_ids hids
  obtain ⟨x, hx, rfl⟩ := List.mem_map.mp hin
  obtain ⟨y, hy, hxy⟩ := List.mem_map.mp hin'
  obtain ⟨a, ha, rfl⟩ := List.mem_map.mp ((mem_members_iff hrefs hg hx).mp hx).1
  obtain ⟨b, hb, rfl⟩ := List.mem_map.mp ((mem_members_iff hrefs hh hy).mp hy).1
  -- ids are distinct, so the two lines are one
  have hab : b = a := List.inj_on_of_nodup_map hids hb ha hxy
  subst hab
  by_contra hne
  have : Std.Symm fun g h : HyphenGroup => g.members.Disjoint h.members :=
    ⟨fun _ _ hdisjoint _ hx hx' => hdisjoint hx' hx⟩
  exact pairwise_disjoint_deriveHyphenGroups.forall hg hh hne hx hy

/-- **A unit is the unit of each of its members.** -/
theorem unitVisibleOnPage_of_mem {lineId other : Str} {unit : List Str}
    (hunit : unitVisibleOnPage pageLines lineId = some unit) (hmem : other ∈ unit) :
    unitVisibleOnPage pageLines other = some unit := by
  rw [unitVisibleOnPage_eq] at hunit ⊢
  cases hfind : (unitsVisibleOnPage pageLines).find? (other ∈ ·) with
  | none =>
    have := List.find?_eq_none.mp hfind unit (List.mem_of_find?_eq_some hunit)
    exact absurd (decide_eq_true hmem) this
  | some found =>
    have hother : other ∈ found := by simpa using List.find?_some hfind
    -- the units are the groups' ids, and an id tells its group
    obtain ⟨g, hg, rfl⟩ := exists_group_of_visible (List.mem_of_find?_eq_some hunit)
    obtain ⟨h, hh, rfl⟩ := exists_group_of_visible (List.mem_of_find?_eq_some hfind)
    rw [eq_of_shared_id hids hg hh (List.mem_of_mem_filter hmem) (List.mem_of_mem_filter hother)]

theorem visibleUnit_of_mem {lineId other : Str} (hmem : other ∈ visibleUnit pageLines lineId) :
    visibleUnit pageLines other = visibleUnit pageLines lineId := by
  unfold visibleUnit at hmem ⊢
  cases hunit : unitVisibleOnPage pageLines lineId with
  | none =>
    rw [hunit, Option.getD_none, List.mem_singleton] at hmem
    rw [hmem, hunit]
  | some unit =>
    rw [hunit, Option.getD_some] at hmem
    rw [unitVisibleOnPage_of_mem hids hunit hmem]
    rfl

end Units

/-! ## Batches share out the targets -/

section Loop

variable {pageLines : List LineManifest} {chunk : ChunkRequest} {cap : Nat}

/-- Batches under way: none too large, and each line of theirs in them as
often as in the chunk. -/
structure Batches.Sound (chunk : ChunkRequest) (cap : Nat) (batches : Batches) : Prop where
  accounted : batches.Accounted
  done : ∀ batch ∈ batches.done, batch.length ≤ cap ∧ batch ≠ []
  current : batches.current.length ≤ cap
  whole : ∀ lineId ∈ batches.assigned, batches.assigned.count lineId = chunk.lineIds.count lineId

/-- The lines that travel with a target are all there is of some lines not in
a batch yet. -/
theorem batchMembers_eq (pageLines : List LineManifest) (chunk : ChunkRequest) (assigned : List Str)
    {lineId : Str} (hnew : lineId ∉ assigned) :
    ∃ p : Str → Bool, batchMembers pageLines chunk assigned lineId = chunk.lineIds.filter p ∧
      ∀ other, p other = true → other ∉ assigned := by
  unfold batchMembers
  dsimp only
  split
  · exact ⟨_, rfl, fun other hother => of_decide_eq_true hother ▸ hnew⟩
  · refine ⟨_, rfl, fun other hother => ?_⟩
    rw [Bool.and_eq_true, decide_eq_true_eq] at hother
    exact of_decide_eq_true hother.2

/-- Adding the members of a fresh line keeps the count of each. -/
theorem whole_append_batchMembers {assigned : List Str} {lineId : Str} (hnew : lineId ∉ assigned)
    (h : ∀ other ∈ assigned, assigned.count other = chunk.lineIds.count other) :
    ∀ other ∈ assigned ++ batchMembers pageLines chunk assigned lineId,
      (assigned ++ batchMembers pageLines chunk assigned lineId).count other =
        chunk.lineIds.count other := by
  obtain ⟨p, hmembers, hp⟩ := batchMembers_eq pageLines chunk assigned hnew
  rw [hmembers]
  intro other hother
  rw [List.count_append]
  rcases List.mem_append.mp hother with hin | hin
  · have hnot : other ∉ chunk.lineIds.filter p := by
      intro hmem
      exact hp other (List.mem_filter.mp hmem).2 hin
    rw [h other hin, List.count_eq_zero_of_not_mem hnot, Nat.add_zero]
  · have hkept := (List.mem_filter.mp hin).2
    rw [List.count_eq_zero_of_not_mem (hp other hkept), List.count_filter hkept, Nat.zero_add]

/-- A member that fits is added, or opens the next batch. -/
theorem Batches.Sound.add {batches batches' : Batches} {lineId : Str}
    (h : batches.Sound chunk cap) (hshown : lineId ∈ chunk.lineIds)
    (hadd : addToBatch pageLines chunk cap batches lineId = .ok batches') :
    batches'.Sound chunk cap := by
  obtain ⟨haccounted, -, -⟩ := addToBatch_ok h.accounted hshown hadd
  unfold addToBatch at hadd
  split at hadd
  · cases hadd
    exact h
  next hnew =>
  rw [not_or] at hnew
  have hwhole := @whole_append_batchMembers pageLines chunk _ _ hnew.1 h.whole
  dsimp only at hadd
  split at hadd
  · cases hadd
  next hfits =>
  split at hadd
  -- the batch is full: it is closed and the members open the next
  · next hflush =>
    cases hadd
    refine ⟨haccounted, fun batch hbatch => ?_, Nat.le_of_not_lt hfits, hwhole⟩
    rcases List.mem_append.mp hbatch with hdone | hlast
    · exact h.done batch hdone
    · rw [List.mem_singleton.mp hlast]
      exact ⟨h.current, hflush.1⟩
  -- the members fit in the batch that is open
  · next hroom =>
    cases hadd
    refine ⟨haccounted, h.done, ?_, hwhole⟩
    rw [List.length_append]
    by_cases hempty : batches.current = []
    · rw [hempty, List.length_nil, Nat.zero_add]
      exact Nat.le_of_not_lt hfits
    · exact Nat.le_of_not_lt fun hlt => hroom ⟨hempty, hlt⟩

/-- The batches stay sound along the loop. -/
theorem Batches.Sound.foldlM {ids : List Str} (hids : ids ⊆ chunk.lineIds) :
    ∀ {batches batches' : Batches}, batches.Sound chunk cap →
      ids.foldlM (addToBatch pageLines chunk cap) batches = .ok batches' →
          batches'.Sound chunk cap := by
  induction ids with
  | nil =>
    intro batches batches' h hfold
    cases hfold
    exact h
  | cons id ids ih =>
    intro batches batches' h hfold
    rw [List.foldlM_cons] at hfold
    obtain ⟨between, hadd, hrest⟩ := Fallible.bind_eq_ok.mp hfold
    exact ih (fun x hx => hids (by simp [hx])) (h.add (hids (by simp)) hadd) hrest

/-- The batches of a chunk. -/
def Batches.all (batches : Batches) : List (List Str) :=
  batches.done ++ if batches.current = [] then [] else [batches.current]

theorem Batches.flatten_all (batches : Batches) :
    batches.all.flatten = batches.done.flatten ++ batches.current := by
  unfold Batches.all
  split
  · next hempty => rw [hempty, List.append_nil, List.append_nil]
  · rw [List.flatten_append, List.flatten_singleton]

/-- Batches that share out a chunk's targets, none too large. -/
structure SharesTargets (chunk : ChunkRequest) (cap : Nat) (batches : List (List Str)) : Prop where
  capped : ∀ batch ∈ batches, batch.length ≤ cap ∧ batch ≠ []
  shown : ∀ batch ∈ batches, batch ⊆ chunk.lineIds
  targets : (batches.flatMap fun batch => (batchChunk chunk batch).targets).Perm
    (chunk.lineIds.filter (· ∈ chunk.targets))

/-- Sound batches that took every line share out its targets. -/
theorem Batches.Sound.sharesTargets {batches : Batches} (h : batches.Sound chunk cap)
    (hall : ∀ lineId ∈ chunk.lineIds, lineId ∈ chunk.targets → lineId ∈ batches.assigned) :
    SharesTargets chunk cap batches.all := by
  have hflatten : batches.all.flatten = batches.assigned :=
    (Batches.flatten_all batches).trans h.accounted.symm
  constructor
  -- nothing empty is kept, and no batch is larger than the cap
  · intro batch hbatch
    unfold Batches.all at hbatch
    rcases List.mem_append.mp hbatch with hdone | hlast
    · exact h.done batch hdone
    · split at hlast
      · cases hlast
      · next hne =>
        rw [List.mem_singleton.mp hlast]
        exact ⟨h.current, hne⟩
  · intro batch hbatch lineId hin
    have hassigned : lineId ∈ batches.assigned :=
      hflatten ▸ List.mem_flatten.mpr ⟨batch, hbatch, hin⟩
    rw [← List.count_pos_iff, ← h.whole lineId hassigned]
    exact List.count_pos_iff.mpr hassigned
  -- target by target: a shown target is assigned once, any other line is in no batch
  · have hmap : (batches.all.flatMap fun batch => (batchChunk chunk batch).targets) =
        batches.assigned.filter (· ∈ chunk.targets) := by
      rw [← hflatten, List.filter_flatten, List.flatMap_def]
      rfl
    rw [hmap, List.perm_iff_count]
    intro lineId
    by_cases htarget : lineId ∈ chunk.targets
    · have hcount : ∀ ids : List Str, (ids.filter (· ∈ chunk.targets)).count lineId =
          ids.count lineId :=
        fun ids => List.count_filter (by simpa using htarget)
      rw [hcount, hcount]
      by_cases hassigned : lineId ∈ batches.assigned
      · exact h.whole lineId hassigned
      · have hnot : lineId ∉ chunk.lineIds := fun hshown => hassigned (hall lineId hshown htarget)
        rw [List.count_eq_zero_of_not_mem hassigned, List.count_eq_zero_of_not_mem hnot]
    · rw [List.count_eq_zero_of_not_mem, List.count_eq_zero_of_not_mem]
      · exact fun hmem => htarget (of_decide_eq_true (List.mem_filter.mp hmem).2)
      · exact fun hmem => htarget (of_decide_eq_true (List.mem_filter.mp hmem).2)

/-! ## Batches keep units together -/

/-- Every target without a role is alone: no unit has it. -/
def UnitsHaveRoles (pageLines : List LineManifest) (chunk : ChunkRequest) : Prop :=
  ∀ lm ∈ pageLines, lm.lineId ∈ chunk.targets → lm.hyphenRole = .none →
    unitVisibleOnPage pageLines lm.lineId = none

/-- With a line a batch has its whole unit, as the chunk shows it. -/
def KeepsUnits (pageLines : List LineManifest) (chunk : ChunkRequest) (batch : List Str) : Prop :=
  ∀ lineId ∈ batch, (chunk.lineIds.filter (· ∈ visibleUnit pageLines lineId)).Sublist batch

/-- Some target's unit is larger in the chunk than a call may be. -/
def Oversized (pageLines : List LineManifest) (chunk : ChunkRequest) (cap : Nat) : Prop :=
  ∃ lineId ∈ chunk.lineIds, lineId ∈ chunk.targets ∧
    cap < (chunk.lineIds.filter (· ∈ visibleUnit pageLines lineId)).length

theorem KeepsUnits.append_left {batch : List Str} (h : KeepsUnits pageLines chunk batch)
    {members : List Str} (h' : KeepsUnits pageLines chunk members) :
    KeepsUnits pageLines chunk (batch ++ members) := by
  intro lineId hin
  rcases List.mem_append.mp hin with hin | hin
  · exact (h lineId hin).trans (List.sublist_append_left _ _)
  · exact (h' lineId hin).trans (List.sublist_append_right _ _)

/-- A line that is in no unit, or not on the page, has no role. -/
theorem unitVisibleOnPage_of_no_role (hroles : UnitsHaveRoles pageLines chunk) {lineId : Str}
    (htarget : lineId ∈ chunk.targets)
    (hnone : (pageLines.any fun lm => lm.lineId = lineId && lm.hyphenRole ≠ .none) = false) :
    unitVisibleOnPage pageLines lineId = none := by
  by_cases hpage : lineId ∈ pageLines.map LineManifest.lineId
  · obtain ⟨lm, hlm, rfl⟩ := List.mem_map.mp hpage
    apply hroles lm hlm htarget
    have := List.any_eq_false.mp hnone lm hlm
    simpa using this
  · rw [unitVisibleOnPage_eq, List.find?_eq_none]
    intro unit hunit hin
    obtain ⟨g, -, rfl⟩ := exists_group_of_visible hunit
    exact hpage (of_decide_eq_true (List.mem_filter.mp (of_decide_eq_true hin)).2)

/-- What travels with a line is of its unit. -/
theorem batchMembers_sublist (pageLines : List LineManifest) (chunk : ChunkRequest)
    (assigned : List Str) (lineId : Str) : (batchMembers pageLines chunk assigned lineId).Sublist
      (chunk.lineIds.filter (· ∈ visibleUnit pageLines lineId)) := by
  have halone : (chunk.lineIds.filter (· = lineId)).Sublist
      (chunk.lineIds.filter (· ∈ visibleUnit pageLines lineId)) := by
    apply List.monotone_filter_right
    intro other hother
    rw [of_decide_eq_true hother]
    exact decide_eq_true (mem_visibleUnit_self _ _)
  unfold batchMembers
  dsimp only
  split
  · exact halone
  · next unit hunit =>
    split at hunit
    · apply List.monotone_filter_right
      intro other hother
      rw [Bool.and_eq_true, decide_eq_true_eq] at hother
      rw [visibleUnit, hunit, Option.getD_some]
      exact decide_eq_true hother.1
    · cases hunit

variable (hids : (pageLines.map LineManifest.lineId).Nodup)
    (hroles : UnitsHaveRoles pageLines chunk)

include hids hroles

/-- A target not in a batch yet travels with its whole unit. -/
theorem batchMembers_of_roles {batches : Batches} {lineId : Str} (haccounted : batches.Accounted)
    (hdone : ∀ batch ∈ batches.done, KeepsUnits pageLines chunk batch)
    (hcurrent : KeepsUnits pageLines chunk batches.current)
    (htarget : lineId ∈ chunk.targets) (hshown : lineId ∈ chunk.lineIds)
    (hnew : lineId ∉ batches.assigned) :
    batchMembers pageLines chunk batches.assigned lineId =
      chunk.lineIds.filter (· ∈ visibleUnit pageLines lineId) := by
  -- none of its unit is in a batch, or it would be there too
  have hapart : ∀ other ∈ visibleUnit pageLines lineId, other ∉ batches.assigned := by
    intro other hother hassigned
    have hback : lineId ∈ visibleUnit pageLines other := by
      rw [visibleUnit_of_mem hids hother]
      exact mem_visibleUnit_self _ _
    have hmem : lineId ∈ chunk.lineIds.filter (· ∈ visibleUnit pageLines other) :=
      List.mem_filter.mpr ⟨hshown, decide_eq_true hback⟩
    rw [haccounted, List.mem_append, List.mem_flatten] at hassigned hnew
    rcases hassigned with ⟨batch, hbatch, hin⟩ | hin
    · exact hnew (.inl ⟨batch, hbatch, (hdone batch hbatch other hin).subset hmem⟩)
    · exact hnew (.inr ((hcurrent other hin).subset hmem))
  unfold batchMembers
  dsimp only
  cases hrole : pageLines.any fun lm => lm.lineId = lineId && lm.hyphenRole ≠ .none with
  | false =>
    have hunit := unitVisibleOnPage_of_no_role hroles htarget hrole
    rw [if_neg Bool.false_ne_true]
    dsimp only
    refine List.filter_congr fun other _ => ?_
    rw [visibleUnit, hunit, Option.getD_none, decide_eq_decide, List.mem_singleton]
  | true =>
    rw [if_pos rfl]
    cases hunit : unitVisibleOnPage pageLines lineId with
    | none =>
      refine List.filter_congr fun other _ => ?_
      rw [visibleUnit, hunit, Option.getD_none, decide_eq_decide, List.mem_singleton]
    | some unit =>
      refine List.filter_congr fun other _ => ?_
      have hvisible : visibleUnit pageLines lineId = unit := by rw [visibleUnit, hunit]; rfl
      rw [hvisible] at hapart ⊢
      by_cases hother : other ∈ unit
      · simp [hother, hapart other hother]
      · simp [hother]

/-- Together with what was there, a target's unit is kept together. -/
theorem keepsUnits_batchMembers {batches : Batches} {lineId : Str} (haccounted : batches.Accounted)
    (hdone : ∀ batch ∈ batches.done, KeepsUnits pageLines chunk batch)
    (hcurrent : KeepsUnits pageLines chunk batches.current)
    (htarget : lineId ∈ chunk.targets) (hshown : lineId ∈ chunk.lineIds)
    (hnew : lineId ∉ batches.assigned) :
    KeepsUnits pageLines chunk (batchMembers pageLines chunk batches.assigned lineId) := by
  rw [batchMembers_of_roles hids hroles haccounted hdone hcurrent htarget hshown hnew]
  intro other hother
  rw [visibleUnit_of_mem hids (of_decide_eq_true (List.mem_filter.mp hother).2)]

/-- A unit that fits stays in one batch. -/
theorem addToBatch_keepsUnits {batches batches' : Batches} {lineId : Str}
    (haccounted : batches.Accounted)
    (hdone : ∀ batch ∈ batches.done, KeepsUnits pageLines chunk batch)
    (hcurrent : KeepsUnits pageLines chunk batches.current) (hshown : lineId ∈ chunk.lineIds)
    (hadd : addToBatch pageLines chunk cap batches lineId = .ok batches') :
    (∀ batch ∈ batches'.done, KeepsUnits pageLines chunk batch) ∧
      KeepsUnits pageLines chunk batches'.current := by
  unfold addToBatch at hadd
  split at hadd
  · cases hadd
    exact ⟨hdone, hcurrent⟩
  next hnew =>
  rw [not_or, not_not] at hnew
  have hmembers := keepsUnits_batchMembers hids hroles haccounted hdone hcurrent
    hnew.2 hshown hnew.1
  dsimp only at hadd
  split at hadd
  · cases hadd
  · split at hadd
    · cases hadd
      refine ⟨fun batch hbatch => ?_, hmembers⟩
      rcases List.mem_append.mp hbatch with hbatch | hbatch
      · exact hdone batch hbatch
      · rw [List.mem_singleton.mp hbatch]
        exact hcurrent
    · cases hadd
      exact ⟨hdone, hcurrent.append_left hmembers⟩

/-- **The loop keeps units together.** -/
theorem foldlM_addToBatch_keepsUnits {ids : List Str} (hsub : ids ⊆ chunk.lineIds) :
    ∀ {batches batches' : Batches}, batches.Accounted →
      (∀ batch ∈ batches.done, KeepsUnits pageLines chunk batch) →
      KeepsUnits pageLines chunk batches.current →
      ids.foldlM (addToBatch pageLines chunk cap) batches = .ok batches' →
      (∀ batch ∈ batches'.done, KeepsUnits pageLines chunk batch) ∧
        KeepsUnits pageLines chunk batches'.current := by
  induction ids with
  | nil =>
    intro batches batches' _ hdone hcurrent h
    cases h
    exact ⟨hdone, hcurrent⟩
  | cons id ids ih =>
    intro batches batches' haccounted hdone hcurrent h
    have hshown : id ∈ chunk.lineIds := hsub (by simp)
    rw [List.foldlM_cons] at h
    obtain ⟨between, hadd, h⟩ := Fallible.bind_eq_ok.mp h
    obtain ⟨haccounted', -, -⟩ := addToBatch_ok haccounted hshown hadd
    obtain ⟨hdone', hcurrent'⟩ :=
      addToBatch_keepsUnits hids hroles haccounted hdone hcurrent hshown hadd
    exact ih (fun x hx => hsub (by simp [hx])) haccounted' hdone' hcurrent' h

end Loop

/-! ## The work items of a page -/

section Items

variable {pageLines : List LineManifest}

/-- The refusal of a unit that no call can carry. -/
def unitTooLarge : Fault := .domain "a hyphen unit exceeds the producer's max_images".toList

/-- What a work item is cut into: itself, where its producer takes it, or
batches that share out its targets and keep their units together. -/
structure Cut (pageLines : List LineManifest) (item : ChunkRequest × EditProducer)
    (parts : List (ChunkRequest × EditProducer)) : Prop where
  kept : (∀ cap ∈ item.2.imageCap, item.1.lineIds.length ≤ cap) → parts = [item]
  cut : ∀ cap ∈ item.2.imageCap, cap < item.1.lineIds.length → ∃ batches : List (List Str),
    parts = batches.map (fun batch => (batchChunk item.1 batch, item.2)) ∧
    SharesTargets item.1 cap batches ∧
    (UnitsHaveRoles pageLines item.1 → ∀ lineId ∈ item.1.lineIds, lineId ∈ item.1.targets →
      ∃ batch ∈ batches, (item.1.lineIds.filter (· ∈ visibleUnit pageLines lineId)).Sublist batch)

/-- A target is refused only for its unit. -/
theorem addToBatch_eq_error {chunk : ChunkRequest} {cap : Nat} {batches : Batches} {lineId : Str}
    {fault : Fault} (hshown : lineId ∈ chunk.lineIds)
    (h : addToBatch pageLines chunk cap batches lineId = .error fault) :
    fault = unitTooLarge ∧ Oversized pageLines chunk cap := by
  unfold addToBatch at h
  split at h
  · cases h
  next hnew =>
  rw [not_or, not_not] at hnew
  dsimp only at h
  split at h
  · next hlarge =>
    cases h
    exact ⟨rfl, lineId, hshown, hnew.2,
      hlarge.trans_le (batchMembers_sublist pageLines chunk batches.assigned lineId).length_le⟩
  · split at h <;> cases h

/-- The loop stops only on a unit that is too large. -/
theorem foldlM_addToBatch_eq_error {chunk : ChunkRequest} {cap : Nat} {ids : List Str}
    {fault : Fault} (hsub : ids ⊆ chunk.lineIds) :
    ∀ {batches : Batches}, ids.foldlM (addToBatch pageLines chunk cap) batches = .error fault →
      fault = unitTooLarge ∧ Oversized pageLines chunk cap := by
  induction ids with
  | nil =>
    intro batches h
    cases h
  | cons id ids ih =>
    intro batches h
    rw [List.foldlM_cons] at h
    cases hadd : addToBatch pageLines chunk cap batches id with
    | error fault' =>
      rw [hadd] at h
      cases h
      exact addToBatch_eq_error (hsub (by simp)) hadd
    | ok between =>
      rw [hadd] at h
      exact ih (fun x hx => hsub (by simp [hx])) h

/-- A work item is refused only for a unit of its targets. -/
theorem splitForImageCap_eq_error {item : ChunkRequest × EditProducer} {fault : Fault}
    (h : splitForImageCap pageLines item = .error fault) :
    fault = unitTooLarge ∧ ∃ cap ∈ item.2.imageCap, Oversized pageLines item.1 cap := by
  unfold splitForImageCap at h
  dsimp only at h
  split at h
  · cases h
  · next cap hcap =>
    rw [Option.filter_eq_some_iff] at hcap
    cases hfold : item.1.lineIds.foldlM (addToBatch pageLines item.1 cap) ⟨[], [], []⟩ with
    | ok batches =>
      rw [hfold] at h
      cases h
    | error fault' =>
      rw [hfold] at h
      cases h
      obtain ⟨hfault, hlarge⟩ := foldlM_addToBatch_eq_error (List.Subset.refl _) hfold
      exact ⟨hfault, cap, hcap.1, hlarge⟩

variable (hids : (pageLines.map LineManifest.lineId).Nodup)

include hids

/-- An item is left whole or cut into batches that keep its units. -/
theorem cut_splitForImageCap {item : ChunkRequest × EditProducer}
    {parts : List (ChunkRequest × EditProducer)}
    (h : splitForImageCap pageLines item = .ok parts) : Cut pageLines item parts := by
  unfold splitForImageCap at h
  dsimp only at h
  split at h
  -- no cap, or none the item exceeds: the item is left whole
  · next hcap =>
    cases h
    refine ⟨fun _ => rfl, fun cap hmem hlt => ?_⟩
    rw [Option.filter_eq_none_iff] at hcap
    exact absurd (decide_eq_true hlt) (hcap cap hmem)
  -- the loop's invariant: what is assigned so far is accounted for and each batch is sound
  · next cap hcap =>
    rw [Option.filter_eq_some_iff, decide_eq_true_eq] at hcap
    obtain ⟨batches, hbatches, h⟩ := Fallible.bind_eq_ok.mp h
    cases h
    refine ⟨fun hall => absurd hcap.2 (Nat.not_lt.mpr (hall cap hcap.1)), fun cap' hmem hlt => ?_⟩
    obtain rfl : cap = cap' := by
      rw [hcap.1] at hmem
      exact Option.some.inj hmem
    have hstart : Batches.Accounted ⟨[], [], []⟩ := rfl
    obtain ⟨haccounted, -, hall⟩ := foldlM_addToBatch_ok (List.Subset.refl _) hstart hbatches
    have hsound : batches.Sound item.1 cap := by
      refine Batches.Sound.foldlM (List.Subset.refl _) ⟨hstart, by simp, by simp, by simp⟩ hbatches
    refine ⟨batches.all, rfl, hsound.sharesTargets hall, fun hroles lineId hshown htarget => ?_⟩
    have hkeeps := foldlM_addToBatch_keepsUnits hids hroles (List.Subset.refl _) hstart (by simp)
      (by simp [KeepsUnits]) hbatches
    have hassigned := hall lineId hshown htarget
    rw [haccounted, ← Batches.flatten_all, List.mem_flatten] at hassigned
    obtain ⟨batch, hbatch, hin⟩ := hassigned
    -- a unit is kept together in the batch that took its first line
    refine ⟨batch, hbatch, ?_⟩
    unfold Batches.all at hbatch
    rcases List.mem_append.mp hbatch with hdone | hlast
    · exact hkeeps.1 batch hdone lineId hin
    · split at hlast
      · cases hlast
      · rw [List.mem_singleton.mp hlast] at hin ⊢
        exact hkeeps.2 lineId hin

/-- No producer's call can carry a unit that is too large for it. -/
theorem splitForImageCap_of_oversized {item : ChunkRequest × EditProducer}
    (hroles : UnitsHaveRoles pageLines item.1) {cap : Nat} (hcap : cap ∈ item.2.imageCap)
    (hlarge : Oversized pageLines item.1 cap) :
    splitForImageCap pageLines item = .error unitTooLarge := by
  cases hsplit : splitForImageCap pageLines item with
  | error fault => rw [(splitForImageCap_eq_error hsplit).1]
  | ok parts =>
    -- cut, the unit would be inside a batch no larger than the cap
    obtain ⟨lineId, hshown, htarget, hlarge⟩ := hlarge
    have hlt : cap < item.1.lineIds.length := Nat.lt_of_lt_of_le hlarge (List.length_filter_le _ _)
    obtain ⟨batches, -, hshares, hunits⟩ := (cut_splitForImageCap hids hsplit).cut cap hcap hlt
    obtain ⟨batch, hbatch, hsub⟩ := hunits hroles lineId hshown htarget
    have := (hshares.capped batch hbatch).1
    have := hsub.length_le
    omega

/-- **Batching shares out the targets and keeps units together**; it refuses
only units no call can carry, and all of them. -/
theorem cut_splitAllForImageCap (items : List (ChunkRequest × EditProducer)) :
    (∀ split, splitAllForImageCap pageLines items = .ok split →
      ∃ parts, split = parts.flatten ∧ List.Forall₂ (Cut pageLines) items parts) ∧
    (∀ fault, splitAllForImageCap pageLines items = .error fault → fault = unitTooLarge ∧
      ∃ item ∈ items, ∃ cap ∈ item.2.imageCap, Oversized pageLines item.1 cap) ∧
    ((∀ item ∈ items, UnitsHaveRoles pageLines item.1) →
      (∃ item ∈ items, ∃ cap ∈ item.2.imageCap, Oversized pageLines item.1 cap) →
        splitAllForImageCap pageLines items = .error unitTooLarge) := by
  have hrefused : ∀ fault, splitAllForImageCap pageLines items = .error fault →
      fault = unitTooLarge ∧
        ∃ item ∈ items, ∃ cap ∈ item.2.imageCap, Oversized pageLines item.1 cap := by
    intro fault h
    unfold splitAllForImageCap at h
    cases hmap : items.mapM (splitForImageCap pageLines) with
    | ok parts =>
      rw [hmap] at h
      cases h
    | error fault' =>
      rw [hmap] at h
      cases h
      obtain ⟨item, hitem, herror⟩ := Fallible.exists_of_mapM_eq_error hmap
      obtain ⟨hfault, hlarge⟩ := splitForImageCap_eq_error herror
      exact ⟨hfault, item, hitem, hlarge⟩
  have hcut : ∀ split, splitAllForImageCap pageLines items = .ok split →
      ∃ parts, split = parts.flatten ∧ items.mapM (splitForImageCap pageLines) = .ok parts := by
    intro split h
    obtain ⟨parts, hparts, h⟩ := Fallible.bind_eq_ok.mp h
    cases h
    exact ⟨parts, rfl, hparts⟩
  refine ⟨fun split h => ?_, hrefused, ?_⟩
  · obtain ⟨parts, rfl, hparts⟩ := hcut split h
    exact ⟨parts, rfl, (Fallible.mapM_eq_ok.mp hparts).imp fun _ _ => cut_splitForImageCap hids⟩
  · rintro hroles ⟨item, hitem, cap, hcap, hlarge⟩
    cases hsplit : splitAllForImageCap pageLines items with
    | error fault => rw [(hrefused fault hsplit).1]
    | ok split =>
      -- the item would have been cut
      obtain ⟨parts, -, hparts⟩ := hcut split hsplit
      obtain ⟨part, -, hok⟩ :=
        Pointwise.exists_of_mem_left (Fallible.mapM_eq_ok.mp hparts) hitem
      rw [splitForImageCap_of_oversized hids (hroles item hitem) hcap hlarge] at hok
      cases hok

end Items

/-! ## Two pages -/

/-- A producer that takes so many images. -/
def imageProducer (cap : Nat) : EditProducer where
  requiresFullCoverage := false
  imageCap := some cap
  produce := fun _ _ => .ok []

/-- Some lines for a producer that takes so many images, all of them targets. -/
def imageItem (ids : List String) (cap : Nat) : ChunkRequest × EditProducer :=
  (makeChunk "p".toList .page (ids.map String.toList) none none, imageProducer cap)

theorem unitTooLarge_brokenWord :
    splitAllForImageCap brokenWord [imageItem ["a", "b", "c"] 1] = .error unitTooLarge := by
  have hroles : ∀ item ∈ [imageItem ["a", "b", "c"] 1], UnitsHaveRoles brokenWord item.1 := by
    unfold UnitsHaveRoles
    decide +kernel
  refine (cut_splitAllForImageCap (by decide) _).2.2 hroles
    ⟨_, List.mem_singleton_self _, 1, rfl, "a".toList, ?_⟩
  decide +kernel

/-- A line without a role that another line continues, apart from it. -/
def rolelessPage : List LineManifest :=
  [plainLine "p".toList 0 "a" "le por" .none, plainLine "p".toList 1 "x" "du roi" .none,
    { plainLine "p".toList 2 "b" "tail" .part2 with
      hyphenPairLineId := some "a".toList
      hyphenPairPageId := some "p".toList }]

/-- **A unit with a line that has no role may be cut apart.** -/
theorem batches_rolelessPage :
    visibleUnit rolelessPage "a".toList = ["a".toList, "b".toList] ∧
    (splitAllForImageCap rolelessPage [imageItem ["a", "x", "b"] 2]).toOption.map
      (·.map (·.1.lineIds)) = some [["a".toList, "x".toList], ["b".toList]] := by
  decide +kernel

end Saknussemm
