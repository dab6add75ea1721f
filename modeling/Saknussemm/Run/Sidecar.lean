import Saknussemm.Run.Adjacency

/-! # What the alignment gate sets aside.

The gate flags corrections that cannot be aligned on their source, puts them
back with their units, and hands every correction it took away to the
sidecar: those of the flagged lines, and those of the lines pulled along. -/

namespace Saknussemm

/-! ## The flagged lines -/

section Gate

variable {document : DocumentManifest} {heap : Heap}

/-- The flagged lines are those of the document that the gate refuses. -/
theorem mem_keys_flagged_iff (haddr : Addressed heap) {gate : LineManifest → Option FallbackReason}
    {ref : LineRef} : ref ∈ Dict.keys (flagged document heap gate) ↔
      ref ∈ document.refs ∧ (gate (heap ref)).isSome := by
  unfold flagged
  rw [Dict.mem_keys_ofList, List.mem_map]
  simp only [linesOf, List.mem_filterMap, List.mem_map, Option.map_eq_some_iff]
  constructor
  · rintro ⟨entry, ⟨lm, ⟨ref', href', rfl⟩, reason, hreason, rfl⟩, hkey⟩
    obtain rfl : ref' = ref := (haddr ref').symm.trans hkey
    exact ⟨href', Option.isSome_iff_exists.mpr ⟨reason, hreason⟩⟩
  · rintro ⟨href, hsome⟩
    obtain ⟨reason, hreason⟩ := Option.isSome_iff_exists.mp hsome
    exact ⟨_, ⟨_, ⟨ref, href, rfl⟩, reason, hreason, rfl⟩, haddr ref⟩

/-- A correction the gate has confidence in: its words keep their order, and
align where their number changed. -/
def Aligned (threshold : ℚ) (lm : LineManifest) (text : Str) : Prop :=
  (alignTokens none charSimilarity (split lm.ocrText) (split text)).moveSuspected = false ∧
    ¬ ((split text).length ≠ (split lm.ocrText).length ∧
      (alignTokens none charSimilarity (split lm.ocrText) (split text)).score < threshold)

/-- The gate flags the corrections it has no confidence in. -/
theorem realignRevert_eq_none_iff (threshold : ℚ) (lm : LineManifest) :
    realignRevert threshold lm = none ↔
      ∀ text ∈ lm.correctedText, text ≠ lm.ocrText → Aligned threshold lm text := by
  unfold realignRevert
  cases lm.correctedText with
  | none => simp
  | some text =>
    simp only [Option.mem_def, Option.some.injEq, forall_eq', Aligned]
    split_ifs <;> grind

end Gate

/-! ## The sidecar -/

section Sidecar

variable {heap : Heap} {threshold : ℚ}

/-- A pass's map names no line twice. -/
theorem nodup_keys_revertMap (document : DocumentManifest) (heap : Heap) (pass : RevertPass)
    {reverts : Dict LineRef FallbackReason} (h : (Dict.keys reverts).Nodup) :
    (Dict.keys (revertMap document heap pass reverts)).Nodup := by
  unfold revertMap
  refine List.foldlRecOn (motive := fun all => (Dict.keys all).Nodup) _ _ h
    fun all hall seed _ => ?_
  refine List.foldlRecOn (motive := fun all => (Dict.keys all).Nodup) _ _ hall
    fun all hall member _ => ?_
  split
  · exact hall
  · exact Dict.nodup_keys_set hall member _

/-- What becomes of one line put back: an entry where it had been corrected. -/
theorem sidecarEntries_spec (heap : Heap) (threshold : ℚ) :
    ∃ entryOf : LineRef × FallbackReason → Option SidecarEntry,
      (∀ reverted, sidecarEntries heap threshold reverted = reverted.filterMap entryOf) ∧
      (∀ kept entry, entryOf kept = some entry → entry.ref = kept.1 ∧
        (heap kept.1).correctedText = some entry.correctedText ∧
        entry.correctedText ≠ (heap kept.1).ocrText ∧ entry.sourceText = (heap kept.1).ocrText) ∧
      ∀ kept, ∀ text ∈ (heap kept.1).correctedText, text ≠ (heap kept.1).ocrText →
        (entryOf kept).isSome := by
  refine ⟨_, fun _ => rfl, fun kept entry hentry => ?_, fun kept text htext hchanged => ?_⟩
  · dsimp only at hentry
    split at hentry
    · cases hentry
    · next text htext =>
      split at hentry
      · cases hentry
      · next hchanged =>
        obtain rfl := Option.some.inj hentry
        exact ⟨rfl, htext, hchanged, rfl⟩
  · dsimp only
    rw [htext]
    simp [hchanged]

/-- The sidecar lists the reverted lines that were changed. -/
theorem mem_sidecarEntries_iff {reverted : Dict LineRef FallbackReason} {ref : LineRef} :
    ref ∈ (sidecarEntries heap threshold reverted).map SidecarEntry.ref ↔
      ref ∈ Dict.keys reverted ∧ ∃ text ∈ (heap ref).correctedText, text ≠ (heap ref).ocrText := by
  obtain ⟨entryOf, heq, hentry, hsome⟩ := sidecarEntries_spec heap threshold
  rw [heq, List.mem_map]
  simp only [List.mem_filterMap, Dict.keys, List.mem_map]
  constructor
  · rintro ⟨entry, ⟨kept, hkept, hof⟩, rfl⟩
    obtain ⟨href, htext, hchanged, -⟩ := hentry kept entry hof
    rw [href]
    exact ⟨⟨kept, hkept, rfl⟩, entry.correctedText, htext, hchanged⟩
  · rintro ⟨⟨kept, hkept, rfl⟩, text, htext, hchanged⟩
    obtain ⟨entry, hof⟩ := Option.isSome_iff_exists.mp (hsome kept text htext hchanged)
    exact ⟨entry, ⟨kept, hkept, hof⟩, (hentry kept entry hof).1⟩

/-- An entry holds the texts the line had. -/
theorem texts_of_mem_sidecarEntries {reverted : Dict LineRef FallbackReason} {entry : SidecarEntry}
    (h : entry ∈ sidecarEntries heap threshold reverted) :
    (heap entry.ref).correctedText = some entry.correctedText ∧
      entry.sourceText = (heap entry.ref).ocrText := by
  obtain ⟨entryOf, heq, hentry, -⟩ := sidecarEntries_spec heap threshold
  rw [heq] at h
  obtain ⟨kept, -, hof⟩ := List.mem_filterMap.mp h
  obtain ⟨href, htext, -, hsource⟩ := hentry kept entry hof
  rw [href]
  exact ⟨htext, hsource⟩

theorem nodup_sidecarEntries {reverted : Dict LineRef FallbackReason}
    (h : (Dict.keys reverted).Nodup) :
    ((sidecarEntries heap threshold reverted).map SidecarEntry.ref).Nodup := by
  obtain ⟨entryOf, heq, hentry, -⟩ := sidecarEntries_spec heap threshold
  rw [heq]
  unfold List.Nodup Dict.keys at *
  rw [List.pairwise_map, List.pairwise_filterMap]
  refine (List.pairwise_map.mp h).imp fun {kept other} hne entry hof entry' hof' => ?_
  rwa [(hentry kept entry hof).1, (hentry other entry' hof').1]

end Sidecar

/-! ## The gate -/

section Realign

/-- The map a pass returns names the lines it pulls. -/
theorem mem_keys_applyUnitReverts (document : DocumentManifest) (pass : RevertPass)
    (reverts : Dict LineRef FallbackReason) {s : RunState} (haddr : Addressed s.heap)
    (hrefs : document.refs.Nodup) {ref : LineRef} :
    ref ∈ Dict.keys (applyUnitReverts document pass reverts s).1 ↔
      Pulled document s.heap (Dict.keys reverts) ref := by
  unfold applyUnitReverts
  split
  · next hnone =>
    subst hnone
    simp [Pulled, Dict.keys]
  · exact mem_revertMap_iff haddr hrefs

variable {pipeline : CorrectionPipeline} {document : DocumentManifest}

/-- What the alignment gate leaves, and what it sets aside. -/
structure SetsAside (document : DocumentManifest) (threshold : ℚ) (before after : Heap)
    (sidecar : List SidecarEntry) : Prop where
  /-- A correction that stands is one the gate has confidence in. -/
  standing : ∀ ref ∈ document.refs, ∀ text ∈ (after ref).correctedText,
    text ≠ (after ref).ocrText → Aligned threshold (after ref) text
  /-- The flagged lines go back to their source with their units, no other. -/
  putBack : ∀ ref ∈ document.refs,
    (Pulled document before (Dict.keys (flagged document before (realignRevert threshold))) ref →
      after ref = (before ref).reverted) ∧
    (¬ Pulled document before (Dict.keys (flagged document before (realignRevert threshold))) ref →
      after ref = before ref)
  once : (sidecar.map SidecarEntry.ref).Nodup
  /-- A line has an entry when it was put back and had been corrected. -/
  entries : ∀ ref, ref ∈ sidecar.map SidecarEntry.ref ↔ ref ∈ document.refs ∧
    Pulled document before (Dict.keys (flagged document before (realignRevert threshold))) ref ∧
    ∃ text ∈ (before ref).correctedText, text ≠ (before ref).ocrText
  texts : ∀ entry ∈ sidecar, (before entry.ref).correctedText = some entry.correctedText ∧
    entry.sourceText = (before entry.ref).ocrText

/-- **The alignment gate loses no correction.** -/
theorem setsAside_lossPolicyPass {s : RunState} {threshold : ℚ} (haddr : Addressed s.heap)
    (hrefs : document.refs.Nodup) (hstrict : pipeline.lossPolicy.strict = false)
    (hthreshold : pipeline.lossPolicy.minAlignmentScore = some threshold) :
    SetsAside document threshold s.heap (lossPolicyPass pipeline document s).2.heap
      (lossPolicyPass pipeline document s).1 := by
  let reverts := flagged document s.heap (realignRevert threshold)
  let after := applyUnitReverts document .tokenRealign reverts s
  have hpass : lossPolicyPass pipeline document s =
      (sidecarEntries s.heap threshold (after.1.filter (·.1 ∈ document.refs)), after.2) := by
    unfold lossPolicyPass
    rw [hstrict, hthreshold]
    rfl
  -- the pass pulls the flagged lines with their units and leaves every other line
  have hspec : ∀ ref ∈ document.refs, _ := fun ref href =>
    applyUnitReverts_spec document .tokenRealign reverts haddr hrefs href
  have hreverted : ∀ ref, ref ∈ Dict.keys (after.1.filter (·.1 ∈ document.refs)) ↔
      ref ∈ document.refs ∧ Pulled document s.heap (Dict.keys reverts) ref := by
    intro ref
    rw [← mem_keys_applyUnitReverts document .tokenRealign reverts haddr hrefs]
    simp [Dict.keys, and_comm, after]
  rw [hpass]
  refine ⟨fun ref href => ?standing, fun ref href => ?putBack, ?once, fun ref => ?entries,
    fun entry hentry => texts_of_mem_sidecarEntries hentry⟩
  case standing =>
    obtain ⟨hback, hkept⟩ := hspec ref href
    by_cases hin : Pulled document s.heap (Dict.keys reverts) ref
    · -- a line put back is not changed
      intro text htext hchanged
      rw [(hback hin).1] at htext hchanged
      exact absurd (Option.some.inj htext).symm hchanged
    · rw [(hkept hin).1]
      apply (realignRevert_eq_none_iff threshold _).mp
      have hnot : ¬ (realignRevert threshold (s.heap ref)).isSome := fun hsome =>
        hin (.inl ((mem_keys_flagged_iff haddr).mpr ⟨href, hsome⟩))
      simpa using hnot
  case putBack =>
    obtain ⟨hback, hkept⟩ := hspec ref href
    exact ⟨fun hin => (hback hin).1, fun hin => (hkept hin).1⟩
  case once =>
    apply nodup_sidecarEntries
    have hall : (Dict.keys after.1).Nodup := by
      unfold after applyUnitReverts
      split
      · exact List.nodup_nil
      · exact nodup_keys_revertMap _ _ _ (Dict.nodup_keys_ofList _)
    exact hall.sublist (List.filter_sublist.map _)
  case entries =>
    rw [mem_sidecarEntries_iff, hreverted, and_assoc]

end Realign

/-- An engine that sets aside what aligns by less than half. -/
def realigning : CorrectionPipeline := .plain (.answering []) ⟨false, some (1 / 2)⟩

/-- Both halves of a broken word corrected, the second into three words. -/
def mendedWord : RunState :=
  accept ⟨"p".toList, "b".toList⟩ "un tout autre".toList
    (accept ⟨"p".toList, "a".toList⟩ "le pot-".toList (initialState (onePageDocument brokenWord)))

theorem addressed_mendedWord : Addressed mendedWord.heap :=
  (sameSkeleton_accept _ _ _).sameSource.addressed
    ((sameSkeleton_accept _ _ _).sameSource.addressed (addressed_heap (onePageDocument brokenWord)))

/-- The second half is flagged and pulls the first along: both corrections
are in the sidecar. -/
theorem setsAside_mendedWord :
    (lossPolicyPass realigning (onePageDocument brokenWord) mendedWord).1.map SidecarEntry.ref =
      [⟨"p".toList, "b".toList⟩, ⟨"p".toList, "a".toList⟩] ∧
    SetsAside (onePageDocument brokenWord) (1 / 2) mendedWord.heap
      (lossPolicyPass realigning (onePageDocument brokenWord) mendedWord).2.heap
      (lossPolicyPass realigning (onePageDocument brokenWord) mendedWord).1 :=
  ⟨by decide +kernel, setsAside_lossPolicyPass addressed_mendedWord (by decide) rfl rfl⟩

end Saknussemm
