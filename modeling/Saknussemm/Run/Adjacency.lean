import Saknussemm.Run.Passes
import Mathlib.Data.List.Chain
import Mathlib.Data.List.SplitBy

/-! # Seams after the adjacency pass.

Every seam is judged on the texts before any line is put back, and a line
that is put back takes its unit with it, however far away.  No seam that was
clean is dirty afterwards: a line back on its source has pulled nothing over
a seam, and whether its neighbour has was judged on sources. -/

namespace Saknussemm

/-! ## Units of flagged lines -/

section Units

variable {document : DocumentManifest} {pass : RevertPass} {reverts : Dict LineRef FallbackReason}

/-- A line is pulled when it is flagged, or in the unit of a line that is. -/
def Pulled (document : DocumentManifest) (heap : Heap) (seeds : List LineRef)
    (ref : LineRef) : Prop :=
  ref ∈ seeds ∨ ∃ group ∈ deriveHyphenGroups (linesOf heap document.refs),
    ref ∈ group.members ∧ ∃ seed ∈ seeds, seed ∈ group.members

/-- The lines reverted are the given ones and those of their units. -/
theorem mem_revertMap_iff {heap : Heap} (haddr : Addressed heap) (hrefs : document.refs.Nodup)
    {ref : LineRef} : ref ∈ Dict.keys (revertMap document heap pass reverts) ↔
      Pulled document heap (Dict.keys reverts) ref := by
  have hnodup : ((linesOf heap document.refs).map lineRef).Nodup := by
    rwa [map_lineRef_linesOf haddr]
  rw [mem_keys_revertMap_iff]
  constructor
  · rintro (hflagged | ⟨seed, hseed, hin⟩)
    · exact .inl hflagged
    · cases hfind : hyphenGroupOf (deriveHyphenGroups (linesOf heap document.refs)) seed with
      | none => simp [hfind] at hin
      | some group =>
        have hmem : seed ∈ group.members := by simpa using List.find?_some hfind
        exact .inr ⟨group, List.mem_of_find?_eq_some hfind, by simpa [hfind] using hin, seed, hseed,
          hmem⟩
  · rintro (hflagged | ⟨group, hgroup, href, seed, hseed, hin⟩)
    · exact .inl hflagged
    · by_cases hsame : seed = ref
      · exact .inl (hsame ▸ hseed)
      · obtain ⟨hrefIn, hlinked⟩ := (mem_members_iff hnodup hgroup hin).mp href
        have hseedIn := ((mem_members_iff hnodup hgroup hin).mp hin).1
        exact .inr ⟨seed, hseed, (mem_hyphenGroupOf_iff hnodup hsame).mpr
          ⟨hseedIn, hrefIn, hlinked⟩⟩

/-- What falls back has a reason, and keeps the first it was given. -/
theorem reasons_foldl_fallBack (entries : List (LineRef × FallbackReason)) (s : RunState)
    (ref : LineRef) :
    let after := entries.foldl (fun s (ref, reason) => fallBack ref reason s) s
    ((after.reasons ref).isSome ↔ (s.reasons ref).isSome ∨ ref ∈ entries.map Prod.fst) ∧
      ((s.reasons ref).isSome ∨ ref ∉ entries.map Prod.fst →
        after.reasons ref = s.reasons ref) := by
  induction entries generalizing s with
  | nil => simp
  | cons entry entries ih =>
    dsimp only at ih ⊢
    rw [List.foldl_cons]
    have hfirst : (fallBack entry.1 entry.2 s).reasons ref =
        if ref = entry.1 ∧ s.reasons ref = none then some entry.2 else s.reasons ref := rfl
    obtain ⟨hsome, hkept⟩ := ih (fallBack entry.1 entry.2 s)
    rw [hfirst] at hsome hkept
    cases hreason : s.reasons ref <;> grind

variable (document pass reverts)

/-- Which lines a pass puts back. -/
theorem exists_putBack {s : RunState} (haddr : Addressed s.heap) (hrefs : document.refs.Nodup) :
    ∃ putBack : LineRef → Bool,
      (∀ ref, putBack ref = true ↔ ref ∈ document.refs ∧
        Pulled document s.heap (Dict.keys reverts) ref) ∧
      ∀ ref, (applyUnitReverts document pass reverts s).2.heap ref =
        if putBack ref then (s.heap ref).reverted else s.heap ref := by
  unfold applyUnitReverts
  split
  · next hnone =>
    subst hnone
    exact ⟨fun _ => false, by simp [Pulled, Dict.keys], fun _ => rfl⟩
  · refine ⟨fun ref => ref ∈ document.refs ∧
      ref ∈ Dict.keys (revertMap document s.heap pass reverts), fun ref => ?_, fun ref => ?_⟩
    · rw [decide_eq_true_eq, mem_revertMap_iff haddr hrefs]
    · dsimp only
      rw [heap_revertAll]
      simp only [decide_eq_true_eq]

/-- **A pass puts back the flagged lines with their units**, and keeps the
reason of a line that had one. -/
theorem applyUnitReverts_spec {s : RunState} (haddr : Addressed s.heap)
    (hrefs : document.refs.Nodup) {ref : LineRef} (href : ref ∈ document.refs) :
    let after := (applyUnitReverts document pass reverts s).2
    (Pulled document s.heap (Dict.keys reverts) ref →
      after.heap ref = (s.heap ref).reverted ∧ (after.reasons ref).isSome ∧
        ((s.reasons ref).isSome → after.reasons ref = s.reasons ref)) ∧
    (¬ Pulled document s.heap (Dict.keys reverts) ref →
      after.heap ref = s.heap ref ∧ after.reasons ref = s.reasons ref) := by
  unfold applyUnitReverts
  split
  · next hnone =>
    subst hnone
    exact ⟨fun hpulled => absurd hpulled (by simp [Pulled, Dict.keys]), fun _ => ⟨rfl, rfl⟩⟩
  · dsimp only
    have hkeys := @mem_revertMap_iff document pass reverts s.heap haddr hrefs ref
    have hmem : ref ∈ ((revertMap document s.heap pass reverts).filter (·.1 ∈ document.refs)).map
        Prod.fst ↔ Pulled document s.heap (Dict.keys reverts) ref := by
      rw [← hkeys]
      simp [Dict.keys, href]
    rw [heap_revertAll]
    obtain ⟨hsome, hkept⟩ := reasons_foldl_fallBack
      ((revertMap document s.heap pass reverts).filter (·.1 ∈ document.refs)) s ref
    rw [hmem] at hsome hkept
    constructor
    · intro hpulled
      rw [if_pos ⟨href, hkeys.mpr hpulled⟩]
      exact ⟨rfl, hsome.mpr (.inr hpulled), fun hbefore => hkept (.inl hbefore)⟩
    · intro hnot
      rw [if_neg fun h => hnot (hkeys.mp h.2)]
      exact ⟨rfl, hkept (.inr hnot)⟩

end Units

/-! ## One seam -/

variable [Unicode]

section Seam

variable {a b : AdjacentLine LineRef} {config : GuardConfig}

/-- A line as it is checked once it is back on its source. -/
def AdjacentLine.reverted (line : AdjacentLine LineRef) : AdjacentLine LineRef :=
  { line with corrected := line.source }

omit [Unicode] in
/-- A word that stayed what it was crossed nothing. -/
theorem wordMigratedAcrossSeam_self (word joined neighbour : Str) (config : GuardConfig) :
    wordMigratedAcrossSeam word word joined neighbour config = false := by
  simp [wordMigratedAcrossSeam]

/-- A whole word crosses only where both boundary words changed. -/
theorem wholeWordCrossedTheSeam_self_left (word bSource bCor : Str) :
    wholeWordCrossedTheSeam word word bSource bCor = false := by
  simp [wholeWordCrossedTheSeam]

theorem wholeWordCrossedTheSeam_self_right (word aSource aCor : Str) :
    wholeWordCrossedTheSeam aSource aCor word word = false := by
  simp [wholeWordCrossedTheSeam]

/-- A seam is clean when no boundary word completed itself over it and no
whole word moved. -/
theorem seamMigration_eq_none_iff : seamMigration a b config = none ↔
    ∀ aSource ∈ (split a.source).getLast?, ∀ bSource ∈ (split b.source).head?,
      (∀ word ∈ (split a.corrected).getLast?,
        wordMigratedAcrossSeam word aSource (aSource ++ bSource) bSource config = false) ∧
      (∀ word ∈ (split b.corrected).head?,
        wordMigratedAcrossSeam word bSource (aSource ++ bSource) aSource config = false) ∧
      ∀ aWord ∈ (split a.corrected).getLast?, ∀ bWord ∈ (split b.corrected).head?,
        wholeWordCrossedTheSeam aSource aWord bSource bWord = false := by
  unfold seamMigration
  cases (split a.source).getLast? with
  | none => simp
  | some aSource =>
  cases (split b.source).head? with
  | none => simp
  | some bSource =>
    cases (split a.corrected).getLast? with
    | none => cases (split b.corrected).head? <;> simp
    | some aWord =>
    cases (split b.corrected).head? with
    | none => simp
    | some bWord =>
      simp only [Option.any_some, Option.mem_def, Option.some.injEq, forall_eq', Bool.or_eq_true]
      grind

/-- **Putting back one side of a clean seam leaves it clean.** -/
theorem seamMigration_reverted_left (h : seamMigration a b config = none) :
    seamMigration a.reverted b config = none := by
  rw [seamMigration_eq_none_iff] at h ⊢
  intro aSource haSource bSource hbSource
  -- the word of the line put back is its own, so only the other word could have migrated
  have hown : ∀ word ∈ (split a.reverted.corrected).getLast?, word = aSource :=
    fun word hword => Option.mem_unique hword haSource
  refine ⟨fun word hword => ?_, (h aSource haSource bSource hbSource).2.1, fun word hword _ _ => ?_⟩
  · rw [hown word hword, wordMigratedAcrossSeam_self]
  · rw [hown word hword, wholeWordCrossedTheSeam_self_left]

theorem seamMigration_reverted_right (h : seamMigration a b config = none) :
    seamMigration a b.reverted config = none := by
  rw [seamMigration_eq_none_iff] at h ⊢
  intro aSource haSource bSource hbSource
  have hown : ∀ word ∈ (split b.reverted.corrected).head?, word = bSource :=
    fun word hword => Option.mem_unique hword hbSource
  refine ⟨(h aSource haSource bSource hbSource).1, fun word hword => ?_, fun _ _ word hword => ?_⟩
  · rw [hown word hword, wordMigratedAcrossSeam_self]
  · rw [hown word hword, wholeWordCrossedTheSeam_self_right]

/-- **A seam with both sides put back is clean**, whatever it was. -/
theorem seamMigration_reverted_both : seamMigration a.reverted b.reverted config = none := by
  rw [seamMigration_eq_none_iff]
  intro aSource haSource bSource hbSource
  refine ⟨fun word hword => ?_, fun word hword => ?_, fun word hword _ _ => ?_⟩
  · rw [Option.mem_unique hword haSource, wordMigratedAcrossSeam_self]
  · rw [Option.mem_unique hword hbSource, wordMigratedAcrossSeam_self]
  · rw [Option.mem_unique hword haSource, wholeWordCrossedTheSeam_self_left]

end Seam

/-! ## A segment of lines -/

section Segment

variable {config : GuardConfig}

/-- The pass over a segment drops no line it had, and leaves no migration over a
seam between lines it keeps. -/
theorem keys_checkBoundaryMigration (segment : List (AdjacentLine LineRef))
    (revert : Dict LineRef SeamRejection) :
    (∀ key ∈ Dict.keys revert, key ∈ Dict.keys (checkBoundaryMigration config segment revert)) ∧
      segment.IsChain fun a b => seamMigration a b config = none ∨
        a.key ∈ Dict.keys (checkBoundaryMigration config segment revert) ∧
          b.key ∈ Dict.keys (checkBoundaryMigration config segment revert) := by
  fun_induction checkBoundaryMigration config segment revert with
  | case1 a b rest revert more ih =>
    obtain ⟨hkept, hchain⟩ := ih
    have hmore : ∀ key ∈ Dict.keys revert, key ∈ Dict.keys more := by
      intro key hkey
      unfold more
      split
      · exact Dict.mem_keys_set.mpr (.inr (Dict.mem_keys_set.mpr (.inr hkey)))
      · exact hkey
    refine ⟨fun key hkey => hkept key (hmore key hkey), List.isChain_cons_cons.mpr ⟨?_, hchain⟩⟩
    cases hseam : seamMigration a b config with
    | none => exact .inl rfl
    | some reason =>
      right
      have hset : more = Dict.set (Dict.set revert a.key reason) b.key reason := by
        simp [more, hseam]
      refine ⟨hkept _ ?_, hkept _ ?_⟩ <;> simp [hset, Dict.mem_keys_set]
  | case2 segment revert hshort =>
    refine ⟨fun _ hkey => hkey, ?_⟩
    rcases segment with _ | ⟨a, _ | ⟨b, rest⟩⟩
    · exact .nil
    · exact List.isChain_singleton a
    · exact absurd rfl (hshort a b rest)

/-- A segment of clean seams has nothing flagged. -/
theorem checkBoundaryMigration_of_clean {segment : List (AdjacentLine LineRef)}
    (h : segment.IsChain fun a b => seamMigration a b config = none)
    (revert : Dict LineRef SeamRejection) :
    checkBoundaryMigration config segment revert = revert := by
  fun_induction checkBoundaryMigration config segment revert with
  | case1 a b rest revert more ih =>
    obtain ⟨hclean, hrest⟩ := List.isChain_cons_cons.mp h
    rw [ih hrest]
    simp [more, hclean]
  | case2 => rfl

/-- **Putting back whatever lines, the flagged ones among them, leaves a
segment clean.** -/
theorem checkBoundaryMigration_putBack (segment : List (AdjacentLine LineRef))
    (putBack : LineRef → Bool)
    (h : ∀ key ∈ Dict.keys (checkBoundaryMigration config segment []), putBack key = true) :
    checkBoundaryMigration config
      (segment.map fun line => if putBack line.key then line.reverted else line) [] = [] := by
  apply checkBoundaryMigration_of_clean
  refine List.isChain_map_of_isChain _ (fun a b hseam => ?_)
    (@keys_checkBoundaryMigration _ config segment []).2
  rcases hseam with hclean | ⟨ha, hb⟩
  · -- a seam judged clean: whichever side goes back
    split <;> split
    · exact seamMigration_reverted_both
    · exact seamMigration_reverted_left hclean
    · exact seamMigration_reverted_right hclean
    · exact hclean
  · rw [if_pos (h _ ha), if_pos (h _ hb)]
    exact seamMigration_reverted_both

end Segment

/-! ## The document -/

section Document

variable {document : DocumentManifest} {config : GuardConfig}

/-- The lines one of the two checks flags. -/
def seamFlagged (document : DocumentManifest) (heap : Heap) (config : GuardConfig) : List LineRef :=
  (segments document heap).flatMap fun segment =>
    Dict.keys (checkAdjacentDuplicates config segment []) ++
      Dict.keys (checkBoundaryMigration config segment [])

omit [Unicode] in
theorem mem_keys_update {κ ν : Type} [DecidableEq κ] {d e : Dict κ ν} {k : κ} :
    k ∈ Dict.keys (update d e) ↔ k ∈ Dict.keys d ∨ k ∈ Dict.keys e := by
  unfold update
  induction e generalizing d with
  | nil => simp [Dict.keys]
  | cons entry e ih =>
    rw [List.foldl_cons, ih, Dict.mem_keys_set]
    simp only [Dict.keys, List.map_cons, List.mem_cons]
    grind

/-- The pass collects what the checks flag. -/
theorem mem_keys_adjacencyReverts_iff {heap : Heap} {ref : LineRef} :
    ref ∈ Dict.keys (adjacencyReverts document heap config) ↔
      ref ∈ seamFlagged document heap config := by
  have hfold : ∀ (list : List (List (AdjacentLine LineRef))) (reverts : Dict LineRef SeamRejection),
      ref ∈ Dict.keys (list.foldl
        (fun reverts segment =>
          if 1 < segment.length then
            update (update reverts (checkAdjacentDuplicates config segment []))
              (checkBoundaryMigration config segment [])
          else reverts) reverts) ↔
      ref ∈ Dict.keys reverts ∨ ∃ segment ∈ list,
        ref ∈ Dict.keys (checkAdjacentDuplicates config segment []) ∨
          ref ∈ Dict.keys (checkBoundaryMigration config segment []) := by
    intro list
    induction list with
    | nil => simp
    | cons segment list ih =>
      intro reverts
      rw [List.foldl_cons, ih]
      split
      · rw [mem_keys_update, mem_keys_update]
        simp only [List.mem_cons, exists_eq_or_imp, or_assoc]
      · next hshort =>
        -- a segment of one line has no seam
        have hnone : Dict.keys (checkAdjacentDuplicates config segment []) = [] ∧
            Dict.keys (checkBoundaryMigration config segment []) = [] := by
          rcases segment with _ | ⟨a, _ | ⟨b, rest⟩⟩
          · exact ⟨rfl, rfl⟩
          · exact ⟨rfl, rfl⟩
          · simp at hshort
        simp [hnone]
  unfold adjacencyReverts seamFlagged
  rw [hfold, List.mem_flatMap]
  simp [Dict.keys]

/-- The pass over a segment adds lines of the segment only. -/
theorem keys_checkBoundaryMigration_subset (segment : List (AdjacentLine LineRef))
    (revert : Dict LineRef SeamRejection) {key : LineRef}
    (h : key ∈ Dict.keys (checkBoundaryMigration config segment revert)) :
    key ∈ Dict.keys revert ∨ key ∈ segment.map AdjacentLine.key := by
  fun_induction checkBoundaryMigration config segment revert with
  | case1 a b rest revert more ih =>
    rcases ih h with hmore | hrest
    · unfold more at hmore
      split at hmore
      · rw [Dict.mem_keys_set, Dict.mem_keys_set] at hmore
        rcases hmore with rfl | rfl | hkey
        · simp
        · simp
        · exact .inl hkey
      · exact .inl hmore
    · exact .inr (List.mem_cons_of_mem _ hrest)
  | case2 => exact .inl h

omit [Unicode] in
/-- The lines of a segment are lines of the document. -/
theorem mem_refs_of_mem_segment {heap : Heap} (haddr : Addressed heap)
    {segment : List (AdjacentLine LineRef)} (h : segment ∈ segments document heap) {ref : LineRef}
    (href : ref ∈ segment.map AdjacentLine.key) : ref ∈ document.refs := by
  obtain ⟨pages, hpages, rfl⟩ := List.mem_map.mp h
  obtain ⟨line, hline, rfl⟩ := List.mem_map.mp href
  obtain ⟨page, hpage, hline⟩ := List.mem_flatMap.mp hline
  obtain ⟨lm, hlm, rfl⟩ := List.mem_map.mp hline
  obtain ⟨ref, hin, rfl⟩ := List.mem_map.mp hlm
  have hdoc : page ∈ document.pages := by
    rw [← List.flatten_splitBy (fun p q => decide (p.sourceFile = q.sourceFile)) document.pages]
    exact List.mem_flatten_of_mem hpages hpage
  show lineRef (heap ref) ∈ document.refs
  rw [haddr ref]
  exact List.mem_flatMap.mpr ⟨page, hdoc, hin⟩

omit [Unicode] in
/-- Putting lines back puts them back in their segments. -/
theorem segments_putBack {heap heap' : Heap} (haddr : Addressed heap) {putBack : LineRef → Bool}
    (h : ∀ ref, heap' ref = if putBack ref then (heap ref).reverted else heap ref) :
    segments document heap' = (segments document heap).map fun segment =>
      segment.map fun line => if putBack line.key then line.reverted else line := by
  have hline : ∀ ref, adjacentLine (heap' ref) =
      if putBack (adjacentLine (heap ref)).key then (adjacentLine (heap ref)).reverted
      else adjacentLine (heap ref) := by
    intro ref
    show _ = if putBack (lineRef (heap ref)) then _ else _
    rw [haddr ref, h ref]
    split <;> rfl
  unfold segments
  rw [List.map_map]
  refine List.map_congr_left fun pages _ => ?_
  rw [Function.comp_apply, List.map_flatMap]
  refine List.flatMap_congr fun page _ => ?_
  simp only [linesOf, List.map_map]
  exact List.map_congr_left fun ref _ => hline ref

/-- A line whose decision putting it back does not change. -/
def HasFallenBack (s : RunState) (ref : LineRef) : Prop :=
  (s.heap ref).status = .fallback ∧ (s.heap ref).correctedText.getD (s.heap ref).ocrText =
    (s.heap ref).ocrText ∧ (s.reasons ref).isSome

omit [Unicode] in
/-- A line that is put back has another decision, unless it had fallen back. -/
theorem decisionOf_reverted_iff {s after : RunState} (haddr : Addressed s.heap) {ref : LineRef}
    (hheap : after.heap ref = (s.heap ref).reverted) (hsome : (after.reasons ref).isSome)
    (hreason : (s.reasons ref).isSome → after.reasons ref = s.reasons ref) :
    decisionOf after ref ≠ decisionOf s ref ↔ ¬ HasFallenBack s ref := by
  have hafter : decisionOf after ref =
      ⟨ref, (s.heap ref).ocrText, (s.heap ref).ocrText, .fallback, after.reasons ref⟩ := by
    have hkey : lineRef (s.heap ref).reverted = ref := haddr ref
    have hstatus : (s.heap ref).reverted.status = .fallback := rfl
    simp only [decisionOf, hheap, hkey, hstatus, if_true]
    rfl
  have hbefore : decisionOf s ref = ⟨ref, (s.heap ref).ocrText,
      (s.heap ref).correctedText.getD (s.heap ref).ocrText, (s.heap ref).status,
      if (s.heap ref).status = .fallback then s.reasons ref else none⟩ := by
    simp only [decisionOf, haddr ref]
  rw [hafter, hbefore, not_iff_not, LineDecision.mk.injEq]
  constructor
  · rintro ⟨-, -, htext, hstatus, hsame⟩
    rw [if_pos hstatus.symm] at hsame
    exact ⟨hstatus.symm, htext.symm, hsame ▸ hsome⟩
  · rintro ⟨hstatus, htext, hbefore⟩
    exact ⟨rfl, rfl, htext.symm, hstatus.symm, by rw [if_pos hstatus, hreason hbefore]⟩

/-- What the adjacency pass leaves: clean seams, and of the decisions only
those of the flagged units changed. -/
structure SettlesSeams (document : DocumentManifest) (config : GuardConfig)
    (before after : RunState) : Prop where
  clean : ∀ segment ∈ segments document after.heap, checkBoundaryMigration config segment [] = []
  changed : ∀ ref ∈ document.refs, decisionOf after ref ≠ decisionOf before ref ↔
    Pulled document before.heap (seamFlagged document before.heap config) ref ∧
      ¬ HasFallenBack before ref

/-- **The adjacency pass removes every migrated seam and makes none.** -/
theorem settlesSeams_globalAdjacencyPass (pipeline : CorrectionPipeline) {s : RunState}
    (haddr : Addressed s.heap) (hrefs : document.refs.Nodup) :
    SettlesSeams document pipeline.guardConfig s (globalAdjacencyPass pipeline document s) := by
  let reverts : Dict LineRef FallbackReason :=
    (adjacencyReverts document s.heap pipeline.guardConfig).map fun entry =>
      (entry.1, .seam entry.2)
  have hpass : globalAdjacencyPass pipeline document s =
      (applyUnitReverts document .adjacentDuplicate reverts s).2 := rfl
  have hkeys : ∀ ref, ref ∈ Dict.keys reverts ↔
      ref ∈ seamFlagged document s.heap pipeline.guardConfig := by
    intro ref
    rw [← mem_keys_adjacencyReverts_iff]
    simp [reverts, Dict.keys]
  have hpulled : ∀ ref, Pulled document s.heap (Dict.keys reverts) ref ↔
      Pulled document s.heap (seamFlagged document s.heap pipeline.guardConfig) ref := by
    intro ref
    simp only [Pulled, hkeys]
  constructor
  case clean =>
    -- put back to source, a flagged line carries nothing over its seam
    obtain ⟨putBack, hput, hheap⟩ := exists_putBack document .adjacentDuplicate reverts haddr hrefs
    intro segment hsegment
    rw [hpass, segments_putBack haddr hheap] at hsegment
    obtain ⟨segment, hin, rfl⟩ := List.mem_map.mp hsegment
    refine checkBoundaryMigration_putBack segment putBack fun key hkey => ?_
    have hline : key ∈ segment.map AdjacentLine.key := by
      simpa [Dict.keys] using keys_checkBoundaryMigration_subset segment [] hkey
    refine (hput key).mpr ⟨mem_refs_of_mem_segment haddr hin hline, (hpulled key).mpr (.inl ?_)⟩
    exact List.mem_flatMap.mpr ⟨segment, hin, List.mem_append_right _ hkey⟩
  -- a line changes exactly when its unit is pulled and its decision was not yet a fallback
  case changed =>
    intro ref href
    rw [← hpulled ref, hpass]
    obtain ⟨hback, hkept⟩ :=
      applyUnitReverts_spec document .adjacentDuplicate reverts haddr hrefs href
    by_cases hin : Pulled document s.heap (Dict.keys reverts) ref
    · obtain ⟨hheap, hsome, hreason⟩ := hback hin
      rw [decisionOf_reverted_iff haddr hheap hsome hreason]
      exact ⟨fun h => ⟨hin, h⟩, fun h => h.2⟩
    · obtain ⟨hheap, hreason⟩ := hkept hin
      have hsame : decisionOf (applyUnitReverts document .adjacentDuplicate reverts s).2 ref =
          decisionOf s ref := by
        simp only [decisionOf, hheap, haddr ref, hreason]
      exact ⟨fun h => absurd hsame h, fun h => absurd h.1 hin⟩

end Document

/-! ## One page -/

/-- Two lines of one page. -/
def breadAndKing : DocumentManifest :=
  ⟨["a.xml".toList], [plainPage "a.xml" "p" 0
    [("a", "le roi arrive", .none), ("b", "du pain noir", .none)]]⟩

/-- The first is back on its source, the second was corrected to it. -/
def kingTwice : RunState :=
  accept ⟨"p".toList, "b".toList⟩ "le roi arrive".toList
    (fallBack ⟨"p".toList, "a".toList⟩ .hyphenPartnerFellBack (initialState breadAndKing))

omit [Unicode] in
theorem addressed_kingTwice : Addressed kingTwice.heap :=
  (sameSkeleton_accept _ _ _).sameSource.addressed
    ((sameSkeleton_fallBack _ _ _).sameSource.addressed (addressed_heap breadAndKing))

omit [Unicode] in
theorem settlesSeams_kingTwice : @SettlesSeams .ascii breadAndKing .default kingTwice
    (@globalAdjacencyPass .ascii (.plain (.answering []) .default) breadAndKing kingTwice) :=
  @settlesSeams_globalAdjacencyPass .ascii breadAndKing (.plain (.answering []) .default) kingTwice
    addressed_kingTwice (by decide)

omit [Unicode] in
/-- **A flagged line that had fallen back keeps its decision.** -/
theorem adjacencyPass_kingTwice :
    let after := @globalAdjacencyPass .ascii (.plain (.answering []) .default)
      breadAndKing kingTwice
    ⟨"p".toList, "a".toList⟩ ∈ @seamFlagged .ascii breadAndKing kingTwice.heap .default ∧
      decisionOf after ⟨"p".toList, "a".toList⟩ =
        decisionOf kingTwice ⟨"p".toList, "a".toList⟩ := by
  decide +kernel

end Saknussemm
