import Saknussemm.Run.Spelling

/-! # What the document-wide passes do to the lines.

Two of them only revert, flagged lines and their units; the one between
respells what stands, and never a line that is back on its source. -/

namespace Saknussemm

open Effects

/-- The line put back to its source text. -/
def LineManifest.reverted (lm : LineManifest) : LineManifest :=
  { lm with correctedText := some lm.ocrText, status := .fallback }

/-! ## Reverting -/

theorem heap_foldl_fallBack (entries : List (LineRef × FallbackReason)) (s : RunState)
    (ref : LineRef) :
    (entries.foldl (fun s (ref, reason) => fallBack ref reason s) s).heap ref =
      if ref ∈ entries.map Prod.fst then (s.heap ref).reverted else s.heap ref := by
  induction entries generalizing s with
  | nil => simp
  | cons entry entries ih =>
    rw [List.foldl_cons, ih, heap_fallBack]
    by_cases hmem : ref ∈ entries.map Prod.fst <;> by_cases heq : ref = entry.1 <;>
      simp [hmem, heq, LineManifest.reverted]

/-- The map reverts its own lines that are in the document. -/
theorem heap_revertAll (document : DocumentManifest) (reverts : Dict LineRef FallbackReason)
    (s : RunState) (ref : LineRef) :
    (revertAll document reverts s).heap ref =
      if ref ∈ document.refs ∧ ref ∈ Dict.keys reverts then (s.heap ref).reverted
      else s.heap ref := by
  have hmem : ref ∈ (reverts.filter (·.1 ∈ document.refs)).map Prod.fst ↔
      ref ∈ document.refs ∧ ref ∈ Dict.keys reverts := by
    simp only [List.mem_map, List.mem_filter, decide_eq_true_eq, Dict.keys]
    constructor
    · rintro ⟨entry, ⟨hentry, hdoc⟩, rfl⟩
      exact ⟨hdoc, entry, hentry, rfl⟩
    · rintro ⟨hdoc, entry, hentry, rfl⟩
      exact ⟨entry, ⟨hentry, hdoc⟩, rfl⟩
  rw [revertAll, heap_foldl_fallBack]
  by_cases h : ref ∈ document.refs ∧ ref ∈ Dict.keys reverts
  · rw [if_pos (hmem.mpr h), if_pos h]
  · rw [if_neg fun hin => h (hmem.mp hin), if_neg h]

/-- **A pass reverts the flagged lines and the members of their groups.** -/
theorem mem_keys_revertMap_iff {document : DocumentManifest} {heap : Heap} {pass : RevertPass}
    {reverts : Dict LineRef FallbackReason} {ref : LineRef} :
    ref ∈ Dict.keys (revertMap document heap pass reverts) ↔ ref ∈ Dict.keys reverts ∨
      ∃ seed ∈ Dict.keys reverts,
        ref ∈ ((hyphenGroupOf (deriveHyphenGroups (linesOf heap document.refs)) seed).map
          HyphenGroup.members).getD [] := by
  -- each fold only adds keys: the members of one group, then the groups of all seeds
  have hmembers : ∀ (members : List LineRef) (all : Dict LineRef FallbackReason),
      ref ∈ Dict.keys (members.foldl
        (fun all member =>
          if member ∈ Dict.keys all then all else Dict.set all member (.pairAtomicity pass)) all) ↔
        ref ∈ Dict.keys all ∨ ref ∈ members := by
    intro members
    induction members with
    | nil => simp
    | cons member members ih =>
      intro all
      rw [List.foldl_cons, ih, List.mem_cons]
      split
      · next hmem => grind
      · rw [Dict.mem_keys_set]
        grind
  let groups := deriveHyphenGroups (linesOf heap document.refs)
  have hseeds : ∀ (seeds : List LineRef) (all : Dict LineRef FallbackReason),
      ref ∈ Dict.keys (seeds.foldl
        (fun all seed =>
          (((hyphenGroupOf groups seed).map HyphenGroup.members).getD []).foldl
            (fun all member =>
              if member ∈ Dict.keys all then all else Dict.set all member (.pairAtomicity pass))
            all) all) ↔
        ref ∈ Dict.keys all ∨
          ∃ seed ∈ seeds, ref ∈ ((hyphenGroupOf groups seed).map HyphenGroup.members).getD [] := by
    intro seeds
    induction seeds with
    | nil => simp
    | cons seed seeds ih =>
      intro all
      rw [List.foldl_cons, ih, hmembers]
      simp only [List.mem_cons, exists_eq_or_imp, or_assoc]
  exact hseeds _ _

/-- A pass puts back every flagged line of the document, and changes a line
in no other way. -/
theorem heap_applyUnitReverts (document : DocumentManifest) (pass : RevertPass)
    (reverts : Dict LineRef FallbackReason) (s : RunState) (ref : LineRef) :
    ((applyUnitReverts document pass reverts s).2.heap ref = s.heap ref ∨
        (applyUnitReverts document pass reverts s).2.heap ref = (s.heap ref).reverted) ∧
      (ref ∈ document.refs → ref ∈ Dict.keys reverts →
        (applyUnitReverts document pass reverts s).2.heap ref = (s.heap ref).reverted) := by
  unfold applyUnitReverts
  split
  · next hnone =>
    subst hnone
    exact ⟨.inl rfl, fun _ h => nomatch h⟩
  · dsimp only
    rw [heap_revertAll]
    constructor
    · split
      · exact .inr rfl
      · exact .inl rfl
    · intro hdoc hkey
      rw [if_pos ⟨hdoc, mem_keys_revertMap_iff.mpr (.inl hkey)⟩]

theorem sameSource_applyUnitReverts (document : DocumentManifest) (pass : RevertPass)
    (reverts : Dict LineRef FallbackReason) (s : RunState) :
    SameSource s.heap (applyUnitReverts document pass reverts s).2.heap := by
  intro ref
  rcases (heap_applyUnitReverts document pass reverts s ref).1 with h | h
  · rw [h]
  · rw [h]
    rfl

theorem spelled_applyUnitReverts {s : RunState} (hs : AllSpelled s.heap)
    (document : DocumentManifest) (pass : RevertPass) (reverts : Dict LineRef FallbackReason) :
    AllSpelled (applyUnitReverts document pass reverts s).2.heap := by
  intro ref
  rcases (heap_applyUnitReverts document pass reverts s ref).1 with h | h
  · rw [h]
    exact hs ref
  · rw [h]
    rintro _ ⟨⟩
    exact .inl rfl

/-! ## Respelling -/

variable [Unicode]

/-- A line keeps its text, or has its break character put back. -/
theorem heap_preserveBreakCharOf (ref : LineRef) (s : RunState) (r : LineRef) :
    (preserveBreakCharOf ref s).heap r = s.heap r ∨
      r = ref ∧ ∃ text, (s.heap ref).correctedText = some text ∧ text ≠ (s.heap ref).ocrText ∧
        (preserveBreakCharOf ref s).heap r = { s.heap ref with
          correctedText := some (preserveBreakChar (s.heap ref).ocrText text) } := by
  unfold preserveBreakCharOf
  dsimp only
  split
  · exact .inl rfl
  · next text htext =>
    split
    · exact .inl rfl
    · next hchanged =>
      rw [heap_renormalise]
      split
      · next heq => exact .inr ⟨heq, text, htext, hchanged, rfl⟩
      · exact .inl rfl

/-- Putting breaks back writes no source. -/
theorem sameSource_preserveBreakChars (document : DocumentManifest) (s : RunState) :
    SameSource s.heap (preserveBreakChars document s).heap := by
  unfold preserveBreakChars
  generalize document.refs = refs
  induction refs generalizing s with
  | nil => exact .refl _
  | cons ref refs ih =>
    refine SameSource.trans (fun r => ?_) (ih _)
    rcases heap_preserveBreakCharOf ref s r with h | ⟨rfl, text, -, -, h⟩
    · rw [h]
    · rw [h]
      rfl

/-! ## All passes -/

theorem sameSource_globalAdjacencyPass (pipeline : CorrectionPipeline) (document : DocumentManifest)
    (s : RunState) : SameSource s.heap (globalAdjacencyPass pipeline document s).heap :=
  sameSource_applyUnitReverts _ _ _ _

omit [Unicode] in
theorem sameSource_lossPolicyPass (pipeline : CorrectionPipeline) (document : DocumentManifest)
    (s : RunState) : SameSource s.heap (lossPolicyPass pipeline document s).2.heap := by
  unfold lossPolicyPass
  split
  · exact sameSource_applyUnitReverts _ _ _ _
  · split
    · exact .refl _
    · exact sameSource_applyUnitReverts _ _ _ _

/-! ## A run that ends well -/

/-- **A run with a result corrected its pages, and decided every line by
what the passes left of it.** -/
theorem run_eq_ok [Digest] {pipeline : CorrectionPipeline} {document : DocumentManifest}
    {result : CorrectionResult} (h : (run pipeline document).1 = .ok result) :
    ∃ totals s, (correctDocument pipeline document).exec (initialState document) = (.ok totals, s) ∧
      (run pipeline document).2 = (finalizePasses pipeline document s).2 ∧
      (∀ ref ∈ document.refs,
        ((finalizePasses pipeline document s).2.heap ref).status ≠ .pending) ∧
      result.decisions = document.refs.map (decisionOf (finalizePasses pipeline document s).2) := by
  unfold run runPipeline at h ⊢
  rw [Prog.exec_bind] at h ⊢
  rcases hexec : (correctDocument pipeline document).exec (initialState document) with ⟨res, s⟩
  rw [hexec] at h
  cases res with
  | error fault => cases h
  | ok totals =>
    refine ⟨totals, s, rfl, ?_⟩
    dsimp only at h ⊢
    unfold finalizeDocument at h ⊢
    rw [Prog.exec_bind_ok (Prog.exec_get s)] at h ⊢
    rcases hpasses : finalizePasses pipeline document s with ⟨sidecar, s'⟩
    rw [hpasses] at h
    dsimp only at h ⊢
    have hset : Prog.exec (set s' : RunM PUnit) s = (.ok ⟨⟩, s') := rfl
    rw [Prog.exec_bind_ok hset] at h ⊢
    unfold deriveDecisionSet at h ⊢
    -- the decision set is taken only when nothing is left pending
    cases hundecided : document.refs.filter fun ref => (s'.heap ref).status = .pending with
    | nil =>
      rw [hundecided] at h
      cases h
      refine ⟨rfl, fun ref href hpending => ?_, rfl⟩
      have := List.filter_eq_nil_iff.mp hundecided ref href
      exact this (by simpa using hpending)
    | cons ref refs =>
      rw [hundecided] at h
      cases h

end Saknussemm
