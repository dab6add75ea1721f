import Saknussemm.Run.Passes

/-! # The decision of a line, from the first step to the last.

A line is undecided, then corrected or back on its source, and from its
source it never returns.  The verbs enforce none of it: each caller looks
at the line first. -/

namespace Saknussemm

open Effects Relation

/-! ## The state machine -/

/-- How the status of a line may change. -/
inductive Moves : LineStatus → LineStatus → Prop where
  | stays (status : LineStatus) : Moves status status
  | corrects : Moves .pending .corrected
  | falls : Moves .pending .fallback
  | reverts : Moves .corrected .fallback

/-- The lines as they were before each write, and as they are now. -/
def history (s : RunState) : List Heap := s.trail.map (·.1.heap) ++ [s.heap]

/-- The reason of the first revert of a line. -/
def firstReason (trail : List (Snapshot × Mark)) (ref : LineRef) : Option FallbackReason :=
  trail.findSome? fun
    | (_, .fallBack line reason) => if line = ref then some reason else none
    | _ => none

/-- **Every write moves every line as it may, and a line that fell stands
on its source text.** -/
structure Orderly (s : RunState) : Prop where
  moves : (history s).IsChain fun h h' => ∀ ref, Moves (h ref).status (h' ref).status
  fallen : ∀ heap ∈ history s, ∀ ref, (heap ref).status = .fallback →
    (heap ref).correctedText = some (heap ref).ocrText

/-- A line's text and its status agree. -/
structure LineManifest.Coherent (lm : LineManifest) : Prop where
  pending : lm.status = .pending ↔ lm.correctedText = none
  fallen : lm.status = .fallback → lm.correctedText = some lm.ocrText
  decided : lm.status ≠ .failed

/-- What every step of a run keeps. -/
structure Decided (s : RunState) : Prop where
  orderly : Orderly s
  coherent : ∀ ref, (s.heap ref).Coherent
  reasons : s.reasons = firstReason s.trail
  explained : ∀ ref, (s.heap ref).status = .fallback → (s.reasons ref).isSome = true

/-! ## Writing -/

section Writing

variable {s s' : RunState}

/-- A line whose decision is the same is as coherent. -/
theorem LineManifest.Coherent.congr {lm lm' : LineManifest} (h : lm.Coherent)
    (htext : lm'.correctedText = lm.correctedText) (hstatus : lm'.status = lm.status)
    (hocr : lm'.ocrText = lm.ocrText) : lm'.Coherent where
  pending := by rw [htext, hstatus]; exact h.pending
  fallen := by rw [htext, hstatus, hocr]; exact h.fallen
  decided := by rw [hstatus]; exact h.decided

/-- A state with the same decisions, reasons and trail. -/
theorem Decided.congr (hs : Decided s) (htrail : s'.trail = s.trail)
    (hreasons : s'.reasons = s.reasons)
    (hstatus : ∀ ref, (s'.heap ref).status = (s.heap ref).status)
    (htext : ∀ ref, (s'.heap ref).correctedText = (s.heap ref).correctedText)
    (hocr : ∀ ref, (s'.heap ref).ocrText = (s.heap ref).ocrText) : Decided s' where
  orderly := by
    have hmoves := hs.orderly.moves
    have hfallen := hs.orderly.fallen
    rw [history, List.isChain_append] at hmoves
    constructor
    · rw [history, htrail, List.isChain_append]
      refine ⟨hmoves.1, .singleton _, fun h hh h' hh' ref => ?_⟩
      obtain rfl : s'.heap = h' := by simpa using hh'
      rw [hstatus]
      exact hmoves.2.2 h hh s.heap (by simp) ref
    · intro heap hheap ref hfell
      rw [history, htrail, List.mem_append, List.mem_singleton] at hheap
      rcases hheap with hheap | rfl
      · exact hfallen heap (List.mem_append_left _ hheap) ref hfell
      · rw [htext, hocr]
        exact hfallen s.heap (by simp [history]) ref (hstatus ref ▸ hfell)
  coherent ref := (hs.coherent ref).congr (htext ref) (hstatus ref) (hocr ref)
  reasons := by rw [hreasons, htrail, hs.reasons]
  explained ref h := by
    rw [hreasons]
    exact hs.explained ref (hstatus ref ▸ h)

/-- A write moves each line as it may. -/
theorem Decided.write (hs : Decided s) {mark : Mark}
    (htrail : s'.trail = s.trail ++ [(⟨s.heap, s.producerOps⟩, mark)])
    (hmoves : ∀ ref, Moves (s.heap ref).status (s'.heap ref).status)
    (hcoherent : ∀ ref, (s'.heap ref).Coherent)
    (hreasons : s'.reasons = firstReason s'.trail)
    (hexplained : ∀ ref, (s'.heap ref).status = .fallback → (s'.reasons ref).isSome = true) :
    Decided s' := by
  have hhistory : history s' = history s ++ [s'.heap] := by
    rw [history, htrail, history, List.map_append]
    rfl
  refine ⟨⟨?_, ?_⟩, hcoherent, hreasons, hexplained⟩
  · rw [hhistory, List.isChain_append]
    refine ⟨hs.orderly.moves, .singleton _, fun h hh h' hh' ref => ?_⟩
    obtain rfl : s'.heap = h' := by simpa using hh'
    obtain rfl : s.heap = h := by simpa [history] using hh
    exact hmoves ref
  · intro heap hmem
    rw [hhistory, List.mem_append, List.mem_singleton] at hmem
    rcases hmem with hmem | rfl
    · exact hs.orderly.fallen heap hmem
    · exact fun ref => (hcoherent ref).fallen

/-- A mark of anything but a revert explains nothing. -/
theorem firstReason_append {trail : List (Snapshot × Mark)} {snapshot : Snapshot} {mark : Mark}
    (hmark : ∀ line reason, mark ≠ .fallBack line reason) :
    firstReason (trail ++ [(snapshot, mark)]) = firstReason trail := by
  funext ref
  rw [firstReason, firstReason, List.findSome?_append]
  cases mark with
  | fallBack line reason => exact absurd rfl (hmark line reason)
  | _ => simp

theorem Decided.mark (hs : Decided s) {mark : Mark} {heap : Heap}
    (hmark : ∀ line reason, mark ≠ .fallBack line reason)
    (hmoves : ∀ ref, Moves (s.heap ref).status (heap ref).status)
    (hcoherent : ∀ ref, (heap ref).Coherent)
    (hkept : ∀ ref, (heap ref).status = .fallback → (s.heap ref).status = .fallback) :
    Decided (s.write mark heap) := by
  refine hs.write rfl hmoves hcoherent ?_ fun ref h => hs.explained ref (hkept ref h)
  show s.reasons = firstReason (s.trail ++ _)
  rw [firstReason_append hmark, hs.reasons]

theorem Decided.note (hs : Decided s) {mark : Mark}
    (hmark : ∀ line reason, mark ≠ .fallBack line reason) : Decided (s.note mark) :=
  hs.mark hmark (fun _ => .stays _) hs.coherent fun _ h => h

/-- What holds of the line written and of every other line. -/
theorem Heap.forall_set {P : LineRef → LineManifest → Prop} {heap : Heap} {line : LineRef}
    {lm : LineManifest} (hline : P line lm) (hother : ∀ ref, P ref (heap ref)) (ref : LineRef) :
    P ref (heap.set line lm ref) := by
  by_cases href : ref = line
  · subst href
    rwa [Heap.set_self]
  · rw [Heap.set_of_ne href]
    exact hother ref

/-- A line that has not fallen may be corrected. -/
theorem Decided.accept (hs : Decided s) {line : LineRef} {text : Str}
    (hline : (s.heap line).status ≠ .fallback) : Decided (accept line text s) := by
  refine hs.mark (by simp) ?_ ?_ ?_
  · apply Heap.forall_set (P := fun ref lm => Moves (s.heap ref).status lm.status)
    · have hdecided := (hs.coherent line).decided
      dsimp only
      cases hstatus : (s.heap line).status with
      | pending => exact .corrects
      | corrected => exact .stays _
      | fallback => exact absurd hstatus hline
      | failed => exact absurd hstatus hdecided
    · exact fun ref => .stays _
  · exact Heap.forall_set (P := fun _ lm => lm.Coherent) ⟨by simp, by simp, by simp⟩ hs.coherent
  · exact Heap.forall_set
      (P := fun ref lm => lm.status = .fallback → (s.heap ref).status = .fallback)
      (by simp) fun _ h => h

/-- Any line may fall, and keeps the first reason it falls for. -/
theorem Decided.fallBack (hs : Decided s) (line : LineRef) (reason : FallbackReason) :
    Decided (fallBack line reason s) := by
  refine hs.write rfl ?_ ?_ ?_ ?_
  · apply Heap.forall_set (P := fun ref lm => Moves (s.heap ref).status lm.status)
    · have hdecided := (hs.coherent line).decided
      dsimp only
      cases hstatus : (s.heap line).status with
      | pending => exact .falls
      | corrected => exact .reverts
      | fallback => exact .stays _
      | failed => exact absurd hstatus hdecided
    · exact fun ref => .stays _
  · exact Heap.forall_set (P := fun _ lm => lm.Coherent) ⟨by simp, by simp, by simp⟩ hs.coherent
  · show (fun r => if r = line ∧ s.reasons r = none then some reason else s.reasons r) =
      firstReason (s.trail ++ [(⟨s.heap, s.producerOps⟩, .fallBack line reason)])
    funext ref
    rw [firstReason, List.findSome?_append, ← firstReason, hs.reasons]
    cases hfirst : firstReason s.trail ref with
    | some first => simp
    | none => by_cases href : ref = line <;> simp [href, eq_comm]
  · refine Heap.forall_set
      (P := fun ref lm => lm.status = .fallback →
        ((Saknussemm.fallBack line reason s).reasons ref).isSome) ?_ ?_
    · intro _
      show (if line = line ∧ s.reasons line = none
        then some reason else s.reasons line).isSome = true
      cases hreason : s.reasons line <;> simp
    · intro ref hfell
      show (if ref = line ∧ s.reasons ref = none then some reason else s.reasons ref).isSome = true
      split
      · rfl
      · exact hs.explained ref hfell

/-- A corrected line may be respelled. -/
theorem Decided.renormalise (hs : Decided s) {line : LineRef} {text : Str}
    (hline : (s.heap line).status = .corrected) : Decided (renormalise line text s) := by
  refine hs.mark (by simp) ?_ ?_ ?_
  · exact Heap.forall_set (P := fun ref lm => Moves (s.heap ref).status lm.status) (.stays _)
      fun ref => .stays _
  · exact Heap.forall_set (P := fun _ lm => lm.Coherent)
      ⟨by simp [hline], by simp [hline], by simp [hline]⟩ hs.coherent
  · exact Heap.forall_set
      (P := fun ref lm => lm.status = .fallback → (s.heap ref).status = .fallback)
      (fun h => h) fun _ h => h

theorem Decided.fallBackToSource (hs : Decided s) (lines : List LineRef) (reason : FallbackReason) :
    Decided (fallBackToSource lines reason s) := by
  unfold Saknussemm.fallBackToSource
  induction lines generalizing s with
  | nil => exact hs
  | cons line lines ih => exact ih (hs.fallBack line reason)

end Writing

/-! ## The steps -/

section Steps

variable {s s' : RunState} {pipeline : CorrectionPipeline} {document : DocumentManifest}
  {page : PageManifest} {workspace : PageWorkspace}

theorem Decided.quiet (hs : Decided s) (h : Quiet s s') : Decided s' :=
  hs.congr h.trail h.reasons (fun ref => by rw [h.heap]) (fun ref => by rw [h.heap])
    fun ref => by rw [h.heap]

/-- Writing subs keeps every decision as it was. -/
theorem Decided.writeSubs (hs : Decided s) (join : Join) (subs : Option Str) :
    Decided (writeSubs join subs s) := by
  have hset : ∀ (heap : Heap) (isForward : Bool) (line ref : LineRef) {α : Type}
      (f : LineManifest → α) (_ : ∀ lm, f (setSubsContent isForward subs lm) = f lm),
      f (heap.set line (setSubsContent isForward subs (heap line)) ref) = f (heap ref) := by
    intro heap isForward line ref α f hf
    by_cases href : ref = line
    · subst href
      rw [Heap.set_self, hf]
    · rw [Heap.set_of_ne href]
  refine hs.congr rfl rfl (fun ref => ?_) (fun ref => ?_) fun ref => ?_
  all_goals
    refine (hset _ _ _ _ (f := _) fun lm => ?_).trans (hset _ _ _ _ (f := _) fun lm => ?_)
    all_goals
      unfold setSubsContent
      split <;> rfl

/-- Every fallen line has its reason already. -/
theorem refreshPairTraces_eq (hs : Decided s) (join : Join) (outcome : ReconcileOutcome) :
    refreshPairTraces join outcome s = s := by
  have hsame : (fun r =>
      if (r = join.tail ∨ r = join.head) ∧ (s.heap r).status = .fallback ∧ s.reasons r = none then
        some (FallbackReason.hyphenPair outcome)
      else s.reasons r) = s.reasons := by
    funext r
    split
    · next h =>
      have hsome := hs.explained r h.2.1
      rw [h.2.2] at hsome
      cases hsome
    · rfl
  rw [refreshPairTraces, hsame]

/-- Visiting a pair keeps decisions and reasons in step. -/
theorem Decided.visitJoin [Unicode] (hs : Decided s) (config : GuardConfig) (join : Join)
    (textById : Dict Str Str) : Decided (visitJoin config join textById s) := by
  have hpair : Decided (reconcileOnePair config join textById s).2 := by
    have hnote : Decided (s.note (.join join.tail join.head join.isForward textById)) :=
      hs.note (by simp)
    have hfell := (hnote.fallBack join.tail (.hyphenPair .fallback)).fallBack join.head
      (.hyphenPair .fallback)
    unfold reconcileOnePair
    dsimp only
    split
    · exact hfell
    · next hstanding =>
      rw [not_or] at hstanding
      apply Decided.writeSubs
      split
      · exact hfell
      · apply (hnote.accept hstanding.1).accept
        rw [heap_accept]
        split
        · simp
        · exact hstanding.2
  have hrecord : Decided (recordReconcileOutcome (reconcileOnePair config join textById s).1
      (reconcileOnePair config join textById s).2) := hpair.quiet ⟨rfl, rfl, rfl, rfl⟩
  show Decided (refreshPairTraces join (reconcileOnePair config join textById s).1
    (recordReconcileOutcome (reconcileOnePair config join textById s).1
      (reconcileOnePair config join textById s).2))
  rwa [refreshPairTraces_eq hrecord]

/-- Judging a line keeps decisions and reasons in step. -/
theorem Decided.judgeLine (hs : Decided s) (config : GuardConfig) (workspace : PageWorkspace)
    (textById : Dict Str Str) (line : LineRef) :
    Decided (judgeLine config workspace textById line s) := by
  unfold Saknussemm.judgeLine
  dsimp only
  split
  · exact hs
  · next hnone =>
    split
    · exact hs
    · split
      · exact hs.fallBack _ _
      · apply hs.accept
        have hpending := (hs.coherent line).pending.mpr (by simpa using hnone)
        rw [hpending]
        simp

/-- Lines that differ in their links are decided alike. -/
theorem Decided.replanned (hs : Decided s) {config : ChunkPlannerConfig}
    {force : Option ChunkGranularity}
    (h : ∀ ref, ((replanned config page force s).heap ref).untied = (s.heap ref).untied) :
    Decided (replanned config page force s) := by
  have hread : ∀ {α : Type} (f : LineManifest → α), (∀ lm, f lm.untied = f lm) → ∀ ref,
      f ((Saknussemm.replanned config page force s).heap ref) = f (s.heap ref) :=
    fun f hf ref => by rw [← hf, h ref, hf]
  have hstatus := hread LineManifest.status fun _ => rfl
  have htext := hread LineManifest.correctedText fun _ => rfl
  have hocr := hread LineManifest.ocrText fun _ => rfl
  have hmark : Decided (s.write (.sever (planPage config page force).1.hyphenSplits)
      (Saknussemm.replanned config page force s).heap) := by
    refine hs.mark (by simp) (fun ref => ?_) (fun ref => ?_) fun ref hfell => ?_
    · rw [hstatus]
      exact .stays _
    · exact (hs.coherent ref).congr (htext ref) (hstatus ref) (hocr ref)
    · rwa [hstatus] at hfell
  exact hmark.congr rfl rfl (fun _ => rfl) (fun _ => rfl) fun _ => rfl

/-- A step of a chunk keeps decisions and reasons in step. -/
theorem Decided.chunkStep [Unicode] (hs : Decided s) (haddr : Addressed s.heap)
    (h : ChunkStep pipeline page workspace s s') : Decided s' := by
  cases h with
  | quiet h => exact hs.quiet h
  | capture captured =>
    have hnote : Decided (s.note (.capture captured)) := hs.note (by simp)
    exact hnote.congr rfl rfl (fun _ => rfl) (fun _ => rfl) fun _ => rfl
  | join join textById _ hclaimed hlines => exact hs.visitJoin _ _ _
  | judge line textById _ hline hlines => exact hs.judgeLine _ _ _ _
  | exhaust targets failure _ htargets =>
    exact ((hs.note (by simp)).fallBackToSource _ _).fallBackToSource _ _
  | absorb chunk message =>
    unfold absorbChunkError
    dsimp only
    split
    · exact hs.note (by simp)
    · exact ((hs.note (by simp)).fallBackToSource _ _).congr rfl rfl (fun _ => rfl)
        (fun _ => rfl) fun _ => rfl
  | descend targets finer _ htargets => exact hs.replanned (untied_replanned haddr rfl _ _)

end Steps

/-! ## The passes -/

section Passes

variable {s : RunState} {pipeline : CorrectionPipeline} {document : DocumentManifest}

/-- The reverts give a reason for every line they put back. -/
theorem Decided.applyUnitReverts (hs : Decided s) (pass : RevertPass)
    (reverts : Dict LineRef FallbackReason) :
    Decided (applyUnitReverts document pass reverts s).2 := by
  unfold Saknussemm.applyUnitReverts
  split
  · exact hs
  · show Decided (revertAll document _ s)
    unfold revertAll
    generalize List.filter _ _ = entries
    induction entries generalizing s with
    | nil => exact hs
    | cons entry entries ih => exact ih (hs.fallBack _ _)

variable [Unicode]

/-- Putting a break back changes no decision and no reason. -/
theorem Decided.preserveBreakCharOf (hs : Decided s) (ref : LineRef) :
    Decided (preserveBreakCharOf ref s) := by
  unfold Saknussemm.preserveBreakCharOf
  dsimp only
  split
  · exact hs
  · next text htext =>
    split
    · exact hs
    · next hchanged =>
      apply hs.renormalise
      have hline := hs.coherent ref
      cases hstatus : (s.heap ref).status with
      | corrected => rfl
      | pending =>
        rw [hline.pending.mp hstatus] at htext
        cases htext
      | fallback =>
        rw [hline.fallen hstatus] at htext
        exact absurd (Option.some_inj.mp htext).symm hchanged
      | failed => exact absurd hstatus hline.decided

/-- The closing passes keep decisions and reasons in step. -/
theorem Decided.finalizePasses (hs : Decided s) :
    Decided (finalizePasses pipeline document s).2 := by
  have hadjacency : Decided (globalAdjacencyPass pipeline document s) := hs.applyUnitReverts _ _
  have hspelling : Decided (preserveBreakChars document
      (globalAdjacencyPass pipeline document s)) := by
    unfold preserveBreakChars
    generalize globalAdjacencyPass pipeline document s = s at hadjacency
    generalize document.refs = refs
    induction refs generalizing s with
    | nil => exact hadjacency
    | cons ref refs ih => exact ih _ (hadjacency.preserveBreakCharOf ref)
  unfold Saknussemm.finalizePasses lossPolicyPass
  split
  · exact hspelling.applyUnitReverts _ _
  · split
    · exact hspelling
    · exact hspelling.applyUnitReverts _ _

end Passes

end Saknussemm
