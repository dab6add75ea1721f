import Saknussemm.Planning.Severing
import Saknussemm.Run.Whole

/-! # Between two answers.

Only an answered chunk judges joins and gives lines new texts.  Whatever
else a run does leaves the joins judged and the answers counted as they are:
it tells, calls and captures, cuts links, and puts lines back to their
sources. -/

namespace Saknussemm

open Effects Relation

/-! ## Lines that are only put back -/

/-- The line keeps its links, or loses them. -/
structure OnlyCut (lm lm' : LineManifest) : Prop where
  ref : lineRef lm' = lineRef lm
  forward : forwardPartnerRef lm' = forwardPartnerRef lm ∨ forwardPartnerRef lm' = none
  backward : backwardPartnerRef lm' = backwardPartnerRef lm ∨ backwardPartnerRef lm' = none

theorem OnlyCut.refl (lm : LineManifest) : OnlyCut lm lm := ⟨rfl, .inl rfl, .inl rfl⟩

theorem OnlyCut.trans {x y z : LineManifest} (h : OnlyCut x y)
    (h' : OnlyCut y z) : OnlyCut x z := by
  refine ⟨h'.ref.trans h.ref, ?_, ?_⟩
  · rcases h'.forward with hsame | hnone
    · rw [hsame]
      exact h.forward
    · exact .inr hnone
  · rcases h'.backward with hsame | hnone
    · rw [hsame]
      exact h.backward
    · exact .inr hnone

/-- A link that is still there was there before. -/
theorem OnlyCut.forward_eq {lm lm' : LineManifest} (h : OnlyCut lm lm') {ref : LineRef}
    (href : forwardPartnerRef lm' = some ref) : forwardPartnerRef lm = some ref := by
  rcases h.forward with hsame | hnone
  · rw [← hsame, href]
  · rw [hnone] at href
    cases href

theorem OnlyCut.backward_eq {lm lm' : LineManifest} (h : OnlyCut lm lm') {ref : LineRef}
    (href : backwardPartnerRef lm' = some ref) : backwardPartnerRef lm = some ref := by
  rcases h.backward with hsame | hnone
  · rw [← hsame, href]
  · rw [hnone] at href
    cases href

theorem onlyCut_split (tail head : LineManifest) (h : (forwardPartnerRef tail).isSome = true) :
    OnlyCut tail (splitForwardLink tail head).1 ∧
        OnlyCut head (splitForwardLink tail head).2.1 := by
  obtain ⟨ref, href⟩ := Option.isSome_iff_exists.mp h
  refine ⟨⟨splitForwardLink_tail_ref, .inr splitForwardLink_tail_forward,
    .inl (splitForwardLink_tail_backward href)⟩, splitForwardLink_head_ref, ?_,
    .inr splitForwardLink_head_backward⟩
  rw [splitForwardLink_head_forward]
  split
  · exact .inr rfl
  · exact .inl rfl

/-- The lines keep their sources, lose links at most, and keep their texts
or take their sources'. -/
structure PutBack (h h' : Heap) : Prop where
  source : SameSource h h'
  links : ∀ ref, OnlyCut (h ref) (h' ref)
  texts : ∀ ref, (h' ref).correctedText = (h ref).correctedText ∨
    (h' ref).correctedText = some (h ref).ocrText

theorem PutBack.refl (h : Heap) : PutBack h h := ⟨.refl h, fun _ => .refl _, fun _ => .inl rfl⟩

theorem PutBack.trans {h h' h'' : Heap} (hs : PutBack h h') (hs' : PutBack h' h'') :
    PutBack h h'' := by
  refine ⟨hs.source.trans hs'.source, fun ref => (hs.links ref).trans
    (hs'.links ref), fun ref => ?_⟩
  rcases hs'.texts ref with hsame | hback
  · rw [hsame]
    exact hs.texts ref
  · right
    rw [hback, hs.source.ocrText]

theorem SameSkeleton.onlyCut {h h' : Heap} (hs : SameSkeleton h h') (ref : LineRef) :
    OnlyCut (h ref) (h' ref) :=
  ⟨hs.sameSource.lineRef ref, .inl (hs.forward ref), .inl (hs.backward ref)⟩

theorem putBack_fallBackToSource (lines : List LineRef) (reason : FallbackReason) (s : RunState) :
    PutBack s.heap (fallBackToSource lines reason s).heap := by
  have hs := sameSkeleton_fallBackToSource lines reason s
  refine ⟨hs.sameSource, hs.onlyCut, fun ref => ?_⟩
  rw [heap_fallBackToSource]
  split
  · exact .inr rfl
  · exact .inl rfl

/-! ## What is counted -/

/-- Is it the judgement of a join? -/
def Mark.isJoin : Mark → Bool
  | join .. => true
  | _ => false

/-- The joins judged so far, each with the state it was judged in. -/
def RunState.joins (s : RunState) : List (Snapshot × Mark) :=
    s.trail.filter fun entry => entry.2.isJoin

/-- The answers so far. -/
def RunState.answers (s : RunState) : List EngineEvent := s.events.filter EngineEvent.isAnswer

theorem joins_of_trail {s s' : RunState} {snapshot : Snapshot} {mark : Mark}
    (htrail : s'.trail = s.trail ++ [(snapshot, mark)]) (h : mark.isJoin = false) :
    s'.joins = s.joins := by
  rw [RunState.joins, htrail, List.filter_append, List.filter_cons_of_neg (by simp [h]),
    List.filter_nil, List.append_nil]
  rfl

theorem joins_fallBackToSource (lines : List LineRef) (reason : FallbackReason) (s : RunState) :
    (fallBackToSource lines reason s).joins = s.joins := by
  unfold fallBackToSource
  induction lines generalizing s with
  | nil => rfl
  | cons line lines ih => exact (ih (fallBack line reason s)).trans (joins_of_trail rfl rfl)

theorem events_fallBackToSource (lines : List LineRef) (reason : FallbackReason) (s : RunState) :
    (fallBackToSource lines reason s).events = s.events := by
  unfold fallBackToSource
  induction lines generalizing s with
  | nil => rfl
  | cons line lines ih => exact ih (fallBack line reason s)

/-- What a run does between two answers. -/
structure Between (s s' : RunState) : Prop where
  joins : s'.joins = s.joins
  answers : s'.answers = s.answers
  events : s.events <+: s'.events
  lines : Addressed s.heap → PutBack s.heap s'.heap

theorem Between.refl (s : RunState) : Between s s :=
  ⟨rfl, rfl, List.prefix_refl _, fun _ => .refl _⟩

theorem Between.trans {s s' s'' : RunState} (h : Between s s') (h' : Between s' s'') :
    Between s s'' := by
  refine ⟨h'.joins.trans h.joins, h'.answers.trans h.answers, h.events.trans h'.events,
    fun haddr => ?_⟩
  exact (h.lines haddr).trans (h'.lines ((h.lines haddr).source.addressed haddr))

/-- Nothing is counted where the trail grows by other marks and the events
stay. -/
theorem Between.of_events {s s' : RunState} (hjoins : s'.joins = s.joins)
    (hevents : s'.events = s.events) (hlines : Addressed s.heap → PutBack s.heap s'.heap) :
    Between s s' := by
  refine ⟨hjoins, ?_, hevents ▸ List.prefix_refl _, hlines⟩
  rw [RunState.answers, hevents]
  rfl

/-! ## The steps between -/

section Steps

variable {pipeline : CorrectionPipeline} {workspace : PageWorkspace}

theorem between_bookkeeping {s s' : RunState} (h : Bookkeeping s s') : Between s s' := by
  refine .of_events ?_ h.events fun _ => h.heap ▸ .refl _
  rw [RunState.joins, h.trail]
  rfl

theorem between_capture (captured : LineRef → Option (List EditOp × Str)) (s : RunState) :
    Between s (captureProducerOps captured s) :=
  .of_events (joins_of_trail rfl rfl) rfl fun _ => .refl _

/-- Telling an event that answers nothing stays between two answers. -/
theorem between_emit {event : EngineEvent} (h : event.isAnswer = false) :
    Steps Between (emit pipeline event) := by
  apply steps_get_bind
  intro s
  refine Steps.bind (steps_modify fun s => .single ?_) (fun _ => ?_) s
  · refine ⟨rfl, ?_, List.prefix_append _ _, fun _ => .refl _⟩
    show List.filter _ (s.events ++ [event]) = _
    rw [List.filter_append, List.filter_cons_of_neg (by simp [h]), List.filter_nil, List.append_nil]
    rfl
  · split
    · exact steps_throw _
    · exact steps_pure _

theorem between_checkAbort : Steps Between (checkAbort pipeline) :=
  steps_checkAbort_of fun _ _ => between_bookkeeping ⟨⟨rfl, rfl, rfl, rfl⟩, rfl⟩

theorem between_attemptChunk [Unicode] [Digest] (producer : EditProducer) (chunk : ChunkRequest)
    (maxAttempts : Nat) :
    Steps Between (attemptChunk pipeline producer workspace chunk maxAttempts) :=
  steps_attemptChunkFrom (fun _ _ => between_bookkeeping) between_capture
    (fun _ h => between_emit h) _ _ _ _ _

theorem between_claimJoins (lines : List LineRef) :
    Steps Between (claimJoins pipeline workspace lines) :=
  steps_claimJoins (fun _ h => between_emit h) lines

theorem between_exhaustTargets (targets : List LineRef) (failure : Option AttemptFailure)
    (s : RunState) : Between s (exhaustTargets workspace targets failure s) := by
  refine .of_events ?_ ?_ fun _ => ?_
  · exact (joins_fallBackToSource _ _ _).trans
      ((joins_fallBackToSource _ _ _).trans (joins_of_trail rfl rfl))
  · exact (events_fallBackToSource _ _ _).trans (events_fallBackToSource _ _ _)
  · exact (putBack_fallBackToSource targets _ (s.note _)).trans (putBack_fallBackToSource _ _ _)

/-- Absorbing an error stays between two answers. -/
theorem between_absorbChunkError (chunk : ChunkRequest) (message : Str) (s : RunState) :
    Between s (absorbChunkError workspace chunk message s) := by
  have hnote : Between s (s.note (.absorb (absorbTargets workspace chunk) workspace)) :=
    .of_events (joins_of_trail rfl rfl) rfl fun _ => .refl _
  unfold absorbChunkError
  dsimp only
  split
  · exact hnote
  · refine hnote.trans (.of_events ?_ ?_ fun _ => ?_)
    · exact joins_fallBackToSource _ _ (s.note _)
    · exact events_fallBackToSource _ _ (s.note _)
    · exact putBack_fallBackToSource _ _ (s.note _)

theorem between_fallBackChunk (chunk : ChunkRequest) (failure : Option AttemptFailure) :
    Steps Between (fallBackChunk pipeline workspace chunk failure) := by
  refine Steps.bind (Steps.bind (between_emit rfl) fun _ => ?_) fun _ => ?_
  · exact steps_modify fun s => .single (between_exhaustTargets _ _ s)
  · refine steps_modify fun s => .single (between_bookkeeping ?_)
    exact ⟨⟨rfl, rfl, rfl, rfl⟩, rfl⟩

theorem between_replanned {page : PageManifest} {refs : List LineRef} {s : RunState}
    (hpage : page.lines = linesOf s.heap refs) (config : ChunkPlannerConfig)
    (force : Option ChunkGranularity) : Between s (replanned config page force s) := by
  refine .of_events (joins_of_trail rfl rfl) rfl fun haddr => ⟨?_, ?_, fun ref => .inl ?_⟩
  · exact sameSource_of_untied (untied_replanned haddr hpage _ _)
  · exact related_replanned OnlyCut.refl (fun _ _ _ => .trans) onlyCut_split haddr hpage
      (fun _ _ h => h.ref) config force
  · show ((replanned config page force s).heap ref).untied.correctedText = _
    rw [untied_replanned haddr hpage]
    rfl

/-- Confirming the skipped lines stays between two answers. -/
theorem between_confirmSkippedLines (skip : List Str) (s : RunState) :
    Between s (confirmSkippedLines workspace skip s) := by
  unfold confirmSkippedLines
  generalize skip.filterMap workspace.lineById = lines
  induction lines generalizing s with
  | nil => exact .refl s
  | cons line lines ih =>
    have hs := sameSkeleton_accept line (s.heap line).ocrText s
    have hconfirm : Between s (accept line (s.heap line).ocrText s) := by
      refine .of_events (joins_of_trail rfl rfl) rfl fun _ =>
        ⟨hs.sameSource, hs.onlyCut, fun ref => ?_⟩
      rw [heap_accept]
      split
      · next heq => exact .inr (heq ▸ rfl)
      · exact .inl rfl
    exact hconfirm.trans (ih _)

end Steps

end Saknussemm
