import Saknussemm.Run.Pipeline

/-! # What the verbs leave alone.

A decision touches a line's text, status and joined words.  Everything
else about it is its skeleton: identity, source, role and links.  A run
changes skeletons only by severing links, and never the source part. -/

namespace Saknussemm

/-! ## Skeletons -/

/-- A line without its decision and its joined words. -/
def LineManifest.skeleton (lm : LineManifest) : LineManifest :=
  { lm with
    correctedText := none
    status := .pending
    hyphenSubsContent := none
    hyphenForwardSubsContent := none }

/-- A line without anything a run writes. -/
def LineManifest.source (lm : LineManifest) : LineManifest :=
  { lm.skeleton with
    hyphenRole := .none
    hyphenPairLineId := none
    hyphenPairPageId := none
    hyphenSourceExplicit := false
    hyphenForwardPairId := none
    hyphenForwardPairPageId := none
    hyphenForwardExplicit := false }

/-- The same lines but for decisions and joined words. -/
def SameSkeleton (h h' : Heap) : Prop := ∀ ref, (h' ref).skeleton = (h ref).skeleton

/-- The same lines but for what a run writes. -/
def SameSource (h h' : Heap) : Prop := ∀ ref, (h' ref).source = (h ref).source

namespace SameSkeleton

variable {h h' h'' : Heap}

theorem refl (h : Heap) : SameSkeleton h h := fun _ => rfl

theorem trans (hs : SameSkeleton h h') (hs' : SameSkeleton h' h'') : SameSkeleton h h'' :=
  fun ref => (hs' ref).trans (hs ref)

/-- What is read off skeletons reads the same. -/
theorem read {α : Type*} (hs : SameSkeleton h h') (f : LineManifest → α)
    (hf : ∀ lm, f lm.skeleton = f lm) (ref : LineRef) : f (h' ref) = f (h ref) := by
  rw [← hf (h' ref), hs ref, hf]

theorem role (hs : SameSkeleton h h') (ref : LineRef) :
    (h' ref).hyphenRole = (h ref).hyphenRole :=
  hs.read LineManifest.hyphenRole (fun _ => rfl) ref

theorem forward (hs : SameSkeleton h h') (ref : LineRef) :
    forwardPartnerRef (h' ref) = forwardPartnerRef (h ref) :=
  hs.read forwardPartnerRef (fun _ => rfl) ref

theorem backward (hs : SameSkeleton h h') (ref : LineRef) :
    backwardPartnerRef (h' ref) = backwardPartnerRef (h ref) :=
  hs.read backwardPartnerRef (fun _ => rfl) ref

theorem pointers (hs : SameSkeleton h h') (ref : LineRef) :
    pointers (h' ref) = pointers (h ref) :=
  hs.read Saknussemm.pointers (fun _ => rfl) ref

end SameSkeleton

namespace SameSource

variable {h h' h'' : Heap}

/-- What is read off the source part reads the same. -/
theorem read {α : Type*} (hs : SameSource h h') (f : LineManifest → α)
    (hf : ∀ lm, f lm.source = f lm) (ref : LineRef) : f (h' ref) = f (h ref) := by
  rw [← hf (h' ref), hs ref, hf]

theorem refl (h : Heap) : SameSource h h := fun _ => rfl

theorem trans (hs : SameSource h h') (hs' : SameSource h' h'') : SameSource h h'' :=
  fun ref => (hs' ref).trans (hs ref)

theorem lineId (hs : SameSource h h') (ref : LineRef) : (h' ref).lineId = (h ref).lineId :=
  hs.read LineManifest.lineId (fun _ => rfl) ref

theorem pageId (hs : SameSource h h') (ref : LineRef) : (h' ref).pageId = (h ref).pageId :=
  hs.read LineManifest.pageId (fun _ => rfl) ref

theorem ocrText (hs : SameSource h h') (ref : LineRef) : (h' ref).ocrText = (h ref).ocrText :=
  hs.read LineManifest.ocrText (fun _ => rfl) ref

theorem lineRef (hs : SameSource h h') (ref : LineRef) : lineRef (h' ref) = lineRef (h ref) :=
  hs.read Saknussemm.lineRef (fun _ => rfl) ref

end SameSource

theorem SameSkeleton.sameSource {h h' : Heap} (hs : SameSkeleton h h') : SameSource h h' :=
  hs.read LineManifest.source fun _ => rfl

/-! ## The verbs -/

section Verbs

variable (line : LineRef) (text : Str) (reason : FallbackReason) (s : RunState)

/-- A verb's write, read line by line. -/
theorem heap_accept (ref : LineRef) : (accept line text s).heap ref =
    if ref = line then { s.heap line with correctedText := some text, status := .corrected }
    else s.heap ref := rfl

theorem heap_fallBack (ref : LineRef) : (fallBack line reason s).heap ref =
    if ref = line then
      { s.heap line with correctedText := some (s.heap line).ocrText, status := .fallback }
    else s.heap ref := rfl

theorem heap_renormalise (ref : LineRef) : (renormalise line text s).heap ref =
    if ref = line then { s.heap line with correctedText := some text } else s.heap ref := rfl

@[simp] theorem heap_note (mark : Mark) : (s.note mark).heap = s.heap := rfl

theorem sameSkeleton_accept : SameSkeleton s.heap (accept line text s).heap := by
  intro ref
  rw [heap_accept]
  split
  · subst ref; rfl
  · rfl

theorem sameSkeleton_fallBack : SameSkeleton s.heap (fallBack line reason s).heap := by
  intro ref
  rw [heap_fallBack]
  split
  · subst ref; rfl
  · rfl

theorem sameSkeleton_renormalise : SameSkeleton s.heap (renormalise line text s).heap := by
  intro ref
  rw [heap_renormalise]
  split
  · subst ref; rfl
  · rfl

end Verbs

/-- Falling back several lines puts each of them back and no other. -/
theorem heap_fallBackToSource (lines : List LineRef) (reason : FallbackReason) (s : RunState)
    (ref : LineRef) : (fallBackToSource lines reason s).heap ref =
      if ref ∈ lines then
        { s.heap ref with correctedText := some (s.heap ref).ocrText, status := .fallback }
      else s.heap ref := by
  induction lines generalizing s with
  | nil => simp [fallBackToSource]
  | cons line lines ih =>
    show (fallBackToSource lines reason (fallBack line reason s)).heap ref = _
    rw [ih, heap_fallBack]
    by_cases hmem : ref ∈ lines <;> by_cases heq : ref = line <;> simp [hmem, heq]

theorem sameSkeleton_fallBackToSource (lines : List LineRef) (reason : FallbackReason)
    (s : RunState) : SameSkeleton s.heap (fallBackToSource lines reason s).heap := by
  intro ref
  rw [heap_fallBackToSource]
  split <;> rfl

/-! ## One join -/

section Join

variable (config : GuardConfig) (join : Join) (textById : Dict Str Str) (s : RunState)

theorem sameSkeleton_writeSubs (subs : Option Str) :
    SameSkeleton s.heap (writeSubs join subs s).heap := by
  intro ref
  simp only [writeSubs, Heap.set, setSubsContent]
  split_ifs <;> grind [LineManifest.skeleton]

theorem sameSkeleton_fallBackJoin : SameSkeleton s.heap (fallBackJoin join s).heap :=
  (sameSkeleton_fallBack _ _ _).trans (sameSkeleton_fallBack _ _ _)

theorem sameSkeleton_reconcileOnePair [Unicode] :
    SameSkeleton s.heap (reconcileOnePair config join textById s).2.heap := by
  unfold reconcileOnePair
  simp only
  split
  · exact sameSkeleton_fallBackJoin _ _
  · refine SameSkeleton.trans ?_ (sameSkeleton_writeSubs _ _ _)
    split
    · exact sameSkeleton_fallBackJoin _ _
    · exact (sameSkeleton_accept _ _ _).trans (sameSkeleton_accept _ _ _)

theorem sameSkeleton_judgeLine (workspace : PageWorkspace) (line : LineRef) :
    SameSkeleton s.heap (judgeLine config workspace textById line s).heap := by
  unfold judgeLine
  simp only
  split
  · exact .refl _
  · split
    · exact .refl _
    · split
      · exact sameSkeleton_fallBack _ _ _
      · exact sameSkeleton_accept _ _ _

end Join

end Saknussemm
