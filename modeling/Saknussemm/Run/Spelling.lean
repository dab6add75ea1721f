import Saknussemm.Run.Pages

/-! # What a run writes as a line's text.

Whatever order its steps come in, a run decides a line for its source text
or for a single line of text that was validated, and leaves what the source
says of the line alone. -/

namespace Saknussemm

open Effects Relation

/-! ## The source of a line -/

section Source

variable [Unicode] {pipeline : CorrectionPipeline} {document : DocumentManifest}
  {page : PageManifest} {start : Heap} {s s' : RunState}

omit [Unicode] in
theorem sameSource_of_untied {h h' : Heap} (hs : ∀ ref, (h' ref).untied = (h ref).untied) :
    SameSource h h' := by
  intro ref
  rw [show (h' ref).source = (h' ref).untied.source from rfl, hs ref]
  rfl

omit [Unicode] in
theorem sameSkeleton_exhaustTargets (workspace : PageWorkspace) (targets : List LineRef)
    (failure : Option AttemptFailure) (s : RunState) :
    SameSkeleton s.heap (exhaustTargets workspace targets failure s).heap := by
  refine SameSkeleton.trans ?_ (sameSkeleton_fallBackToSource _ _ _)
  exact sameSkeleton_fallBackToSource _ _ (s.note _)

omit [Unicode] in
theorem sameSkeleton_absorbChunkError (workspace : PageWorkspace) (chunk : ChunkRequest)
    (message : Str) (s : RunState) :
    SameSkeleton s.heap (absorbChunkError workspace chunk message s).heap := by
  unfold absorbChunkError
  dsimp only
  split
  · exact .refl _
  · exact sameSkeleton_fallBackToSource _ _ (s.note _)

/-- A step of a chunk writes no source. -/
theorem sameSource_chunkStep {workspace : PageWorkspace} (haddr : Addressed s.heap)
    (h : ChunkStep pipeline page workspace s s') : SameSource s.heap s'.heap := by
  cases h with
  | quiet h =>
    rw [h.heap]
    exact .refl _
  | capture captured => exact .refl _
  | join join textById _ hclaimed hlines => exact (sameSkeleton_visitJoin _ _ _).sameSource
  | judge line textById _ hline hlines => exact (sameSkeleton_judgeLine _ _ _ _ _).sameSource
  | exhaust targets failure _ htargets => exact (sameSkeleton_exhaustTargets _ _ _ _).sameSource
  | absorb chunk message => exact (sameSkeleton_absorbChunkError _ _ _ _).sameSource
  | descend targets finer _ htargets =>
    exact sameSource_of_untied (untied_replanned haddr rfl _ _)

omit [Unicode] in
theorem sameSkeleton_confirmSkippedLines (workspace : PageWorkspace) (skip : List Str)
    (s : RunState) : SameSkeleton s.heap (confirmSkippedLines workspace skip s).heap := by
  unfold confirmSkippedLines
  generalize skip.filterMap workspace.lineById = lines
  induction lines generalizing s with
  | nil => exact .refl _
  | cons line lines ih => exact (sameSkeleton_accept _ _ _).trans (ih _)

/-- **No step touches the source of a line.** -/
theorem sameSource_runStep (haddr : Addressed s.heap) (h : RunStep pipeline document s s') :
    SameSource s.heap s'.heap := by
  cases h with
  | quiet h =>
    rw [h.heap]
    exact .refl _
  | page hpage h =>
    cases h with
    | chunk h => exact sameSource_chunkStep haddr h
    | plan => exact sameSource_of_untied (untied_replanned haddr rfl _ _)
    | confirm scorer _ hstart => exact (sameSkeleton_confirmSkippedLines _ _ _).sameSource

omit [Unicode] in
/-- A line of the heap was parsed, or is outside the document. -/
theorem heap_cases (document : DocumentManifest) (ref : LineRef) :
    document.heap ref ∈ document.lines ∨ document.heap ref = noLine ref := by
  rw [DocumentManifest.heap]
  cases hfind : document.lines.find? (lineRef · = ref) with
  | none => exact .inr rfl
  | some lm => exact .inl (List.mem_of_find?_eq_some hfind)

omit [Unicode] in
theorem mem_lines_of_mem_refs {document : DocumentManifest} {ref : LineRef}
    (h : ref ∈ document.refs) : document.heap ref ∈ document.lines := by
  obtain ⟨page, hpage, href⟩ := List.mem_flatMap.mp h
  obtain ⟨lm, hlm, rfl⟩ := List.mem_map.mp href
  have hmem : lm ∈ document.lines := List.mem_flatMap.mpr ⟨page, hpage, hlm⟩
  rw [DocumentManifest.heap]
  cases hfind : document.lines.find? (lineRef · = lineRef lm) with
  | none => exact absurd (List.find?_eq_none.mp hfind lm hmem) (by simp)
  | some found => exact List.mem_of_find?_eq_some hfind

/-- The lines a run works on are its document's, kept under their refs. -/
def Sourced (document : DocumentManifest) (s : RunState) : Prop :=
  SameSource document.heap s.heap

omit [Unicode] in
theorem Sourced.addressed (h : Sourced document s) : Addressed s.heap :=
  SameSource.addressed h (addressed_heap document)

theorem sourced_runStep (hs : Sourced document s) (h : RunStep pipeline document s s') :
    Sourced document s' :=
  SameSource.trans hs (sameSource_runStep hs.addressed h)

end Source

/-! ## The text of a line -/

/-- The line stands on its source text or on a single line of text. -/
def Spelled (lm : LineManifest) : Prop :=
  ∀ text ∈ lm.correctedText, text = lm.ocrText ∨ hasLineSeparator text = false

/-- Every line does. -/
def AllSpelled (heap : Heap) : Prop := ∀ ref, Spelled (heap ref)

section Spelling

variable {s : RunState}

theorem spelled_accept (hs : AllSpelled s.heap) {line : LineRef} {text : Str}
    (htext : text = (s.heap line).ocrText ∨ hasLineSeparator text = false) :
    AllSpelled (accept line text s).heap := by
  intro ref
  rw [heap_accept]
  split
  · rintro _ ⟨⟩
    exact htext
  · exact hs ref

theorem spelled_fallBack (hs : AllSpelled s.heap) (line : LineRef) (reason : FallbackReason) :
    AllSpelled (fallBack line reason s).heap := by
  intro ref
  rw [heap_fallBack]
  split
  · rintro _ ⟨⟩
    exact .inl rfl
  · exact hs ref

theorem spelled_fallBackToSource (hs : AllSpelled s.heap) (lines : List LineRef)
    (reason : FallbackReason) : AllSpelled (fallBackToSource lines reason s).heap := by
  unfold fallBackToSource
  induction lines generalizing s with
  | nil => exact hs
  | cons line lines ih => exact ih (spelled_fallBack hs line reason)

theorem spelled_fallBackJoin (hs : AllSpelled s.heap) (join : Join) :
    AllSpelled (fallBackJoin join s).heap :=
  spelled_fallBack (spelled_fallBack hs _ _) _ _

theorem spelled_writeSubs (hs : AllSpelled s.heap) (join : Join) (subs : Option Str) :
    AllSpelled (writeSubs join subs s).heap := by
  have hset : ∀ isForward lm, Spelled lm → Spelled (setSubsContent isForward subs lm) := by
    intro isForward lm hlm
    unfold setSubsContent
    split <;> exact hlm
  intro ref
  simp only [writeSubs, Heap.set]
  split_ifs
  all_goals first | exact hset _ _ (hset _ _ (hs _)) | exact hset _ _ (hs _) | exact hs _

/-- The two texts a join is judged on are sources or single lines. -/
theorem proposedTexts_spelled (hs : AllSpelled s.heap) (join : Join) {textById : Dict Str Str}
    (hlines : SingleLines textById) :
    let texts := proposedTexts textById (s.heap join.tail) (s.heap join.head)
    (texts.1 = (s.heap join.tail).ocrText ∨ hasLineSeparator texts.1 = false) ∧
      (texts.2 = (s.heap join.head).ocrText ∨ hasLineSeparator texts.2 = false) := by
  have hanswer : ∀ lm : LineManifest, (textById.get? lm.lineId).getD lm.ocrText = lm.ocrText ∨
      hasLineSeparator ((textById.get? lm.lineId).getD lm.ocrText) = false := by
    intro lm
    cases hget : textById.get? lm.lineId with
    | none => exact .inl rfl
    | some text => exact .inr (hlines _ _ hget)
  refine ⟨?_, hanswer _⟩
  dsimp only [proposedTexts, orElseStr]
  split
  · next hcorrected => exact hs join.tail _ hcorrected
  · exact hanswer _

variable [Unicode]

/-- A join resolves to both sources or to both texts it was judged on. -/
theorem resolveJoin_texts (config : GuardConfig) (isForward : Bool) (tail head : LineManifest)
    (texts : Str × Str) :
    let final := resolveJoin config isForward tail head texts
    final = ⟨tail.ocrText, head.ocrText, none⟩ ∨
      (final.finalPart1 = texts.1 ∧ final.finalPart2 = texts.2) := by
  dsimp only
  unfold resolveJoin
  split
  · exact reconcileHyphenPair_texts _ _ _ _ _ _ _
  · exact reconcileHyphenPair_texts _ _ _ _ _ _ _

/-- A visited pair is spelled as a proposal spelled it. -/
theorem spelled_visitJoin (hs : AllSpelled s.heap) (config : GuardConfig) (join : Join)
    {textById : Dict Str Str} (hlines : SingleLines textById) :
    AllSpelled (visitJoin config join textById s).heap := by
  show AllSpelled (reconcileOnePair config join textById s).2.heap
  unfold reconcileOnePair
  dsimp only
  split
  · exact spelled_fallBackJoin hs join
  · apply spelled_writeSubs
    split
    · exact spelled_fallBackJoin hs join
    · obtain ⟨htail, hhead⟩ := proposedTexts_spelled hs join hlines
      have hfinal := resolveJoin_texts config join.isForward (s.heap join.tail) (s.heap join.head)
        (proposedTexts textById (s.heap join.tail) (s.heap join.head))
      generalize resolveJoin config join.isForward (s.heap join.tail) (s.heap join.head)
        (proposedTexts textById (s.heap join.tail) (s.heap join.head)) = final at hfinal ⊢
      -- either text is the source's or a proposed one, and proposals are single lines
      have hpart1 : final.finalPart1 = (s.heap join.tail).ocrText ∨
          hasLineSeparator final.finalPart1 = false := by
        rcases hfinal with rfl | ⟨h1, -⟩
        · exact .inl rfl
        · rw [h1]
          exact htail
      have hpart2 : final.finalPart2 = (s.heap join.head).ocrText ∨
          hasLineSeparator final.finalPart2 = false := by
        rcases hfinal with rfl | ⟨-, h2⟩
        · exact .inl rfl
        · rw [h2]
          exact hhead
      apply spelled_accept (spelled_accept hs hpart1)
      rw [(sameSkeleton_accept _ _ _).sameSource.ocrText]
      exact hpart2

omit [Unicode] in
/-- A judged line is spelled as a proposal spelled it. -/
theorem spelled_judgeLine (hs : AllSpelled s.heap) (config : GuardConfig)
    (workspace : PageWorkspace)
    {textById : Dict Str Str} (hlines : SingleLines textById) (line : LineRef) :
    AllSpelled (judgeLine config workspace textById line s).heap := by
  unfold judgeLine
  dsimp only
  split
  · exact hs
  · split
    · exact hs
    · next text htext =>
      split
      · exact spelled_fallBack hs _ _
      · exact spelled_accept hs (.inr (hlines _ _ htext))

omit [Unicode] in
/-- Lines that differ in their links are spelled alike. -/
theorem spelled_of_untied {h h' : Heap} (hs : AllSpelled h)
    (huntied : ∀ ref, (h' ref).untied = (h ref).untied) : AllSpelled h' := by
  intro ref
  have hlm := hs ref
  rw [Spelled, show (h ref).correctedText = (h ref).untied.correctedText from rfl,
    show (h ref).ocrText = (h ref).untied.ocrText from rfl, ← huntied ref] at hlm
  exact hlm

/-- **Each step spells lines as their source or as a single line.** -/
theorem spelled_runStep {pipeline : CorrectionPipeline} {document : DocumentManifest}
    {s' : RunState} (hs : AllSpelled s.heap) (haddr : Addressed s.heap)
    (h : RunStep pipeline document s s') : AllSpelled s'.heap := by
  cases h with
  | quiet h => rwa [h.heap]
  | page hpage h =>
    cases h with
    | chunk h =>
      cases h with
      | quiet h => rwa [h.heap]
      | capture captured => exact hs
      | join join textById _ hclaimed hlines => exact spelled_visitJoin hs _ _ hlines
      | judge line textById _ hline hlines => exact spelled_judgeLine hs _ _ hlines _
      | exhaust targets failure _ htargets =>
        exact spelled_fallBackToSource (spelled_fallBackToSource (s := s.note _) hs _ _) _ _
      | absorb chunk message =>
        unfold absorbChunkError
        dsimp only
        split
        · exact hs
        · exact spelled_fallBackToSource (s := s.note _) hs _ _
      | descend targets finer _ htargets =>
        exact spelled_of_untied hs (untied_replanned haddr rfl _ _)
    | plan => exact spelled_of_untied hs (untied_replanned haddr rfl _ _)
    | confirm scorer _ hstart =>
      unfold confirmSkippedLines
      generalize List.filterMap _ _ = lines
      clear hstart haddr
      induction lines generalizing s with
      | nil => exact hs
      | cons line lines ih => exact ih (spelled_accept hs (.inl rfl))

/-- **A run's lines keep their source, and are spelled, when its pages are done.** -/
theorem ends_correctDocument [Digest] {pipeline : CorrectionPipeline}
    {document : DocumentManifest} :
    Ends (fun s => Sourced document s ∧ AllSpelled s.heap) (correctDocument pipeline document)
      (fun _ s => Sourced document s ∧ AllSpelled s.heap)
      fun _ s => Sourced document s ∧ AllSpelled s.heap :=
  steps_correctDocument.ends fun _ _ hs h =>
    ⟨sourced_runStep hs.1 h, spelled_runStep hs.2 hs.1.addressed h⟩

end Spelling

end Saknussemm
