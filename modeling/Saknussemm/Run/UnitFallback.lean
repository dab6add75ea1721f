import Saknussemm.Run.Frame

/-! # What falls with a failed chunk.

A failed chunk's targets go back to their sources, and the rest of their
hyphen units with them: what the page's work can see of the units, less
the lines that bear the bare id of a target.  A unit reaches over the
whole document, so a member may be left out for either reason. -/

namespace Saknussemm

/-! ## Documents and heaps by ref -/

/-- A document whose lines are identified by their refs. -/
structure DocumentManifest.Identified (document : DocumentManifest) : Prop where
  line_page : ∀ page ∈ document.pages, ∀ lm ∈ page.lines, lm.pageId = page.pageId
  refs : document.refs.Nodup

/-- Every line is kept under its own ref. -/
def Addressed (heap : Heap) : Prop := ∀ ref, lineRef (heap ref) = ref

theorem addressed_heap (document : DocumentManifest) : Addressed document.heap := by
  intro ref
  rw [DocumentManifest.heap]
  cases hfind : document.lines.find? (lineRef · = ref) with
  | none => rfl
  | some lm => simpa using List.find?_some hfind

theorem SameSource.addressed {h h' : Heap} (hs : SameSource h h') (haddr : Addressed h) :
    Addressed h' :=
  fun ref => (hs.lineRef ref).trans (haddr ref)

theorem map_lineRef_linesOf {heap : Heap} (haddr : Addressed heap) (refs : List LineRef) :
    (linesOf heap refs).map lineRef = refs := by
  rw [linesOf, List.map_map]
  exact (List.map_congr_left fun ref _ => haddr ref).trans (List.map_id _)

/-- The refs of one page all name that page. -/
theorem DocumentManifest.Identified.pageId_of_mem_refs {document : DocumentManifest}
    (h : document.Identified) {page : PageManifest} (hpage : page ∈ document.pages) {ref : LineRef}
    (href : ref ∈ page.refs) : ref.pageId = page.pageId := by
  obtain ⟨lm, hlm, rfl⟩ := List.mem_map.mp href
  exact h.line_page page hpage lm hlm

/-- What a page's work can see holds no line twice. -/
theorem DocumentManifest.Identified.nodup_unitPool {document : DocumentManifest}
    (h : document.Identified) {page : PageManifest} (hpage : page ∈ document.pages) (heap : Heap) :
    (unitPool (workspaceOf document page heap)).Nodup := by
  have hpageRefs : page.refs.Nodup := by
    have hrefs := h.refs
    rw [DocumentManifest.refs, List.nodup_flatMap] at hrefs
    exact hrefs.1 page hpage
  refine List.nodup_append.mpr ⟨hpageRefs, Dict.nodup_eraseDups _, ?_⟩
  rintro ref href partner hpartner rfl
  have hslot := (List.mem_filter.mp (List.mem_eraseDups.mp hpartner)).1
  obtain ⟨slot, -, hslot⟩ := List.mem_filterMap.mp hslot
  split at hslot
  · split at hslot
    · cases hslot
    · next hne =>
      cases hslot
      exact hne (h.pageId_of_mem_refs hpage href)
  · cases hslot

/-! ## Units -/

/-- Units are read off skeletons. -/
theorem connected_congr {h h' : Heap} (hs : SameSkeleton h h') (refs : List LineRef) :
    Connected (linesOf h' refs) = Connected (linesOf h refs) := by
  have hpoints : Points (linesOf h' refs) = Points (linesOf h refs) := by
    funext x y
    have hmap : ∀ g : Heap, (linesOf g refs).map lineRef = refs.map (lineRef <| g ·) :=
      fun g => List.map_map
    have href : (fun r => lineRef (h' r)) = fun r => lineRef (h r) :=
      funext fun r => hs.sameSource.lineRef r
    have hexists : ∀ g : Heap, (∃ lm ∈ linesOf g refs, lineRef lm = x ∧ y ∈ pointers lm ∧
        y ∈ (linesOf g refs).map lineRef) ↔
        ∃ r ∈ refs, lineRef (g r) = x ∧ y ∈ pointers (g r) ∧ y ∈ refs.map (lineRef <| g ·) := by
      intro g
      rw [hmap]
      simp only [linesOf, List.mem_map, exists_exists_and_eq_and]
    rw [Points, Points, hexists, hexists, href]
    simp only [hs.sameSource.lineRef, hs.pointers]
  rw [Connected, Connected, hpoints]

variable {workspace : PageWorkspace} {heap : Heap}

/-- **Some lines and their units**, over what a page's work can see. -/
theorem mem_unitRefs_iff (hpool : (unitPool workspace).Nodup) (haddr : Addressed heap)
    (seeds : List LineRef) (ref : LineRef) : ref ∈ unitRefs workspace heap seeds ↔
      ref ∈ seeds ∨ ref ∈ unitPool workspace ∧ ∃ seed ∈ seeds, seed ∈ unitPool workspace ∧
        Connected (linesOf heap (unitPool workspace)) seed ref := by
  have hlines := map_lineRef_linesOf haddr (unitPool workspace)
  rw [unitRefs, mem_unitsContaining_iff (by rwa [hlines]), hlines, map_lineRef_linesOf haddr]

/-! ## The two endings that revert -/

/-- How a chunk ends that has no usable answer. -/
inductive ChunkEnding where
  | exhausted (failure : Option AttemptFailure)
  | absorbed (message : Str)

namespace ChunkEnding

/-- The lines it puts back for themselves. -/
def targets (workspace : PageWorkspace) (chunk : ChunkRequest) (heap : Heap) :
    ChunkEnding → List LineRef
  | exhausted _ => targetLines workspace chunk
  | absorbed _ => undecided heap (absorbTargets workspace chunk)

/-- What it does to the run. -/
def apply (workspace : PageWorkspace) (chunk : ChunkRequest) (s : RunState) :
    ChunkEnding → RunState
  | exhausted failure => exhaustTargets workspace (targetLines workspace chunk) failure s
  | absorbed message => absorbChunkError workspace chunk message s

/-- Only an exhausted chunk passes over the namesakes of its targets. -/
def passesOver (targets : List LineRef) (ref : LineRef) : ChunkEnding → Prop
  | exhausted _ => ref.lineId ∈ targets.map LineRef.lineId
  | absorbed _ => False

end ChunkEnding

/-- The line is back on its source text. -/
def FellBack (lm : LineManifest) : Prop :=
  lm.status = .fallback ∧ lm.correctedText = some lm.ocrText

instance (lm : LineManifest) : Decidable (FellBack lm) := inferInstanceAs (Decidable (_ ∧ _))

/-- What an ending reaches: the lines it puts back, and what is connected to
one of them within the page's sight and not passed over. -/
def ChunkEnding.Reaches (ending : ChunkEnding) (workspace : PageWorkspace) (heap : Heap)
    (targets : List LineRef) (ref : LineRef) : Prop :=
  ref ∈ targets ∨ (ref ∈ unitPool workspace ∧
    ∃ seed ∈ targets, seed ∈ unitPool workspace ∧
      Connected (linesOf heap (unitPool workspace)) seed ref) ∧
    ¬ ending.passesOver targets ref

/-- An exhausted chunk puts back its targets and the rest of their units. -/
theorem heap_exhaustTargets (targets : List LineRef) (failure : Option AttemptFailure)
    (s : RunState) (ref : LineRef) :
    let fallen := fallBackToSource targets (.allAttemptsExhausted failure)
      (s.note (.exhaust targets workspace))
    (exhaustTargets workspace targets failure s).heap ref =
      if ref ∈ targets ∨ ref ∈ unitRefs workspace fallen.heap targets ∧
          ref.lineId ∉ targets.map LineRef.lineId then
        { s.heap ref with correctedText := some (s.heap ref).ocrText, status := .fallback }
      else s.heap ref := by
  intro fallen
  have hfallen : fallen.heap ref = if ref ∈ targets then
      { s.heap ref with correctedText := some (s.heap ref).ocrText, status := .fallback }
    else s.heap ref := heap_fallBackToSource _ _ _ _
  show (extendToUnits workspace targets fallen).heap ref = _
  rw [extendToUnits, heap_fallBackToSource, hfallen]
  by_cases htarget : ref ∈ targets <;> simp [htarget]

/-- **An ending puts back what it reaches, and no other line.** -/
theorem heap_ending (hpool : (unitPool workspace).Nodup) {s : RunState} (haddr : Addressed s.heap)
    (chunk : ChunkRequest) (ending : ChunkEnding) (ref : LineRef) :
    let reached := ending.Reaches workspace s.heap (ending.targets workspace chunk s.heap) ref
    let lm := (ending.apply workspace chunk s).heap ref
    (reached → lm =
        { s.heap ref with correctedText := some (s.heap ref).ocrText, status := .fallback }) ∧
      (¬ reached → lm = s.heap ref) := by
  cases ending with
  -- the exhausted ending: the lines are put back first, the unit is taken from the heap after that
  | exhausted failure =>
    let targets := targetLines workspace chunk
    let fallen := fallBackToSource targets (.allAttemptsExhausted failure)
      (s.note (.exhaust targets workspace))
    have hs : SameSkeleton s.heap fallen.heap := sameSkeleton_fallBackToSource _ _ _
    have hunit := mem_unitRefs_iff hpool (hs.sameSource.addressed haddr) targets ref
    rw [connected_congr hs] at hunit
    have hreach : ref ∈ targets ∨ ref ∈ unitRefs workspace fallen.heap targets ∧
        ref.lineId ∉ targets.map LineRef.lineId ↔
        (ChunkEnding.exhausted failure).Reaches workspace s.heap targets ref := by
      rw [hunit]
      dsimp only [ChunkEnding.Reaches, ChunkEnding.passesOver]
      grind
    have hheap := @heap_exhaustTargets workspace targets failure s ref
    exact ⟨fun h => hheap.trans (if_pos (hreach.mpr h)),
      fun h => hheap.trans (if_neg fun hmem => h (hreach.mp hmem))⟩
  -- the absorbed ending reads both the undecided targets and their unit before anything is written
  | absorbed message =>
    let targets := undecided s.heap (absorbTargets workspace chunk)
    have hunit := mem_unitRefs_iff hpool haddr targets ref
    have hreach : ref ∈ unitRefs workspace s.heap targets ↔
        (ChunkEnding.absorbed message).Reaches workspace s.heap targets ref := by
      rw [hunit]
      dsimp only [ChunkEnding.Reaches, ChunkEnding.passesOver]
      grind
    have hheap : (absorbChunkError workspace chunk message s).heap ref =
        if ref ∈ unitRefs workspace s.heap targets then
          { s.heap ref with correctedText := some (s.heap ref).ocrText, status := .fallback }
        else s.heap ref := by
      by_cases hnone : targets = []
      · have hempty : ref ∉ unitRefs workspace s.heap targets := by
          rw [hunit, hnone]
          simp
        rw [absorbChunkError, if_pos (show undecided (s.note _).heap _ = [] from hnone),
          if_neg hempty]
        rfl
      · rw [absorbChunkError, if_neg (show undecided (s.note _).heap _ ≠ [] from hnone)]
        exact heap_fallBackToSource _ _ _ _
    exact ⟨fun h => hheap.trans (if_pos (hreach.mpr h)),
      fun h => hheap.trans (if_neg fun hmem => h (hreach.mp hmem))⟩

/-! ## Over the whole document -/

/-- Every line of the document that shares a hyphen unit with a line that
fell is back on its source text. -/
def UnitsFell (document : DocumentManifest) (before after : Heap) (fallen : List LineRef) : Prop :=
  ∀ x ∈ fallen, ∀ y ∈ document.refs,
    Connected (linesOf before document.refs) x y → FellBack (after y)

/-- **A failed chunk takes its whole units down exactly when each of their
members has fallen before or is reached**: it is in the page's sight,
connected to a target there, and no namesake of a target. -/
theorem unitsFell_iff (document : DocumentManifest) (hdoc : document.Identified)
    (page : PageManifest) (hpage : page ∈ document.pages) (start : Heap) (chunk : ChunkRequest)
    (ending : ChunkEnding) (s : RunState) (haddr : Addressed s.heap) :
    UnitsFell document s.heap
        (ending.apply (workspaceOf document page start) chunk s).heap
        (ending.targets (workspaceOf document page start) chunk s.heap) ↔
      ∀ x ∈ ending.targets (workspaceOf document page start) chunk s.heap, ∀ y ∈ document.refs,
        Connected (linesOf s.heap document.refs) x y → FellBack (s.heap y) ∨
          ending.Reaches (workspaceOf document page start) s.heap
            (ending.targets (workspaceOf document page start) chunk s.heap) y := by
  have hpool := hdoc.nodup_unitPool hpage start
  refine forall₂_congr fun x _ => forall₂_congr fun y _ => imp_congr_right fun _ => ?_
  -- a line reached was put back, and one not reached is as it was
  obtain ⟨hreached, hnot⟩ := heap_ending hpool haddr chunk ending y
  by_cases h : ending.Reaches (workspaceOf document page start) s.heap
      (ending.targets (workspaceOf document page start) chunk s.heap) y
  · rw [hreached h]
    exact iff_of_true ⟨rfl, rfl⟩ (.inr h)
  · rw [hnot h]
    exact ⟨.inl, fun hor => hor.resolve_right h⟩

/-- Two files of one page each, whose only lines bear one id and share a
broken word. -/
def namesakeDocument : DocumentManifest where
  sourceFiles := ["a.xml".toList, "b.xml".toList]
  pages := linkCrossPageHyphens .default
    [plainPage "a.xml" "p1" 0 [("l1", "fin-", .part1)],
      plainPage "b.xml" "p2" 1 [("l1", "ished", .none)]]

/-- The line of the first page. -/
def fin : LineRef := ⟨"p1".toList, "l1".toList⟩

/-- The line of the second page. -/
def ished : LineRef := ⟨"p2".toList, "l1".toList⟩

/-- The second page as the run sees it. -/
def ishedPage : PageManifest := (namesakeDocument.pages[1]?).getD (plainPage "b.xml" "p2" 1 [])

/-- The run once the first page is corrected. -/
def finCorrected : RunState := accept fin "fin-".toList (initialState namesakeDocument)

/-- The only chunk of the second page. -/
def ishedChunk : ChunkRequest := makeChunk "p2".toList .page ["l1".toList] none none

instance (document : DocumentManifest) : Decidable document.Identified :=
  decidable_of_iff ((∀ page ∈ document.pages, ∀ lm ∈ page.lines, lm.pageId = page.pageId) ∧
    document.refs.Nodup) ⟨fun h => ⟨h.1, h.2⟩, fun h => ⟨h.1, h.2⟩⟩

theorem addressed_finCorrected : Addressed finCorrected.heap :=
  (sameSkeleton_accept _ _ _).sameSource.addressed (addressed_heap _)

/-- The two lines of the broken word are one unit. -/
theorem connected_ished_fin :
    Connected (linesOf finCorrected.heap namesakeDocument.refs) ished fin :=
  .rel _ _ ⟨finCorrected.heap ished, by decide +kernel, by decide +kernel, by decide +kernel,
    by decide +kernel⟩

/-- **The second page's chunk fails, and the first half of the word keeps
its correction**: it bears the id of the line that failed. -/
theorem namesake_notPulled : ¬ UnitsFell namesakeDocument finCorrected.heap
    ((ChunkEnding.exhausted none).apply
      (workspaceOf namesakeDocument ishedPage finCorrected.heap) ishedChunk finCorrected).heap
    ((ChunkEnding.exhausted none).targets
      (workspaceOf namesakeDocument ishedPage finCorrected.heap) ishedChunk finCorrected.heap) := by
  intro hfell
  have hfin := hfell ished (by decide +kernel) fin (by decide +kernel) connected_ished_fin
  exact absurd hfin (by decide +kernel)

/-- A broken word on one page. -/
def tailDocument : DocumentManifest := onePageDocument (brokenWord.take 2)

/-- Its page as the run sees it. -/
def tailPage : PageManifest := onePage (brokenWord.take 2)

/-- Its halves. -/
def headLine : LineRef := ⟨"p".toList, "a".toList⟩

def tailLine : LineRef := ⟨"p".toList, "b".toList⟩

/-- The run once the first half is corrected. -/
def headCorrected : RunState := accept headLine "le pot-".toList (initialState tailDocument)

/-- A chunk for the second half alone. -/
def tailChunk : ChunkRequest :=
  makeChunk "p".toList .line ["a".toList, "b".toList] none (some ["b".toList])

theorem addressed_headCorrected : Addressed headCorrected.heap :=
  (sameSkeleton_accept _ _ _).sameSource.addressed (addressed_heap _)

/-- A failed chunk pulls the other half of its word down where that bears
another id; an error between attempt and finalisation does in any case. -/
theorem unitsFell_otherwise :
    UnitsFell tailDocument headCorrected.heap
      ((ChunkEnding.exhausted none).apply
        (workspaceOf tailDocument tailPage headCorrected.heap) tailChunk headCorrected).heap
      ((ChunkEnding.exhausted none).targets
        (workspaceOf tailDocument tailPage headCorrected.heap) tailChunk headCorrected.heap) ∧
    UnitsFell namesakeDocument finCorrected.heap
      ((ChunkEnding.absorbed []).apply
        (workspaceOf namesakeDocument ishedPage finCorrected.heap) ishedChunk finCorrected).heap
      ((ChunkEnding.absorbed []).targets
        (workspaceOf namesakeDocument ishedPage finCorrected.heap) ishedChunk
        finCorrected.heap) := by
  constructor
  -- the tail's own chunk ends with every attempt spent; its head is on the page and falls with it
  · refine (unitsFell_iff tailDocument (by decide +kernel) tailPage (by decide +kernel)
      headCorrected.heap tailChunk (.exhausted none) headCorrected addressed_headCorrected).mpr ?_
    intro x hx y hy _
    have hall : ∀ x ∈ (ChunkEnding.exhausted none).targets
        (workspaceOf tailDocument tailPage headCorrected.heap) tailChunk headCorrected.heap,
        x = tailLine := by decide +kernel
    obtain rfl := hall x hx
    have hrefs : ∀ y ∈ tailDocument.refs, y = headLine ∨ y = tailLine := by decide +kernel
    rcases hrefs y hy with rfl | rfl
    · refine .inr (.inr ⟨⟨by decide +kernel, tailLine, hx, by decide +kernel, ?_⟩, ?_⟩)
      · exact .rel _ _ ⟨headCorrected.heap tailLine, by decide +kernel, by decide +kernel,
          by decide +kernel, by decide +kernel⟩
      · show headLine.lineId ∉ _
        decide +kernel
    · exact .inr (.inl hx)
  -- the absorbed ending takes the unit whole, namesakes or not
  · refine (unitsFell_iff namesakeDocument (by decide +kernel) ishedPage (by decide +kernel)
      finCorrected.heap ishedChunk (.absorbed []) finCorrected addressed_finCorrected).mpr ?_
    intro x hx y hy _
    have hall : ∀ x ∈ (ChunkEnding.absorbed []).targets
        (workspaceOf namesakeDocument ishedPage finCorrected.heap) ishedChunk finCorrected.heap,
        x = ished := by decide +kernel
    obtain rfl := hall x hx
    have hrefs : ∀ y ∈ namesakeDocument.refs, y = fin ∨ y = ished := by decide +kernel
    rcases hrefs y hy with rfl | rfl
    · refine .inr (.inr ⟨⟨by decide +kernel, ished, hx, by decide +kernel, ?_⟩, id⟩)
      exact .rel _ _ ⟨finCorrected.heap ished, by decide +kernel, by decide +kernel,
        by decide +kernel, by decide +kernel⟩
    · exact .inr (.inl hx)

end Saknussemm
