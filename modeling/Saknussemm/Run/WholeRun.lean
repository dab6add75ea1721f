import Saknussemm.Run.Whole

/-! # Words over a whole run.

A run that finds at each step what keeps the words around it whole ends
with every word whole: its passes revert whole units. -/

namespace Saknussemm

open Effects Relation

/-! ## The steps of a page -/

section Pages

variable [Unicode] {document : DocumentManifest} {pipeline : CorrectionPipeline}
  {page : PageManifest} {start : Heap} {s s' : RunState}

omit [Unicode] in
theorem trail_confirm (lines : List LineRef) (s : RunState) :
    s.trail <+: (lines.foldl (fun s line => accept line (s.heap line).ocrText s) s).trail := by
  induction lines generalizing s with
  | nil => exact List.prefix_refl _
  | cons line lines ih =>
    exact (List.prefix_append _ _).trans (ih (accept line (s.heap line).ocrText s))

theorem whole_confirm (lines : List LineRef) (hw : Whole document s.heap)
    (hkeeps : ∀ entry ∈ (lines.foldl (fun s line => accept line (s.heap line).ocrText s) s).trail,
      KeepsWhole pipeline.guardConfig document entry) :
    Whole document (lines.foldl (fun s line => accept line (s.heap line).ocrText s) s).heap := by
  induction lines generalizing s with
  | nil => exact hw
  | cons line lines ih =>
    have hmark := hkeeps (⟨s.heap, s.producerOps⟩, .accept line (s.heap line).ocrText) <|
      (trail_confirm lines (accept line (s.heap line).ocrText s)).subset
        (List.mem_append_right _ (List.mem_singleton_self _))
    exact ih (whole_accept hw hmark) hkeeps

theorem trail_pageStep (h : PageStep pipeline document page start s s') : s.trail <+: s'.trail := by
  cases h with
  | chunk h => exact trail_chunkStep h
  | plan => exact List.prefix_append _ _
  | confirm scorer _ hheap => exact trail_confirm _ _

/-- **A page's step that finds what it must keeps words whole.** -/
theorem whole_pageStep (hdoc : document.Identified) (hpage : page ∈ document.pages)
    (hw : Whole document s.heap) (haddr : Addressed s.heap)
    (h : PageStep pipeline document page start s s')
    (hkeeps : ∀ entry ∈ s'.trail, KeepsWhole pipeline.guardConfig document entry) :
    Whole document s'.heap := by
  cases h with
  | chunk h => exact whole_chunkStep hw haddr (hdoc.nodup_unitPool hpage start) h hkeeps
  | plan => exact whole_replanned hw haddr rfl _ _
  | confirm scorer _ hheap => exact whole_confirm _ hw hkeeps

theorem trail_runStep (h : RunStep pipeline document s s') : s.trail <+: s'.trail := by
  cases h with
  | quiet h => exact h.trail ▸ List.prefix_refl s.trail
  | page hpage h => exact trail_pageStep h

/-- A run keeps words whole as far as its steps do. -/
theorem whole_runSteps (hdoc : document.Identified) (hs : Sourced document s)
    (hw : Whole document s.heap) (h : ReflTransGen (RunStep pipeline document) s s')
    (hkeeps : ∀ entry ∈ s'.trail, KeepsWhole pipeline.guardConfig document entry) :
    Sourced document s' ∧ Whole document s'.heap := by
  induction h with
  | refl => exact ⟨hs, hw⟩
  | tail _ hstep ih =>
    obtain ⟨hsourced, hwhole⟩ :=
      ih fun entry hentry => hkeeps entry ((trail_runStep hstep).subset hentry)
    refine ⟨sourced_runStep hsourced hstep, ?_⟩
    cases hstep with
    | quiet h =>
      rw [h.heap]
      exact hwhole
    | page hpage h => exact whole_pageStep hdoc hpage hwhole hsourced.addressed h hkeeps

end Pages

/-! ## The passes -/

section Passes

variable {document : DocumentManifest} {s : RunState}

/-- Linked lines share a unit. -/
theorem connected_of_sides {heap : Heap} (haddr : Addressed heap) {x y : LineRef}
    (h : Sides document heap x y) : Connected (linesOf heap document.refs) x y := by
  have hcontinues : ∀ {x y : LineRef}, Continues document heap x y →
      Points (linesOf heap document.refs) x y := by
    rintro x y ⟨hx, hy, hforward⟩
    refine ⟨heap x, List.mem_map_of_mem hx, haddr x, ?_, ?_⟩
    · rcases hrole : (heap x).hyphenRole <;>
        grind [forwardPartnerRef, pointers]
    · rw [map_lineRef_linesOf haddr]
      exact hy
  rcases h with h | h
  · exact .rel _ _ (hcontinues h)
  · exact .symm _ _ (.rel _ _ (hcontinues h))

/-- **A pass that reverts keeps words whole**: it takes a unit or leaves
it. -/
theorem whole_applyUnitReverts (hdoc : document.Identified) (hw : Whole document s.heap)
    (haddr : Addressed s.heap) (pass : RevertPass) (reverts : Dict LineRef FallbackReason) :
    Whole document (applyUnitReverts document pass reverts s).2.heap := by
  unfold applyUnitReverts
  split
  · exact hw
  let all := revertMap document s.heap pass reverts
  have hlines := map_lineRef_linesOf haddr document.refs
  have hnodup : ((linesOf s.heap document.refs).map lineRef).Nodup := by
    rw [hlines]
    exact hdoc.refs
  show Whole document (revertAll document all s).heap
  refine hw.putBack (fun ref => .inl ?_) (fun ref => ref ∈ document.refs ∧ ref ∈ Dict.keys all)
    (fun ref href => ?_) (fun ref href => ?_) fun x y hsides hx hy => ?_
  · rw [heap_revertAll]
    split <;> rfl
  · rw [heap_revertAll, if_pos href]
    rfl
  · rw [heap_revertAll, if_neg href]
  · -- a line linked to a reverted one is in its group, so it is reverted with it
    refine absurd ?_ hy
    have hrefs : x ∈ document.refs ∧ y ∈ document.refs :=
      hsides.elim (fun h => ⟨h.1, h.2.1⟩) fun h => ⟨h.2.1, h.1⟩
    have hconnected := connected_of_sides haddr hsides
    refine ⟨hrefs.2, mem_keys_revertMap_iff.mpr ?_⟩
    have hgroup : ∀ {seed : LineRef}, seed ∈ document.refs → seed ≠ y →
        Connected (linesOf s.heap document.refs) seed y → y ∈ ((hyphenGroupOf
          (deriveHyphenGroups (linesOf s.heap document.refs)) seed).map
            HyphenGroup.members).getD [] := by
      intro seed hseed hne h
      rw [mem_hyphenGroupOf_iff hnodup hne, hlines]
      exact ⟨hseed, hrefs.2, h⟩
    rcases mem_keys_revertMap_iff.mp hx.2 with hflagged | ⟨seed, hseed, hmember⟩
    · by_cases hxy : x = y
      · exact .inl (hxy ▸ hflagged)
      · exact .inr ⟨x, hflagged, hgroup hrefs.1 hxy hconnected⟩
    · by_cases hseedy : seed = y
      · exact .inl (hseedy ▸ hseed)
      · by_cases hseedx : seed = x
        · subst hseedx
          exact .inr ⟨seed, hseed, hgroup hrefs.1 hseedy hconnected⟩
        · obtain ⟨hin, -, hreach⟩ := (mem_hyphenGroupOf_iff hnodup hseedx).mp hmember
          exact .inr ⟨seed, hseed, hgroup (hlines ▸ hin) hseedy (hreach.trans _ _ _ hconnected)⟩

/-- Putting breaks back keeps words whole. -/
theorem whole_preserveBreakChars [Unicode] (hw : Whole document s.heap) :
    Whole document (preserveBreakChars document s).heap := by
  have hsame : ∀ ref, forwardPartnerRef ((preserveBreakChars document s).heap ref) =
        forwardPartnerRef (s.heap ref) ∧
      ((preserveBreakChars document s).heap ref).status = (s.heap ref).status := by
    unfold preserveBreakChars
    generalize document.refs = refs
    clear hw
    induction refs generalizing s with
    | nil => exact fun _ => ⟨rfl, rfl⟩
    | cons line refs ih =>
      intro ref
      rw [List.foldl_cons, (ih ref).1, (ih ref).2]
      rcases heap_preserveBreakCharOf line s ref with h | ⟨rfl, text, -, -, h⟩
      · rw [h]
        exact ⟨rfl, rfl⟩
      · rw [h]
        exact ⟨rfl, rfl⟩
  exact hw.congr (fun ref => .inl (hsame ref).1) fun ref => (hsame ref).2

/-- The passes keep words whole. -/
theorem whole_finalizePasses [Unicode] (hdoc : document.Identified) (hw : Whole document s.heap)
    (haddr : Addressed s.heap) (pipeline : CorrectionPipeline) :
    Whole document (finalizePasses pipeline document s).2.heap := by
  have hadjacency : Whole document (globalAdjacencyPass pipeline document s).heap :=
    whole_applyUnitReverts hdoc hw haddr _ _
  have haddr' : Addressed (preserveBreakChars document
      (globalAdjacencyPass pipeline document s)).heap :=
    ((sameSource_globalAdjacencyPass _ _ _).trans
      (sameSource_preserveBreakChars _ _)).addressed haddr
  have hbreaks := whole_preserveBreakChars hadjacency
  show Whole document (lossPolicyPass pipeline document _).2.heap
  unfold lossPolicyPass
  split
  · exact whole_applyUnitReverts hdoc hbreaks haddr' _ _
  · split
    · exact hbreaks
    · exact whole_applyUnitReverts hdoc hbreaks haddr' _ _

/-- The reverts add to the trail. -/
theorem trail_applyUnitReverts (pass : RevertPass) (reverts : Dict LineRef FallbackReason)
    (s : RunState) : s.trail <+: (applyUnitReverts document pass reverts s).2.trail := by
  unfold applyUnitReverts
  split
  · exact List.prefix_refl _
  · show s.trail <+: (revertAll document _ s).trail
    unfold revertAll
    generalize List.filter _ _ = entries
    induction entries generalizing s with
    | nil => exact List.prefix_refl _
    | cons entry entries ih =>
      exact (List.prefix_append _ _).trans (ih (fallBack entry.1 entry.2 s))

/-- Putting breaks back takes nothing off the trail. -/
theorem trail_preserveBreakChars [Unicode] (s : RunState) :
    s.trail <+: (preserveBreakChars document s).trail := by
  unfold preserveBreakChars
  generalize document.refs = refs
  induction refs generalizing s with
  | nil => exact List.prefix_refl _
  | cons ref refs ih =>
    refine List.IsPrefix.trans ?_ (ih (preserveBreakCharOf ref s))
    unfold preserveBreakCharOf
    dsimp only
    split
    · exact List.prefix_refl _
    · split
      · exact List.prefix_refl _
      · exact List.prefix_append _ _

/-- The passes only add to the trail. -/
theorem trail_finalizePasses [Unicode] (pipeline : CorrectionPipeline) (s : RunState) :
    s.trail <+: (finalizePasses pipeline document s).2.trail := by
  have hadjacency : s.trail <+: (globalAdjacencyPass pipeline document s).trail :=
    trail_applyUnitReverts _ _ _
  have hbreaks := hadjacency.trans (@trail_preserveBreakChars document _ _)
  show s.trail <+: (lossPolicyPass pipeline document _).2.trail
  unfold lossPolicyPass
  split
  · exact hbreaks.trans (trail_applyUnitReverts _ _ _)
  · split
    · exact hbreaks
    · exact hbreaks.trans (trail_applyUnitReverts _ _ _)

end Passes

/-! ## The run -/

section Run

variable [Unicode] [Digest] {pipeline : CorrectionPipeline} {document : DocumentManifest}

/-- Only a document of identified lines gets past the door. -/
theorem door_of_correctDocument {totals : Nat × Nat} {s s' : RunState}
    (h : (correctDocument pipeline document).exec s = (.ok totals, s')) :
    ensureIdentities document = .ok () := by
  unfold correctDocument preflight at h
  cases hdoor : ensureIdentities document with
  | ok _ => rfl
  | error error =>
    rw [hdoor, Prog.exec_bind_error (Prog.exec_throw _ s)] at h
    cases h

/-- **When every step of a run finds what keeps the words around it whole,
a line of the document has fallen at the end exactly when the line its
word continues on has.** -/
theorem wholeWords_run (policy : PairingPolicy) (files : List SourceFile)
    (document : DocumentManifest) (hbuild : buildDocumentManifest policy files = .ok document)
    (pipeline : CorrectionPipeline) (hkeeps : ∀ entry ∈ (run pipeline document).2.trail,
      KeepsWhole pipeline.guardConfig document entry) :
    ∀ result, (run pipeline document).1 = .ok result → ∀ tail head,
      Continues document (run pipeline document).2.heap tail head →
      (((run pipeline document).2.heap tail).status = .fallback ↔
        ((run pipeline document).2.heap head).status = .fallback) := by
  intro result hresult tail head hcontinues
  obtain ⟨totals, s, hexec, hstate, hdecided, -⟩ := run_eq_ok hresult
  have hcoherent := (decided_run hbuild pipeline).2.coherent
  have hdoc := built_identified hbuild (door_of_correctDocument hexec)
  have hstart : Whole document (initialState document).heap := by
    -- nothing is decided before the first step
    intro x y _ hx
    have hpending : (document.heap x).status = .pending := by
      rcases heap_cases document x with hmem | hoff
      · exact congrArg Prod.snd (visit_built hbuild hmem)
      · rw [hoff]
        rfl
    rw [show (initialState document).heap x = document.heap x from rfl, hpending] at hx
    cases hx
  have hsteps : ReflTransGen (RunStep pipeline document) (initialState document) s := by
    have hcorrect : ReflTransGen _ _ ((correctDocument pipeline document).exec _).2 :=
      steps_correctDocument (initialState document)
    rwa [hexec] at hcorrect
  have hsource : Sourced document (initialState document) := SameSource.refl _
  -- the last passes only add to the trail, so its steps are steps of the run
  obtain ⟨hsourced, hwhole⟩ := whole_runSteps hdoc hsource hstart hsteps fun entry hentry =>
    hkeeps entry (hstate ▸ (trail_finalizePasses pipeline s).subset hentry)
  have hend : Whole document (run pipeline document).2.heap :=
    hstate ▸ whole_finalizePasses hdoc hwhole hsourced.addressed pipeline
  have hcorrected : ∀ ref ∈ document.refs,
      ((run pipeline document).2.heap ref).status ≠ .fallback →
        ((run pipeline document).2.heap ref).status = .corrected := by
    intro ref href hstands
    have hpending := hstate ▸ hdecided ref href
    have hfailed := (hcoherent ref).decided
    cases hstatus : ((run pipeline document).2.heap ref).status <;> grind
  constructor
  · intro hfell
    by_contra hstands
    exact hend tail head (.inl hcontinues) hfell (hcorrected head hcontinues.2.1 hstands)
  · intro hfell
    by_contra hstands
    exact hend head tail (.inr hcontinues) hfell (hcorrected tail hcontinues.1 hstands)

end Run

/-- A run in which a word falls, both of its halves at once. -/
theorem wholeWords_fallenFiles :
    ((@run .ascii .plain fallingPipeline (builtDocument .default fallenFiles)).2.heap
      ⟨"p".toList, "a".toList⟩).status = .fallback ∧
    (((@run .ascii .plain fallingPipeline (builtDocument .default fallenFiles)).2.heap
        ⟨"p".toList, "a".toList⟩).status = .fallback ↔
      ((@run .ascii .plain fallingPipeline (builtDocument .default fallenFiles)).2.heap
        ⟨"p".toList, "b".toList⟩).status = .fallback) := by
  have hbuild : buildDocumentManifest .default fallenFiles =
      .ok (builtDocument .default fallenFiles) := by decide +kernel
  have hok : (@run .ascii .plain fallingPipeline
      (builtDocument .default fallenFiles)).1.isOk = true := by decide +kernel
  refine ⟨by decide +kernel, ?_⟩
  cases hresult : (@run .ascii .plain fallingPipeline (builtDocument .default fallenFiles)).1 with
  | error fault =>
    rw [hresult] at hok
    cases hok
  | ok result =>
    exact @wholeWords_run .ascii .plain _ _ _ hbuild _ (by decide +kernel) result hresult _ _
      ⟨by decide +kernel, by decide +kernel, by decide +kernel⟩

/-- Three lines that share two broken words. -/
def tornFiles : List SourceFile :=
  [plainFile "a.xml" [("p", 0, [("a", "le mot com-", .part1), ("b", "mence et ter-", .part1),
    ("c", "mine ici", .none)])]]

/-- A producer whose answer for the last line stands on nothing. -/
def tornPipeline : CorrectionPipeline :=
  .plain (.answering [("a", "le mat com-"), ("b", "mence et tes-"), ("c", "xyzzq ici")]) .default

/-- **The first word's second half falls with the second word, after the
first half was accepted.** -/
theorem tornFiles_torn :
    buildDocumentManifest .default tornFiles = .ok (builtDocument .default tornFiles) ∧
    (@run .ascii .plain tornPipeline (builtDocument .default tornFiles)).1.isOk = true ∧
    ¬ ∀ tail head, Continues (builtDocument .default tornFiles)
        (@run .ascii .plain tornPipeline (builtDocument .default tornFiles)).2.heap tail head →
      (((@run .ascii .plain tornPipeline
          (builtDocument .default tornFiles)).2.heap tail).status = .fallback ↔
        ((@run .ascii .plain tornPipeline
          (builtDocument .default tornFiles)).2.heap head).status = .fallback) := by
  refine ⟨by decide +kernel, by decide +kernel, fun h => ?_⟩
  have hfell := h ⟨"p".toList, "a".toList⟩ ⟨"p".toList, "b".toList⟩
    ⟨by decide +kernel, by decide +kernel, by decide +kernel⟩
  exact absurd (hfell.mpr (by decide +kernel)) (by decide +kernel)

end Saknussemm
