import Saknussemm.Linking.Crossings

/-! # The life of a line's decision, in every run.

A built document comes with no line decided and no link across pages onto
a line without a role.  From there every run, however it ends, moves each
line forward only, and explains each line that fell by its first revert. -/

namespace Saknussemm

open Effects Sweep

/-! ## Documents nobody has visited -/

/-- What the parser leaves to the run. -/
def visit (lm : LineManifest) : Option Str × LineStatus := (lm.correctedText, lm.status)

section Built

variable {policy : PairingPolicy} {files : List SourceFile} {document : DocumentManifest}

theorem visit_linkPair (x y : LineManifest) :
    visit (linkPair policy x y).1 = visit x ∧ visit (linkPair policy x y).2 = visit y := by
  have hclaim : visit (claimCandidate x y) = visit y := by
    unfold claimCandidate
    split <;> rfl
  unfold linkPair
  split
  · unfold joinPair
    rw [← hclaim]
    split <;> exact ⟨rfl, rfl⟩
  · exact ⟨rfl, rfl⟩

theorem visit_sewStep (x y : SeamLine) :
    visit (sewStep policy x y).1.line = visit x.line ∧
      visit (sewStep policy x y).2.line = visit y.line := by
  rcases @sewStep_cases policy x y with ⟨h1, h2⟩ | ⟨h1, h2⟩
  · rw [h1, h2]
    exact ⟨rfl, rfl⟩
  · rw [h1, h2]
    exact visit_linkPair _ _

/-- A line of a linked page has not been visited. -/
theorem visit_linkPage {page : PageManifest} (h : page.Parsed) {lm : LineManifest}
    (hlm : lm ∈ (linkPage policy page).lines) : visit lm = (none, .pending) := by
  have hparsed : ∀ lm ∈ page.lines, visit lm = (none, .pending) := fun lm hlm => by
    rw [visit, (h.unvisited lm hlm).1, (h.unvisited lm hlm).2]
  rcases mem_linkPage hlm with hmem | hmem
  · exact hparsed lm hmem
  · rw [substantive_linkPage] at hmem
    cases hs : substantive page with
    | nil =>
      rw [hs] at hmem
      cases hmem
    | cons x xs =>
      rw [hs] at hmem
      have hmap := sweep_map (fun x y => (@visit_linkPair policy x y).1)
        (fun x y => (@visit_linkPair policy x y).2) x xs
      have hvisit : visit lm ∈ (x :: xs).map visit := hmap ▸ List.mem_map_of_mem hmem
      obtain ⟨w, hw, hwv⟩ := List.mem_map.mp hvisit
      rw [← hwv]
      exact hparsed w (List.mem_of_mem_filter (hs ▸ hw))

/-- **No line of a built document is decided.** -/
theorem visit_built (hbuild : buildDocumentManifest policy files = .ok document)
    {lm : LineManifest} (hlm : lm ∈ document.lines) : visit lm = (none, .pending) := by
  -- linking and sewing touch links and roles; text and status stay as the parser left them
  obtain ⟨hpresent, hpages⟩ := buildDocumentManifest_ok hbuild
  have hread := hpresent.readable
  let prepared := (qualifiedPages files).map (preparedPage policy)
  have hprepared : ∀ page ∈ prepared, ∀ lm ∈ page.lines, visit lm = (none, .pending) := by
    intro page hpage lm hlm
    obtain ⟨p, hp, rfl⟩ := List.mem_map.mp hpage
    obtain ⟨w, hw, rfl⟩ := List.mem_map.mp hlm
    show visit w = (none, .pending)
    exact visit_linkPage (hread p hp).1 hw
  obtain ⟨page, hpage, hin⟩ := List.mem_flatMap.mp hlm
  rw [hpages] at hpage
  by_cases hsub : lm.substantive = true
  · have hsewn : lm ∈ sewSeams policy (seamLines prepared) := by
      rw [← flatMap_substantive_linkCrossPageHyphens]
      exact List.mem_flatMap.mpr ⟨page, hpage, List.mem_filter.mpr ⟨hin, hsub⟩⟩
    have hmap : (sewSeams policy (seamLines prepared)).map visit =
        (seamLines prepared).map fun u => visit u.line := by
      cases seamLines prepared with
      | nil => rfl
      | cons x ys =>
        have h := @sweep_map _ _ (sewStep policy) (fun u => visit u.line)
          (fun x y => (@visit_sewStep policy x y).1) (fun x y => (@visit_sewStep policy x y).2) x ys
        simpa [sewSeams, Function.comp_def] using h
    have hvisit : visit lm ∈ (seamLines prepared).map fun u => visit u.line :=
      hmap ▸ List.mem_map_of_mem hsewn
    obtain ⟨u, hu, huv⟩ := List.mem_map.mp hvisit
    have hline : u.line ∈ prepared.flatMap substantive := by
      rw [← map_line_seamLines]
      exact List.mem_map_of_mem hu
    obtain ⟨q, hq, hmem⟩ := List.mem_flatMap.mp hline
    rw [← huv]
    exact hprepared q hq u.line (List.mem_filter.mp hmem).1
  · obtain ⟨q, hq, hmem⟩ := mem_of_mem_putBackPages substantive_sewSeams hpage hin
      (by simpa using hsub)
    exact hprepared q hq lm hmem

/-- A run of a built document starts undecided. -/
theorem phase_initialState (hbuild : buildDocumentManifest policy files = .ok document) :
    Phase document document.pages (initialState document) := by
  have hvisit : ∀ ref, visit (document.heap ref) = (none, .pending) := by
    intro ref
    rcases heap_cases document ref with hmem | hoff
    · exact visit_built hbuild hmem
    · rw [hoff]
      rfl
  have htext : ∀ ref, (document.heap ref).correctedText = none := fun ref =>
    congrArg Prod.fst (hvisit ref)
  have hstatus : ∀ ref, (document.heap ref).status = .pending := fun ref =>
    congrArg Prod.snd (hvisit ref)
  refine ⟨SameSource.refl _, ⟨⟨?_, ?_⟩, ?_, rfl, ?_⟩, fun page _ ref _ =>
    ⟨rfl, fun _ => hstatus ref⟩⟩
  · exact List.isChain_singleton _
  · intro heap hheap ref hfell
    obtain rfl : heap = document.heap := by simpa [history, initialState] using hheap
    rw [hstatus] at hfell
    cases hfell
  · intro ref
    have hline : (initialState document).heap ref = document.heap ref := rfl
    constructor <;> simp [hline, htext, hstatus]
  · intro ref hfell
    rw [show (initialState document).heap ref = document.heap ref from rfl, hstatus] at hfell
    cases hfell

end Built

/-! ## The run -/

section Run

variable [Unicode] [Digest]

/-- However a run over a built document ends, it is orderly. -/
theorem decided_run {policy : PairingPolicy} {files : List SourceFile} {document : DocumentManifest}
    (hbuild : buildDocumentManifest policy files = .ok document) (pipeline : CorrectionPipeline) :
    Sourced document (run pipeline document).2 ∧ Decided (run pipeline document).2 := by
  have hcorrect := @ends_correctDocument_phase document _ pipeline _ fun hdoor =>
    ⟨built_identified hbuild hdoor, built_crossingsRoled hbuild hdoor⟩
  have hfinalize : ∀ totals, Ends (Phase document []) (finalizeDocument pipeline document totals)
      (fun _ s => Sourced document s ∧ Decided s) fun _ s => Sourced document s ∧ Decided s := by
    intro totals s hs
    have hpasses : Sourced document (finalizePasses pipeline document s).2 ∧
        Decided (finalizePasses pipeline document s).2 :=
      ⟨((hs.sourced.trans (sameSource_globalAdjacencyPass _ _ _)).trans
        (sameSource_preserveBreakChars _ _)).trans (sameSource_lossPolicyPass _ _ _),
        hs.decided.finalizePasses⟩
    unfold finalizeDocument
    rw [Prog.exec_bind_ok (Prog.exec_get s)]
    rcases hend : finalizePasses pipeline document s with ⟨sidecar, s'⟩
    rw [hend] at hpasses
    dsimp only at hpasses ⊢
    have hset : Prog.exec (set s' : RunM PUnit) s = (.ok ⟨⟩, s') := rfl
    rw [Prog.exec_bind_ok hset]
    cases deriveDecisionSet document s' <;> exact hpasses
  have hrun : Ends (Phase document document.pages) (runPipeline pipeline document)
      (fun _ s => Sourced document s ∧ Decided s) fun _ s => Sourced document s ∧ Decided s :=
    (hcorrect.mono (fun _ h => h) (fun _ _ h => h) fun _ _ h =>
      ⟨h.sourced, h.decided⟩).bind hfinalize
  exact hrun.state (phase_initialState hbuild)

/-- **Forward only**: in every run a line's status moves from undecided to
corrected to fallen and never back, a fallen line stands on its source
text at every point, and the decision of a line names the reason of its
first revert exactly when it fell. -/
theorem orderly_run (policy : PairingPolicy) (files : List SourceFile) (document : DocumentManifest)
    (hbuild : buildDocumentManifest policy files = .ok document) (pipeline : CorrectionPipeline) :
    Orderly (run pipeline document).2 ∧
      ∀ result, (run pipeline document).1 = .ok result → ∀ decision ∈ result.decisions,
        (decision.fallbackReason.isSome ↔ decision.status = .fallback) ∧
        (decision.status = .fallback → decision.fallbackReason =
          firstReason (run pipeline document).2.trail decision.ref) := by
  obtain ⟨hsourced, hdecided⟩ := decided_run hbuild pipeline
  refine ⟨hdecided.orderly, fun result hresult decision hdecision => ?_⟩
  -- a decision is read off the last state, so the orderly trail explains its reason
  obtain ⟨totals, s, -, hstate, -, hdecisions⟩ := run_eq_ok hresult
  rw [hdecisions, ← hstate] at hdecision
  obtain ⟨ref, -, rfl⟩ := List.mem_map.mp hdecision
  generalize (run pipeline document).2 = s' at hsourced hdecided
  have href : lineRef (s'.heap ref) = ref := hsourced.addressed ref
  dsimp only [decisionOf]
  rw [href]
  constructor
  · constructor
    · intro hreason
      by_contra hstands
      rw [if_neg hstands] at hreason
      cases hreason
    · intro hfell
      rw [if_pos hfell]
      exact hdecided.explained ref hfell
  · intro hfell
    rw [if_pos hfell, hdecided.reasons]

end Run

/-- A broken word, and a line with a letter misread. -/
def fallenFiles : List SourceFile :=
  [plainFile "a.xml" [("p", 0, [("a", "le mot com-", .part1), ("b", "mence ici", .none),
    ("c", "la fim", .none)])]]

/-- An engine that invents the second half of the word and mends the line
after it. -/
def fallingPipeline : CorrectionPipeline :=
  .plain (.answering [("a", "le mat com-"), ("b", "xyzzq ici"), ("c", "la fin")]) .default

/-- The run in which both halves of the word fall and the last line stands. -/
theorem orderly_fallenFiles :
    ((@run .ascii .plain fallingPipeline (builtDocument .default fallenFiles)).2.heap
      ⟨"p".toList, "a".toList⟩).status = .fallback ∧
    Orderly (@run .ascii .plain fallingPipeline (builtDocument .default fallenFiles)).2 ∧
      ∀ result, (@run .ascii .plain fallingPipeline (builtDocument .default fallenFiles)).1 =
        .ok result → ∀ decision ∈ result.decisions,
        (decision.fallbackReason.isSome ↔ decision.status = .fallback) ∧
        (decision.status = .fallback → decision.fallbackReason =
          firstReason (@run .ascii .plain fallingPipeline
            (builtDocument .default fallenFiles)).2.trail decision.ref) := by
  have hbuild : buildDocumentManifest .default fallenFiles =
      .ok (builtDocument .default fallenFiles) := by decide +kernel
  exact ⟨by decide +kernel, @orderly_run .ascii .plain _ _ _ hbuild _⟩

end Saknussemm
