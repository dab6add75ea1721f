import Saknussemm.Run.Delivered
import Saknussemm.Run.Lifecycle

/-! # What a run reports.

The report says of every line what was decided, why a line fell, and how
its file carries the decision; its counters are read off the same decisions
and traces, so they can be folded back out of its lines. -/

namespace Saknussemm

open Effects

/-! ## The reasons as text -/

/-- The engine's own messages that a reason quotes: of the last attempt, and
of an absorbed error once it is sanitised. -/
structure Wording where
  lastMessage : AttemptFailure → Str
  sanitizeError : Str → Str

/-- The value of a reconciliation outcome. -/
def ReconcileOutcome.value : ReconcileOutcome → Str
  | .coherent => "coherent".toList
  | .fallback => "fallback".toList
  | .neutralised => "neutralised".toList

/-- The reason of a refused line. -/
def LineRejection.value : LineRejection → Str
  | .tooDifferentFromSource => "too_different_from_source".toList
  | .closerToPreviousLine => "closer_to_previous_line".toList
  | .closerToNextLine => "closer_to_next_line".toList
  | .absorbsNextLine => "absorbs_next_line".toList
  | .absorbsPreviousLine => "absorbs_previous_line".toList

/-- The reason of a line refused across a seam. -/
def SeamRejection.value : SeamRejection → Str
  | .adjacentDuplicateDetected => "adjacent_duplicate_detected".toList
  | .boundaryMigrationForward => "boundary_migration_forward".toList
  | .boundaryMigrationBackward => "boundary_migration_backward".toList

/-- The reason a pass stamps on the members it pulls down. -/
def RevertPass.atomicityReason : RevertPass → Str
  | .adjacentDuplicate => "adjacent_duplicate_pair_atomicity".toList
  | .formatLoss => "format_loss_pair_atomicity".toList
  | .tokenRealign => "token_realign_pair_atomicity".toList

/-- A nonnegative number to two decimals, halves to even. -/
def twoDecimals (q : ℚ) : Str :=
  let scaled := 100 * q
  let below := scaled.floor.toNat
  let rest := scaled - below
  let hundredths := if rest < 1 / 2 ∨ rest = 1 / 2 ∧ below % 2 = 0 then below else below + 1
  (Nat.repr (hundredths / 100)).toList ++ ".".toList ++
    (Nat.repr (hundredths % 100 / 10)).toList ++ (Nat.repr (hundredths % 10)).toList

/-- What a reason says before its first colon. -/
def FallbackReason.code : FallbackReason → Str
  | .hyphenPair outcome => "hyphen_pair_".toList ++ outcome.value
  | .orphanHyphenCompleted => "orphan_hyphen_completed".toList
  | .hyphenPartnerFellBack => "hyphen_partner_fell_back".toList
  | .line rejection => rejection.value
  | .seam rejection => rejection.value
  | .formatLoss _ _ => "format_loss".toList
  | .suspectedReorder => "token_realign".toList
  | .alignmentScore _ _ => "token_realign".toList
  | .pairAtomicity pass => pass.atomicityReason
  | .allAttemptsExhausted _ => "all_attempts_exhausted".toList
  | .hyphenUnitFallback => "hyphen_unit_fallback".toList
  | .chunkErrorAbsorbed _ => "chunk_error_absorbed".toList

/-- What a reason says after it. -/
def FallbackReason.detail (wording : Wording) : FallbackReason → Option Str
  | .formatLoss correctedWords markupWords => some <|
      "corrected word count ".toList ++ (Nat.repr correctedWords).toList ++
        " != source Word markup ".toList ++ (Nat.repr markupWords).toList ++
          " — unprojectable without dropping word geometry (LossPolicy strict)".toList
  | .suspectedReorder => some "suspected word reorder — correction preserved in sidecar".toList
  | .alignmentScore score threshold => some <|
      "alignment score ".toList ++ twoDecimals score ++ " < ".toList ++ twoDecimals threshold ++
        " — correction preserved in sidecar".toList
  | .allAttemptsExhausted failure => some <|
      ((failure.map wording.lastMessage).getD "all_attempts_exhausted".toList).take 120
  | .chunkErrorAbsorbed message => some ((wording.sanitizeError message).take 120)
  | _ => none

/-- The reason on a fallen line's trace. -/
def FallbackReason.text (wording : Wording) (reason : FallbackReason) : Str :=
  match reason.detail wording with
  | none => reason.code
  | some detail => reason.code ++ ": ".toList ++ detail

/-! ## Counting the fallen lines -/

/-- The text before the first colon. -/
def beforeColon (raw : Str) : Str := raw.takeWhile (· ≠ ':')

/-- The text after the first colon. -/
def afterColon (raw : Str) : Str := (raw.dropWhile (· ≠ ':')).drop 1

/-- What a fallen line is counted under. -/
def reasonPrefix (raw : Option Str) : Str :=
  strip (beforeColon (if truthy raw then raw.getD [] else "unspecified".toList))

/-- Lines whose terminal status is fallback. -/
def fallbackLines (decisions : List LineDecision) : Nat :=
  decisions.countP fun decision => decision.status = .fallback

/-- One more decision, if it fell. -/
def countFallback (wording : Wording) (counts : Dict Str Nat)
    (decision : LineDecision) : Dict Str Nat :=
  if decision.status = .fallback then
    counts.add (reasonPrefix (decision.fallbackReason.map (·.text wording))) 1
  else counts

/-- Fallen lines aggregated by the prefix of their reason. -/
def fallbackReasonCounts (wording : Wording) (decisions : List LineDecision) : Dict Str Nat :=
  decisions.foldl (countFallback wording) []

/-! ## The lines of the report -/

/-- A reason, split for the report. -/
structure DecisionReason where
  code : Str
  detail : Option Str
  deriving DecidableEq

/-- Split a reason at its first colon. -/
def structuredReason (raw : Option Str) : Option DecisionReason :=
  if truthy raw then
    let detail := strip (afterColon (raw.getD []))
    some ⟨strip (beforeColon (raw.getD [])), if detail = [] then none else some detail⟩
  else none

/-- One line's journey through a run. -/
structure LineOutcome where
  lineId : Str
  pageId : Str
  hyphenRole : Option HyphenRole
  sourceText : Str
  status : LineStatus
  finalText : Str
  reason : Option DecisionReason
  projection : Option LineProjection

/-- The line an outcome is about. -/
def LineOutcome.ref (outcome : LineOutcome) : LineRef := ⟨outcome.pageId, outcome.lineId⟩

/-- A trace as the report shows it, once its line's file was rewritten. -/
def projectionStage (trace : LineProjection) : Option LineProjection :=
  if trace.extractedText.isSome ∨ trace.rewriterPath.isSome then some trace else none

/-- The outcome of one decision. -/
def lineOutcome (wording : Wording) (indexed : Heap) (traces : Dict LineRef LineProjection)
    (decision : LineDecision) : LineOutcome where
  lineId := decision.ref.lineId
  pageId := decision.ref.pageId
  hyphenRole := (traces.get? decision.ref).map fun _ => (indexed decision.ref).hyphenRole
  sourceText := decision.sourceText
  status := decision.status
  finalText := decision.finalText
  reason := structuredReason (decision.fallbackReason.map (·.text wording))
  projection := (traces.get? decision.ref).bind projectionStage

/-- The lines of the report, in the order of the decisions. -/
def buildLineOutcomes (wording : Wording) (indexed : Heap) (decisions : List LineDecision)
    (traces : Dict LineRef LineProjection) : List LineOutcome :=
  decisions.map (lineOutcome wording indexed traces)

/-! ## The report -/

/-- Lines that announce a break with no partner this run can see. -/
def unpairedBreakRefs (pages : List PageManifest) : List LineRef :=
  let lines := pages.flatMap PageManifest.lines
  let missing (partner : Option LineRef) : Bool := partner.all fun ref => ref ∉ lines.map lineRef
  (lines.filter fun lm =>
    (lm.hyphenRole = .part1 ∨ lm.hyphenRole = .both) ∧ missing (forwardPartnerRef lm) ∨
      (lm.hyphenRole = .part2 ∨ lm.hyphenRole = .both) ∧
        missing (backwardPartnerRef lm)).map lineRef

/-- A list the report leaves out when it is empty. -/
def orNone {α : Type} (l : List α) : Option (List α) := if l = [] then none else some l

/-- The value of an operation's kind. -/
def OpKind.value : OpKind → Str
  | .replaceLine => "replace_line".toList
  | .replaceSpan => "replace_span".toList

/-- The code of an edit guard's refusal. -/
def EditReason.value : EditReason → Str
  | .unknownLine => "e1_unknown_line".toList
  | .contextLine => "e1_context_line".toList
  | .conflict => "conflict".toList
  | .empty => "e3_empty".toList
  | .newline => "e3_newline".toList
  | .overlap => "e2_overlap".toList
  | .driftRatio => "e4_span_growth".toList
  | .driftBudget => "e4_line_budget".toList
  | .hyphen => "e5_hyphen".toList
  | .boundaryWord => "e5_boundary_word".toList
  | .anchorNotFound => "anchor_not_found".toList
  | .anchorAmbiguous => "anchor_ambiguous".toList
  | .anchorRange => "anchor_out_of_range".toList
  | .anchorEmpty => "anchor_empty_match".toList
  | .precondition => "precondition_source_digest".toList

/-- What refused edits are sorted by. -/
def RefusedEdit.sortKey (edit : RefusedEdit) : List Str :=
  [edit.pageId, edit.lineId, edit.op.value, edit.reason.value]

/-- What a run says about what it did. -/
structure CorrectionReport where
  totalLines : Nat
  lines : List LineOutcome
  formatLosses : Option (Dict Str Nat)
  undeliverableFiles : Dict Str ProjectionFailure
  projectionFidelity : Option (Dict Str Nat)
  unpairedBreaks : Option Nat
  hyphenSplits : Option (List HyphenSplit)
  editRejections : Option (List RefusedEdit)
  sidecar : Option (List SidecarEntry)

/-- The report of a run: its decisions, the state it left and the files it
rendered. -/
def buildCorrectionReport {β : Type} (wording : Wording) (document : DocumentManifest)
    (s : RunState) (result : CorrectionResult) (render : RenderState β) : CorrectionReport where
  totalLines := result.decisions.length
  lines := buildLineOutcomes wording document.heap result.decisions render.traces
  formatLosses := orNone render.losses
  undeliverableFiles := render.undeliverable
  projectionFidelity := orNone (fidelityCounts render.traces)
  unpairedBreaks :=
    let unpaired := (unpairedBreakRefs (decidedPages document s.heap)).length
    if unpaired = 0 then none else some unpaired
  hyphenSplits := orNone s.hyphenSplits
  editRejections := orNone (s.editRejections.mergeSort fun a b => !decide (b.sortKey < a.sortKey))
  sidecar := orNone result.sidecar

/-! ## The source files at the door -/

/-- Every file the manifest was parsed from must be renderable, or none. -/
def requireEverySource (document : DocumentManifest)
    (sourceFiles : Dict Str Str) : Except Fault Unit :=
  if sourceFiles = [] then .ok ()
  else if (∀ name ∈ document.sourceFiles, name ∈ Dict.keys sourceFiles) ∧
      ∀ name ∈ Dict.keys sourceFiles, name ∈ document.sourceFiles then .ok ()
  else .error (.domain "`source_files` does not describe the same document as the manifest".toList)

/-- Each path must still hold the bytes its pages were parsed from: of the
files with a stamped digest, in the order of their names. -/
def requireTheSameBytes (sourceDigests : Dict Str Str) (readDigest : Str → Option Str)
    (sourceFiles : Dict Str Str) : Except Fault Unit := do
  let checked := sourceFiles.filter fun source => source.1 ∈ Dict.keys sourceDigests
  if checked.any fun source => (readDigest source.2).isNone then
    .error (.domain "cannot read source file".toList)
  else if checked.any fun source => readDigest source.2 ≠ sourceDigests.get? source.1 then
    .error (.domain "no longer hold the bytes they were parsed from".toList)
  else .ok ()

variable [Unicode] [Digest] in
/-- A run over files: what is refused before it starts, the run, the files
it renders and what it reports. -/
def runAndReport {β : Type} (pipeline : CorrectionPipeline) (adapter : FormatAdapter β)
    (observer : List RewriterStats → RewriterStats → Option Fault) (wording : Wording)
    (sourceDigests : Dict Str Str) (readDigest : Str → Option Str) (document : DocumentManifest)
    (sourceFiles : Dict Str Str) :
    Except Fault (CorrectionResult × RenderState β × CorrectionReport) := do
  requireEverySource document sourceFiles
  requireTheSameBytes sourceDigests readDigest sourceFiles
  let (result, render) ← runAndRender pipeline adapter observer document sourceFiles
  return (result, render,
    buildCorrectionReport wording document (run pipeline document).2 result render)

/-! ## A reason and its code -/

/-- Every code a fallen line may be counted under. -/
def FallbackReason.codes : List Str :=
  [ReconcileOutcome.coherent, .fallback, .neutralised].map ("hyphen_pair_".toList ++ ·.value) ++
    ["orphan_hyphen_completed".toList, "hyphen_partner_fell_back".toList] ++
    [LineRejection.tooDifferentFromSource, .closerToPreviousLine, .closerToNextLine,
      .absorbsNextLine, .absorbsPreviousLine].map LineRejection.value ++
    [SeamRejection.adjacentDuplicateDetected, .boundaryMigrationForward,
      .boundaryMigrationBackward].map SeamRejection.value ++
    ["format_loss".toList, "token_realign".toList] ++
    [RevertPass.adjacentDuplicate, .formatLoss, .tokenRealign].map RevertPass.atomicityReason ++
    ["all_attempts_exhausted".toList, "hyphen_unit_fallback".toList, "chunk_error_absorbed".toList]

/-- Every reason has a code on the list. -/
theorem code_mem_codes (reason : FallbackReason) : reason.code ∈ FallbackReason.codes := by
  cases reason with
  | hyphenPair outcome => cases outcome <;> decide
  | line rejection => cases rejection <;> decide
  | seam rejection => cases rejection <;> decide
  | pairAtomicity pass => cases pass <;> decide
  | orphanHyphenCompleted => decide
  | hyphenPartnerFellBack => decide
  | formatLoss _ _ => exact (by decide : "format_loss".toList ∈ FallbackReason.codes)
  | suspectedReorder => decide
  | alignmentScore _ _ => exact (by decide : "token_realign".toList ∈ FallbackReason.codes)
  | allAttemptsExhausted _ =>
    exact (by decide : "all_attempts_exhausted".toList ∈ FallbackReason.codes)
  | hyphenUnitFallback => decide
  | chunkErrorAbsorbed _ => exact (by decide : "chunk_error_absorbed".toList ∈ FallbackReason.codes)

/-- Each code is one bare word. -/
theorem bare_of_mem_codes : ∀ code ∈ FallbackReason.codes,
    code ≠ [] ∧ ':' ∉ code ∧ strip code = code := by decide +kernel

theorem text_eq_append (wording : Wording) (reason : FallbackReason) :
    reason.text wording = reason.code ∨
      ∃ rest, reason.text wording = reason.code ++ ':' :: rest := by
  unfold FallbackReason.text
  split
  · exact .inl rfl
  · next detail _ =>
    refine .inr ⟨' ' :: detail, ?_⟩
    rw [List.append_assoc]
    rfl

/-- **A reason's text is its code up to the first colon.** -/
theorem beforeColon_text (wording : Wording) (reason : FallbackReason) :
    beforeColon (reason.text wording) = reason.code := by
  obtain ⟨-, hcolon, -⟩ := bare_of_mem_codes _ (code_mem_codes reason)
  have hcode : ∀ c ∈ reason.code, decide (c ≠ ':') = true := by
    intro c hc
    exact decide_eq_true fun heq => hcolon (heq ▸ hc)
  rcases text_eq_append wording reason with htext | ⟨rest, htext⟩
  · rw [htext, beforeColon]
    exact List.takeWhile_eq_self_iff.mpr hcode
  · rw [htext, beforeColon, List.takeWhile_append_of_pos hcode]
    simp

theorem truthy_text (wording : Wording) (reason : FallbackReason) :
    truthy (some (reason.text wording)) = true := by
  obtain ⟨hne, -, -⟩ := bare_of_mem_codes _ (code_mem_codes reason)
  obtain ⟨c, cs, hcode⟩ := List.exists_cons_of_ne_nil hne
  rcases text_eq_append wording reason with htext | ⟨rest, htext⟩ <;> rw [htext, hcode] <;> rfl

theorem reasonPrefix_text (wording : Wording) (reason : FallbackReason) :
    reasonPrefix (some (reason.text wording)) = reason.code := by
  rw [reasonPrefix, if_pos (truthy_text wording reason), Option.getD_some, beforeColon_text]
  exact (bare_of_mem_codes _ (code_mem_codes reason)).2.2

theorem code_structuredReason (wording : Wording) (reason : Option FallbackReason) :
    (structuredReason (reason.map (·.text wording))).map DecisionReason.code =
      reason.map FallbackReason.code := by
  cases reason with
  | none => rfl
  | some reason =>
    rw [Option.map_some, structuredReason, if_pos (truthy_text wording reason), Option.map_some,
      Option.map_some, Option.getD_some, beforeColon_text]
    exact congrArg some (bare_of_mem_codes _ (code_mem_codes reason)).2.2

/-! ## Counters and lines -/

/-- The counts are of the prefixes of the fallen lines. -/
theorem fallbackReasonCounts_eq (wording : Wording) (decisions : List LineDecision) :
    fallbackReasonCounts wording decisions =
      Dict.counts ((decisions.filter fun decision => decision.status = .fallback).map
        fun decision => reasonPrefix (decision.fallbackReason.map (·.text wording))) := by
  have hfold : ∀ counts : Dict Str Nat, decisions.foldl (countFallback wording) counts =
      ((decisions.filter fun decision => decision.status = .fallback).map
        fun decision => reasonPrefix (decision.fallbackReason.map (·.text wording))).foldl
          (fun d k => d.add k 1) counts := by
    induction decisions with
    | nil => exact fun _ => rfl
    | cons decision decisions ih =>
      intro counts
      rw [List.foldl_cons, ih, countFallback, List.filter_cons]
      by_cases hfell : decision.status = .fallback
      · rw [if_pos hfell, if_pos (decide_eq_true hfell)]
        rfl
      · rw [if_neg hfell, if_neg (by simpa using hfell)]
  exact hfold []

/-- Decisions that name a reason exactly where they fell. -/
def Reasoned (decisions : List LineDecision) : Prop :=
  ∀ decision ∈ decisions, decision.fallbackReason.isSome ↔ decision.status = .fallback

section Counters

variable {wording : Wording} {decisions : List LineDecision}

/-- **The counters are folded back out of the lines**: a code counts the
outcomes that name it. -/
theorem tally_fallbackReasonCounts (h : Reasoned decisions) (indexed : Heap)
    (traces : Dict LineRef LineProjection) (code : Str) :
    (fallbackReasonCounts wording decisions).tally code =
      (buildLineOutcomes wording indexed decisions traces).countP
        fun outcome => outcome.reason.map DecisionReason.code = some code := by
  rw [fallbackReasonCounts_eq, Dict.tally_counts, List.countP_map, List.countP_filter,
    buildLineOutcomes, List.countP_map]
  refine List.countP_congr fun decision hdecision => ?_
  have hcode : (lineOutcome wording indexed traces decision).reason.map DecisionReason.code =
      decision.fallbackReason.map FallbackReason.code := code_structuredReason wording _
  simp only [Function.comp_apply, hcode, Bool.and_eq_true, decide_eq_true_eq]
  rw [← h decision hdecision]
  cases hreason : decision.fallbackReason with
  | none => simp
  | some reason => simp [reasonPrefix_text, eq_comm]

/-- Every fallen line is counted once. -/
theorem total_fallbackReasonCounts :
    (fallbackReasonCounts wording decisions).total = fallbackLines decisions := by
  rw [fallbackReasonCounts_eq, Dict.total_counts, List.length_map, fallbackLines,
    List.countP_eq_length_filter]

theorem keys_fallbackReasonCounts (h : Reasoned decisions) {code : Str}
    (hcode : code ∈ Dict.keys (fallbackReasonCounts wording decisions)) :
    code ∈ FallbackReason.codes := by
  rw [fallbackReasonCounts_eq, Dict.mem_keys_counts] at hcode
  obtain ⟨decision, hdecision, rfl⟩ := List.mem_map.mp hcode
  obtain ⟨hmem, hfell⟩ := List.mem_filter.mp hdecision
  obtain ⟨reason, hreason⟩ :=
    Option.isSome_iff_exists.mp ((h decision hmem).mpr (of_decide_eq_true hfell))
  rw [hreason, Option.map_some, reasonPrefix_text]
  exact code_mem_codes reason

end Counters

/-! ## The files of a built document -/

/-- Every page of a built document names a file it was parsed from. -/
theorem sourceFile_mem_sourceFiles {policy : PairingPolicy} {files : List SourceFile}
    {document : DocumentManifest} (hbuild : buildDocumentManifest policy files = .ok document)
    {page : PageManifest} (hpage : page ∈ document.pages) :
    page.sourceFile ∈ document.sourceFiles := by
  have hnames : document.sourceFiles = files.map SourceFile.name := by
    obtain ⟨parsed, -, h⟩ := Fallible.bind_eq_ok.mp hbuild
    cases h
    rfl
  have hkeep : List.Forall₂ (PagesRel fun x y => lineRef y = lineRef x)
      ((qualifiedPages files).map (preparedPage policy)) document.pages :=
    (buildDocumentManifest_ok hbuild).2 ▸ forall₂_linkCrossPageHyphens
  obtain ⟨before, hbefore, -, hsource, -⟩ := Pointwise.exists_of_mem_right hkeep hpage
  obtain ⟨qualified, hqualified, rfl⟩ := List.mem_map.mp hbefore
  obtain ⟨file, hfile, hin⟩ := List.mem_flatMap.mp hqualified
  obtain ⟨parsed, hparsed, rfl⟩ := List.mem_map.mp hin
  rw [hnames, hsource]
  exact List.mem_map.mpr ⟨file, hfile, (file.source parsed hparsed).symm⟩

/-! ## The report of a run -/

/-- **The report says what the run did.**  It has one outcome for each line,
in document order, settled and with a reason exactly where the line fell;
the fallback counters are those of its reasons; a line is projected exactly
where its file was handed over; and where files were rendered at all, the
lines counted as faithful and the lines of the refused files are all the
lines there are. -/
structure Reports {β : Type} (wording : Wording) (document : DocumentManifest) (s : RunState)
    (result : CorrectionResult) (sourceFiles : Dict Str Str) (render : RenderState β)
    (report : CorrectionReport) : Prop where
  listed : report.lines.map LineOutcome.ref = document.refs
  totalLines : report.totalLines = report.lines.length
  settled : ∀ outcome ∈ report.lines, outcome.sourceText = (document.heap outcome.ref).ocrText ∧
    (outcome.status = .corrected ∨ outcome.status = .fallback ∧ outcome.finalText =
      outcome.sourceText)
  explained : ∀ outcome ∈ report.lines, outcome.reason.isSome ↔ outcome.status = .fallback
  reasons : ∀ code, (fallbackReasonCounts wording result.decisions).tally code =
    report.lines.countP fun outcome => outcome.reason.map DecisionReason.code = some code
  vocabulary : ∀ code ∈ Dict.keys (fallbackReasonCounts wording result.decisions),
    code ∈ FallbackReason.codes
  fallen : (fallbackReasonCounts wording result.decisions).total = fallbackLines result.decisions ∧
    fallbackLines result.decisions = report.lines.countP fun outcome => outcome.status = .fallback
  projected : ∀ page ∈ document.pages, ∀ outcome ∈ report.lines, outcome.ref ∈ page.refs →
    (outcome.projection.isSome ↔ (render.correctedFiles.get? page.sourceFile).isSome)
  accounted : sourceFiles ≠ [] → (report.projectionFidelity.getD []).total +
    ((document.pages.filter fun page =>
      (report.undeliverableFiles.get? page.sourceFile).isSome).flatMap
      PageManifest.refs).length = report.totalLines
  refused : (report.editRejections.getD []).Perm s.editRejections

theorem requireEverySource_ok {document : DocumentManifest} {sourceFiles : Dict Str Str}
    (h : requireEverySource document sourceFiles = .ok ()) (hne : sourceFiles ≠ []) {name : Str}
    (hname : name ∈ document.sourceFiles) : name ∈ Dict.keys sourceFiles := by
  unfold requireEverySource at h
  rw [if_neg hne] at h
  split at h
  · next hboth => exact hboth.1 name hname
  · cases h

theorem getD_orNone {α : Type} (l : List α) : (orNone l).getD [] = l := by
  unfold orNone
  split
  · next hnil => rw [hnil, Option.getD_none]
  · rfl

theorem isSome_structuredReason (wording : Wording) (reason : Option FallbackReason) :
    (structuredReason (reason.map (·.text wording))).isSome = reason.isSome := by
  have hcode := congrArg Option.isSome (code_structuredReason wording reason)
  rwa [Option.isSome_map, Option.isSome_map] at hcode

section Files

variable {β : Type} {adapter : FormatAdapter β} {pages : List PageManifest}
  {decisions : Dict LineRef LineDecision} {sourceFiles : Dict Str Str} {render : RenderState β}

/-- A line is projected where its file was handed over. -/
theorem HandsOver.projected (h : HandsOver adapter pages decisions sourceFiles render)
    {page : PageManifest} (hpage : page ∈ pages) {lm : LineManifest} (hlm : lm ∈ page.lines) :
    ((render.traces.get? (lineRef lm)).bind projectionStage).isSome ↔
      (render.correctedFiles.get? page.sourceFile).isSome := by
  cases hfile : render.correctedFiles.get? page.sourceFile with
  | none =>
    rw [h.unmarked page hpage hfile lm hlm]
    simp [projectionStage, LineProjection.blank]
  | some bytes =>
    obtain ⟨path, rewritten, -, -, -, hlines⟩ := h.faithful _ bytes hfile
    obtain ⟨level, ⟨decision, text, -, htext, -⟩, htrace⟩ :=
      hlines lm (mem_linesOfFile.mpr ⟨page, hpage, rfl, hlm⟩)
    rw [htrace]
    simp [projectionStage, htext]

/-- **No line is lost between the files**: each is counted as faithful or
belongs to a file that was refused. -/
theorem HandsOver.accounted (h : HandsOver adapter pages decisions sourceFiles render)
    (hfiles : ∀ page ∈ pages, page.sourceFile ∈ Dict.keys sourceFiles) :
    (fidelityCounts render.traces).total +
      ((pages.filter fun page => (render.undeliverable.get? page.sourceFile).isSome).flatMap
        PageManifest.lines).length = (pages.flatMap PageManifest.lines).length := by
  have hother : ∀ page ∈ pages, (render.undeliverable.get? page.sourceFile).isSome =
      !(render.correctedFiles.get? page.sourceFile).isSome := by
    intro page hpage
    have hpresent : pagesOfFile pages page.sourceFile ≠ [] :=
      List.ne_nil_of_mem (List.mem_filter.mpr ⟨hpage, decide_eq_true rfl⟩)
    have heither := (h.either page.sourceFile).mpr ⟨hfiles page hpage, hpresent⟩
    have hnever := h.neverBoth page.sourceFile
    cases hhanded : render.correctedFiles.get? page.sourceFile with
    | none => simpa [hhanded] using heither
    | some bytes => simp [hnever (by rw [hhanded]; rfl)]
  rw [h.graded]
  clear h hfiles
  induction pages with
  | nil => rfl
  | cons page pages ih =>
    have hrest := ih fun p hp => hother p (List.mem_cons_of_mem _ hp)
    have hpage := hother page List.mem_cons_self
    rw [List.flatMap_cons, List.length_append, ← hrest, List.filter_cons, List.filter_cons, hpage]
    cases (render.correctedFiles.get? page.sourceFile).isSome
    · simp
      omega
    · simp
      omega

/-- The lines of some pages, before and after the run. -/
theorem length_lines_decidedPages (document : DocumentManifest) (heap : Heap) (kept : Str → Bool) :
    (((decidedPages document heap).filter fun page => kept page.sourceFile).flatMap
        PageManifest.lines).length =
      ((document.pages.filter fun page => kept page.sourceFile).flatMap
          PageManifest.refs).length := by
  unfold decidedPages
  induction document.pages with
  | nil => rfl
  | cons page pages ih =>
    rw [List.map_cons, List.filter_cons, List.filter_cons]
    show List.length (List.flatMap _ (if kept page.sourceFile = true then _ else _)) = _
    split
    · rw [List.flatMap_cons, List.flatMap_cons, List.length_append, List.length_append, ih]
      simp [currentPage, linesOf]
    · exact ih

end Files

section Run

variable [Unicode] [Digest] {β : Type}

/-- What a run that is reported has come through. -/
theorem runAndReport_eq_ok {pipeline : CorrectionPipeline} {adapter : FormatAdapter β}
    {observer : List RewriterStats → RewriterStats → Option Fault} {wording : Wording}
    {sourceDigests : Dict Str Str} {readDigest : Str → Option Str} {document : DocumentManifest}
    {sourceFiles : Dict Str Str} {result : CorrectionResult} {render : RenderState β}
    {report : CorrectionReport}
    (h : runAndReport pipeline adapter observer wording sourceDigests readDigest document
      sourceFiles = .ok (result, render, report)) :
    requireEverySource document sourceFiles = .ok () ∧
      (run pipeline document).1 = .ok result ∧
      runAndRender pipeline adapter observer document sourceFiles = .ok (result, render) ∧
      report = buildCorrectionReport wording document (run pipeline document).2 result render := by
  obtain ⟨⟨⟩, hevery, h⟩ := Fallible.bind_eq_ok.mp h
  obtain ⟨⟨⟩, -, h⟩ := Fallible.bind_eq_ok.mp h
  obtain ⟨⟨result', render'⟩, hrender, h⟩ := Fallible.bind_eq_ok.mp h
  cases h
  obtain ⟨result', hrun, hrest⟩ := Fallible.bind_eq_ok.mp hrender
  obtain ⟨render', -, hrest⟩ := Fallible.bind_eq_ok.mp hrest
  cases hrest
  exact ⟨hevery, hrun, hrender, rfl⟩

omit [Unicode] [Digest] in
/-- A line that is decided is corrected, or fell onto its source text. -/
theorem settled_decisionOf {s : RunState} (hdecided : Decided s) {ref : LineRef}
    (hpending : (s.heap ref).status ≠ .pending) : (decisionOf s ref).status = .corrected ∨
      (decisionOf s ref).status = .fallback ∧
        (decisionOf s ref).finalText = (decisionOf s ref).sourceText := by
  show (s.heap ref).status = .corrected ∨ (s.heap ref).status = .fallback ∧ _
  cases hstatus : (s.heap ref).status with
  | pending => exact absurd hstatus hpending
  | corrected => exact .inl rfl
  | fallback =>
    refine .inr ⟨rfl, ?_⟩
    show (s.heap ref).correctedText.getD _ = _
    rw [(hdecided.coherent ref).fallen hstatus, Option.getD_some]
    rfl
  | failed => exact absurd hstatus (hdecided.coherent ref).decided

omit [Unicode] [Digest] in
/-- Where every source was there, each line is graded or its file refused. -/
theorem HandsOver.accounted_lines {policy : PairingPolicy} {files : List SourceFile}
    {document : DocumentManifest} (hbuild : buildDocumentManifest policy files = .ok document)
    {adapter : FormatAdapter β} {heap : Heap} {decisions : Dict LineRef LineDecision}
    {sourceFiles : Dict Str Str} {render : RenderState β}
    (h : HandsOver adapter (decidedPages document heap) decisions sourceFiles render)
    (hevery : requireEverySource document sourceFiles = .ok ()) (hne : sourceFiles ≠ []) :
    (fidelityCounts render.traces).total +
      ((document.pages.filter fun page =>
        (render.undeliverable.get? page.sourceFile).isSome).flatMap
        PageManifest.refs).length = document.refs.length := by
  have hfiles : ∀ page ∈ decidedPages document heap, page.sourceFile ∈ Dict.keys sourceFiles := by
    intro page hpage
    obtain ⟨old, hold, rfl⟩ := List.mem_map.mp hpage
    have hsource : old.sourceFile ∈ Dict.keys sourceFiles :=
      requireEverySource_ok hevery hne (sourceFile_mem_sourceFiles hbuild hold)
    exact hsource
  have hall := length_lines_decidedPages document heap fun _ => true
  simp only [List.filter_true] at hall
  have hcount := h.accounted hfiles
  rwa [length_lines_decidedPages document heap fun name => (render.undeliverable.get? name).isSome,
    hall] at hcount

/-- **The report of a run says what the run did**, over every document its
parser can hand it and every rewriter. -/
theorem reports_run {policy : PairingPolicy} {files : List SourceFile} {document : DocumentManifest}
    (hbuild : buildDocumentManifest policy files = .ok document) (pipeline : CorrectionPipeline)
    (adapter : FormatAdapter β) (observer : List RewriterStats → RewriterStats → Option Fault)
    (wording : Wording) (sourceDigests : Dict Str Str) (readDigest : Str → Option Str)
    {sourceFiles : Dict Str Str} (hsources : (Dict.keys sourceFiles).Nodup)
    {result : CorrectionResult} {render : RenderState β} {report : CorrectionReport}
    (h : runAndReport pipeline adapter observer wording sourceDigests readDigest
      document sourceFiles = .ok (result, render, report)) :
    Reports wording document (run pipeline document).2 result sourceFiles render report := by
  obtain ⟨hevery, hrun, hrender, rfl⟩ := runAndReport_eq_ok h
  have hdoc := built_identified hbuild (door_of_run_ok hrun)
  obtain ⟨hsourced, hdecided⟩ := decided_run hbuild pipeline
  have hhands := (handsOver_run adapter observer hdoc.line_page hsources hrender).1
  have hreasoned : Reasoned result.decisions := fun decision hdecision =>
    ((orderly_run policy files document hbuild pipeline).2 result hrun decision hdecision).1
  obtain ⟨totals, s, -, hstate, hsettled, hdecisions⟩ := run_eq_ok hrun
  rw [← hstate] at hsettled hdecisions
  generalize (run pipeline document).2 = s' at *
  have hrefs : ∀ ref, (decisionOf s' ref).ref = ref := fun ref => hsourced.addressed ref
  -- an outcome is that of the decision of one line of the document
  have hmem : ∀ outcome ∈ (buildCorrectionReport wording document s' result render).lines,
      ∃ ref ∈ document.refs, outcome.ref = ref ∧
        outcome = lineOutcome wording document.heap render.traces (decisionOf s' ref) := by
    intro outcome hout
    obtain ⟨decision, hdecision, rfl⟩ := List.mem_map.mp hout
    rw [hdecisions] at hdecision
    obtain ⟨ref, href, rfl⟩ := List.mem_map.mp hdecision
    exact ⟨ref, href, hrefs ref, rfl⟩
  refine ⟨?listed, (List.length_map _).symm, ?settled, ?explained,
    tally_fallbackReasonCounts hreasoned _ _, fun _ => keys_fallbackReasonCounts hreasoned,
    ⟨total_fallbackReasonCounts, ?fallen⟩, ?projected, ?accounted, ?refused⟩
  case listed =>
    show (buildLineOutcomes _ _ _ _).map _ = _
    rw [buildLineOutcomes, hdecisions, List.map_map, List.map_map]
    exact (List.map_congr_left fun ref _ => hrefs ref).trans (List.map_id _)
  case settled =>
    intro outcome hout
    obtain ⟨ref, href, hown, rfl⟩ := hmem outcome hout
    have hocr := congrArg LineManifest.ocrText (hsourced ref)
    refine ⟨?_, settled_decisionOf hdecided (hsettled ref href)⟩
    rw [hown]
    exact hocr
  case explained =>
    intro outcome hout
    obtain ⟨decision, hdecision, rfl⟩ := List.mem_map.mp hout
    exact (iff_of_eq (congrArg (· = true) (isSome_structuredReason wording _))).trans
      (hreasoned decision hdecision)
  case fallen =>
    show _ = (buildLineOutcomes _ _ _ _).countP _
    rw [buildLineOutcomes, List.countP_map]
    rfl
  case projected =>
    intro page hpage outcome hout href
    obtain ⟨ref, -, hown, rfl⟩ := hmem outcome hout
    have hlm : s'.heap ref ∈ (currentPage s'.heap page).lines := List.mem_map_of_mem (hown ▸ href)
    exact hhands.projected (List.mem_map_of_mem hpage) hlm
  case accounted =>
    intro hne
    show Dict.total ((orNone _).getD []) + _ = result.decisions.length
    rw [getD_orNone, hdecisions, List.length_map]
    exact hhands.accounted_lines hbuild hevery hne
  case refused =>
    show ((orNone _).getD []).Perm _
    rw [getD_orNone]
    exact List.mergeSort_perm _ _

end Run

/-- The report on a file of three lines, two of which fell. -/
theorem reports_run_fallenFiles : ∃ result render report,
    @Reports Unit ⟨fun _ => [], id⟩ (builtDocument .default fallenFiles)
      (@run .ascii .plain fallingPipeline (builtDocument .default fallenFiles)).2
      result [("a.xml".toList, "/a.xml".toList)] render report ∧
    fallbackLines result.decisions = 2 := by
  have hfallen : (@runAndReport .ascii .plain Unit fallingPipeline .verbatim
      (fun _ _ => none) ⟨fun _ => [], id⟩ [] (fun _ => none) (builtDocument .default fallenFiles)
      [("a.xml".toList, "/a.xml".toList)]).toOption.map
        (fun ended => fallbackLines ended.1.decisions) = some 2 := by decide +kernel
  cases h : @runAndReport .ascii .plain Unit fallingPipeline .verbatim
      (fun _ _ => none) ⟨fun _ => [], id⟩ [] (fun _ => none) (builtDocument .default fallenFiles)
      [("a.xml".toList, "/a.xml".toList)] with
  | error fault =>
    rw [h] at hfallen
    cases hfallen
  | ok ended =>
    obtain ⟨result, render, report⟩ := ended
    have hbuild : buildDocumentManifest .default fallenFiles =
        .ok (builtDocument .default fallenFiles) := by decide +kernel
    rw [h] at hfallen
    exact ⟨result, render, report,
      @reports_run .ascii .plain Unit _ _ _ hbuild _ .verbatim _ _ _ _ _ (by decide) _ _ _ h,
      Option.some.inj hfallen⟩

end Saknussemm
