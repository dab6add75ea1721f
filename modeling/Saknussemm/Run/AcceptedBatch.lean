import Saknussemm.Replay
import Saknussemm.Library.Pointwise
import Saknussemm.Run.Attempt

/-! # What an accepted batch holds.

A producer's script becomes entries of three kinds: its whole lines, the
lines its spans give, and the source texts that fill up the rest when the
producer answers with changes only.  The batch that passes the validator
has one of them for each target. -/

namespace Saknussemm

/-! ## One entry at a time -/

/-- What the structural checks make of an entry. -/
structure Checks (expected : List Str) (ocrTexts : Dict Str Str) (entry output : LineProposal) :
    Prop where
  lineId : output.lineId = entry.lineId
  known : entry.lineId ∈ expected
  text : checkedText ocrTexts entry = .ok output.correctedText
  single : hasLineSeparator output.correctedText = false

/-- Validated entries pass their checks one by one, and no id comes twice. -/
theorem checkEntries_eq_ok {expected : List Str} {ocrTexts : Dict Str Str} {seen : List Str}
    {entries outputs : List LineProposal}
    (h : checkEntries expected ocrTexts seen entries = .ok outputs) :
    List.Forall₂ (Checks expected ocrTexts) entries outputs ∧
      (outputs.map LineProposal.lineId).Nodup ∧ ∀ output ∈ outputs, output.lineId ∉ seen := by
  -- induction on the entries; every check that fails ends the loop with an error
  induction entries generalizing seen outputs with
  | nil =>
    cases h
    exact ⟨.nil, List.nodup_nil, by simp⟩
  | cons entry rest ih =>
    rw [checkEntries] at h
    split at h
    · cases h
    · split at h
      · cases h
      · next hseen =>
        split at h
        · cases h
        · next hknown =>
          obtain ⟨text, htext, h⟩ := Fallible.bind_eq_ok.mp h
          split at h
          · cases h
          · next hline =>
            obtain ⟨outputs, hrest, h⟩ := Fallible.bind_eq_ok.mp h
            cases h
            obtain ⟨hforall, hnodup, hfresh⟩ := ih hrest
            refine ⟨.cons ⟨rfl, not_not.mp hknown, htext, by simpa using hline⟩ hforall, ?_, ?_⟩
            · rw [List.map_cons, List.nodup_cons]
              refine ⟨fun hmem => ?_, hnodup⟩
              obtain ⟨output, houtput, hid⟩ := List.mem_map.mp hmem
              exact hfresh output houtput (by rw [hid]; simp)
            · intro output houtput
              rcases List.mem_cons.mp houtput with rfl | houtput
              · exact hseen
              · exact fun hmem => hfresh output houtput (List.mem_cons_of_mem _ hmem)

/-- A text passes as it is, or blank over a blank source. -/
theorem checkedText_eq_ok {ocrTexts : Dict Str Str} {entry : LineProposal} {text : Str}
    (h : checkedText ocrTexts entry = .ok text) :
    (text = entry.correctedText ∧ strip text ≠ []) ∨
      (text = [] ∧ strip entry.correctedText = [] ∧
        ∃ source, ocrTexts.get? entry.lineId = some source ∧ strip source = []) := by
  unfold checkedText at h
  split at h
  · next hkept =>
    cases h
    exact .inl ⟨rfl, hkept⟩
  · next hblank =>
    split at h
    · next hsource =>
      cases h
      cases hread : ocrTexts.get? entry.lineId with
      | none => simp [hread] at hsource
      | some source => exact .inr ⟨rfl, not_not.mp hblank, source, rfl,
        by simpa [hread] using hsource⟩
    · cases h

/-! ## Where the texts come from -/

section Proposed

variable [Digest] {ops : List EditOp} {lines : List LineManifest} {fullCoverage : Bool}
  {config : GuardConfig} {targets : List Str}

/-- The texts a script proposes for a line: a whole line's, the one its own
spans give, or the source text when the producer answers with changes
only. -/
inductive ProposedText (ops : List EditOp) (lines : List LineManifest) (fullCoverage : Bool)
    (config : GuardConfig) (targets : List Str) (lineId : Str) : Str → Prop
  | wholeLine {text : Str} {pageId : Option Str} (h : .replaceLine lineId text pageId ∈ ops) :
    ProposedText ops lines fullCoverage config targets lineId text
  | spans {canonical text : Str} (target : lineId ∈ targets)
      (known : (canonicalTexts lines).get? lineId = some canonical)
      (h : (applyLineOps lineId (ops.filter fun op => op.lineId = lineId && op.isSpan) canonical
        (roleOf lines lineId) config).1 = some text) :
    ProposedText ops lines fullCoverage config targets lineId text
  | source {text : Str} (uncovered : fullCoverage = false)
      (h : (canonicalTexts lines).get? lineId = some text) :
    ProposedText ops lines fullCoverage config targets lineId text

/-- The script of a producer's spans, over the chunk's source texts. -/
def spanReplay (ops : List EditOp) (lines : List LineManifest) (config : GuardConfig)
    (targets : List Str) : Replay where
  script := .ofOps (ops.filter EditOp.isSpan)
  canonicalById := canonicalTexts lines
  chunkLineIds := some targets
  guard := config
  roleOf := roleOf lines
  pageId := none

/-- A replay gives each line one text. -/
theorem keys_textById_nodup {replay : Replay} {result : EditResult}
    (h : replay.result = .ok result) : (Dict.keys result.textById).Nodup := by
  unfold Replay.result applyEditScript at h
  split at h
  · cases h
  · cases h
    have hids : ∀ (ids : List Str) (f : Str → Option Str × List EditRejection), ids.Nodup →
        (Dict.keys ((ids.map fun id => (id, f id)).filterMap fun result =>
          result.2.1.map (result.1, ·))).Nodup := by
      intro ids f hnodup
      refine hnodup.sublist ?_
      clear hnodup
      induction ids with
      | nil => exact .slnil
      | cons id ids ih =>
        rw [List.map_cons, List.filterMap_cons]
        cases hf : (f id).1 with
        | none => simpa [hf] using ih.cons id
        | some text => simpa [hf, Dict.keys] using ih.cons_cons id
    simp only [opsByLine, List.map_map, Function.comp_def]
    exact hids _ _ (Dict.nodup_eraseDups _)

/-- **Every entry has a text the script proposes for its line.** -/
theorem proposedText_scriptToRaw {entry : LineProposal}
    (h : entry ∈ (scriptToRaw ops lines fullCoverage config targets).entries) :
    ProposedText ops lines fullCoverage config targets entry.lineId entry.correctedText := by
  -- the span operations carry no digest guard, so their replay always answers
  have hspeaks : (spanReplay ops lines config targets).Speaks := by
    simp [Replay.Speaks, spanReplay, EditScript.ofOps]
  obtain ⟨result, hresult⟩ := Replay.exists_result hspeaks
  have hraw : (applyEditScript (.ofOps (ops.filter EditOp.isSpan)) (canonicalTexts lines)
      (some targets) config (roleOf lines) none).toOption.getD ⟨[], []⟩ = result := by
    have : applyEditScript (.ofOps (ops.filter EditOp.isSpan)) (canonicalTexts lines)
      (some targets) config (roleOf lines) none = .ok result := hresult
    rw [this]
    rfl
  have hspans : ∀ entry ∈ result.textById.map fun e => LineProposal.mk e.1 e.2,
      ProposedText ops lines fullCoverage config targets entry.lineId entry.correctedText := by
    intro entry hentry
    obtain ⟨⟨id, text⟩, hmem, rfl⟩ := List.mem_map.mp hentry
    have hget := Dict.get?_of_mem (keys_textById_nodup hresult) hmem
    obtain ⟨htarget, canonical, hknown, -, htext⟩ := (Replay.get?_textById hresult).mp hget
    apply ProposedText.spans (htarget targets rfl) hknown
    rw [Replay.opsOn, show (spanReplay ops lines config targets).script.ops =
      ops.filter EditOp.isSpan from rfl, List.filter_filter] at htext
    simpa [spanReplay, inScope] using htext
  -- whole-line operations and replayed spans, whichever of the two filters picks the former
  have hproposed : ∀ (f : EditOp → Option LineProposal) (entry : LineProposal),
      entry ∈ ops.filterMap f ++ result.textById.map (fun e => LineProposal.mk e.1 e.2) →
      (∀ id text page, f (.replaceLine id text page) = some ⟨id, text⟩) →
      (∀ id anchor text page, f (.replaceSpan id anchor text page) = none) →
      ProposedText ops lines fullCoverage config targets entry.lineId entry.correctedText := by
    intro f entry hentry hline hspan
    rcases List.mem_append.mp hentry with hwhole | hentry
    · obtain ⟨op, hop, heq⟩ := List.mem_filterMap.mp hwhole
      cases op with
      | replaceLine id text page =>
        rw [hline, Option.some_inj] at heq
        subst heq
        exact .wholeLine hop
      | replaceSpan id anchor text page =>
        rw [hspan] at heq
        cases heq
    · exact hspans entry hentry
  unfold scriptToRaw at h
  dsimp only at h
  rw [hraw] at h
  -- full coverage adds the sources of the lines nothing was said about
  split at h
  · exact hproposed _ entry h (fun _ _ _ => rfl) fun _ _ _ _ => rfl
  · next hcoverage =>
    rcases List.mem_append.mp h with hentry | hsource
    · exact hproposed _ entry hentry (fun _ _ _ => rfl) fun _ _ _ _ => rfl
    · obtain ⟨⟨id, text⟩, hmem, rfl⟩ := List.mem_map.mp hsource
      exact .source (by simpa using hcoverage)
        (Dict.get?_of_mem (Dict.nodup_keys_ofList _) (List.mem_of_mem_filter hmem))

/-! ## The batch -/

variable {chunk : ChunkRequest} {response : List LineProposal}

/-- A batch that covers a chunk's targets. -/
structure CoversTargets (ops : List EditOp) (lines : List LineManifest) (fullCoverage : Bool)
    (config : GuardConfig) (chunk : ChunkRequest) (response : List LineProposal) : Prop where
  /-- Each target has one entry. -/
  targets : ∀ lineId ∈ chunk.targets, (response.map LineProposal.lineId).count lineId = 1
  /-- No line has two, targets or not. -/
  once : ∀ lineId, (response.map LineProposal.lineId).count lineId ≤ 1
  known : ∀ entry ∈ response, entry.lineId ∈ lines.map LineManifest.lineId
  single : ∀ entry ∈ response, hasLineSeparator entry.correctedText = false
  nonblank : ∀ entry ∈ response, strip entry.correctedText ≠ [] ∨
    ∃ source, (canonicalTexts lines).get? entry.lineId = some source ∧ strip source = []
  /-- The text is one the script proposes for the line; a blank one, over a
  blank source, is delivered as the empty text. -/
  proposed : ∀ entry ∈ response, ∃ text,
    ProposedText ops lines fullCoverage config chunk.targets entry.lineId text ∧
      (entry.correctedText = text ∨ (entry.correctedText = [] ∧ strip text = [] ∧
        ∃ source, (canonicalTexts lines).get? entry.lineId = some source ∧ strip source = []))

/-- **An accepted batch covers its targets exactly.** -/
theorem coversTargets_of_validate [Unicode] (hlines : lines.map LineManifest.lineId = chunk.lineIds)
    (h : validateProposed config chunk lines
      (scriptToRaw ops lines fullCoverage config chunk.targets).entries = .ok response) :
    CoversTargets ops lines fullCoverage config chunk response := by
  -- each entry of the response passed its checks against one raw entry, in order
  obtain ⟨hentries, hrequired⟩ := validateLlmResponse_eq_ok h
  obtain ⟨hforall, hnodup, -⟩ := checkEntries_eq_ok hentries
  constructor
  case targets =>
    intro lineId htarget
    apply List.count_eq_one_of_mem hnodup
    apply hrequired
    rwa [hlines]
  case once => exact fun lineId => List.nodup_iff_count_le_one.mp hnodup lineId
  case known =>
    intro entry hentry
    obtain ⟨raw, -, hchecks⟩ := Pointwise.exists_of_mem_right hforall hentry
    rw [hchecks.lineId]
    exact hchecks.known
  case single =>
    intro entry hentry
    obtain ⟨raw, -, hchecks⟩ := Pointwise.exists_of_mem_right hforall hentry
    exact hchecks.single
  case nonblank =>
    intro entry hentry
    obtain ⟨raw, -, hchecks⟩ := Pointwise.exists_of_mem_right hforall hentry
    rw [hchecks.lineId]
    rcases checkedText_eq_ok hchecks.text with ⟨-, hkept⟩ | ⟨-, -, hsource⟩
    · exact .inl hkept
    · exact .inr hsource
  case proposed =>
    intro entry hentry
    obtain ⟨raw, hraw, hchecks⟩ := Pointwise.exists_of_mem_right hforall hentry
    have hproposed := proposedText_scriptToRaw hraw
    rw [hchecks.lineId]
    rcases checkedText_eq_ok hchecks.text with ⟨hsame, -⟩ | ⟨hempty, hblank, hsource⟩
    · exact ⟨raw.correctedText, hproposed, .inl hsame⟩
    · exact ⟨raw.correctedText, hproposed, .inr ⟨hempty, hblank, hsource⟩⟩

end Proposed

/-- Two lines, the first of them blank in the source, and one whole-line
answer each. -/
def twoLines : List LineManifest :=
  [plainLine "p".toList 0 "a" " " .none, plainLine "p".toList 1 "b" "le mot" .none]

/-- The chunk of both lines. -/
def twoLinesChunk : ChunkRequest :=
  ⟨"p".toList, none, .page, ["a".toList, "b".toList], none⟩

theorem coversTargets_twoLines :
    CoversTargets [.replaceLine "b".toList "le mât".toList none] twoLines false
      .default twoLinesChunk
      [⟨"b".toList, "le mât".toList⟩, ⟨"a".toList, []⟩] :=
  @coversTargets_of_validate ⟨id⟩ _ _ _ _ _ _ .ascii rfl (by decide +kernel)

/-- **A blank answer over a blank source is not delivered as it was given**:
the entry's text is neither the whole line's nor the source's. -/
theorem twoLines_blank : ∃ response, @validateProposed .ascii .default twoLinesChunk twoLines
    (@scriptToRaw ⟨id⟩ [.replaceLine "b".toList "le mât".toList none] twoLines false .default
      twoLinesChunk.targets).entries = .ok response ∧
    ¬ ∀ entry ∈ response, ProposedText [.replaceLine "b".toList "le mât".toList none] twoLines false
      .default twoLinesChunk.targets entry.lineId entry.correctedText := by
  refine ⟨[⟨"b".toList, "le mât".toList⟩, ⟨"a".toList, []⟩], by decide +kernel, fun h => ?_⟩
  have hproposed := h ⟨"a".toList, []⟩ (by simp)
  cases hproposed with
  | wholeLine hop => simp at hop
  | spans _ _ htext => cases htext
  | source _ hsource => exact absurd hsource (by decide +kernel)

end Saknussemm
