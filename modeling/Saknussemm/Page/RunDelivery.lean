import Saknussemm.Page.Losses
import Saknussemm.Page.WordGranularity
import Saknussemm.Run.Delivered

/-! # The PAGE files a run hands over.

The engine's decisions, the PAGE rewriter and the check of what was written
meet in one place: a file is handed over exactly when each of its lines was
decided a text that composing leaves in its words, and the rendering returns
exactly when XML can hold every text it has to write. -/

namespace Saknussemm.Page

open Effects

/-! ## The adapter -/

/-- The value of a rewriter path. -/
def RewriterPath.value : RewriterPath → Str
  | .untouched => "untouched".toList
  | .fastPath => "fast_path".toList
  | .slowPath => "slow_path".toList

/-- The name a loss counter is reported under. -/
def LossCounter.value : LossCounter → Str
  | .wordsDropped => "words_dropped".toList
  | .confidenceInvalidated => "confidence_invalidated".toList
  | .altTextequivDropped => "alt_textequiv_dropped".toList
  | .customOffsetStripped => "custom_offset_stripped".toList
  | .hyphenPreserved => "hyphen_preserved".toList
  | .lineWordDisagreement => "line_word_disagreement".toList

/-- Losses under their names. -/
def namedLosses (losses : Dict LossCounter Nat) : Dict Str Nat :=
  Dict.ofList (losses.map fun loss => (loss.1.value, loss.2))

section Adapter

variable [Numerals] [Unicode] [WordChars]

/-- The path each decided line of a file takes. -/
def linePaths (lineById : Dict Str LineManifest) (lines : List MarkedLine) : Dict Str Str :=
  Dict.ofList <| lines.filterMap fun marked => do
    let lm ← lineById.get? marked.line.id
    let rewritten ← (rewriteTextLine marked.line (lm.correctedText.getD lm.ocrText)).toOption
    return (marked.line.id, rewritten.path.value)

/-- Canonical text of the lines of a written tree that have a manifest. -/
def extractTexts (lineById : Dict Str LineManifest) (verbatim : Bool) (lines : List MarkedLine) :
    Dict Str Str :=
  Dict.ofList <| (lines.filter fun marked =>
      (lineById.get? marked.line.id).isSome).map fun marked =>
    (marked.line.id, canonicalLineText verbatim marked.line)

/-- Everything the rewrite of a file produced. -/
def pageResult (pages : List PageManifest) (lines : List MarkedLine)
    (rewritten : PageRewriteResult) : RewriteResult (List MarkedLine) where
  xmlBytes := rewritten.lines
  metrics := ⟨rewritten.metrics.untouched, 0, rewritten.metrics.fastPath,
    rewritten.metrics.slowPath⟩
  rewriterPaths := linePaths (manifestById pages) lines
  texts := extractTexts (manifestById pages) false rewritten.lines
  textsVerbatim := extractTexts (manifestById pages) true rewritten.lines
  losses := namedLosses rewritten.losses
  wordOrderSuspected := []
  lossesByLine := Dict.ofList (rewritten.lossesByLine.map fun entry =>
    (entry.1, namedLosses entry.2))
  paths_nodup := Dict.nodup_keys_ofList _
  texts_nodup := Dict.nodup_keys_ofList _
  losses_nodup := Dict.nodup_keys_ofList _
  suspected_nodup := List.nodup_nil
  lossesByLine_nodup := Dict.nodup_keys_ofList _

omit [Numerals] [Unicode] [WordChars] in
/-- What a rewrite raises: an error of the library for an id that is there
twice, a `ValueError` for a text XML cannot hold. -/
def RewriteError.raised : RewriteError → Fault
  | .duplicateId _ => .domain "duplicate TextLine id".toList
  | .duplicateIdentities => .domain "duplicate identities".toList
  | .xml _ => .crash "ValueError".toList

/-- The PAGE rewriter as the engine's adapter, over the trees its paths hold. -/
def pageFormatAdapter (read : Str → Option (List MarkedLine)) : FormatAdapter
    (List MarkedLine) where
  rewriteFile path pages :=
    match read path with
    | none => .error (.fault (.domain "cannot read source file".toList))
    | some lines =>
      match rewritePageFile lines pages with
      | .error error => .error (.fault error.raised)
      | .ok rewritten => .ok (pageResult pages lines rewritten)

end Adapter

/-! ## One line -/

section Line

variable [Numerals] [Unicode] [WordChars]

/-- Counting apart, a marked line is rewritten as its element is. -/
theorem line_rewriteMarkedLine (marked : MarkedLine) (rawCorrected : Str)
    (m : PageRewriterMetrics) : (rewriteMarkedLine marked rawCorrected m).map (fun r => r.1.line) =
      (rewriteTextLine marked.line rawCorrected).map RewrittenLine.line := by
  unfold rewriteMarkedLine rewriteTextLine
  dsimp only
  split
  · rfl
  · by_cases hslow : marked.line.words ≠ [] ∧
        (split (writtenText marked.line rawCorrected)).length ≠ marked.line.words.length
    · rw [if_pos hslow, if_pos (by simpa using hslow)]
      cases updateTextequiv marked.line.equivs (writtenText marked.line rawCorrected) <;> rfl
    · rw [if_neg hslow, if_neg (by simpa using hslow)]
      cases updateWordsFast marked.line.words (split (writtenText marked.line rawCorrected)) with
      | error error => rfl
      | ok words =>
        cases updateTextequiv marked.line.equivs (writtenText marked.line rawCorrected) <;> rfl

omit [WordChars] in
theorem id_rewriteTextLine {line : TextLine} {decided : Str} {rewritten : RewrittenLine}
    (h : rewriteTextLine line decided = .ok rewritten) : rewritten.line.id = line.id := by
  rcases rewriteTextLine_eq_ok h with ⟨-, rfl⟩ | ⟨-, words, hline, -⟩
  · rfl
  · rw [hline]

/-- A marked line is rewritten where its element is, to the same line. -/
theorem rewriteMarkedLine_ok {marked : MarkedLine} {rawCorrected : Str} {m : PageRewriterMetrics}
    {r : MarkedLine × PageRewriterMetrics} (h : rewriteMarkedLine marked rawCorrected m = .ok r) :
    ∃ rewritten, rewriteTextLine marked.line rawCorrected = .ok rewritten ∧
        r.1.line = rewritten.line := by
  have hline := line_rewriteMarkedLine marked rawCorrected m
  rw [h] at hline
  cases hrewritten : rewriteTextLine marked.line rawCorrected with
  | error error =>
    rw [hrewritten] at hline
    cases hline
  | ok rewritten =>
    rw [hrewritten] at hline
    exact ⟨rewritten, rfl, Except.ok.inj hline⟩

theorem exists_rewriteMarkedLine {marked : MarkedLine} {rawCorrected : Str}
    {m : PageRewriterMetrics}
    {rewritten : RewrittenLine} (h : rewriteTextLine marked.line rawCorrected = .ok rewritten) :
    ∃ r, rewriteMarkedLine marked rawCorrected m = .ok r := by
  have hline := line_rewriteMarkedLine marked rawCorrected m
  rw [h] at hline
  cases hmarked : rewriteMarkedLine marked rawCorrected m with
  | error error =>
    rw [hmarked] at hline
    cases hline
  | ok r => exact ⟨r, rfl⟩

end Line

/-! ## The lines of a file -/

section Lines

variable [Numerals] [Unicode] [WordChars]

/-- What a file's rewrite does to one of its lines. -/
structure Written (lineById : Dict Str LineManifest) (marked written : MarkedLine) : Prop where
  undecided : lineById.get? marked.line.id = none → written = marked
  decided : ∀ lm, lineById.get? marked.line.id = some lm → ∃ rewritten,
    rewriteTextLine marked.line (decisionText lm) = .ok rewritten ∧ written.line = rewritten.line

omit [WordChars] in
theorem Written.id {lineById : Dict Str LineManifest} {marked written : MarkedLine}
    (h : Written lineById marked written) : written.line.id = marked.line.id := by
  cases hlm : lineById.get? marked.line.id with
  | none => rw [h.undecided hlm]
  | some lm =>
    obtain ⟨rewritten, hrewritten, hline⟩ := h.decided lm hlm
    rw [hline, id_rewriteTextLine hrewritten]

/-- **The lines of a file are rewritten one by one.** -/
theorem forall₂_rewriteTextLines {lineById : Dict Str LineManifest} {lines : List MarkedLine} :
    ∀ {state state' : RewriteState} {written : List MarkedLine},
      rewriteTextLines lineById lines state = .ok (written, state') →
        List.Forall₂ (Written lineById) lines written := by
  induction lines with
  | nil =>
    intro state state' written h
    cases h
    exact .nil
  | cons marked lines ih =>
    intro state state' written h
    rw [rewriteTextLines] at h
    split at h
    -- an element nobody decided is handed on, any other is rewritten to its own decision
    · next hnone =>
      obtain ⟨⟨rest, between⟩, hrest, h⟩ := Fallible.bind_eq_ok.mp h
      cases h
      refine .cons ⟨fun _ => rfl, fun lm hlm => ?_⟩ (ih hrest)
      rw [hnone] at hlm
      cases hlm
    · next lm hlm =>
      split at h
      · cases h
      · split at h
        · cases h
        · next r hr =>
          obtain ⟨⟨rest, between⟩, hrest, h⟩ := Fallible.bind_eq_ok.mp h
          cases h
          refine .cons ⟨fun hnone => ?_, fun lm' hlm' => ?_⟩ (ih hrest)
          · rw [hnone] at hlm
            cases hlm
          · rw [hlm] at hlm'
            cases hlm'
            exact rewriteMarkedLine_ok hr

/-- **A file is rewritten when each decided line is.** -/
theorem exists_rewriteTextLines {lineById : Dict Str LineManifest} {lines : List MarkedLine}
    (hids : (lines.map fun marked => marked.line.id).Nodup)
    (hlines : ∀ marked ∈ lines, ∀ lm, lineById.get? marked.line.id = some lm →
      ∃ rewritten, rewriteTextLine marked.line (decisionText lm) = .ok rewritten) :
    ∀ state : RewriteState, (∀ marked ∈ lines, marked.line.id ∉ state.seen) →
      ∃ r, rewriteTextLines lineById lines state = .ok r := by
  induction lines with
  | nil => exact fun _ _ => ⟨_, rfl⟩
  | cons marked lines ih =>
    intro state hseen
    obtain ⟨hnew, hrest⟩ := List.nodup_cons.mp hids
    have hlater := ih hrest fun m hm => hlines m (List.mem_cons_of_mem _ hm)
    rw [rewriteTextLines]
    split
    · obtain ⟨r, hr⟩ := hlater state fun m hm => hseen m (List.mem_cons_of_mem _ hm)
      exact ⟨_, Fallible.bind_eq_ok.mpr ⟨r, hr, rfl⟩⟩
    · next lm hlm =>
      rw [if_neg (hseen marked List.mem_cons_self)]
      obtain ⟨rewritten, hrewritten⟩ := hlines marked List.mem_cons_self lm hlm
      obtain ⟨written, hwritten⟩ := exists_rewriteMarkedLine (m := state.metrics) hrewritten
      rw [decisionText] at hwritten
      rw [hwritten]
      -- the lines left are none of those seen
      have hunseen : ∀ m ∈ lines, m.line.id ∉ marked.line.id :: state.seen := by
        intro m hm hmem
        rcases List.mem_cons.mp hmem with heq | hmem
        · exact hnew (List.mem_map.mpr ⟨m, hm, heq⟩)
        · exact hseen m (List.mem_cons_of_mem _ hm) hmem
      obtain ⟨r, hr⟩ := hlater ⟨written.2, marked.line.id :: state.seen,
        recordLineLosses state.lossesByLine marked.line.id state.metrics written.2⟩ hunseen
      exact ⟨_, Fallible.bind_eq_ok.mpr ⟨r, hr, rfl⟩⟩

omit [WordChars] in
/-- A line read back from a written file. -/
theorem get?_extractTexts {lineById : Dict Str LineManifest} {lines written : List MarkedLine}
    (hids : (lines.map fun marked => marked.line.id).Nodup)
    (h : List.Forall₂ (Written lineById) lines written) (verbatim : Bool) {marked : MarkedLine}
    (hmarked : marked ∈ lines) {lm : LineManifest} (hlm : lineById.get? marked.line.id = some lm) :
    ∃ rewritten, rewriteTextLine marked.line (decisionText lm) = .ok rewritten ∧
      (extractTexts lineById verbatim written).get? marked.line.id =
        some (canonicalLineText verbatim rewritten.line) := by
  obtain ⟨out, hout, hwritten⟩ := Pointwise.exists_of_mem_left h hmarked
  obtain ⟨rewritten, hrewritten, hline⟩ := hwritten.decided lm hlm
  refine ⟨rewritten, hrewritten, ?_⟩
  have hsame : written.map (fun m => m.line.id) = lines.map fun m => m.line.id :=
    Pointwise.map_eq h fun _ _ hw => hw.id
  have hkeys : (((written.filter fun m => (lineById.get? m.line.id).isSome).map fun m =>
      (m.line.id, canonicalLineText verbatim m.line)).map Prod.fst).Nodup := by
    rw [List.map_map]
    exact (hsame ▸ hids).sublist (List.filter_sublist.map _)
  rw [extractTexts, Dict.ofList_of_nodup hkeys, ← hwritten.id]
  refine Dict.get?_of_mem hkeys (List.mem_map.mpr ⟨out, List.mem_filter.mpr ⟨hout, ?_⟩, ?_⟩)
  · rw [hwritten.id, hlm]
    rfl
  · rw [hline]

end Lines

/-! ## What the decisions of a run are -/

section Decisions

variable [Numerals] [Composition]

/-- A text the writer composes and otherwise leaves alone. -/
def Settled (line : TextLine) (decided : Str) : Prop :=
  '\r' ∉ decided ∧ ∀ mark, trailingHyphenChar (canonicalLineText false line) = some mark →
    ∀ c ∈ hyphenChars, (rstrip decided).getLast? = some c → c = mark

/-- XML can hold what is to be written. -/
def Writable (line : TextLine) (decided : Str) : Prop :=
  strip (Unicode.nfc decided) ≠ canonicalLineText false line →
    ∀ c ∈ strip (Unicode.nfc decided), isXmlChar c = true

omit [Numerals] in
/-- Composing changes no word, or only takes out invisible characters. -/
def KeptComposed (decided : Str) : Prop :=
  split decided = split (Unicode.nfc decided) ∨ stripInvisibles decided =
    strip (Unicode.nfc decided)

theorem rewriteTextLine_isOk_of_settled {line : TextLine} {decided : Str}
    (h : Settled line decided) :
    (∃ rewritten, rewriteTextLine line decided = .ok rewritten) ↔ Writable line decided := by
  rw [rewriteTextLine_isOk, writtenText_eq h.1 h.2]
  rfl

/-- What is read back is the composed decision. -/
theorem canonicalLineText_rewritten {line : TextLine} {decided : Str} (h : Settled line decided)
    {rewritten : RewrittenLine} (hrewritten : rewriteTextLine line decided = .ok rewritten) :
    canonicalLineText false rewritten.line = strip (Unicode.nfc decided) := by
  have hwritten : writtenText line decided = strip (Unicode.nfc decided) := writtenText_eq h.1 h.2
  rcases rewriteTextLine_eq_ok hrewritten with ⟨hsame, rfl⟩ | ⟨-, words, hline, -⟩
  · rw [← hwritten, hsame]
  · rw [hline, hwritten, canonicalLineText_updated h.1]

theorem classify_rewritten {line : TextLine} {decided : Str} (h : Settled line decided)
    {rewritten : RewrittenLine} (hrewritten : rewriteTextLine line decided = .ok rewritten)
    (verbatim : Option Str) :
    (classifyProjectionFidelity decided (canonicalLineText false rewritten.line) verbatim).isSome ↔
      KeptComposed decided := by
  rw [classifyProjectionFidelity_isSome, canonicalLineText_rewritten h hrewritten, split_strip]
  rfl

variable [Digest] {pipeline : CorrectionPipeline} {document : DocumentManifest}

omit [Numerals] in
/-- After every pass the lines of a run are respelled. -/
theorem respelled_run (hunvisited : ∀ lm ∈ document.lines, lm.correctedText = none)
    {result : CorrectionResult} (hrun : (run pipeline document).1 = .ok result) {ref : LineRef}
    (href : ref ∈ document.refs) : Respelled ((run pipeline document).2.heap ref) := by
  obtain ⟨totals, s, hexec, hstate, -, -⟩ := run_eq_ok hrun
  -- no line of an unvisited document has a text, so each is spelled as a reader gave it
  have hstart : Sourced document (initialState document) ∧
      AllSpelled (initialState document).heap := by
    refine ⟨SameSource.refl _, fun ref text htext => ?_⟩
    have hnone : (document.heap ref).correctedText = none := by
      rcases heap_cases document ref with hmem | hoff
      · exact hunvisited _ hmem
      · rw [hoff]
        rfl
    rw [show (initialState document).heap = document.heap from rfl, hnone] at htext
    cases htext
  obtain ⟨-, hspelled⟩ := ends_correctDocument.ok hstart hexec
  have hspelled₁ : AllSpelled (globalAdjacencyPass pipeline document s).heap :=
    spelled_applyUnitReverts hspelled _ _ _
  have hrespelled : Respelled ((preserveBreakChars document
      (globalAdjacencyPass pipeline document s)).heap ref) :=
        respelled_preserveBreakChars hspelled₁ href
  rw [hstate, finalizePasses]
  generalize preserveBreakChars document (globalAdjacencyPass pipeline document s) =
    s₂ at hrespelled
  -- the closing passes only put lines back to source, or keep their spelling
  have hreverts : ∀ pass reverts,
      Respelled ((applyUnitReverts document pass reverts s₂).2.heap ref) := by
    intro pass reverts
    rcases (heap_applyUnitReverts document pass reverts s₂ ref).1 with hsame | hback
    · rw [hsame]
      exact hrespelled
    · rw [hback]
      rintro _ ⟨⟩
      exact .inl rfl
  unfold lossPolicyPass
  split
  · exact hreverts _ _
  · split
    · exact hrespelled
    · exact hreverts _ _

/-- **Every decision of a run over PAGE lines is settled.** -/
theorem settled_run {textline : LineRef → TextLine} (hread : ReadFrom document textline)
    {result : CorrectionResult} (hrun : (run pipeline document).1 = .ok result) {ref : LineRef}
    (href : ref ∈ document.refs) :
    Settled (textline ref) (decisionText ((run pipeline document).2.heap ref)) := by
  have hline := mem_lines_of_mem_refs href
  have hsourced : Sourced document (run pipeline document).2 := sourced_run
  have htext : ((run pipeline document).2.heap ref).ocrText = canonicalLineText false
      (textline ref) := by
    have hocr := hread.text _ hline
    rw [addressed_heap document ref] at hocr
    exact (hsourced.ocrText ref).trans hocr
  have hsource : Settled (textline ref) (canonicalLineText false (textline ref)) := by
    refine ⟨not_mem_return_canonicalLineText _, fun mark hmark c _ hlast => ?_⟩
    rw [(last_of_trailingHyphenChar hmark).2] at hlast
    exact (Option.some_inj.mp hlast).symm
  have hrespelled := respelled_run hread.unvisited hrun href
  unfold decisionText
  cases hcorrected : ((run pipeline document).2.heap ref).correctedText with
  | none =>
    rw [Option.getD_none, htext]
    exact hsource
  | some text =>
    rw [Option.getD_some]
    rcases hrespelled text hcorrected with rfl | hspelled
    · rw [htext]
      exact hsource
    · rw [htext] at hspelled
      exact hspelled

end Decisions

/-! ## One file -/

section File

variable [Numerals] [Composition] [WordChars] {read : Str → Option (List MarkedLine)}
  {pages : List PageManifest} {path : Str} {lines : List MarkedLine} {textline : LineRef → TextLine}

/-- The tree at a path is the one a file's lines were read from: its ids are
told apart and every line is there. -/
structure HoldsLines (lines : List MarkedLine) (manifests : List LineManifest)
    (textline : LineRef → TextLine) : Prop where
  ids : (lines.map fun marked => marked.line.id).Nodup
  present : ∀ lm ∈ manifests, ∃ marked ∈ lines, marked.line.id = lm.lineId ∧
    marked.line = textline (lineRef lm)

omit [Numerals] [Composition] [WordChars] in
/-- The manifests of a file, known by their ids. -/
theorem get?_manifestById (hids : ((pages.flatMap PageManifest.lines).map
    LineManifest.lineId).Nodup)
    {lineId : Str} {lm : LineManifest} :
    (manifestById pages).get? lineId = some lm ↔
      lm ∈ pages.flatMap PageManifest.lines ∧ lm.lineId = lineId := by
  have hkeys : (((pages.flatMap PageManifest.lines).map fun lm => (lm.lineId, lm)).map
      Prod.fst).Nodup := by
    rw [List.map_map]
    exact hids
  rw [manifestById, Dict.ofList_of_nodup hkeys]
  constructor
  · intro hget
    obtain ⟨lm', hlm', heq⟩ := List.mem_map.mp (Dict.mem_of_get? hget)
    cases heq
    exact ⟨hlm', rfl⟩
  · rintro ⟨hlm, rfl⟩
    exact Dict.get?_of_mem hkeys (List.mem_map_of_mem (f := fun lm => (lm.lineId, lm)) hlm)

/-- **A file is rewritten exactly when XML can hold every text it is to
hold**, and then it reads back as its decisions, composed. -/
theorem rewritePageFile_spec (hunique : uniqueIdentities pages = true)
    (hlines : HoldsLines lines (pages.flatMap PageManifest.lines) textline)
    (hsettled : ∀ lm ∈ pages.flatMap PageManifest.lines,
      Settled (textline (lineRef lm)) (decisionText lm)) :
    ((∃ rewritten, rewritePageFile lines pages = .ok rewritten) ↔
      ∀ lm ∈ pages.flatMap PageManifest.lines, Writable (textline (lineRef lm)) (decisionText lm)) ∧
    ∀ rewritten, rewritePageFile lines pages = .ok rewritten →
      ∀ lm ∈ pages.flatMap PageManifest.lines, ∃ text,
        (extractTexts (manifestById pages) false rewritten.lines).get? lm.lineId = some text ∧
          ∀ verbatim, (classifyProjectionFidelity (decisionText lm) text verbatim).isSome ↔
            KeptComposed (decisionText lm) := by
  -- ids are unique on both sides, so each element meets the one decision written under its id
  have hids : ((pages.flatMap PageManifest.lines).map LineManifest.lineId).Nodup := by
    rw [List.map_flatMap]
    exact (uniqueIdentities_iff.mp hunique).2.2
  have hline : ∀ marked ∈ lines, ∀ lm, (manifestById pages).get? marked.line.id = some lm →
      lm ∈ pages.flatMap PageManifest.lines ∧ marked.line = textline (lineRef lm) := by
    intro marked hmarked lm hlm
    obtain ⟨hin, hid⟩ := (get?_manifestById hids).mp hlm
    obtain ⟨marked', hmarked', hid', hsame⟩ := hlines.present lm hin
    have heq : marked' = marked :=
      List.inj_on_of_nodup_map hlines.ids hmarked' hmarked (hid'.trans hid)
    exact ⟨hin, heq ▸ hsame⟩
  -- every element of a file that was written went through its own decision
  have hfile : ∀ rewritten, rewritePageFile lines pages = .ok rewritten →
      List.Forall₂ (Written (manifestById pages)) lines rewritten.lines := by
    intro rewritten h
    rw [rewritePageFile, hunique] at h
    obtain ⟨⟨written, state⟩, hwritten, h⟩ := Fallible.bind_eq_ok.mp h
    cases h
    exact forall₂_rewriteTextLines hwritten
  refine ⟨⟨?_, ?_⟩, ?_⟩
  · rintro ⟨rewritten, h⟩ lm hlm
    obtain ⟨marked, hmarked, hid, hsame⟩ := hlines.present lm hlm
    obtain ⟨out, -, hwritten⟩ := Pointwise.exists_of_mem_left (hfile rewritten h) hmarked
    obtain ⟨line, hrewritten, -⟩ :=
      hwritten.decided lm ((get?_manifestById hids).mpr ⟨hlm, hid.symm⟩)
    rw [hsame] at hrewritten
    exact (rewriteTextLine_isOk_of_settled (hsettled lm hlm)).mp ⟨line, hrewritten⟩
  -- conversely, when every line's own rewrite succeeds the loop has no error to stop at
  · intro hwritable
    have heach : ∀ marked ∈ lines, ∀ lm, (manifestById pages).get? marked.line.id = some lm →
        ∃ rewritten, rewriteTextLine marked.line (decisionText lm) = .ok rewritten := by
      intro marked hmarked lm hlm
      obtain ⟨hin, hsame⟩ := hline marked hmarked lm hlm
      rw [hsame]
      exact (rewriteTextLine_isOk_of_settled (hsettled lm hin)).mpr (hwritable lm hin)
    obtain ⟨r, hr⟩ := exists_rewriteTextLines hlines.ids heach ⟨.zero, [], []⟩
      fun _ _ => List.not_mem_nil
    rw [rewritePageFile, hunique]
    exact ⟨_, Fallible.bind_eq_ok.mpr ⟨r, hr, rfl⟩⟩
  · intro rewritten h lm hlm
    obtain ⟨marked, hmarked, hid, hsame⟩ := hlines.present lm hlm
    obtain ⟨line, hrewritten, htext⟩ :=
      get?_extractTexts hlines.ids (hfile rewritten h) false hmarked
      ((get?_manifestById hids).mpr ⟨hlm, hid.symm⟩)
    rw [hsame] at hrewritten
    rw [hid] at htext
    exact ⟨_, htext, fun verbatim => classify_rewritten (hsettled lm hlm) hrewritten verbatim⟩

/-- What an adapter makes of a file: it raises where XML cannot hold a text,
never refuses the file itself, and what it writes reads back as the
decisions, composed. -/
structure Composes {β : Type} (adapter : FormatAdapter β) (path : Str) (pages : List PageManifest)
    (textline : LineRef → TextLine) : Prop where
  raises : (∀ fault, adapter.rewriteFile path pages ≠ .error (.fault fault)) ↔
    ∀ lm ∈ pages.flatMap PageManifest.lines, Writable (textline (lineRef lm)) (decisionText lm)
  unrefused : ∀ failure, adapter.rewriteFile path pages ≠ .error (.projection failure)
  reads : ∀ result, adapter.rewriteFile path pages = .ok result →
    ∀ lm ∈ pages.flatMap PageManifest.lines, ∃ text, result.texts.get? lm.lineId = some text ∧
      ∀ verbatim, (classifyProjectionFidelity (decisionText lm) text verbatim).isSome ↔
        KeptComposed (decisionText lm)

/-- A format that reads the path composes the pages of the file. -/
theorem composes_pageFormatAdapter (hread : read path = some lines)
    (hunique : uniqueIdentities pages = true)
    (hlines : HoldsLines lines (pages.flatMap PageManifest.lines) textline)
    (hsettled : ∀ lm ∈ pages.flatMap PageManifest.lines,
      Settled (textline (lineRef lm)) (decisionText lm)) :
    Composes (pageFormatAdapter read) path pages textline := by
  obtain ⟨hok, htexts⟩ := rewritePageFile_spec hunique hlines hsettled
  cases hrewritten : rewritePageFile lines pages with
  | error error =>
    have hfault : (pageFormatAdapter read).rewriteFile path pages =
        .error (.fault error.raised) := by
      simp only [pageFormatAdapter, hread, hrewritten]
    rw [hrewritten] at hok
    constructor
    · rw [← hok, hfault]
      simp
    · simp [hfault]
    · simp [hfault]
  | ok rewritten =>
    have hresult : (pageFormatAdapter read).rewriteFile path pages =
        .ok (pageResult pages lines rewritten) := by
      simp only [pageFormatAdapter, hread, hrewritten]
    rw [hrewritten] at hok
    constructor
    · rw [← hok, hresult]
      simp
    · simp [hresult]
    · rw [hresult]
      rintro _ ⟨⟩
      exact htexts rewritten hrewritten

end File

end Saknussemm.Page

namespace Saknussemm.Page

section Run

variable [Numerals] [Composition] [WordChars] [Digest]

/-- The trees at the paths are the ones the document's lines were read from. -/
def ReadFromFiles (read : Str → Option (List MarkedLine)) (document : DocumentManifest)
    (sourceFiles : Dict Str Str) (textline : LineRef → TextLine) : Prop :=
  ∀ name path, sourceFiles.get? name = some path → pagesOfFile document.pages name ≠ [] →
    ∃ lines, read path = some lines ∧ HoldsLines lines (linesOfFile document.pages name) textline

omit [Numerals] [Composition] [WordChars] [Digest] in
/-- The decisions on the lines of a file. -/
def decisionsOfFile (document : DocumentManifest) (decisions : List LineDecision) (name : Str) :
    List LineDecision :=
  decisions.filter fun decision => decision.ref ∈ (linesOfFile document.pages name).map lineRef

variable {pipeline : CorrectionPipeline} {document : DocumentManifest}

omit [Numerals] [WordChars] in
/-- The decisions of a file are those its decided lines carry. -/
theorem forall_decisionsOfFile {result : CorrectionResult}
    (hrun : (run pipeline document).1 = .ok result) (P : LineRef → Str → Prop) (name : Str) :
    (∀ decision ∈ decisionsOfFile document result.decisions name,
      P decision.ref decision.finalText) ↔
      ∀ lm ∈ linesOfFile (decidedPages document (run pipeline document).2.heap) name,
        P (lineRef lm) (decisionText lm) := by
  obtain ⟨totals, s, -, hstate, -, hdecisions⟩ := run_eq_ok hrun
  rw [← hstate] at hdecisions
  have haddr : Addressed (run pipeline document).2.heap := sourced_run.addressed
  generalize (run pipeline document).2 = s' at hdecisions haddr
  have hrefs : ∀ ref, (decisionOf s' ref).ref = ref := fun ref => haddr ref
  rw [linesOfFile_decidedPages, decisionsOfFile, hdecisions]
  constructor
  · intro h lm hlm
    obtain ⟨old, hold, rfl⟩ := List.mem_map.mp hlm
    obtain ⟨page, hpage, -, hin⟩ := mem_linesOfFile.mp hold
    have href : lineRef old ∈ document.refs :=
      List.mem_flatMap.mpr ⟨page, hpage, List.mem_map_of_mem hin⟩
    have hp := h (decisionOf s' (lineRef old)) (List.mem_filter.mpr
      ⟨List.mem_map_of_mem href, decide_eq_true (List.mem_map.mpr ⟨old, hold, (hrefs _).symm⟩)⟩)
    rw [hrefs] at hp
    rw [haddr]
    exact hp
  · intro h decision hdecision
    obtain ⟨hmem, hfile⟩ := List.mem_filter.mp hdecision
    obtain ⟨ref, -, rfl⟩ := List.mem_map.mp hmem
    obtain ⟨old, hold, href⟩ := List.mem_map.mp (of_decide_eq_true hfile)
    rw [hrefs] at href ⊢
    subst href
    have hp := h _ (List.mem_map_of_mem (f := fun lm => s'.heap (lineRef lm)) hold)
    rw [haddr] at hp
    exact hp

omit [Numerals] [Composition] [WordChars] [Digest] in
theorem uniqueIdentities_decidedPages (hdoor : ensureIdentities document = .ok ()) {heap : Heap}
    (hapart : ToldApart (decidedPages document heap)) (name : Str) :
    uniqueIdentities (pagesOfFile (decidedPages document heap) name) = true := by
  refine uniqueIdentities_iff.mpr ⟨?_, fun page hpage => ?_, ?_⟩
  · exact hapart.pageIds.sublist (List.filter_sublist.map _)
  · obtain ⟨old, hold, rfl⟩ := List.mem_map.mp (List.mem_filter.mp hpage).1
    have hown : old ∈ pagesOfFile document.pages old.sourceFile :=
      List.mem_filter.mpr ⟨hold, decide_eq_true rfl⟩
    exact (uniqueIdentities_iff.mp ((ensureIdentities_ok hdoor).1 old hold)).2.1 old hown
  · rw [← List.map_flatMap]
    exact hapart.lineIds name

omit [WordChars] [Digest] in
/-- A file is handed over where composing keeps the words of its decisions. -/
theorem handedOver_iff {β : Type} {adapter : FormatAdapter β} {pages : List PageManifest}
    {decisions : Dict LineRef LineDecision} {sourceFiles : Dict Str Str} {outcome : RenderState β}
    (hhands : HandsOver adapter pages decisions sourceFiles outcome) {name path : Str}
    (hpath : sourceFiles.get? name = some path) (hpresent : pagesOfFile pages name ≠ [])
    {textline : LineRef → TextLine}
    (hfile : Composes adapter path (pagesOfFile pages name) textline)
    (hdecided : ∀ lm ∈ linesOfFile pages name, ∃ decision, decisions.get? (lineRef lm) =
      some decision ∧ decision.finalText = decisionText lm) :
    (outcome.correctedFiles.get? name).isSome ↔
      ∀ lm ∈ linesOfFile pages name, KeptComposed (decisionText lm) := by
  constructor
  -- a delivered file was read back at a level, and a level means the composition was kept
  · intro hsome lm hlm
    obtain ⟨bytes, hbytes⟩ := Option.isSome_iff_exists.mp hsome
    obtain ⟨path', written, hpath', hwritten, -, hsays⟩ := hhands.faithful name bytes hbytes
    rw [hpath] at hpath'
    cases hpath'
    obtain ⟨text, htext, hkept⟩ := hfile.reads written hwritten lm hlm
    obtain ⟨level, ⟨decision, text', hdecision, htext', hlevel⟩, -⟩ := hsays lm hlm
    obtain ⟨decision', hdecision', hfinal⟩ := hdecided lm hlm
    rw [htext] at htext'
    rw [hdecision] at hdecision'
    cases htext'
    cases hdecision'
    rw [hfinal] at hlevel
    exact (hkept _).mp (by rw [hlevel]; rfl)
  -- a refused file names the line it was refused for, which contradicts what that line reads as
  · intro hkept
    by_contra hnone
    have hkey : name ∈ Dict.keys sourceFiles := by
      rw [← Dict.isSome_get?, hpath]
      rfl
    obtain ⟨failure, hfailure⟩ := Option.isSome_iff_exists.mp
      (((hhands.either name).mpr ⟨hkey, hpresent⟩).resolve_left hnone)
    obtain ⟨path', hpath', hrefused⟩ := hhands.refused name failure hfailure
    rw [hpath] at hpath'
    cases hpath'
    rcases hrefused with hadapter | ⟨written, hwritten, lm, hlm, decision, hdecision, hbelies⟩
    · exact hfile.unrefused failure hadapter
    · obtain ⟨text, htext, hreads⟩ := hfile.reads written hwritten lm hlm
      obtain ⟨decision', hdecision', hfinal⟩ := hdecided lm hlm
      rw [hdecision] at hdecision'
      cases hdecision'
      rcases hbelies with ⟨hmissing, -⟩ | ⟨text', htext', hlevel, -⟩
      · rw [htext] at hmissing
        cases hmissing
      · rw [htext] at htext'
        cases htext'
        have hsome := (hreads (written.textsVerbatim.get? lm.lineId)).mpr (hkept lm hlm)
        rw [← hfinal, hlevel] at hsome
        cases hsome

/-- The trees of a run's files, held against its decided pages. -/
theorem composes_run (hlines : ∀ page ∈ document.pages, ∀ lm ∈ page.lines, lm.pageId = page.pageId)
    {textline : LineRef → TextLine} (hread : ReadFrom document textline)
    {sourceFiles : Dict Str Str}
    {read : Str → Option (List MarkedLine)}
    (hfiles : ReadFromFiles read document sourceFiles textline)
    {result : CorrectionResult} (hrun : (run pipeline document).1 = .ok result) {name path : Str}
    (hpath : sourceFiles.get? name = some path) (hpresent : pagesOfFile document.pages name ≠ []) :
    Composes (pageFormatAdapter read) path
      (pagesOfFile (decidedPages document (run pipeline document).2.heap) name) textline := by
  have hdoor := door_of_run_ok hrun
  have haddr : Addressed (run pipeline document).2.heap := addressed_run
  have hapart := toldApart_decidedPages hdoor hlines haddr
  obtain ⟨lines, hlinesRead, hheld⟩ := hfiles name path hpath hpresent
  have holds : HoldsLines lines
      (linesOfFile (decidedPages document (run pipeline document).2.heap) name) textline := by
    refine ⟨hheld.ids, fun lm hlm => ?_⟩
    rw [linesOfFile_decidedPages] at hlm
    obtain ⟨old, hold, rfl⟩ := List.mem_map.mp hlm
    obtain ⟨marked, hmarked, hid, hsame⟩ := hheld.present old hold
    rw [haddr]
    exact ⟨marked, hmarked, hid.trans (congrArg LineRef.lineId (haddr (lineRef old))).symm, hsame⟩
  have hsettled : ∀ lm ∈ linesOfFile (decidedPages document (run pipeline document).2.heap) name,
      Settled (textline (lineRef lm)) (decisionText lm) := by
    intro lm hlm
    rw [linesOfFile_decidedPages] at hlm
    obtain ⟨old, hold, rfl⟩ := List.mem_map.mp hlm
    obtain ⟨page, hpage, -, hin⟩ := mem_linesOfFile.mp hold
    rw [haddr]
    exact settled_run hread hrun (List.mem_flatMap.mpr ⟨page, hpage, List.mem_map_of_mem hin⟩)
  exact composes_pageFormatAdapter hlinesRead
    (uniqueIdentities_decidedPages hdoor hapart name) holds hsettled

/-- **The PAGE files of a run.**  Rendering its decisions returns exactly when
XML can hold every text it has to write, and then a file is handed over
exactly when composing keeps the words of each decision on its lines, and is
listed as undeliverable otherwise. -/
theorem handedOver_run (hlines : ∀ page ∈ document.pages, ∀ lm ∈ page.lines,
    lm.pageId = page.pageId)
    {textline : LineRef → TextLine} (hread : ReadFrom document textline)
    {sourceFiles : Dict Str Str}
    (hsources : (Dict.keys sourceFiles).Nodup) {read : Str → Option (List MarkedLine)}
    (hfiles : ReadFromFiles read document sourceFiles textline)
    {observer : List RewriterStats → RewriterStats → Option Fault}
    (hquiet : ∀ told stats, observer told stats = none)
    {result : CorrectionResult} (hrun : (run pipeline document).1 = .ok result) :
    ((∃ outcome, runAndRender pipeline (pageFormatAdapter read) observer document sourceFiles =
        .ok (result, outcome)) ↔
      ∀ name ∈ Dict.keys sourceFiles, ∀ decision ∈ decisionsOfFile document result.decisions name,
        Writable (textline decision.ref) decision.finalText) ∧
    ∀ outcome, runAndRender pipeline (pageFormatAdapter read) observer document sourceFiles =
        .ok (result, outcome) →
      ∀ name ∈ Dict.keys sourceFiles, pagesOfFile document.pages name ≠ [] →
        ((outcome.correctedFiles.get? name).isSome ↔
          ∀ decision ∈ decisionsOfFile document result.decisions name,
            KeptComposed decision.finalText) ∧
        ((outcome.undeliverable.get? name).isSome ↔
          ∃ decision ∈ decisionsOfFile document result.decisions name,
            ¬ KeptComposed decision.finalText) := by
  have hdoc := identified_of_door hlines (door_of_run_ok hrun)
  have hdecisions := forall_decisionsOfFile hrun
  have hpresent : ∀ name, pagesOfFile (decidedPages document (run pipeline document).2.heap) name ≠
      [] ↔ pagesOfFile document.pages name ≠ [] := by
    intro name
    rw [pagesOfFile_decidedPages, ne_eq, List.map_eq_nil_iff]
  refine ⟨?_, fun outcome houtcome name hname hne => ?_⟩
  · have hdecided : ∀ lm ∈ (decidedPages document (run pipeline document).2.heap).flatMap
        PageManifest.lines, ((byRef result.decisions).get? (lineRef lm)).isSome := by
      intro lm hlm
      obtain ⟨page, hpage, hin⟩ := List.mem_flatMap.mp hlm
      obtain ⟨decision, hdecision, -⟩ := decision_of_line hdoc hrun
        (mem_linesOfFile.mpr ⟨page, hpage, rfl, hin⟩)
      rw [hdecision]
      rfl
    rw [runAndRender_isOk _ _ _ hrun, renderOutputs_isOk hquiet]
    constructor
    · intro h name hname
      obtain ⟨path, hpath⟩ := Option.isSome_iff_exists.mp (Dict.isSome_get?.mpr hname)
      rw [hdecisions (fun ref text => Writable (textline ref) text)]
      intro lm hlm
      have hne : pagesOfFile (decidedPages document (run pipeline document).2.heap) name ≠ [] := by
        intro hnil
        rw [linesOfFile, hnil] at hlm
        cases hlm
      have hfile := (raisesNothing_iff hdecided).mp (h _ (Dict.mem_of_get? hpath)) hne
      exact (composes_run hlines hread hfiles hrun hpath
        ((hpresent name).mp hne)).raises.mp hfile lm hlm
    · intro h source hsource
      have hpath : sourceFiles.get? source.1 = some source.2 := Dict.get?_of_mem hsources hsource
      refine (raisesNothing_iff hdecided).mpr fun hne => ?_
      apply (composes_run hlines hread hfiles hrun hpath ((hpresent _).mp hne)).raises.mpr
      exact (hdecisions (fun ref text => Writable (textline ref) text) source.1).mp
        (h source.1 (List.mem_map_of_mem hsource))
  · obtain ⟨path, hpath⟩ := Option.isSome_iff_exists.mp (Dict.isSome_get?.mpr hname)
    have hhands := (handsOver_run (pageFormatAdapter read) observer hlines hsources houtcome).1
    have hcorrected : (outcome.correctedFiles.get? name).isSome ↔
        ∀ decision ∈ decisionsOfFile document result.decisions name,
          KeptComposed decision.finalText := by
      rw [hdecisions (fun _ text => KeptComposed text)]
      exact handedOver_iff hhands hpath ((hpresent name).mpr hne)
        (composes_run hlines hread hfiles hrun hpath hne) fun lm hlm =>
          decision_of_line hdoc hrun hlm
    refine ⟨hcorrected, ?_⟩
    -- the file is in one of the two dictionaries and not in both
    rw [hhands.undeliverable_iff ⟨hname, (hpresent name).mpr hne⟩, hcorrected]
    push Not
    exact Iff.rfl

end Run

end Saknussemm.Page

namespace Saknussemm

/-- The file of one line of two words. -/
def wordedFile (path : Str) : Option (List Page.MarkedLine) :=
  if path = "/a.xml".toList then some [⟨wordedLine "le mot" 2, none, [none, none]⟩] else none

/-- One letter of that line is corrected, and its file is handed over. -/
theorem wordedFile_handedOver : ∃ result outcome,
    @runAndRender .ascii .plain _ (.plain (.answering [("a", "le mat")]) .default)
      (@Page.pageFormatAdapter .none .ascii .ascii wordedFile) (fun _ _ => none)
      (wordedDocument "le mot" 2) [("a.xml".toList, "/a.xml".toList)] = .ok (result, outcome) ∧
    (Dict.get? outcome.correctedFiles "a.xml".toList).isSome := by
  let _ := Page.Numerals.none
  let _ := Composition.ascii
  let _ := Digest.plain
  let _ := Page.WordChars.ascii
  let engine := CorrectionPipeline.plain (.answering [("a", "le mat")]) .default
  have htexts : ((run engine (wordedDocument "le mot" 2)).1.toOption.map fun result =>
      result.decisions.map LineDecision.finalText) = some ["le mat".toList] := by decide +kernel
  cases hrun : (run engine (wordedDocument "le mot" 2)).1 with
  | error fault =>
    rw [hrun] at htexts
    cases htexts
  | ok result =>
    rw [hrun] at htexts
    have hdecisions : result.decisions.map LineDecision.finalText = ["le mat".toList] := by
      simpa [Except.toOption] using htexts
    have hfinal : ∀ name, ∀ decision ∈ Page.decisionsOfFile (wordedDocument "le mot" 2)
        result.decisions name, decision.finalText = "le mat".toList := by
      intro name decision hdecision
      have hmem := List.mem_map_of_mem (f := LineDecision.finalText)
        (List.mem_filter.mp hdecision).1
      rw [hdecisions] at hmem
      exact List.mem_singleton.mp hmem
    have hfiles : Page.ReadFromFiles wordedFile (wordedDocument "le mot" 2)
        [("a.xml".toList, "/a.xml".toList)] fun _ => wordedLine "le mot" 2 := by
      rintro name path hpath -
      have hmem := Dict.mem_of_get? hpath
      rw [List.mem_singleton] at hmem
      obtain ⟨rfl, rfl⟩ := Prod.mk.inj hmem
      exact ⟨_, rfl, by decide +kernel, fun lm hlm => ⟨_, List.mem_singleton_self _, by
        revert lm
        decide +kernel, rfl⟩⟩
    obtain ⟨hreturns, hhanded⟩ := @Page.handedOver_run .none .ascii .ascii .plain engine
      (wordedDocument "le mot" 2) (by decide +kernel) (fun _ => wordedLine "le mot" 2)
      ⟨by decide +kernel, by decide +kernel, by decide +kernel⟩
      [("a.xml".toList, "/a.xml".toList)] (by decide) wordedFile hfiles (fun _ _ => none)
      (fun _ _ => rfl) result hrun
    obtain ⟨outcome, houtcome⟩ := hreturns.mpr fun name _ decision hdecision => by
      rw [hfinal name decision hdecision]
      rintro -
      -- decided over the text, not over all characters
      exact List.all_eq_true.mp (by decide +kernel)
    refine ⟨result, outcome, houtcome,
      (hhanded outcome houtcome _ (by decide) (by decide +kernel)).1.mpr
      fun decision hdecision => ?_⟩
    rw [hfinal _ decision hdecision]
    exact .inl (by decide +kernel)

end Saknussemm
