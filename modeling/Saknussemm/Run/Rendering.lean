import Saknussemm.Norm
import Saknussemm.Library.Fallible
import Saknussemm.Library.Tally
import Saknussemm.Run.Finalize

/-! # Rewriting the corrected files, and checking what they say.

The last stage of a run: each source file is rewritten, read back, and
compared with the run's decisions line for line.  A file that does not say
them is not handed over; a file that does leaves its mark on the traces. -/

namespace Saknussemm

/-! ## What a rewrite produced -/

/-- How many lines of a file a rewriter took down each path. -/
structure RewriteMetrics where
  untouched : Nat
  subsOnly : Nat
  fastPath : Nat
  slowPath : Nat

/-- Everything one file's rewrite produced; its tables name a line once. -/
structure RewriteResult (β : Type) where
  xmlBytes : β
  metrics : RewriteMetrics
  rewriterPaths : Dict Str Str
  texts : Dict Str Str
  /-- The texts without the reader's own substitutions. -/
  textsVerbatim : Dict Str Str
  losses : Dict Str Nat
  wordOrderSuspected : List Str
  lossesByLine : Dict Str (Dict Str Nat)
  paths_nodup : (Dict.keys rewriterPaths).Nodup
  texts_nodup : (Dict.keys texts).Nodup
  losses_nodup : (Dict.keys losses).Nodup
  suspected_nodup : wordOrderSuspected.Nodup
  lossesByLine_nodup : (Dict.keys lossesByLine).Nodup

/-- Why an artefact does not carry the run's decisions. -/
inductive ProjectionFailure where
  | missing (lineId pageId sourceName : Str)
  | diverges (sourceName lineId pageId decided extracted : Str)
  | adapter (message : Str)
  deriving DecidableEq

/-- What rewriting a file raises: a failure of this file, or any other error. -/
inductive RenderError where
  | projection (failure : ProjectionFailure)
  | fault (fault : Fault)

/-- How the engine touches concrete files of bytes `β`: rewrite the file at a
path with the decided lines of its pages. -/
structure FormatAdapter (β : Type) where
  rewriteFile : Str → List PageManifest → Except RenderError (RewriteResult β)

/-! ## The projection invariant -/

/-- Index: qualified line identity → its decision. -/
def byRef (decisions : List LineDecision) : Dict LineRef LineDecision :=
  Dict.ofList (decisions.map fun d => (d.ref, d))

/-- Does the rewritten line say what was decided, and how faithfully? -/
def verifyLine (sourceName : Str) (texts verbatim : Dict Str Str)
    (decisions : Dict LineRef LineDecision) (levels : Dict Str ProjectionFidelity)
    (lm : LineManifest) : Except RenderError (Dict Str ProjectionFidelity) :=
  match decisions.get? (lineRef lm) with
  | none => .error (.fault (.crash "KeyError".toList))
  | some decision =>
    match texts.get? lm.lineId with
    | none => .error (.projection (.missing lm.lineId lm.pageId sourceName))
    | some extracted =>
      match classifyProjectionFidelity decision.finalText extracted (verbatim.get? lm.lineId) with
      | none =>
        .error (.projection (.diverges sourceName lm.lineId lm.pageId decision.finalText extracted))
      | some level => .ok (levels.set lm.lineId level)

/-- The rewritten file must say what the run decided, line for line. -/
def verifyProjection (sourceName : Str) (pages : List PageManifest) (texts verbatim : Dict Str Str)
    (decisions : Dict LineRef LineDecision) : Except RenderError (Dict Str ProjectionFidelity) :=
  (pages.flatMap PageManifest.lines).foldlM (verifyLine sourceName texts verbatim decisions) []

/-- Rewrite one file, and refuse the result if it does not say what the run
decided. -/
def rewriteAndVerify {β : Type} (adapter : FormatAdapter β) (xmlPath sourceName : Str)
    (pages : List PageManifest) (decisions : Dict LineRef LineDecision) :
    Except RenderError (RewriteResult β × Dict Str ProjectionFidelity) := do
  let result ← adapter.rewriteFile xmlPath pages
  let levels ← verifyProjection sourceName pages result.texts result.textsVerbatim decisions
  return (result, levels)

/-! ## The traces -/

/-- What a line's trace says of its rewrite. -/
structure LineProjection where
  rewriterPath : Option Str
  extractedText : Option Str
  fidelity : Option ProjectionFidelity
  losses : Option (Dict Str Nat)
  wordOrderSuspected : Option Bool

/-- Of a line whose file was not rewritten. -/
def LineProjection.blank : LineProjection := ⟨none, none, none, none, none⟩

/-- The refs of a file's lines, by their bare ids. -/
def lidToRef (pages : List PageManifest) : Dict Str LineRef :=
  Dict.ofList ((pages.flatMap PageManifest.lines).map fun lm => (lm.lineId, lineRef lm))

/-- Write one channel of a line's trace, if the line is tracked. -/
def putTrace (refs : Dict Str LineRef) (write : LineProjection → LineProjection)
    (traces : Dict LineRef LineProjection) (lineId : Str) : Dict LineRef LineProjection :=
  match refs.get? lineId with
  | none => traces
  | some ref =>
    match traces.get? ref with
    | none => traces
    | some trace => traces.set ref (write trace)

/-- Write one channel of the traces of a table's lines. -/
def putTraces {α : Type} (refs : Dict Str LineRef) (write : α → LineProjection → LineProjection)
    (entries : Dict Str α) (traces : Dict LineRef LineProjection) : Dict LineRef LineProjection :=
  entries.foldl (fun traces e => putTrace refs (write e.2) traces e.1) traces

/-- Fan one file's rewrite out onto the channels it feeds. -/
def recordRewriteOnTraces {β : Type} (result : RewriteResult β)
    (levels : Dict Str ProjectionFidelity)
    (pages : List PageManifest)
    (traces : Dict LineRef LineProjection) : Dict LineRef LineProjection :=
  let refs := lidToRef pages
  let traces := putTraces refs (fun path trace => { trace with rewriterPath := some path })
    result.rewriterPaths traces
  let traces := putTraces refs (fun text trace => { trace with extractedText := some text })
    result.texts traces
  let traces := putTraces refs (fun level trace => { trace with fidelity := some level })
    levels traces
  let traces := putTraces refs (fun losses trace => { trace with losses := some losses })
    result.lossesByLine traces
  putTraces refs (fun (_ : Unit) trace => { trace with wordOrderSuspected := some true })
    (result.wordOrderSuspected.map fun lineId => (lineId, ())) traces

/-! ## The files -/

/-- What observers are told of a rewritten file. -/
structure RewriterStats where
  xmlPath : Str
  metrics : RewriteMetrics

/-- What the rewriting has come to so far. -/
structure RenderState (β : Type) where
  traces : Dict LineRef LineProjection
  losses : Dict Str Nat
  correctedFiles : Dict Str β
  undeliverable : Dict Str ProjectionFailure
  told : List RewriterStats

/-- The trace of every line before anything is rewritten. -/
def blankTraces (pages : List PageManifest) : Dict LineRef LineProjection :=
  Dict.ofList ((pages.flatMap PageManifest.lines).map fun lm => (lineRef lm, .blank))

section Render

variable {β : Type} (adapter : FormatAdapter β)
  (observer : List RewriterStats → RewriterStats → Option Fault)
  (pages : List PageManifest) (decisions : Dict LineRef LineDecision)

/-- Rewrite one source file.  One the document does not hold is passed over,
one that cannot be delivered is set aside. -/
def renderFile (state : RenderState β) (source : Str × Str) : Except Fault (RenderState β) :=
  let pagesForFile := pagesOfFile pages source.1
  if pagesForFile = [] then .ok state
  else
    match rewriteAndVerify adapter source.2 source.1 pagesForFile decisions with
    | .error (.projection failure) =>
      .ok { state with undeliverable := state.undeliverable.set source.1 failure }
    | .error (.fault fault) => .error fault
    | .ok (result, levels) =>
      match observer state.told ⟨source.2, result.metrics⟩ with
      | some fault => .error fault
      | none => .ok {
          traces := recordRewriteOnTraces result levels pagesForFile state.traces
          losses := state.losses.addAll result.losses
          correctedFiles := state.correctedFiles.set source.1 result.xmlBytes
          undeliverable := state.undeliverable
          told := state.told ++ [⟨source.2, result.metrics⟩] }

/-- Rewrite the source files in their order. -/
def renderOutputs (sourceFiles : Dict Str Str) : Except Fault (RenderState β) :=
  sourceFiles.foldlM (renderFile adapter observer pages decisions) ⟨blankTraces pages,
    [], [], [], []⟩

end Render

/-! ## What the report counts -/

/-- The value of a fidelity level. -/
def ProjectionFidelity.value : ProjectionFidelity → Str
  | .exact => "exact".toList
  | .sourceSpelling => "source_spelling".toList
  | .tokenEquivalent => "token_equivalent".toList
  | .normalized => "normalized".toList

/-- One more line at the level it reached, if its file was rewritten. -/
def countFidelity (counts : Dict Str Nat) (level : Option ProjectionFidelity) : Dict Str Nat :=
  match level with
  | none => counts
  | some level => counts.add level.value 1

/-- Count the run's lines by the fidelity their projection reached. -/
def fidelityCounts (traces : Dict LineRef LineProjection) : Dict Str Nat :=
  traces.foldl (fun counts e => countFidelity counts e.2.fidelity) []

/-! ## What a rewrite leaves on the traces -/

section Traces

variable {β : Type} {refs : Dict Str LineRef} {traces : Dict LineRef LineProjection}

/-- Writing one trace changes no other. -/
theorem get?_putTrace (write : LineProjection → LineProjection) (lineId : Str) (ref : LineRef) :
    (putTrace refs write traces lineId).get? ref =
      (traces.get? ref).map fun trace => if refs.get? lineId = some ref then write trace
          else trace := by
  unfold putTrace
  split
  · next hnone => simp [hnone]
  · next ref' href =>
    by_cases hsame : ref' = ref
    · subst hsame
      cases htrace : traces.get? ref' with
      | none => simp [htrace]
      | some trace => simp [Dict.get?_set, href]
    · have hne : refs.get? lineId ≠ some ref := by
        rw [href]
        simpa using hsame
      cases htrace : traces.get? ref' with
      | none => simp [hne]
      | some trace => simp [Dict.get?_set, hne, Ne.symm hsame]

theorem keys_putTrace (write : LineProjection → LineProjection) (lineId : Str) :
    Dict.keys (putTrace refs write traces lineId) = Dict.keys traces := by
  unfold putTrace
  split
  · rfl
  · split
    · rfl
    · next ref' _ trace htrace =>
      rw [Dict.keys_set, if_pos]
      rw [← Dict.isSome_get?, htrace]
      rfl

theorem keys_putTraces {α : Type} (write : α → LineProjection → LineProjection)
    (entries : Dict Str α) :
    Dict.keys (putTraces refs write entries traces) = Dict.keys traces := by
  unfold putTraces
  induction entries generalizing traces with
  | nil => rfl
  | cons e entries ih => exact ih.trans (keys_putTrace _ _)

/-- **A table writes its own lines' traces**, and each of them once. -/
theorem get?_putTraces (hids : ∀ lineId ref, refs.get? lineId = some ref → ref.lineId = lineId)
    {α : Type} (write : α → LineProjection → LineProjection) {entries : Dict Str α}
    (hnodup : (Dict.keys entries).Nodup) (ref : LineRef) :
    (putTraces refs write entries traces).get? ref = (traces.get? ref).map fun trace =>
      if refs.get? ref.lineId = some ref then (entries.get? ref.lineId).elim trace (write · trace)
      else trace := by
  unfold putTraces
  -- the traces are keyed by reference, so an entry reaches only the line it names
  induction entries generalizing traces with
  | nil =>
    simp only [List.foldl_nil]
    cases traces.get? ref with
    | none => rfl
    | some trace =>
      have hnone : Dict.get? ([] : Dict Str α) ref.lineId = none := rfl
      simp [hnone]
  | cons e entries ih =>
    obtain ⟨hnew, hrest⟩ := List.nodup_cons.mp hnodup
    rw [List.foldl_cons, ih hrest, get?_putTrace, Option.map_map]
    refine congrArg (Option.map · _) (funext fun trace => ?_)
    dsimp only [Function.comp_apply]
    by_cases href : refs.get? ref.lineId = some ref
    · rw [if_pos href, if_pos href, Dict.get?_cons]
      by_cases heq : e.1 = ref.lineId
      · have hlast : Dict.get? entries ref.lineId = none := by
          rw [← Option.not_isSome_iff_eq_none, Dict.isSome_get?]
          exact heq ▸ hnew
        rw [hlast, if_pos heq, heq, if_pos href]
        rfl
      · have hother : refs.get? e.1 ≠ some ref := fun h => heq (hids _ _ h).symm
        rw [if_neg heq, if_neg hother]
    · rw [if_neg href, if_neg href]
      have hother : refs.get? e.1 ≠ some ref := by
        intro h
        exact href (by rwa [← hids _ _ h] at h)
      rw [if_neg hother]

/-- What a delivered file leaves on the trace of one of its lines. -/
def LineProjection.of (result : RewriteResult β) (levels : Dict Str ProjectionFidelity)
    (lineId : Str) : LineProjection where
  rewriterPath := result.rewriterPaths.get? lineId
  extractedText := result.texts.get? lineId
  fidelity := levels.get? lineId
  losses := result.lossesByLine.get? lineId
  wordOrderSuspected := if lineId ∈ result.wordOrderSuspected then some true else none

theorem lineId_of_lidToRef {pages : List PageManifest} {lineId : Str} {ref : LineRef}
    (h : (lidToRef pages).get? lineId = some ref) : ref.lineId = lineId := by
  have hmem := Dict.mem_of_mem_ofList (Dict.mem_of_get? h)
  obtain ⟨lm, -, heq⟩ := List.mem_map.mp hmem
  obtain ⟨rfl, rfl⟩ := Prod.mk.inj heq
  rfl

theorem keys_recordRewriteOnTraces (result : RewriteResult β) (levels : Dict Str ProjectionFidelity)
    (pages : List PageManifest) :
    Dict.keys (recordRewriteOnTraces result levels pages traces) = Dict.keys traces := by
  unfold recordRewriteOnTraces
  simp only [keys_putTraces]

theorem nodup_suspected (result : RewriteResult β) :
    (Dict.keys (result.wordOrderSuspected.map fun lineId => (lineId, ()))).Nodup := by
  rw [Dict.keys, List.map_map]
  exact (List.map_id _).symm ▸ result.suspected_nodup

theorem get?_suspected (suspected : List Str) (lineId : Str) :
    Dict.get? (suspected.map fun lineId => (lineId, ())) lineId =
      if lineId ∈ suspected then some () else none :=
  (Dict.get?_map_pair suspected (fun _ => ()) lineId).trans (by congr)

/-- A line's trace is written where the file knows the line by its id. -/
theorem get?_recordRewriteOnTraces (result : RewriteResult β) {levels : Dict Str ProjectionFidelity}
    (hlevels : (Dict.keys levels).Nodup) {pages : List PageManifest} {ref : LineRef}
    (hblank : traces.get? ref = some .blank) (href : (lidToRef pages).get? ref.lineId = some ref) :
    (recordRewriteOnTraces result levels pages traces).get? ref =
      some (.of result levels ref.lineId) := by
  have hput : ∀ {α : Type} (write : α → LineProjection → LineProjection) {entries : Dict Str α}
      {traces : Dict LineRef LineProjection} {t : LineProjection}, (Dict.keys entries).Nodup →
      traces.get? ref = some t → (putTraces (lidToRef pages) write entries traces).get? ref =
        some ((entries.get? ref.lineId).elim t (write · t)) := by
    intro α write entries traces t hnodup htrace
    rw [get?_putTraces (fun _ _ => lineId_of_lidToRef) write hnodup, htrace,
      Option.map_some, if_pos href]
  let paths := result.rewriterPaths.get? ref.lineId
  let text := result.texts.get? ref.lineId
  let level := levels.get? ref.lineId
  let losses := result.lossesByLine.get? ref.lineId
  unfold recordRewriteOnTraces
  refine (hput _ (nodup_suspected result) (t := ⟨paths, text, level, losses, none⟩) ?_).trans ?_
  · refine (hput _ result.lossesByLine_nodup (t := ⟨paths, text, level, none, none⟩) ?_).trans ?_
    · refine (hput _ hlevels (t := ⟨paths, text, none, none, none⟩) ?_).trans ?_
      · refine (hput _ result.texts_nodup (t := ⟨paths, none, none, none, none⟩) ?_).trans ?_
        · apply (hput _ result.paths_nodup hblank).trans
          cases hpath : result.rewriterPaths.get? ref.lineId <;> simp [paths, hpath,
            LineProjection.blank]
        · cases htext : result.texts.get? ref.lineId <;> simp [text, htext]
      · cases hlevel : levels.get? ref.lineId <;> simp [level, hlevel]
    · cases hlosses : result.lossesByLine.get? ref.lineId <;> simp [losses, hlosses]
  · rw [get?_suspected]
    unfold LineProjection.of
    split <;> simp_all [paths, text, level, losses]

theorem get?_recordRewriteOnTraces_of_ne (result : RewriteResult β)
    {levels : Dict Str ProjectionFidelity} (hlevels : (Dict.keys levels).Nodup)
    {pages : List PageManifest} {ref : LineRef}
    (href : (lidToRef pages).get? ref.lineId ≠ some ref) :
    (recordRewriteOnTraces result levels pages traces).get? ref = traces.get? ref := by
  have hids : ∀ lineId ref, (lidToRef pages).get? lineId = some ref → ref.lineId = lineId :=
    fun _ _ => lineId_of_lidToRef
  unfold recordRewriteOnTraces
  simp only [get?_putTraces hids _ (nodup_suspected result),
    get?_putTraces hids _ result.lossesByLine_nodup,
    get?_putTraces hids _ hlevels, get?_putTraces hids _ result.texts_nodup,
    get?_putTraces hids _ result.paths_nodup, href, if_false, Option.map_id']

end Traces

/-! ## What the projection invariant establishes -/

/-- The file says what was decided for the line, at this level. -/
def SaysDecision {β : Type} (result : RewriteResult β) (decisions : Dict LineRef LineDecision)
    (lm : LineManifest) (level : ProjectionFidelity) : Prop :=
  ∃ decision text, decisions.get? (lineRef lm) = some decision ∧
    result.texts.get? lm.lineId = some text ∧
      classifyProjectionFidelity decision.finalText text
        (result.textsVerbatim.get? lm.lineId) = some level

/-- The file does not say what was decided for the line. -/
def Belies {β : Type} (result : RewriteResult β) (decisions : Dict LineRef LineDecision)
    (sourceName : Str) (lm : LineManifest) (failure : ProjectionFailure) : Prop :=
  ∃ decision, decisions.get? (lineRef lm) = some decision ∧
    (result.texts.get? lm.lineId = none ∧ failure = .missing lm.lineId lm.pageId sourceName ∨
      ∃ text, result.texts.get? lm.lineId = some text ∧
        classifyProjectionFidelity decision.finalText text (result.textsVerbatim.get? lm.lineId) =
          none ∧ failure = .diverges sourceName lm.lineId lm.pageId decision.finalText text)

section Verify

variable {β : Type} {result : RewriteResult β} {decisions : Dict LineRef LineDecision}
  {sourceName : Str}

/-- A verified line says what was decided, at a level. -/
theorem verifyLine_ok {levels levels' : Dict Str ProjectionFidelity} {lm : LineManifest}
    (h : verifyLine sourceName result.texts result.textsVerbatim decisions levels lm =
      .ok levels') :
    ∃ level, SaysDecision result decisions lm level ∧ levels' = levels.set lm.lineId level := by
  unfold verifyLine at h
  split at h
  · cases h
  · next decision hdecision =>
    split at h
    · cases h
    · next text htext =>
      split at h
      · cases h
      · next level hlevel =>
        cases h
        exact ⟨level, ⟨decision, text, hdecision, htext, hlevel⟩, rfl⟩

/-- A line that is refused belies the decision. -/
theorem verifyLine_error {levels : Dict Str ProjectionFidelity} {lm : LineManifest}
    {failure : ProjectionFailure}
    (h : verifyLine sourceName result.texts result.textsVerbatim decisions levels lm =
      .error (.projection failure)) : Belies result decisions sourceName lm failure := by
  unfold verifyLine at h
  split at h
  · cases h
  · next decision hdecision =>
    split at h
    · next htext =>
      cases h
      exact ⟨decision, hdecision, .inl ⟨htext, rfl⟩⟩
    · next text htext =>
      split at h
      · next hlevel =>
        cases h
        exact ⟨decision, hdecision, .inr ⟨text, htext, hlevel, rfl⟩⟩
      · cases h

/-- **What passes says every decision**, each line at the level recorded for it. -/
theorem foldlM_verifyLine_ok {lines : List LineManifest}
    (hids : (lines.map LineManifest.lineId).Nodup) :
    ∀ {levels levels' : Dict Str ProjectionFidelity}, (Dict.keys levels).Nodup →
      lines.foldlM (verifyLine sourceName result.texts result.textsVerbatim decisions) levels =
        .ok levels' →
      (Dict.keys levels').Nodup ∧
        (∀ lm ∈ lines, ∃ level, SaysDecision result decisions lm level ∧
          levels'.get? lm.lineId = some level) ∧
          ∀ lineId ∉ lines.map LineManifest.lineId, levels'.get? lineId = levels.get? lineId := by
  induction lines with
  | nil =>
    intro levels levels' hnodup h
    cases h
    exact ⟨hnodup, by simp, fun _ _ => rfl⟩
  | cons lm lines ih =>
    intro levels levels' hnodup h
    obtain ⟨hnew, hrest⟩ := List.nodup_cons.mp hids
    rw [List.foldlM_cons] at h
    obtain ⟨between, hfirst, hlast⟩ := Fallible.bind_eq_ok.mp h
    obtain ⟨level, hsays, rfl⟩ := verifyLine_ok hfirst
    obtain ⟨hkeys, hlines, hothers⟩ := ih hrest (Dict.nodup_keys_set hnodup _ _) hlast
    refine ⟨hkeys, fun lm' hlm => ?_, fun lineId hid => ?_⟩
    · rcases List.mem_cons.mp hlm with rfl | hmem
      · refine ⟨level, hsays, ?_⟩
        rw [hothers _ hnew, Dict.get?_set, if_pos rfl]
      · exact hlines lm' hmem
    · simp only [List.map_cons, List.mem_cons, not_or] at hid
      rw [hothers _ hid.2, Dict.get?_set, if_neg hid.1]

/-- A file is refused for one of its lines. -/
theorem foldlM_verifyLine_error {lines : List LineManifest} {failure : ProjectionFailure} :
    ∀ {levels : Dict Str ProjectionFidelity},
      lines.foldlM (verifyLine sourceName result.texts result.textsVerbatim decisions) levels =
        .error (.projection failure) →
      ∃ lm ∈ lines, Belies result decisions sourceName lm failure := by
  induction lines with
  | nil => exact fun h => nomatch h
  | cons lm lines ih =>
    intro levels h
    rw [List.foldlM_cons] at h
    cases hfirst : verifyLine sourceName result.texts result.textsVerbatim decisions levels lm with
    | error error =>
      rw [hfirst] at h
      cases h
      exact ⟨lm, by simp, verifyLine_error hfirst⟩
    | ok between =>
      rw [hfirst] at h
      obtain ⟨lm', hmem, hbelies⟩ := ih h
      exact ⟨lm', by simp [hmem], hbelies⟩

end Verify

end Saknussemm
