import Saknussemm.Run.Rendering
import Saknussemm.Run.Turns

/-! # What a run hands over.

Every source file of the document is handed over or refused.  What is
handed over was read back and says the run's decisions, and the traces and
counters of the report speak of these files alone. -/

namespace Saknussemm

open Effects

/-! ## File after file -/

/-- The lines of a file, as the engine hands them to its rewriter. -/
def linesOfFile (pages : List PageManifest) (sourceName : Str) : List LineManifest :=
  (pagesOfFile pages sourceName).flatMap PageManifest.lines

/-- Pages whose lines are told apart: by their refs, and within one file by
their bare ids. -/
structure ToldApart (pages : List PageManifest) : Prop where
  named : ∀ page ∈ pages, ∀ lm ∈ page.lines, lm.pageId = page.pageId
  pageIds : (pages.map PageManifest.pageId).Nodup
  lineIds : ∀ sourceName, ((linesOfFile pages sourceName).map LineManifest.lineId).Nodup

section Files

variable {β : Type} {adapter : FormatAdapter β}
  {observer : List RewriterStats → RewriterStats → Option Fault}
  {pages : List PageManifest} {decisions : Dict LineRef LineDecision}

theorem mem_linesOfFile {sourceName : Str} {lm : LineManifest} :
    lm ∈ linesOfFile pages sourceName ↔ ∃ page ∈ pages, page.sourceFile = sourceName ∧
        lm ∈ page.lines := by
  simp [linesOfFile, pagesOfFile, and_assoc]

/-- Within its file a line is known by its bare id. -/
theorem ToldApart.get?_lidToRef (h : ToldApart pages) {sourceName : Str} {lm : LineManifest}
    (hlm : lm ∈ linesOfFile pages sourceName) :
    (lidToRef (pagesOfFile pages sourceName)).get? lm.lineId = some (lineRef lm) := by
  have hkeys : (((linesOfFile pages sourceName).map fun lm => (lm.lineId, lineRef lm)).map
      Prod.fst).Nodup := by
    rw [List.map_map]
    exact h.lineIds sourceName
  show Dict.get? (Dict.ofList ((linesOfFile pages sourceName).map _)) _ = _
  rw [Dict.ofList_of_nodup hkeys]
  exact Dict.get?_of_mem hkeys (List.mem_map_of_mem (f := fun lm => (lm.lineId, lineRef lm)) hlm)

/-- A line of another file is none of this file's. -/
theorem ToldApart.get?_lidToRef_ne (h : ToldApart pages) {sourceName : Str} {page : PageManifest}
    (hpage : page ∈ pages) (hfile : page.sourceFile ≠ sourceName) {lm : LineManifest}
    (hlm : lm ∈ page.lines) :
    (lidToRef (pagesOfFile pages sourceName)).get? lm.lineId ≠ some (lineRef lm) := by
  intro hget
  obtain ⟨lm', hlm', heq⟩ := List.mem_map.mp (Dict.mem_of_mem_ofList (Dict.mem_of_get? hget))
  obtain ⟨page', hpage', hfile', hin⟩ := mem_linesOfFile.mp (show lm' ∈ linesOfFile _ _ from hlm')
  have hid : page'.pageId = page.pageId := by
    rw [← h.named page' hpage' lm' hin, ← h.named page hpage lm hlm]
    exact congrArg (fun e : Str × LineRef => e.2.pageId) heq
  have hsame : page' = page := List.inj_on_of_nodup_map h.pageIds hpage' hpage hid
  exact hfile (hsame ▸ hfile')

variable (adapter pages decisions) in
/-- The rewrite of a source file of the document that says its decisions. -/
def deliveredResult (source : Str × Str) : Option (RewriteResult β × Dict Str ProjectionFidelity) :=
  if pagesOfFile pages source.1 = [] then none
  else (rewriteAndVerify adapter source.2 source.1 (pagesOfFile pages source.1) decisions).toOption

variable (adapter pages decisions) in
/-- Why a source file of the document is refused. -/
def refusal (source : Str × Str) : Option ProjectionFailure :=
  if pagesOfFile pages source.1 = [] then none
  else match rewriteAndVerify adapter source.2 source.1 (pagesOfFile pages source.1) decisions with
    | .error (.projection failure) => some failure
    | _ => none

variable (adapter pages decisions) in
/-- What the files done so far leave. -/
structure Rendered (done : List (Str × Str)) (state : RenderState β) : Prop where
  corrected : state.correctedFiles = done.filterMap fun source =>
    (deliveredResult adapter pages decisions source).map fun r => (source.1, r.1.xmlBytes)
  undeliverable : state.undeliverable = done.filterMap fun source =>
    (refusal adapter pages decisions source).map fun failure => (source.1, failure)
  judged : ∀ source ∈ done, pagesOfFile pages source.1 ≠ [] →
    (deliveredResult adapter pages decisions source).isSome ∨
      (refusal adapter pages decisions source).isSome
  losses : ∀ key, state.losses.tally key = (done.map fun source =>
    (deliveredResult adapter pages decisions source).elim 0 fun r => r.1.losses.tally key).sum
  keys : Dict.keys state.traces = Dict.keys (blankTraces pages)
  traces : ∀ page ∈ pages, ∀ lm ∈ page.lines, state.traces.get? (lineRef lm) =
    some (((done.find? fun source => source.1 = page.sourceFile).bind
      (deliveredResult adapter pages decisions)).elim .blank fun r => .of r.1 r.2 lm.lineId)

theorem keys_blankTraces_of_nodup
    (hnodup : ((pages.flatMap PageManifest.lines).map lineRef).Nodup) :
    blankTraces pages = (pages.flatMap PageManifest.lines).map fun lm => (lineRef lm, .blank) := by
  unfold blankTraces
  apply Dict.ofList_of_nodup
  rw [List.map_map]
  exact hnodup

/-- Before any file nothing is delivered, and every trace is blank. -/
theorem rendered_nil : Rendered adapter pages decisions [] ⟨blankTraces pages, [], [], [], []⟩ where
  corrected := rfl
  undeliverable := rfl
  judged := by simp
  losses _ := rfl
  keys := rfl
  traces page hpage lm hlm := by
    have hmem : (lineRef lm, LineProjection.blank) ∈ (pages.flatMap PageManifest.lines).map
        fun lm => (lineRef lm, LineProjection.blank) :=
      List.mem_map_of_mem (f := fun lm => (lineRef lm, LineProjection.blank))
        (List.mem_flatMap.mpr ⟨page, hpage, hlm⟩)
    have hkey : lineRef lm ∈ Dict.keys (blankTraces pages) :=
      Dict.mem_keys_ofList.mpr (List.mem_map_of_mem (f := Prod.fst) hmem)
    obtain ⟨trace, htrace⟩ := Option.isSome_iff_exists.mp (Dict.isSome_get?.mpr hkey)
    obtain ⟨lm', -, heq⟩ := List.mem_map.mp (Dict.mem_of_mem_ofList (Dict.mem_of_get? htrace))
    rw [htrace, ← (Prod.mk.inj heq).2]
    rfl

theorem rewriteAndVerify_ok {xmlPath sourceName : Str} {result : RewriteResult β}
    {levels : Dict Str ProjectionFidelity}
    (h : rewriteAndVerify adapter xmlPath sourceName (pagesOfFile pages sourceName) decisions =
      .ok (result, levels)) :
    adapter.rewriteFile xmlPath (pagesOfFile pages sourceName) = .ok result ∧
      (linesOfFile pages sourceName).foldlM
        (verifyLine sourceName result.texts result.textsVerbatim decisions) [] = .ok levels := by
  obtain ⟨result', hrewrite, h⟩ := Fallible.bind_eq_ok.mp h
  obtain ⟨levels', hverify, h⟩ := Fallible.bind_eq_ok.mp h
  cases h
  exact ⟨hrewrite, hverify⟩

theorem ToldApart.nodup_levels (h : ToldApart pages) {xmlPath sourceName : Str}
    {result : RewriteResult β} {levels : Dict Str ProjectionFidelity}
    (hok : rewriteAndVerify adapter xmlPath sourceName (pagesOfFile pages sourceName) decisions =
      .ok (result, levels)) : (Dict.keys levels).Nodup :=
  (foldlM_verifyLine_ok (h.lineIds sourceName)
    (show (Dict.keys ([] : Dict Str ProjectionFidelity)).Nodup from List.nodup_nil)
    (rewriteAndVerify_ok hok).2).1

theorem find?_of_notMem {done : List (Str × Str)} {name : Str} (hnew : name ∉ done.map Prod.fst) :
    done.find? (fun s => s.1 = name) = none := by
  refine List.find?_eq_none.mpr fun s hs => ?_
  simpa using fun heq => hnew (List.mem_map.mpr ⟨s, hs, heq⟩)

theorem find?_append_singleton {done : List (Str × Str)} {source : Str × Str}
    (hnew : source.1 ∉ done.map Prod.fst) (name : Str) :
    (done ++ [source]).find? (fun s => s.1 = name) =
      if source.1 = name then some source else done.find? fun s => s.1 = name := by
  rw [List.find?_append]
  by_cases hname : source.1 = name
  · rw [find?_of_notMem (hname ▸ hnew), if_pos hname]
    simp [hname]
  · rw [if_neg hname]
    simp [hname]

/-- A source file is not found among those done before it. -/
theorem notMem_keys_filterMap {α γ : Type} {done : List (Str × Str)} {name : Str}
    (hnew : name ∉ done.map Prod.fst) (found : Str × Str → Option γ) (value : γ → α) :
    name ∉ Dict.keys (done.filterMap fun source => (found source).map fun r =>
        (source.1, value r)) := by
  intro hmem
  obtain ⟨e, he, rfl⟩ := List.mem_map.mp hmem
  obtain ⟨source, hsource, heq⟩ := List.mem_filterMap.mp he
  obtain ⟨r, -, rfl⟩ := Option.map_eq_some_iff.mp heq
  exact hnew (List.mem_map_of_mem hsource)

/-- A file that is not handed over leaves no mark but the reason. -/
theorem Rendered.unmarked {done : List (Str × Str)} {state : RenderState β} {source : Str × Str}
    (h : Rendered adapter pages decisions done state) (hnew : source.1 ∉ done.map Prod.fst)
    (hnone : deliveredResult adapter pages decisions source = none)
    (hjudged : pagesOfFile pages source.1 ≠ [] → (refusal adapter pages decisions source).isSome)
    {undeliverable : Dict Str ProjectionFailure}
    (hundeliverable : undeliverable = state.undeliverable ++
      ((refusal adapter pages decisions source).map fun failure => (source.1, failure)).toList) :
    Rendered adapter pages decisions (done ++ [source]) { state with undeliverable } where
  corrected := by
    rw [List.filterMap_append, ← h.corrected]
    simp [hnone]
  undeliverable := by
    rw [List.filterMap_append, ← h.undeliverable, hundeliverable]
    cases hrefused : refusal adapter pages decisions source <;> simp [hrefused]
  judged := by
    intro s hs hpresent
    rcases List.mem_append.mp hs with hs | hs
    · exact h.judged s hs hpresent
    · rw [List.mem_singleton.mp hs] at hpresent ⊢
      exact .inr (hjudged hpresent)
  losses key := by
    rw [show state.losses.tally key = _ from h.losses key]
    simp [hnone]
  keys := h.keys
  traces page hpage lm hlm := by
    have hbefore := h.traces page hpage lm hlm
    rw [find?_append_singleton hnew]
    split
    · next hname =>
      rw [← hname, find?_of_notMem hnew] at hbefore
      rw [Option.bind_some, hnone]
      exact hbefore
    · exact hbefore

/-- A file that is handed over writes the traces of its own lines alone. -/
theorem Rendered.delivered (hapart : ToldApart pages) {done : List (Str × Str)}
    {state : RenderState β} {source : Str × Str} (h : Rendered adapter pages decisions done state)
    (hnew : source.1 ∉ done.map Prod.fst) (hpresent : pagesOfFile pages source.1 ≠ [])
    {result : RewriteResult β} {levels : Dict Str ProjectionFidelity}
    (hok : rewriteAndVerify adapter source.2 source.1 (pagesOfFile pages source.1) decisions =
      .ok (result, levels)) (told : List RewriterStats) :
    Rendered adapter pages decisions (done ++ [source]) {
      traces := recordRewriteOnTraces result levels (pagesOfFile pages source.1) state.traces
      losses := state.losses.addAll result.losses
      correctedFiles := state.correctedFiles.set source.1 result.xmlBytes
      undeliverable := state.undeliverable
      told := told } := by
  have hsome : deliveredResult adapter pages decisions source = some (result, levels) := by
    rw [deliveredResult, if_neg hpresent, hok]
    rfl
  have hunrefused : refusal adapter pages decisions source = none := by
    rw [refusal, if_neg hpresent, hok]
  -- one clause of `Rendered` after another; only the entries of this file's own lines change
  have hlevels := hapart.nodup_levels hok
  refine ⟨?_, ?_, ?_, fun key => ?_, ?_, fun page hpage lm hlm => ?_⟩
  · have hkey := notMem_keys_filterMap hnew (deliveredResult adapter pages decisions)
      fun r => r.1.xmlBytes
    rw [List.filterMap_append]
    show Dict.set state.correctedFiles source.1 result.xmlBytes = _
    rw [Dict.set_of_notMem (h.corrected ▸ hkey), h.corrected]
    simp [hsome]
  · rw [List.filterMap_append, ← h.undeliverable]
    simp [hunrefused]
  · intro s hs hpresent'
    rcases List.mem_append.mp hs with hs | hs
    · exact h.judged s hs hpresent'
    · rw [List.mem_singleton.mp hs, hsome]
      exact .inl rfl
  · show (state.losses.addAll result.losses).tally key = _
    rw [Dict.tally_addAll result.losses_nodup, h.losses key]
    simp [hsome]
  · exact (keys_recordRewriteOnTraces result levels _).trans h.keys
  · show (recordRewriteOnTraces result levels (pagesOfFile pages source.1) state.traces).get? _ = _
    have hbefore := h.traces page hpage lm hlm
    rw [find?_append_singleton hnew]
    split
    · next hname =>
      rw [← hname, find?_of_notMem hnew] at hbefore
      have hown : lm ∈ linesOfFile pages source.1 :=
        mem_linesOfFile.mpr ⟨page, hpage, hname.symm, hlm⟩
      rw [Option.bind_some, hsome]
      exact get?_recordRewriteOnTraces result hlevels hbefore (hapart.get?_lidToRef hown)
    · next hname =>
      have hother := hapart.get?_lidToRef_ne hpage (Ne.symm hname) hlm
      rw [get?_recordRewriteOnTraces_of_ne result hlevels hother]
      exact hbefore

/-- **One file more.** -/
theorem Rendered.step (hapart : ToldApart pages) {done : List (Str × Str)}
    {state state' : RenderState β}
    {source : Str × Str} (h : Rendered adapter pages decisions done state)
    (hnew : source.1 ∉ done.map Prod.fst)
    (hstep : renderFile adapter observer pages decisions state source = .ok state') :
    Rendered adapter pages decisions (done ++ [source]) state' := by
  unfold renderFile at hstep
  dsimp only at hstep
  -- three ways: no page of this file, a refusal, or a delivered rewrite
  split at hstep
  · next habsent =>
    cases hstep
    have hunrefused : refusal adapter pages decisions source = none := if_pos habsent
    apply h.unmarked hnew (if_pos habsent) fun hpresent => absurd habsent hpresent
    simp [hunrefused]
  · next hpresent =>
    split at hstep
    · next failure hfailure =>
      cases hstep
      have hrefused : refusal adapter pages decisions source = some failure := by
        rw [refusal, if_neg hpresent, hfailure]
      have hkey := notMem_keys_filterMap hnew (refusal adapter pages decisions) id
      apply h.unmarked hnew
      · rw [deliveredResult, if_neg hpresent, hfailure]
        rfl
      · exact fun _ => hrefused ▸ rfl
      · rw [hrefused]
        exact Dict.set_of_notMem (h.undeliverable ▸ hkey) failure
    · cases hstep
    · next result levels hok =>
      split at hstep
      · cases hstep
      · cases hstep
        exact h.delivered hapart hnew hpresent hok _

/-- **What the rewriting comes to**, file by file. -/
theorem rendered_renderOutputs (hapart : ToldApart pages) {sourceFiles : Dict Str Str}
    (hsources : (Dict.keys sourceFiles).Nodup) {outcome : RenderState β}
    (houtcome : renderOutputs adapter observer pages decisions sourceFiles = .ok outcome) :
    Rendered adapter pages decisions sourceFiles outcome := by
  have hrest : ∀ (rest done : List (Str × Str)) (state : RenderState β),
      done ++ rest = sourceFiles → Rendered adapter pages decisions done state →
      rest.foldlM (renderFile adapter observer pages decisions) state = .ok outcome →
      Rendered adapter pages decisions sourceFiles outcome := by
    intro rest
    induction rest with
    | nil =>
      intro done state hdone h hfold
      cases hfold
      rw [List.append_nil] at hdone
      exact hdone ▸ h
    | cons source rest ih =>
      intro done state hdone h hfold
      rw [List.foldlM_cons] at hfold
      obtain ⟨state', hstep, hfold⟩ := Fallible.bind_eq_ok.mp hfold
      have hnew : source.1 ∉ done.map Prod.fst := by
        have hkeys : (done.map Prod.fst ++ source.1 :: rest.map Prod.fst).Nodup := by
          rw [← hdone, Dict.keys, List.map_append, List.map_cons] at hsources
          exact hsources
        intro hmem
        exact (List.nodup_append.mp hkeys).2.2 _ hmem _ (by simp) rfl
      refine ih (done ++ [source]) state' (by simpa using hdone) (h.step hapart hnew hstep) hfold
  exact hrest sourceFiles [] _ rfl rendered_nil houtcome

/-! ## What is handed over -/

variable (adapter pages decisions) in
/-- **What is handed over says what was decided.**  Every source file with
pages is handed over or refused; what is handed over was read back and says
the decision of each of its lines, at the level its trace records; what is
refused does not, and leaves no trace.  The report sums the losses and counts
the lines of what is handed over. -/
structure HandsOver (sourceFiles : Dict Str Str) (outcome : RenderState β) : Prop where
  either : ∀ name, (outcome.correctedFiles.get? name).isSome ∨
    (outcome.undeliverable.get? name).isSome ↔ name ∈ sourceFiles.keys ∧ pagesOfFile pages name ≠ []
  neverBoth : ∀ name, (outcome.correctedFiles.get? name).isSome →
    outcome.undeliverable.get? name = none
  faithful : ∀ name bytes, outcome.correctedFiles.get? name = some bytes →
    ∃ path result, sourceFiles.get? name = some path ∧
      adapter.rewriteFile path (pagesOfFile pages name) = .ok result ∧ result.xmlBytes = bytes ∧
        ∀ lm ∈ linesOfFile pages name, ∃ level, SaysDecision result decisions lm level ∧
          outcome.traces.get? (lineRef lm) = some
            ⟨result.rewriterPaths.get? lm.lineId, result.texts.get? lm.lineId, some level,
              result.lossesByLine.get? lm.lineId,
              if lm.lineId ∈ result.wordOrderSuspected then some true else none⟩
  refused : ∀ name failure, outcome.undeliverable.get? name = some failure →
    ∃ path, sourceFiles.get? name = some path ∧
      (adapter.rewriteFile path (pagesOfFile pages name) = .error (.projection failure) ∨
        ∃ result, adapter.rewriteFile path (pagesOfFile pages name) = .ok result ∧
          ∃ lm ∈ linesOfFile pages name, Belies result decisions name lm failure)
  unmarked : ∀ page ∈ pages, outcome.correctedFiles.get? page.sourceFile = none →
    ∀ lm ∈ page.lines, outcome.traces.get? (lineRef lm) = some .blank
  summed : ∀ key, outcome.losses.tally key = (sourceFiles.map fun source =>
    (deliveredResult adapter pages decisions source).elim 0 fun r => r.1.losses.tally key).sum
  graded : (fidelityCounts outcome.traces).total =
    ((pages.filter fun page => (outcome.correctedFiles.get? page.sourceFile).isSome).flatMap
      PageManifest.lines).length

/-- A source file with pages is undeliverable where it is not handed over. -/
theorem HandsOver.undeliverable_iff {adapter : FormatAdapter β} {pages : List PageManifest}
    {decisions : Dict LineRef LineDecision} {sourceFiles : Dict Str Str} {outcome : RenderState β}
    (h : HandsOver adapter pages decisions sourceFiles outcome) {name : Str}
    (hname : name ∈ sourceFiles.keys ∧ pagesOfFile pages name ≠ []) :
    (outcome.undeliverable.get? name).isSome ↔ ¬ (outcome.correctedFiles.get? name).isSome := by
  constructor
  · intro hlisted hcorrected
    rw [h.neverBoth name hcorrected] at hlisted
    cases hlisted
  · exact ((h.either name).mpr hname).resolve_left

/-- A table made from the files that have a value. -/
theorem get?_filterMap_files {α γ : Type} {sourceFiles : Dict Str Str}
    (hsources : (Dict.keys sourceFiles).Nodup) (found : Str × Str → Option γ)
    (value : γ → α) (name : Str) :
    Dict.get? (sourceFiles.filterMap fun source => (found source).map fun r =>
      (source.1, value r)) name =
      (sourceFiles.get? name).bind fun path => (found (name, path)).map value := by
  induction sourceFiles with
  | nil => rfl
  | cons source sourceFiles ih =>
    obtain ⟨hnew, hrest⟩ := List.nodup_cons.mp hsources
    obtain ⟨name', path⟩ := source
    rw [List.filterMap_cons, Dict.get?_cons]
    by_cases hname : name' = name
    · subst hname
      have hnone : Dict.get? (sourceFiles.filterMap fun source =>
          (found source).map fun r => (source.1, value r)) name' = none := by
        rw [← Option.not_isSome_iff_eq_none, Dict.isSome_get?]
        exact notMem_keys_filterMap hnew found value
      rw [if_pos rfl, Option.bind_some]
      cases hfound : found (name', path) with
      | none => simpa [hfound] using hnone
      | some r => simp [Dict.get?_cons]
    · rw [if_neg hname, ← ih hrest]
      cases hfound : found (name', path) with
      | none => rfl
      | some r => simp [Dict.get?_cons, hname]

/-- Looking a file up by its name. -/
theorem find?_file {sourceFiles : Dict Str Str} (name : Str) :
    sourceFiles.find? (fun source => source.1 = name) =
      (sourceFiles.get? name).map fun path => (name, path) := by
  induction sourceFiles with
  | nil => rfl
  | cons source sourceFiles ih =>
    rw [Dict.get?_cons]
    by_cases hname : source.1 = name
    · subst hname
      simp
    · rw [if_neg hname, ← ih]
      simp [hname]

/-- Lines told apart bear distinct references. -/
theorem ToldApart.nodup_refs (h : ToldApart pages) :
    ((pages.flatMap PageManifest.lines).map lineRef).Nodup := by
  rw [List.map_flatMap, List.nodup_flatMap]
  constructor
  · intro page hpage
    have hsub : page.lines.Sublist (linesOfFile pages page.sourceFile) := by
      rw [linesOfFile, List.flatMap_def]
      exact List.sublist_flatten_of_mem
        (List.mem_map_of_mem (List.mem_filter.mpr ⟨hpage, decide_eq_true rfl⟩))
    have hown := (hsub.map LineManifest.lineId).nodup (h.lineIds page.sourceFile)
    apply List.Nodup.of_map LineRef.lineId
    rw [List.map_map]
    exact hown
  · apply (List.pairwise_map.mp h.pageIds).imp_of_mem
    intro page page' hpage hpage' hne
    refine List.disjoint_left.mpr fun ref href href' => ?_
    obtain ⟨lm, hlm, rfl⟩ := List.mem_map.mp href
    obtain ⟨lm', hlm', heq⟩ := List.mem_map.mp href'
    apply hne
    rw [← h.named page hpage lm hlm, ← h.named page' hpage' lm' hlm']
    exact (congrArg LineRef.pageId heq).symm

/-- The levels counted are the lines that have one. -/
theorem total_fidelityCounts (traces : Dict LineRef LineProjection) :
    (fidelityCounts traces).total = traces.countP fun e => e.2.fidelity.isSome := by
  have hfold : ∀ counts : Dict Str Nat, (Dict.keys counts).Nodup →
      (traces.foldl (fun counts e => countFidelity counts e.2.fidelity) counts).total =
        counts.total + traces.countP fun e => e.2.fidelity.isSome := by
    induction traces with
    | nil => exact fun _ _ => rfl
    | cons e traces ih =>
      intro counts hcounts
      rw [List.foldl_cons, List.countP_cons]
      cases hlevel : e.2.fidelity with
      | none => simpa [countFidelity] using ih counts hcounts
      | some level =>
        apply (ih _ (Dict.nodup_keys_add hcounts _ _)).trans
        rw [Dict.total_add hcounts]
        simp only [Option.isSome_some, if_true]
        omega
  have hstart := hfold [] List.nodup_nil
  rw [show Dict.total ([] : Dict Str Nat) = 0 from rfl, Nat.zero_add] at hstart
  exact hstart

/-- Counting over a table is counting over its keys. -/
theorem countP_traces {traces : Dict LineRef LineProjection} (h : (Dict.keys traces).Nodup) :
    traces.countP (fun e => e.2.fidelity.isSome) =
      (Dict.keys traces).countP fun ref =>
          ((traces.get? ref).bind LineProjection.fidelity).isSome := by
  have hvalues := congrArg (List.countP fun trace : Option LineProjection =>
    (trace.bind LineProjection.fidelity).isSome) (Dict.map_get?_keys h)
  rw [List.countP_map, List.countP_map] at hvalues
  exact hvalues.symm

/-- A delivered file was on the pages and passed its verification. -/
theorem deliveredResult_eq_some {source : Str × Str}
    {r : RewriteResult β × Dict Str ProjectionFidelity}
    (h : deliveredResult adapter pages decisions source = some r) :
    pagesOfFile pages source.1 ≠ [] ∧ rewriteAndVerify adapter source.2 source.1
      (pagesOfFile pages source.1) decisions = .ok r := by
  unfold deliveredResult at h
  split at h
  · cases h
  · next hpresent =>
    refine ⟨hpresent, ?_⟩
    cases hok : rewriteAndVerify adapter source.2 source.1
      (pagesOfFile pages source.1) decisions with
    | error error => simp [hok, Except.toOption] at h
    | ok r' =>
      rw [hok] at h
      rw [Option.some.inj h]

/-- A refused file was on the pages and failed in projection. -/
theorem refusal_eq_some {source : Str × Str} {failure : ProjectionFailure}
    (h : refusal adapter pages decisions source = some failure) :
    pagesOfFile pages source.1 ≠ [] ∧ rewriteAndVerify adapter source.2 source.1
      (pagesOfFile pages source.1) decisions = .error (.projection failure) := by
  unfold refusal at h
  split at h
  · cases h
  · next hpresent =>
    refine ⟨hpresent, ?_⟩
    split at h
    · next failure' hfailure =>
      cases h
      exact hfailure
    · cases h

/-- A file is refused by its rewriter, or for a line it belies. -/
theorem rewriteAndVerify_error {xmlPath sourceName : Str} {failure : ProjectionFailure}
    (h : rewriteAndVerify adapter xmlPath sourceName (pagesOfFile pages sourceName) decisions =
      .error (.projection failure)) :
    adapter.rewriteFile xmlPath (pagesOfFile pages sourceName) = .error (.projection failure) ∨
      ∃ result, adapter.rewriteFile xmlPath (pagesOfFile pages sourceName) = .ok result ∧
        ∃ lm ∈ linesOfFile pages sourceName, Belies result decisions sourceName lm failure := by
  unfold rewriteAndVerify at h
  cases hrewrite : adapter.rewriteFile xmlPath (pagesOfFile pages sourceName) with
  | error error =>
    rw [hrewrite] at h
    cases h
    exact .inl rfl
  | ok result =>
    rw [hrewrite] at h
    refine .inr ⟨result, rfl, ?_⟩
    replace h : (verifyProjection sourceName (pagesOfFile pages sourceName) result.texts
        result.textsVerbatim decisions >>= fun levels => Except.ok (result, levels)) =
          .error (.projection failure) := h
    cases hverify : verifyProjection sourceName (pagesOfFile pages sourceName) result.texts
        result.textsVerbatim decisions with
    | error error =>
      rw [hverify] at h
      cases h
      exact foldlM_verifyLine_error hverify
    | ok levels =>
      rw [hverify] at h
      cases h

omit adapter in
/-- Where the lines of a page are marked together, the marked lines are
those of the marked pages. -/
theorem countP_lines {marked : LineManifest → Bool} {markedPage : PageManifest → Bool}
    (h : ∀ page ∈ pages, ∀ lm ∈ page.lines, marked lm = markedPage page) :
    (pages.flatMap PageManifest.lines).countP marked =
      ((pages.filter markedPage).flatMap PageManifest.lines).length := by
  induction pages with
  | nil => rfl
  | cons page pages ih =>
    have hrest := ih fun p hp => h p (List.mem_cons_of_mem _ hp)
    have hpage : page.lines.countP marked = page.lines.countP fun _ => markedPage page :=
      List.countP_congr fun lm hlm => by rw [h page List.mem_cons_self lm hlm]
    rw [List.flatMap_cons, List.countP_append, hrest, hpage, List.filter_cons]
    cases hmarked : markedPage page <;> simp

section Outcome

variable {sourceFiles : Dict Str Str} {outcome : RenderState β}

theorem Rendered.get?_correctedFiles (h : Rendered adapter pages decisions sourceFiles outcome)
    (hsources : (Dict.keys sourceFiles).Nodup) (name : Str) :
    outcome.correctedFiles.get? name = (sourceFiles.get? name).bind fun path =>
      (deliveredResult adapter pages decisions (name, path)).map fun r => r.1.xmlBytes := by
  rw [h.corrected]
  exact get?_filterMap_files hsources _ _ name

theorem Rendered.get?_undeliverable (h : Rendered adapter pages decisions sourceFiles outcome)
    (hsources : (Dict.keys sourceFiles).Nodup) (name : Str) :
    outcome.undeliverable.get? name = (sourceFiles.get? name).bind fun path =>
      refusal adapter pages decisions (name, path) := by
  rw [h.undeliverable]
  exact (get?_filterMap_files hsources _ id name).trans (by simp)

/-- A file that is handed over is one whose rewrite was checked. -/
theorem Rendered.exists_result (h : Rendered adapter pages decisions sourceFiles outcome)
    (hsources : (Dict.keys sourceFiles).Nodup) {name : Str} {bytes : β}
    (hbytes : outcome.correctedFiles.get? name = some bytes) :
    ∃ path r, sourceFiles.get? name = some path ∧
      deliveredResult adapter pages decisions (name, path) = some r ∧ r.1.xmlBytes = bytes := by
  rw [h.get?_correctedFiles hsources, Option.bind_eq_some_iff] at hbytes
  obtain ⟨path, hpath, hbytes⟩ := hbytes
  obtain ⟨r, hr, hsame⟩ := Option.map_eq_some_iff.mp hbytes
  exact ⟨path, r, hpath, hr, hsame⟩

/-- The trace of a line is that of its file's rewrite. -/
theorem Rendered.get?_traces (h : Rendered adapter pages decisions sourceFiles outcome)
    {page : PageManifest} (hpage : page ∈ pages) {lm : LineManifest} (hlm : lm ∈ page.lines) :
    outcome.traces.get? (lineRef lm) =
      some (((sourceFiles.get? page.sourceFile).bind fun path =>
        deliveredResult adapter pages decisions (page.sourceFile, path)).elim .blank
          fun r => .of r.1 r.2 lm.lineId) := by
  rw [h.traces page hpage lm hlm, find?_file, Option.bind_map]
  rfl

/-- A file not delivered leaves the traces of its lines blank. -/
theorem Rendered.blank_of_none (h : Rendered adapter pages decisions sourceFiles outcome)
    (hsources : (Dict.keys sourceFiles).Nodup) {page : PageManifest} (hpage : page ∈ pages)
    (hnone : outcome.correctedFiles.get? page.sourceFile = none) {lm : LineManifest}
    (hlm : lm ∈ page.lines) : outcome.traces.get? (lineRef lm) = some .blank := by
  rw [h.get?_correctedFiles hsources] at hnone
  rw [h.get?_traces hpage hlm]
  cases hpath : sourceFiles.get? page.sourceFile with
  | none => rfl
  | some path =>
    rw [hpath, Option.bind_some, Option.map_eq_none_iff] at hnone
    rw [Option.bind_some, hnone]
    rfl

/-- Each line of a rewrite that was checked says its decision at some level. -/
theorem exists_level (hapart : ToldApart pages) {name path : Str}
    {r : RewriteResult β × Dict Str ProjectionFidelity}
    (hr : deliveredResult adapter pages decisions (name, path) = some r) {lm : LineManifest}
    (hlm : lm ∈ linesOfFile pages name) :
    ∃ level, SaysDecision r.1 decisions lm level ∧ r.2.get? lm.lineId = some level := by
  obtain ⟨-, hverify⟩ := rewriteAndVerify_ok (deliveredResult_eq_some hr).2
  exact (foldlM_verifyLine_ok (hapart.lineIds name)
    (show (Dict.keys ([] : Dict Str ProjectionFidelity)).Nodup from List.nodup_nil) hverify).2.1
    lm hlm

/-- A file of the pages is delivered or undeliverable, and no other file is
either. -/
theorem Rendered.either (h : Rendered adapter pages decisions sourceFiles outcome)
    (hsources : (Dict.keys sourceFiles).Nodup) (name : Str) :
    (outcome.correctedFiles.get? name).isSome ∨ (outcome.undeliverable.get? name).isSome ↔
      name ∈ sourceFiles.keys ∧ pagesOfFile pages name ≠ [] := by
  rw [h.get?_correctedFiles hsources, h.get?_undeliverable hsources]
  constructor
  · cases hpath : sourceFiles.get? name with
    | none => simp
    | some path =>
      have hkey : name ∈ sourceFiles.keys := by
        rw [← Dict.isSome_get?, hpath]
        rfl
      rintro (hsome | hsome)
      · obtain ⟨bytes, hbytes⟩ := Option.isSome_iff_exists.mp hsome
        obtain ⟨r, hr, -⟩ := Option.map_eq_some_iff.mp hbytes
        exact ⟨hkey, (deliveredResult_eq_some hr).1⟩
      · obtain ⟨failure, hfailure⟩ := Option.isSome_iff_exists.mp hsome
        exact ⟨hkey, (refusal_eq_some hfailure).1⟩
  · rintro ⟨hkey, hpresent⟩
    obtain ⟨path, hpath⟩ := Option.isSome_iff_exists.mp (Dict.isSome_get?.mpr hkey)
    rw [hpath, Option.bind_some, Option.bind_some, Option.isSome_map]
    exact h.judged (name, path) (Dict.mem_of_get? hpath) hpresent

/-- A delivered file is not undeliverable. -/
theorem Rendered.neverBoth (h : Rendered adapter pages decisions sourceFiles outcome)
    (hsources : (Dict.keys sourceFiles).Nodup) {name : Str}
    (hsome : (outcome.correctedFiles.get? name).isSome) :
    outcome.undeliverable.get? name = none := by
  obtain ⟨bytes, hbytes⟩ := Option.isSome_iff_exists.mp hsome
  obtain ⟨path, r, hpath, hr, -⟩ := h.exists_result hsources hbytes
  rw [h.get?_undeliverable hsources, hpath, Option.bind_some]
  cases hrefused : refusal adapter pages decisions (name, path) with
  | none => rfl
  | some failure =>
    -- the check of one rewrite cannot both pass and refuse
    have hok := (deliveredResult_eq_some hr).2
    rw [(refusal_eq_some hrefused).2] at hok
    cases hok

/-- The lines graded are those of the files handed over. -/
theorem Rendered.graded (hapart : ToldApart pages)
    (h : Rendered adapter pages decisions sourceFiles outcome)
    (hsources : (Dict.keys sourceFiles).Nodup) : (fidelityCounts outcome.traces).total =
      ((pages.filter fun page => (outcome.correctedFiles.get? page.sourceFile).isSome).flatMap
        PageManifest.lines).length := by
  have hkeys : Dict.keys outcome.traces = (pages.flatMap PageManifest.lines).map lineRef := by
    rw [h.keys, keys_blankTraces_of_nodup hapart.nodup_refs, Dict.keys, List.map_map]
    rfl
  rw [total_fidelityCounts, countP_traces (hkeys ▸ hapart.nodup_refs), hkeys, List.countP_map]
  -- the lines of a page are graded together, with its file
  refine countP_lines fun page hpage lm hlm => ?_
  show ((outcome.traces.get? (lineRef lm)).bind LineProjection.fidelity).isSome = _
  cases hfile : outcome.correctedFiles.get? page.sourceFile with
  | none =>
    rw [h.blank_of_none hsources hpage hfile hlm]
    rfl
  | some bytes =>
    obtain ⟨path, r, hpath, hr, -⟩ := h.exists_result hsources hfile
    obtain ⟨level, -, hlevel⟩ :=
      exists_level hapart hr (mem_linesOfFile.mpr ⟨page, hpage, rfl, hlm⟩)
    rw [h.get?_traces hpage hlm, hpath, Option.bind_some, Option.bind_some, hr]
    show (r.2.get? lm.lineId).isSome = true
    rw [hlevel]
    rfl

/-- **The rewriting hands over what says the decisions, and that alone.** -/
theorem handsOver_renderOutputs (hapart : ToldApart pages)
    (hsources : (Dict.keys sourceFiles).Nodup)
    (houtcome : renderOutputs adapter observer pages decisions sourceFiles = .ok outcome) :
    HandsOver adapter pages decisions sourceFiles outcome := by
  have h := rendered_renderOutputs hapart hsources houtcome
  refine ⟨h.either hsources, fun name => h.neverBoth hsources, ?faithful, ?refused,
    fun page hpage hnone lm => h.blank_of_none hsources hpage hnone, h.losses,
    h.graded hapart hsources⟩
  case faithful =>
    intro name bytes hbytes
    obtain ⟨path, r, hpath, hr, rfl⟩ := h.exists_result hsources hbytes
    obtain ⟨hrewrite, -⟩ := rewriteAndVerify_ok (deliveredResult_eq_some hr).2
    refine ⟨path, r.1, hpath, hrewrite, rfl, fun lm hlm => ?_⟩
    obtain ⟨level, hsays, hlevel⟩ := exists_level hapart hr hlm
    obtain ⟨page, hpage, rfl, hin⟩ := mem_linesOfFile.mp hlm
    refine ⟨level, hsays, ?_⟩
    -- the trace was written from the same rewrite
    rw [h.get?_traces hpage hin, hpath, Option.bind_some, hr]
    show some (LineProjection.of r.1 r.2 lm.lineId) = _
    rw [LineProjection.of, hlevel]
  case refused =>
    intro name failure hfailure
    rw [h.get?_undeliverable hsources, Option.bind_eq_some_iff] at hfailure
    obtain ⟨path, hpath, hfailure⟩ := hfailure
    exact ⟨path, hpath, rewriteAndVerify_error (refusal_eq_some hfailure).2⟩

end Outcome

/-! ## When the rendering returns -/

variable (adapter pages decisions) in
/-- The rewrite of a file and its check raise nothing but its refusal. -/
def RaisesNothing (source : Str × Str) : Prop :=
  pagesOfFile pages source.1 ≠ [] → ∀ fault, rewriteAndVerify adapter source.2 source.1
    (pagesOfFile pages source.1) decisions ≠ .error (.fault fault)

/-- **The rendering returns exactly when no file raises**, as far as its
observers do not. -/
theorem renderOutputs_isOk (hquiet : ∀ told stats, observer told stats = none)
    (sourceFiles : Dict Str Str) :
    (∃ outcome, renderOutputs adapter observer pages decisions sourceFiles = .ok outcome) ↔
      ∀ source ∈ sourceFiles, RaisesNothing adapter pages decisions source := by
  -- with a quiet observer a file stops the loop only when it raises
  have hfile : ∀ state source, (∃ state', renderFile adapter observer pages decisions state source =
      .ok state') ↔ RaisesNothing adapter pages decisions source := by
    intro state source
    unfold renderFile RaisesNothing
    dsimp only
    split
    · next hnone => simp [hnone]
    · next hpresent =>
      split
      · next failure hfailure => simp [hfailure]
      · next fault hfault => simp [hfault, hpresent]
      · next result levels hok =>
        rw [hquiet]
        simp [hok]
  have hfold : ∀ state, (∃ outcome,
      sourceFiles.foldlM (renderFile adapter observer pages decisions) state =
      .ok outcome) ↔ ∀ source ∈ sourceFiles, RaisesNothing adapter pages decisions source := by
    induction sourceFiles with
    | nil => exact fun state => iff_of_true ⟨state, rfl⟩ (by simp)
    | cons source sourceFiles ih =>
      intro state
      rw [List.forall_mem_cons, ← hfile state source]
      constructor
      · rintro ⟨outcome, h⟩
        rw [List.foldlM_cons] at h
        obtain ⟨state', hstep, hrest⟩ := Fallible.bind_eq_ok.mp h
        exact ⟨⟨state', hstep⟩, (ih state').mp ⟨outcome, hrest⟩⟩
      · rintro ⟨⟨state', hstep⟩, hrest⟩
        obtain ⟨outcome, h⟩ := (ih state').mpr hrest
        refine ⟨outcome, ?_⟩
        rw [List.foldlM_cons]
        exact Fallible.bind_eq_ok.mpr ⟨state', hstep, h⟩
  exact hfold _

/-- Checking lines that all have a decision raises nothing. -/
theorem verifyProjection_ne_fault {sourceName : Str} {texts verbatim : Dict Str Str}
    (h : ∀ lm ∈ pages.flatMap PageManifest.lines, (decisions.get? (lineRef lm)).isSome)
    (fault : Fault) :
    verifyProjection sourceName pages texts verbatim decisions ≠ .error (.fault fault) := by
  have hline : ∀ levels, ∀ lm ∈ pages.flatMap PageManifest.lines,
      verifyLine sourceName texts verbatim decisions levels lm ≠ .error (.fault fault) := by
    intro levels lm hlm heq
    obtain ⟨decision, hdecision⟩ := Option.isSome_iff_exists.mp (h lm hlm)
    rw [verifyLine, hdecision] at heq
    dsimp only at heq
    split at heq
    · cases heq
    · split at heq <;> cases heq
  have hfold : ∀ (lines : List LineManifest) (levels : Dict Str ProjectionFidelity),
      (∀ lm ∈ lines, lm ∈ pages.flatMap PageManifest.lines) →
        lines.foldlM (verifyLine sourceName texts verbatim decisions) levels ≠
            .error (.fault fault) := by
    intro lines
    induction lines with
    | nil => exact fun _ _ h => nomatch h
    | cons lm lines ih =>
      intro levels hin heq
      rw [List.foldlM_cons] at heq
      cases hfirst : verifyLine sourceName texts verbatim decisions levels lm with
      | error error =>
        rw [hfirst] at heq
        cases heq
        exact hline levels lm (hin lm List.mem_cons_self) hfirst
      | ok between =>
        rw [hfirst] at heq
        exact ih between (fun lm' hlm' => hin lm' (List.mem_cons_of_mem _ hlm')) heq
  exact hfold _ _ fun _ h => h

/-- So it is the rewriter that raises. -/
theorem raisesNothing_iff (h : ∀ lm ∈ pages.flatMap PageManifest.lines,
    (decisions.get? (lineRef lm)).isSome)
    {source : Str × Str} : RaisesNothing adapter pages decisions source ↔
      (pagesOfFile pages source.1 ≠ [] → ∀ fault,
        adapter.rewriteFile source.2 (pagesOfFile pages source.1) ≠ .error (.fault fault)) := by
  refine imp_congr_right fun _ => forall_congr' fun fault => not_congr ?_
  have hfile : ∀ lm ∈ (pagesOfFile pages source.1).flatMap PageManifest.lines,
      (decisions.get? (lineRef lm)).isSome := by
    intro lm hlm
    obtain ⟨page, hpage, hin⟩ := List.mem_flatMap.mp hlm
    exact h lm (List.mem_flatMap.mpr ⟨page, (List.mem_filter.mp hpage).1, hin⟩)
  have hverify := fun result : RewriteResult β => @verifyProjection_ne_fault
    (pagesOfFile pages source.1) decisions source.1 result.texts result.textsVerbatim hfile fault
  unfold rewriteAndVerify
  -- the file's own rewrite is the only place a fault can come from
  cases hrewrite : adapter.rewriteFile source.2 (pagesOfFile pages source.1) with
  | error error =>
    show Except.error error = Except.error (RenderError.fault fault) ↔ _
    simp
  | ok result =>
    -- verification refuses, it does not raise
    refine iff_of_false (fun hfault => ?_) fun h => nomatch h
    have hone := hverify result
    replace hfault : (verifyProjection source.1 (pagesOfFile pages source.1) result.texts
        result.textsVerbatim decisions >>= fun levels => Except.ok (result, levels)) =
          .error (.fault fault) := hfault
    cases hchecked : verifyProjection source.1 (pagesOfFile pages source.1) result.texts
        result.textsVerbatim decisions with
    | error error =>
      rw [hchecked] at hfault hone
      cases hfault
      exact hone rfl
    | ok levels =>
      rw [hchecked] at hfault
      cases hfault

end Files

/-! ## Over a whole run -/

section Run

variable [Unicode] [Digest] {β : Type}

/-- The document's pages with their lines as they are now. -/
def decidedPages (document : DocumentManifest) (heap : Heap) : List PageManifest :=
  document.pages.map (currentPage heap)

/-- A run with the files it hands over. -/
def runAndRender (pipeline : CorrectionPipeline) (adapter : FormatAdapter β)
    (observer : List RewriterStats → RewriterStats → Option Fault) (document : DocumentManifest)
    (sourceFiles : Dict Str Str) : Except Fault (CorrectionResult × RenderState β) := do
  let result ← (run pipeline document).1
  let outcome ← renderOutputs adapter observer
    (decidedPages document (run pipeline document).2.heap) (byRef result.decisions) sourceFiles
  return (result, outcome)

variable {pipeline : CorrectionPipeline} {document : DocumentManifest}

/-- The lines of a run are those of its document. -/
theorem sourced_run : Sourced document (run pipeline document).2 := by
  have hpages : Sourced document
      ((correctDocument pipeline document).exec (initialState document)).2 :=
    steps_correctDocument.invariant (P := Sourced document) (fun _ _ hs h => sourced_runStep hs h)
      (SameSource.refl _)
  exact hpages.trans passed_run.lines.sameSource

/-- A run's lines stay under their refs. -/
theorem addressed_run : Addressed (run pipeline document).2.heap := sourced_run.addressed

omit [Unicode] [Digest] in
/-- The decided pages of a file hold its lines as they are now. -/
theorem linesOfFile_decidedPages (document : DocumentManifest) (heap : Heap) (sourceName : Str) :
    linesOfFile (decidedPages document heap) sourceName =
      (linesOfFile document.pages sourceName).map fun lm => heap (lineRef lm) := by
  unfold linesOfFile decidedPages pagesOfFile
  induction document.pages with
  | nil => rfl
  | cons page pages ih =>
    rw [List.map_cons, List.filter_cons, List.filter_cons]
    show List.flatMap _ (if decide (page.sourceFile = sourceName) = true then _ else _) = _
    split
    · rw [List.flatMap_cons, List.flatMap_cons, List.map_append, ih]
      apply congrArg (· ++ _)
      show (page.lines.map lineRef).map heap = _
      rw [List.map_map]
      rfl
    · exact ih

omit [Unicode] [Digest] in
/-- A file has the pages it had. -/
theorem pagesOfFile_decidedPages (document : DocumentManifest) (heap : Heap) (sourceName : Str) :
    pagesOfFile (decidedPages document heap) sourceName =
      (pagesOfFile document.pages sourceName).map (currentPage heap) := List.filter_map

omit [Unicode] [Digest] in
theorem lineIds_linesOfFile {heap : Heap} (haddr : Addressed heap) (sourceName : Str) :
    (linesOfFile (decidedPages document heap) sourceName).map LineManifest.lineId =
      (linesOfFile document.pages sourceName).map LineManifest.lineId := by
  rw [linesOfFile_decidedPages, List.map_map]
  exact List.map_congr_left fun lm _ => congrArg LineRef.lineId (haddr (lineRef lm))

omit [Unicode] [Digest] in
/-- Past the door the lines of a document are told apart, whatever was
decided about them. -/
theorem toldApart_decidedPages (hdoor : ensureIdentities document = .ok ())
    (hlines : ∀ page ∈ document.pages, ∀ lm ∈ page.lines, lm.pageId = page.pageId) {heap : Heap}
    (haddr : Addressed heap) : ToldApart (decidedPages document heap) where
  named page hpage lm hlm := by
    obtain ⟨old, hold, rfl⟩ := List.mem_map.mp hpage
    obtain ⟨ref, href, rfl⟩ := List.mem_map.mp hlm
    obtain ⟨lm', hlm', rfl⟩ := List.mem_map.mp href
    exact (congrArg LineRef.pageId (haddr _)).trans (hlines old hold lm' hlm')
  pageIds := by
    rw [decidedPages, List.map_map]
    exact nodup_pageIds hdoor
  lineIds sourceName := by
    rw [lineIds_linesOfFile haddr]
    by_cases hfile : ∃ page ∈ document.pages, page.sourceFile = sourceName
    · obtain ⟨page, hpage, rfl⟩ := hfile
      have hunique := (uniqueIdentities_iff.mp ((ensureIdentities_ok hdoor).1 page hpage)).2.2
      rw [linesOfFile, List.map_flatMap]
      exact hunique
    · have hnone : pagesOfFile document.pages sourceName = [] := by
        refine List.filter_eq_nil_iff.mpr fun page hpage => ?_
        simpa using fun heq => hfile ⟨page, hpage, heq⟩
      rw [linesOfFile, hnone]
      exact List.nodup_nil

/-- A run that returns was let in. -/
theorem door_of_run_ok {result : CorrectionResult} (h : (run pipeline document).1 = .ok result) :
    ensureIdentities document = .ok () := by
  obtain ⟨totals, s, hexec, -⟩ := run_eq_ok h
  unfold correctDocument preflight at hexec
  cases hdoor : ensureIdentities document with
  | ok _ => rfl
  | error error =>
    rw [hdoor, Prog.exec_bind_error (Prog.exec_throw _ _)] at hexec
    cases hexec

/-- The decisions of a run by ref are the final texts of its lines. -/
theorem get?_byRef_run (hdoc : document.Identified) {result : CorrectionResult}
    (h : (run pipeline document).1 = .ok result) {ref : LineRef} (href : ref ∈ document.refs) :
    (byRef result.decisions).get? ref = some (decisionOf (run pipeline document).2 ref) := by
  obtain ⟨totals, s, -, hstate, -, hdecisions⟩ := run_eq_ok h
  rw [← hstate] at hdecisions
  have hrefs : ∀ ref, (decisionOf (run pipeline document).2 ref).ref = ref :=
    fun ref => addressed_run ref
  have hkeys : ((result.decisions.map fun d => (d.ref, d)).map Prod.fst).Nodup := by
    rw [hdecisions, List.map_map, List.map_map]
    refine ((List.map_congr_left fun ref _ => hrefs ref).trans (List.map_id _)).symm ▸ hdoc.refs
  have hmem : (ref, decisionOf (run pipeline document).2 ref) ∈ result.decisions.map fun d =>
      (d.ref, d) := by
    refine List.mem_map.mpr ⟨decisionOf (run pipeline document).2 ref, ?_, by rw [hrefs]⟩
    rw [hdecisions]
    exact List.mem_map_of_mem href
  rw [byRef, Dict.ofList_of_nodup hkeys]
  exact Dict.get?_of_mem hkeys hmem

/-- The decision a file's line is held against is its final text. -/
theorem decision_of_line (hdoc : document.Identified) {result : CorrectionResult}
    (h : (run pipeline document).1 = .ok result) {sourceName : Str} {lm : LineManifest}
    (hlm : lm ∈ linesOfFile (decidedPages document (run pipeline document).2.heap) sourceName) :
    ∃ decision, (byRef result.decisions).get? (lineRef lm) = some decision ∧
      decision.finalText = lm.correctedText.getD lm.ocrText := by
  rw [linesOfFile_decidedPages] at hlm
  obtain ⟨old, hold, rfl⟩ := List.mem_map.mp hlm
  obtain ⟨page, hpage, -, hin⟩ := mem_linesOfFile.mp hold
  rw [addressed_run]
  exact ⟨_, get?_byRef_run hdoc h
    (List.mem_flatMap.mpr ⟨page, hpage, List.mem_map_of_mem hin⟩), rfl⟩

/-- Once a run has its decisions, the rendering alone decides how it ends. -/
theorem runAndRender_isOk (adapter : FormatAdapter β)
    (observer : List RewriterStats → RewriterStats → Option Fault) (sourceFiles : Dict Str Str)
    {result : CorrectionResult} (h : (run pipeline document).1 = .ok result) :
    (∃ outcome, runAndRender pipeline adapter observer document sourceFiles =
      .ok (result, outcome)) ↔
      ∃ outcome, renderOutputs adapter observer
        (decidedPages document (run pipeline document).2.heap)
        (byRef result.decisions) sourceFiles = .ok outcome := by
  constructor
  · rintro ⟨outcome, hend⟩
    obtain ⟨result', -, hend⟩ := Fallible.bind_eq_ok.mp hend
    obtain ⟨outcome', houtcome, hend⟩ := Fallible.bind_eq_ok.mp hend
    cases hend
    exact ⟨outcome, houtcome⟩
  · rintro ⟨outcome, houtcome⟩
    exact ⟨outcome, Fallible.bind_eq_ok.mpr
      ⟨result, h, Fallible.bind_eq_ok.mpr ⟨outcome, houtcome, rfl⟩⟩⟩

/-- **A run hands over what says its decisions**: every source file of the
document is handed over or refused, and the decisions it is held against are
the final texts of its lines. -/
theorem handsOver_run (adapter : FormatAdapter β)
    (observer : List RewriterStats → RewriterStats → Option Fault)
    (hlines : ∀ page ∈ document.pages, ∀ lm ∈ page.lines, lm.pageId = page.pageId)
    {sourceFiles : Dict Str Str} (hsources : (Dict.keys sourceFiles).Nodup)
    {result : CorrectionResult} {outcome : RenderState β}
    (h : runAndRender pipeline adapter observer document sourceFiles = .ok (result, outcome)) :
    HandsOver adapter (decidedPages document (run pipeline document).2.heap)
        (byRef result.decisions) sourceFiles outcome ∧
      ∀ ref ∈ document.refs, ∃ decision, (byRef result.decisions).get? ref = some decision ∧
        decision.finalText = ((run pipeline document).2.heap ref).correctedText.getD
          ((run pipeline document).2.heap ref).ocrText := by
  obtain ⟨result', hrun, h⟩ := Fallible.bind_eq_ok.mp h
  obtain ⟨outcome', houtcome, h⟩ := Fallible.bind_eq_ok.mp h
  cases h
  -- past the door the decided pages tell lines and pages apart, as the files' rewriters need
  have hdoor := door_of_run_ok hrun
  have hdoc := identified_of_door hlines hdoor
  exact ⟨handsOver_renderOutputs (toldApart_decidedPages hdoor hlines addressed_run)
    hsources houtcome, fun ref href => ⟨_, get?_byRef_run hdoc hrun href, rfl⟩⟩

end Run

/-- A format that stores each line's decided text as it is. -/
def FormatAdapter.verbatim : FormatAdapter Unit where
  rewriteFile _ pages := .ok {
    xmlBytes := ()
    metrics := ⟨0, 0, 0, 0⟩
    rewriterPaths := []
    texts := Dict.ofList <| (pages.flatMap PageManifest.lines).map fun lm =>
      (lm.lineId, lm.correctedText.getD lm.ocrText)
    textsVerbatim := []
    losses := []
    wordOrderSuspected := []
    lossesByLine := []
    paths_nodup := List.nodup_nil
    texts_nodup := Dict.nodup_keys_ofList _
    losses_nodup := List.nodup_nil
    suspected_nodup := List.nodup_nil
    lossesByLine_nodup := List.nodup_nil }

/-- One file of two pages, handed over. -/
theorem handsOver_run_cleanFiles : ∃ result outcome,
    @HandsOver Unit .verbatim
      (decidedPages (builtDocument .default cleanFiles)
        (@run .ascii .plain (.plain (.answering []) .default)
          (builtDocument .default cleanFiles)).2.heap)
      (byRef (CorrectionResult.decisions result)) [("a.xml".toList, "/a.xml".toList)] outcome := by
  have hok : (@runAndRender .ascii .plain Unit (.plain (.answering []) .default) .verbatim
      (fun _ _ => none) (builtDocument .default cleanFiles)
      [("a.xml".toList, "/a.xml".toList)]).isOk = true := by decide +kernel
  cases h : @runAndRender .ascii .plain Unit (.plain (.answering []) .default) .verbatim
      (fun _ _ => none) (builtDocument .default cleanFiles) [("a.xml".toList, "/a.xml".toList)] with
  | error fault =>
    rw [h] at hok
    cases hok
  | ok ended =>
    obtain ⟨result, outcome⟩ := ended
    exact ⟨result, outcome,
      (@handsOver_run .ascii .plain Unit _ _ .verbatim _ (by decide +kernel) _ (by decide) _ _ h).1⟩

end Saknussemm
