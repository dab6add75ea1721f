import Saknussemm.Page.Delivery
import Saknussemm.Run.Passes

/-! # The words of a PAGE line under the strict loss policy.

The gate compares the words of a decision with the number the parser
recorded, the writer those of the text it composed with the elements of
the line.  They agree on every correction; a line left on its source is
compared by the writer alone. -/

namespace Saknussemm

open Effects

/-! ## Respelled lines -/

section Respelling

variable [Unicode]

/-- The line stands on its source text, or on a text without carriage
returns that is spelled with the source's break mark. -/
def Respelled (lm : LineManifest) : Prop :=
  ∀ text ∈ lm.correctedText, text = lm.ocrText ∨ '\r' ∉ text ∧
    ∀ mark, trailingHyphenChar lm.ocrText = some mark → ∀ c ∈ hyphenChars,
      (rstrip text).getLast? = some c → c = mark

/-- The line stands on its source text, or on one without carriage returns. -/
def Returnless (lm : LineManifest) : Prop :=
  ∀ text ∈ lm.correctedText, text = lm.ocrText ∨ '\r' ∉ text

omit [Unicode] in
theorem Spelled.returnless {lm : LineManifest} (h : Spelled lm) : Returnless lm := by
  intro text htext
  refine (h text htext).imp id fun hsingle hmem => ?_
  have hsep : hasLineSeparator text = true := List.any_eq_true.mpr ⟨'\r', hmem, by decide⟩
  rw [hsingle] at hsep
  cases hsep

theorem Respelled.returnless {lm : LineManifest} (h : Respelled lm) : Returnless lm :=
  fun text htext => (h text htext).imp id And.left

/-- A text without returns keeps its spelling when its break is put back. -/
theorem respelled_self {s : RunState} {ref : LineRef} (h : Returnless (s.heap ref)) :
    Respelled ((preserveBreakCharOf ref s).heap ref) := by
  unfold preserveBreakCharOf
  dsimp only
  split
  · next hnone =>
    rintro text htext
    rw [hnone] at htext
    cases htext
  · next text htext =>
    split
    · next hsame =>
      rintro _ htext'
      rw [htext] at htext'
      cases htext'
      exact .inl hsame
    · next hchanged =>
      rw [heap_renormalise, if_pos rfl]
      rintro _ ⟨⟩
      refine .inr ⟨fun hmem => ?_, fun mark hmark c hc hlast => last_preserveBreakChar
        hmark hc hlast⟩
      rcases mem_of_mem_preserveBreakChar hmem with hmem | hmark
      · exact ((h text htext).resolve_left hchanged) hmem
      · exact absurd hmark (by decide)

theorem respelled_preserveBreakCharOf {s : RunState} {ref r : LineRef}
    (h : Respelled (s.heap r)) : Respelled ((preserveBreakCharOf ref s).heap r) := by
  by_cases heq : r = ref
  · subst heq
    exact respelled_self h.returnless
  · rcases heap_preserveBreakCharOf ref s r with hsame | ⟨hr, -⟩
    · rwa [hsame]
    · exact absurd hr heq

/-- **After the pass every line of the document is respelled.** -/
theorem respelled_preserveBreakChars {document : DocumentManifest} {s : RunState}
    (hs : AllSpelled s.heap) {ref : LineRef} (href : ref ∈ document.refs) :
    Respelled ((preserveBreakChars document s).heap ref) := by
  have hfold : ∀ (refs : List LineRef) (s : RunState), (∀ r, Returnless (s.heap r)) →
      ref ∈ refs ∨ Respelled (s.heap ref) →
      Respelled ((refs.foldl (fun s ref => preserveBreakCharOf ref s) s).heap ref) := by
    intro refs
    induction refs with
    | nil => exact fun s _ h => h.resolve_left (by simp)
    | cons r refs ih =>
      intro s hreturn hin
      refine ih (preserveBreakCharOf r s) (fun r' => ?_) ?_
      · rcases heap_preserveBreakCharOf r s r' with hsame | ⟨rfl, -⟩
        · rw [hsame]
          exact hreturn r'
        · exact (respelled_self (hreturn r')).returnless
      · rcases hin with hin | hdone
        · rcases List.mem_cons.mp hin with rfl | hin
          · exact .inr (respelled_self (hreturn ref))
          · exact .inl hin
        · exact .inr (respelled_preserveBreakCharOf hdone)
  exact hfold document.refs s (fun r => (hs r).returnless) (.inl href)

/-! ## The gate -/

/-- The line stands on its source text, or on a respelled text with the
markup's number of words. -/
def Projectable (lm : LineManifest) : Prop :=
  ∀ text ∈ lm.correctedText, text = lm.ocrText ∨
    ('\r' ∉ text ∧ ∀ mark, trailingHyphenChar lm.ocrText = some mark → ∀ c ∈ hyphenChars,
      (rstrip text).getLast? = some c → c = mark) ∧
    ∀ markup ∈ lm.wordCount, (split text).length = markup

omit [Unicode] in
theorem mem_keys_flagged {document : DocumentManifest} {heap : Heap} (haddr : Addressed heap)
    {gate : LineManifest → Option FallbackReason} {ref : LineRef} (href : ref ∈ document.refs)
    {reason : FallbackReason} (hgate : gate (heap ref) = some reason) :
    ref ∈ Dict.keys (flagged document heap gate) := by
  rw [flagged, Dict.mem_keys_ofList]
  refine List.mem_map.mpr ⟨(ref, reason), List.mem_filterMap.mpr
    ⟨heap ref, List.mem_map_of_mem href, ?_⟩, rfl⟩
  rw [hgate, Option.map_some, haddr ref]

/-- **The strict gate leaves only projectable lines.** -/
theorem projectable_lossPolicyPass {pipeline : CorrectionPipeline} {document : DocumentManifest}
    (hstrict : pipeline.lossPolicy.strict = true) {s : RunState} (haddr : Addressed s.heap)
    {ref : LineRef} (href : ref ∈ document.refs) (hs : Respelled (s.heap ref)) :
    Projectable ((lossPolicyPass pipeline document s).2.heap ref) := by
  rw [lossPolicyPass, if_pos hstrict]
  dsimp only
  obtain ⟨hcases, hflagged⟩ := heap_applyUnitReverts document .formatLoss
    (flagged document s.heap strictRevert) s ref
  have hreverted : Projectable (s.heap ref).reverted := by
    rintro _ ⟨⟩
    exact .inl rfl
  cases hgate : strictRevert (s.heap ref) with
  | some reason =>
    rw [hflagged href (mem_keys_flagged haddr href hgate)]
    exact hreverted
  | none =>
    rcases hcases with hsame | hback
    · rw [hsame]
      intro text htext
      rcases hs text htext with hsource | hspelled
      · exact .inl hsource
      · refine or_iff_not_imp_left.mpr fun hchanged => ⟨hspelled, fun markup hmarkup => ?_⟩
        rw [Option.mem_def] at htext hmarkup
        rw [strictRevert, hmarkup, htext] at hgate
        dsimp only at hgate
        split at hgate
        · next hpassed => exact hpassed.resolve_left hchanged
        · cases hgate
    · rw [hback]
      exact hreverted

end Respelling

/-! ## What the writer does with it -/

namespace Page

section Claims

variable [Numerals] [Unicode]

/-- `n_words if n_words else None`: the words a line has to lose. -/
def wordCountOf (line : TextLine) : Option Nat :=
  if line.words.length = 0 then none else some line.words.length

/-- The lines of a document, unvisited, say what their elements do. -/
structure ReadFrom (document : DocumentManifest) (textline : LineRef → TextLine) : Prop where
  text : ∀ lm ∈ document.lines, lm.ocrText = canonicalLineText false (textline (lineRef lm))
  wordCount : ∀ lm ∈ document.lines, lm.wordCount = wordCountOf (textline (lineRef lm))
  unvisited : ∀ lm ∈ document.lines, lm.correctedText = none

/-- Every `Word` of a line is still there: it did not take the slow path. -/
structure KeepsWords (line : TextLine) (rewritten : RewrittenLine) : Prop where
  path : rewritten.path ≠ .slowPath
  dropped : rewritten.wordsDropped = 0
  words : rewritten.line.words.map Word.geometry = line.words.map Word.geometry

/-- Left on its source a line keeps its words: it has none, or as many as
its text has, or its text is composed. -/
def KeepsSource (line : TextLine) : Prop :=
  line.words = [] ∨ (split (canonicalLineText false line)).length = line.words.length ∨
    strip (Unicode.nfc (canonicalLineText false line)) = canonicalLineText false line

end Claims

variable [Numerals] [Composition]

/-- A decision that says as much as the line has words, or the line itself. -/
theorem keepsWords_of_count {line : TextLine} {decided : Str} {rewritten : RewrittenLine}
    (h : rewriteTextLine line decided = .ok rewritten)
    (hcount : writtenText line decided = canonicalLineText false line ∨ line.words = [] ∨
      (split (writtenText line decided)).length = line.words.length) :
    KeepsWords line rewritten := by
  rcases rewriteTextLine_eq_ok h with ⟨-, rfl⟩ | ⟨-, words, hline, hpath⟩
  · exact ⟨by simp, rfl, rfl⟩
  · rcases hpath with ⟨hwords, hother⟩ | ⟨hfast, hdropped, hgeometry⟩
    · rcases hcount with hsame | hnone | hsame
      · rw [rewriteTextLine, if_pos hsame] at h
        cases h
        exact ⟨by simp, rfl, rfl⟩
      · exact absurd hnone hwords
      · exact absurd hsame hother
    · exact ⟨by simp [hfast], hdropped, by rw [hline]; exact hgeometry⟩

omit [Numerals] [Composition] in
theorem not_mem_return_tidy (text : Str) : '\r' ∉ tidy text :=
  not_mem_strip (by simp)

theorem not_mem_return_canonicalLineText (line : TextLine) :
    '\r' ∉ canonicalLineText false line := by
  unfold canonicalLineText
  split <;> exact not_mem_return_tidy _

/-- **A line left on its source**: what is written keeps its words exactly
when the line has none to lose, as many as its text, or a composed text. -/
theorem keepsWords_source_iff {line : TextLine} {rewritten : RewrittenLine}
    (h : rewriteTextLine line (canonicalLineText false line) = .ok rewritten) :
    KeepsWords line rewritten ↔ KeepsSource line := by
  have hwritten : writtenText line (canonicalLineText false line) =
      strip (Unicode.nfc (canonicalLineText false line)) := by
    refine writtenText_eq (not_mem_return_canonicalLineText line) fun mark hmark c _ hlast => ?_
    rw [(last_of_trailingHyphenChar hmark).2] at hlast
    exact (Option.some_inj.mp hlast).symm
  have hcount : (split (writtenText line (canonicalLineText false line))).length =
      (split (canonicalLineText false line)).length := by
    rw [hwritten, split_strip, Composition.length_split]
  constructor
  · intro hkeeps
    by_contra hsource
    obtain ⟨hwords, hother, hcomposed⟩ := not_or.mp hsource |>.imp id not_or.mp
    -- the text differs from the line's own, and so does the number of its words
    rw [rewriteTextLine, if_neg (hwritten ▸ hcomposed), if_pos ⟨hwords, hcount ▸ hother⟩] at h
    obtain ⟨equivs, -, h⟩ := Fallible.bind_eq_ok.mp h
    cases h
    exact hkeeps.path rfl
  · intro hsource
    apply keepsWords_of_count h
    rw [hcount]
    rcases hsource with hnone | hsame | hcomposed
    · exact .inr (.inl hnone)
    · exact .inr (.inr hsame)
    · exact .inl (hwritten.trans hcomposed)

/-- A projectable correction is written with every word of the line. -/
theorem keepsWords_of_projectable {line : TextLine} {lm : LineManifest}
    (htext : lm.ocrText = canonicalLineText false line)
    (hcount : lm.wordCount = wordCountOf line) (hlm : Projectable lm)
    (hchanged : lm.correctedText.getD lm.ocrText ≠ lm.ocrText) {rewritten : RewrittenLine}
    (h : rewriteTextLine line (lm.correctedText.getD lm.ocrText) = .ok rewritten) :
    KeepsWords line rewritten := by
  cases hcorrected : lm.correctedText with
  | none =>
    rw [hcorrected] at hchanged
    exact absurd rfl hchanged
  | some text =>
    rw [hcorrected, Option.getD_some] at h hchanged
    obtain ⟨⟨hreturn, hlast⟩, hmarkup⟩ := (hlm text hcorrected).resolve_left hchanged
    have hwritten : writtenText line text = strip (Unicode.nfc text) :=
      writtenText_eq hreturn (htext ▸ hlast)
    apply keepsWords_of_count h
    rw [hwritten, split_strip, Composition.length_split]
    by_cases hnone : line.words = []
    · exact .inr (.inl hnone)
    · -- the strict policy has counted the words of a correction that stands
      refine .inr (.inr (hmarkup line.words.length ?_))
      rw [hcount, wordCountOf, if_neg (by simpa using hnone)]
      rfl

variable [Digest]

/-- **Every decision of a strict run is one of a projectable line**, which has
the text and the number of words of its element. -/
theorem projectable_run {pipeline : CorrectionPipeline}
    (hstrict : pipeline.lossPolicy.strict = true)
    {document : DocumentManifest} {textline : LineRef → TextLine}
    (hread : ReadFrom document textline)
    {result : CorrectionResult} (hrun : (run pipeline document).1 = .ok result)
    {decision : LineDecision} (hdecision : decision ∈ result.decisions) :
    (∃ lm ∈ document.lines, lineRef lm = decision.ref) ∧ ∃ lm, Projectable lm ∧
      lm.ocrText = canonicalLineText false (textline decision.ref) ∧
      lm.wordCount = wordCountOf (textline decision.ref) ∧
      decision.sourceText = lm.ocrText ∧
      decision.finalText = lm.correctedText.getD lm.ocrText := by
  obtain ⟨totals, s, hexec, -, -, hdecisions⟩ := run_eq_ok hrun
  have hstart : Sourced document (initialState document) ∧
      AllSpelled (initialState document).heap := by
    refine ⟨SameSource.refl _, fun ref text htext => ?_⟩
    have hnone : (document.heap ref).correctedText = none := by
      rcases heap_cases document ref with hmem | hoff
      · exact hread.unvisited _ hmem
      · rw [hoff]
        rfl
    rw [show (initialState document).heap = document.heap from rfl, hnone] at htext
    cases htext
  obtain ⟨hsourced, hspelled⟩ := ends_correctDocument.ok hstart hexec
  -- the passes after the last page, one by one
  have hspelled₁ : AllSpelled (globalAdjacencyPass pipeline document s).heap :=
    spelled_applyUnitReverts hspelled _ _ _
  have hsourced₂ : Sourced document
      (preserveBreakChars document (globalAdjacencyPass pipeline document s)) :=
    (hsourced.trans (sameSource_globalAdjacencyPass _ _ _)).trans
      (sameSource_preserveBreakChars _ _)
  have hsourced₃ : Sourced document (finalizePasses pipeline document s).2 :=
    hsourced₂.trans (sameSource_lossPolicyPass _ _ _)
  rw [hdecisions] at hdecision
  obtain ⟨ref, href, rfl⟩ := List.mem_map.mp hdecision
  have hline := mem_lines_of_mem_refs href
  have hown : lineRef (document.heap ref) = ref := addressed_heap document ref
  have htext := hread.text _ hline
  have hcount := hread.wordCount _ hline
  rw [hown] at htext hcount
  rw [show (decisionOf (finalizePasses pipeline document s).2 ref).ref = ref from
    hsourced₃.addressed ref]
  refine ⟨⟨_, hline, hown⟩, (finalizePasses pipeline document s).2.heap ref, ?_,
    (hsourced₃.ocrText ref).trans htext,
    (hsourced₃.read LineManifest.wordCount (fun _ => rfl) ref).trans hcount, rfl, rfl⟩
  exact projectable_lossPolicyPass hstrict hsourced₂.addressed href
    (respelled_preserveBreakChars hspelled₁ href)

/-- A decision on a line is written with every word of it. -/
def WritesEveryWord (textline : LineRef → TextLine) (decision : LineDecision) : Prop :=
  ∀ rewritten, rewriteTextLine (textline decision.ref) decision.finalText = .ok rewritten →
    KeepsWords (textline decision.ref) rewritten

/-- **Under the strict loss policy no line of a run takes the slow path**,
where each line left on its source keeps its words; and exactly where each
does that the run leaves there. -/
theorem keepsWords_run (pipeline : CorrectionPipeline) (hstrict : pipeline.lossPolicy.strict = true)
    (document : DocumentManifest) (textline : LineRef → TextLine)
    (hread : ReadFrom document textline)
    (result : CorrectionResult) (hrun : (run pipeline document).1 = .ok result) :
    ((∀ lm ∈ document.lines, KeepsSource (textline (lineRef lm))) →
      ∀ decision ∈ result.decisions, WritesEveryWord textline decision) ∧
    ((∀ decision ∈ result.decisions, WritesEveryWord textline decision) ↔
      ∀ decision ∈ result.decisions, decision.finalText = decision.sourceText →
        ∀ rewritten, rewriteTextLine (textline decision.ref) decision.finalText = .ok rewritten →
          KeepsSource (textline decision.ref)) := by
  have hexact : ∀ decision ∈ result.decisions, WritesEveryWord textline decision ↔
      (decision.finalText = decision.sourceText → ∀ rewritten,
        rewriteTextLine (textline decision.ref) decision.finalText = .ok rewritten →
          KeepsSource (textline decision.ref)) := by
    intro decision hdecision
    -- strictly, a changed decision was projectable; one at its source text depends on the source
    obtain ⟨-, lm, hprojectable, htext, hcount, hsource, hfinal⟩ :=
      projectable_run hstrict hread hrun hdecision
    constructor
    · intro hkeeps hsame rewritten hrewritten
      have hkept := hkeeps rewritten hrewritten
      rw [hsame, hsource, htext] at hrewritten
      exact (keepsWords_source_iff hrewritten).mp hkept
    · intro hleft rewritten hrewritten
      by_cases hsame : decision.finalText = decision.sourceText
      · have hkeeps := hleft hsame rewritten hrewritten
        rw [hsame, hsource, htext] at hrewritten
        exact (keepsWords_source_iff hrewritten).mpr hkeeps
      · rw [hfinal, hsource] at hsame
        exact keepsWords_of_projectable htext hcount hprojectable hsame (hfinal ▸ hrewritten)
  refine ⟨fun hsource decision hdecision => (hexact decision hdecision).mpr fun _ _ _ => ?_,
    forall₂_congr hexact⟩
  obtain ⟨⟨lm, hlm, href⟩, -⟩ := projectable_run hstrict hread hrun hdecision
  exact href ▸ hsource lm hlm

end Page

/-! ## Two concrete runs -/

/-- A line of two words as its parser saw it. -/
def wordedLine (text : String) (words : Nat) : Page.TextLine where
  id := "a".toList
  equivs := [⟨none, none, some (some text.toList), none⟩]
  words := List.replicate words ⟨none, [], []⟩

/-- The document of one line with some words. -/
def wordedDocument (text : String) (words : Nat) : DocumentManifest where
  sourceFiles := ["a.xml".toList]
  pages := [{ plainPage "a.xml" "p" 0 [("a", text, .none)] with
    lines := [{ plainLine "p".toList 0 "a" text .none with wordCount := some words }] }]

/-- The strict engine around a table of answers. -/
def strictEngine (table : List (String × String)) : CorrectionPipeline :=
  .plain (.answering table) ⟨true, none⟩

/-- One letter of a line of two words is corrected, and both words stay. -/
theorem wordedLine_keepsWords : ∃ result,
    (@run Unicode.ascii Digest.plain (strictEngine [("a", "le mat")])
      (wordedDocument "le mot" 2)).1 = .ok result ∧
    ∀ decision ∈ result.decisions, ∀ rewritten,
      @Page.rewriteTextLine .none Unicode.ascii (wordedLine "le mot" 2) decision.finalText =
        .ok rewritten → Page.KeepsWords (wordedLine "le mot" 2) rewritten := by
  let _ := Page.Numerals.none
  let _ := Composition.ascii
  let _ := Digest.plain
  have hok : (run (strictEngine [("a", "le mat")]) (wordedDocument "le mot" 2)).1.isOk = true := by
    decide +kernel
  cases hrun : (run (strictEngine [("a", "le mat")]) (wordedDocument "le mot" 2)).1 with
  | error fault =>
    rw [hrun] at hok
    cases hok
  | ok result =>
    refine ⟨result, rfl, (Page.keepsWords_run (strictEngine [("a", "le mat")]) rfl
      (wordedDocument "le mot" 2) (fun _ => wordedLine "le mot" 2) ⟨?_, ?_, ?_⟩ result hrun).1 ?_⟩
    · decide +kernel
    · decide +kernel
    · decide +kernel
    · intro lm _
      exact .inr (.inl (by decide +kernel))

/-- Tables that compose one accent. -/
def composeAcute : Str → Str
  | 'e' :: '\u0301' :: rest => '\u00E9' :: composeAcute rest
  | c :: rest => c :: composeAcute rest
  | [] => []

/-- The tables of a document whose only accent is that one. -/
@[reducible] def Unicode.acute : Unicode := ⟨Char.isAlpha, composeAcute, List.map Char.toLower⟩

/-- **A carriage return between a letter and its accent**: the parser
composes before it drops the return, the writer after, and a line the
producer left alone loses its words. -/
theorem acuteLine_drops_words :
    @Page.ReadFrom .none .acute (wordedDocument "e\u0301 x" 3)
      (fun _ => wordedLine "e\r\u0301 x" 3) ∧
    ¬ ∀ result, (@run .acute .plain (strictEngine []) (wordedDocument "e\u0301 x" 3)).1 =
        .ok result →
      ∀ decision ∈ result.decisions, ∀ rewritten,
        @Page.rewriteTextLine .none .acute (wordedLine "e\r\u0301 x" 3) decision.finalText =
          .ok rewritten → Page.KeepsWords (wordedLine "e\r\u0301 x" 3) rewritten := by
  let _ := Page.Numerals.none
  let _ := Unicode.acute
  let _ := Digest.plain
  refine ⟨⟨by decide +kernel, by decide +kernel, by decide +kernel⟩, fun hkeeps => ?_⟩
  -- the run leaves the one line its own text, and writing that text takes the slow path
  have htexts : ((run (strictEngine []) (wordedDocument "e\u0301 x" 3)).1.toOption.map fun result =>
      result.decisions.map LineDecision.finalText) = some ["e\u0301 x".toList] := by
    decide +kernel
  cases hrun : (run (strictEngine []) (wordedDocument "e\u0301 x" 3)).1 with
  | error fault =>
    rw [hrun] at htexts
    cases htexts
  | ok result =>
    rw [hrun] at htexts
    have hdecisions : result.decisions.map LineDecision.finalText = ["e\u0301 x".toList] := by
      simpa [Except.toOption] using htexts
    obtain ⟨decision, hdecision, hfinal⟩ : ∃ decision ∈ result.decisions,
        decision.finalText = "e\u0301 x".toList :=
      List.mem_map.mp (hdecisions ▸ List.mem_singleton_self _)
    have hslow : ((Page.rewriteTextLine (wordedLine "e\r\u0301 x" 3)
        "e\u0301 x".toList).toOption.map Page.RewrittenLine.path) = some .slowPath := by
      decide +kernel
    cases hrewrite : Page.rewriteTextLine (wordedLine "e\r\u0301 x" 3) "e\u0301 x".toList with
    | error error =>
      rw [hrewrite] at hslow
      cases hslow
    | ok rewritten =>
      rw [hrewrite] at hslow
      have hkept := hkeeps result hrun decision hdecision rewritten (hfinal ▸ hrewrite)
      exact hkept.path (Option.some_inj.mp hslow)

end Saknussemm
