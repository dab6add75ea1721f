import Saknussemm.Run.AcceptedBatch
import Saknussemm.Run.Joins

/-! # No text but what was proposed.

The engine corrects nothing by itself.  Take any relation of a source text
and a correction that every source has with itself and that the source's own
break character and a blank line's empty text do not break: if whatever a
producer proposes for a line is so related to the line's source, then so is
whatever a run decides, wherever it stops. -/

namespace Saknussemm

open Effects

/-! ## Relations of a source and its correction -/

/-- What the engine does to a text by itself stays within the relation. -/
structure Tolerant [Unicode] (R : Str → Str → Prop) : Prop where
  source : ∀ source, R source source
  blank : ∀ source, strip source = [] → R source []
  respelt : ∀ source text, R source text → text ≠ source → R source (preserveBreakChar source text)

/-- A line as a request shows it. -/
def LineContext.shown (line : LineContext) : Str × Str × HyphenRole :=
  (line.lineId, line.ocrText, line.hyphenationRole)

/-- A line as a request would show it. -/
def LineManifest.shown (lm : LineManifest) : Str × Str × HyphenRole :=
  (lm.lineId, lm.ocrText, lm.hyphenRole)

/-- Whatever the producer answers, about lines of different ids, is so
related to the sources it was shown. -/
def EditProducer.Proposes [Digest] (producer : EditProducer) (config : GuardConfig)
    (R : Str → Str → Prop) : Prop :=
  ∀ before call ops, producer.produce before call = .ok ops →
    ∀ lines : List LineManifest, lines.map LineManifest.shown =
      call.request.lines.map LineContext.shown →
      (∀ lm ∈ lines, ∀ lm' ∈ lines, lm.lineId = lm'.lineId → lm = lm') →
        ∀ targets, ∀ lm ∈ lines, ∀ text,
          ProposedText ops lines producer.requiresFullCoverage config targets lm.lineId text →
            R lm.ocrText text

/-- No line bears the id of one that a link reaches from another page. -/
def DocumentManifest.Apart (document : DocumentManifest) : Prop :=
  ∀ lm ∈ document.lines, ∀ tail ∈ backwardPartnerRef lm, tail.pageId ≠ lm.pageId →
    ⟨lm.pageId, tail.lineId⟩ ∉ document.refs

instance (document : DocumentManifest) : Decidable document.Apart :=
  inferInstanceAs (Decidable (∀ _ ∈ _, ∀ _ ∈ _, _))

/-- The decisions of some lines are so related to their sources. -/
def Related (R : Str → Str → Prop) (refs : List LineRef) (heap : Heap) : Prop :=
  ∀ ref ∈ refs, ∀ text ∈ (heap ref).correctedText, R (heap ref).ocrText text

/-- What an answer says of a page's lines is so related to their sources. -/
def Fits (R : Str → Str → Prop) (page : PageManifest) (heap : Heap)
    (textById : Dict Str Str) : Prop :=
  ∀ ref ∈ page.refs, ∀ text ∈ textById.get? ref.lineId, R (heap ref).ocrText text

section Verbs

variable {R : Str → Str → Prop} {refs : List LineRef}

/-- Accepting a text related to its source keeps the heap related. -/
theorem related_accept {s : RunState} (hs : Related R refs s.heap) {line : LineRef} {text : Str}
    (htext : R (s.heap line).ocrText text) : Related R refs (accept line text s).heap := by
  intro ref href text' hmem
  rw [heap_accept] at hmem ⊢
  split at hmem
  · next heq =>
    cases hmem
    rw [if_pos heq]
    exact htext
  · next hne =>
    rw [if_neg hne]
    exact hs ref href text' hmem

/-- Falling back keeps the heap related. -/
theorem related_fallBack {s : RunState} (hR : ∀ source, R source source)
    (hs : Related R refs s.heap) (line : LineRef) (reason : FallbackReason) :
    Related R refs (fallBack line reason s).heap := by
  intro ref href text hmem
  rw [heap_fallBack] at hmem ⊢
  split at hmem
  · next heq =>
    cases hmem
    rw [if_pos heq]
    exact hR _
  · next hne =>
    rw [if_neg hne]
    exact hs ref href text hmem

theorem Related.putBack {h h' : Heap} (hR : ∀ source, R source source) (hs : Related R refs h)
    (hput : PutBack h h') : Related R refs h' := by
  intro ref href text hmem
  rw [hput.source.ocrText]
  rcases hput.texts ref with hsame | hback
  · exact hs ref href text (hsame ▸ hmem)
  · rw [hback] at hmem
    cases hmem
    exact hR _

end Verbs

/-! ## What an answer says -/

section Answer

variable [Unicode] [Digest] {R : Str → Str → Prop} {pipeline : CorrectionPipeline}
  {document : DocumentManifest} {page : PageManifest} {workspace : PageWorkspace} {heap : Heap}
  {chunk : ChunkRequest} {response : List LineProposal}

/-- **An accepted answer fits the page**, where its producer proposes what
fits: each text is one the producer proposed for that very line. -/
theorem fits_of_answerOf (hR : Tolerant R)
    (hproducers : ∀ producer ∈ pipeline.producers, producer.Proposes pipeline.guardConfig R)
    (hdoc : document.Identified) (hpage : page ∈ document.pages)
    (hrefs : workspace.refs = page.refs)
    (haddr : Addressed heap) (h : AnswerOf pipeline workspace chunk heap response) :
    Fits R page heap (textById response) := by
  obtain ⟨producer, hproducer, before, attempt, temperature, ops, hops, hvalid⟩ := h
  let lines := linesOf heap (chunkLines workspace chunk)
  have hlines : ∀ lm ∈ lines, ∃ ref ∈ page.refs, lm = heap ref := by
    intro lm hlm
    obtain ⟨ref, href, rfl⟩ := List.mem_map.mp hlm
    obtain ⟨id, -, hfound⟩ := List.mem_filterMap.mp href
    exact ⟨ref, hrefs ▸ mem_of_lineById hfound, rfl⟩
  have hsame : ∀ ref ∈ page.refs, ∀ ref' ∈ page.refs, (heap ref).lineId = ref'.lineId →
      ref = ref' := by
    intro ref href ref' href' hid
    have hpageId := (hdoc.pageId_of_mem_refs hpage href).trans
      (hdoc.pageId_of_mem_refs hpage href').symm
    rw [show (heap ref).lineId = ref.lineId from congrArg LineRef.lineId (haddr ref)] at hid
    cases ref
    cases ref'
    grind
  have hshown : lines.map LineManifest.shown =
      (buildCorrectionRequest workspace chunk heap).lines.map LineContext.shown := by
    show _ = (lines.map (enrichLine _)).map LineContext.shown
    rw [List.map_map]
    rfl
  have honce : ∀ lm ∈ lines, ∀ lm' ∈ lines, lm.lineId = lm'.lineId → lm = lm' := by
    intro lm hlm lm' hlm' hid
    obtain ⟨ref, href, rfl⟩ := hlines lm hlm
    obtain ⟨ref', href', rfl⟩ := hlines lm' hlm'
    rw [hsame ref href ref' href' (hid.trans (congrArg LineRef.lineId (haddr ref')))]
  have hproposes := hproducers producer hproducer before _ ops hops lines hshown honce chunk.targets
  obtain ⟨hentries, -⟩ := validateLlmResponse_eq_ok hvalid
  obtain ⟨hforall, -, -⟩ := checkEntries_eq_ok hentries
  intro ref href text htext
  have hmem := Dict.mem_of_mem_ofList (Dict.mem_of_get? htext)
  obtain ⟨output, houtput, heq⟩ := List.mem_map.mp hmem
  obtain ⟨hid, rfl⟩ := Prod.mk.inj heq
  obtain ⟨entry, hentry, hchecks⟩ := Pointwise.exists_of_mem_right hforall houtput
  obtain ⟨lm, hlm, hknown⟩ := List.mem_map.mp hchecks.known
  have hline : lm = heap ref := by
    obtain ⟨ref', href', rfl⟩ := hlines lm hlm
    rw [hsame ref' href' ref href (hknown.trans (hchecks.lineId.symm.trans hid))]
  subst hline
  have hproposed := proposedText_scriptToRaw hentry
  rw [← hknown] at hproposed
  rcases checkedText_eq_ok hchecks.text with ⟨hkept, -⟩ | ⟨hempty, -, source, hsource, hblank⟩
  · exact hkept ▸ hproposes _ hlm _ hproposed
  · -- a blank answer over a blank source
    rw [hempty]
    apply hR.blank _
    have hin := Dict.mem_of_mem_ofList (Dict.mem_of_get? hsource)
    obtain ⟨lm', hlm', heq⟩ := List.mem_map.mp hin
    obtain ⟨hid', rfl⟩ := Prod.mk.inj heq
    rw [honce _ hlm _ hlm' (hknown.trans hid'.symm)]
    exact hblank

omit [Unicode] [Digest] in
/-- An answer speaks of lines it was asked about. -/
theorem AnswerOf.known [Unicode] [Digest] (haddr : Addressed heap)
    (h : AnswerOf pipeline workspace chunk heap response) {id text : Str}
    (htext : (textById response).get? id = some text) :
    ∃ ref ∈ workspace.refs, ref.lineId = id := by
  obtain ⟨producer, -, before, attempt, temperature, ops, -, hvalid⟩ := h
  obtain ⟨hentries, -⟩ := validateLlmResponse_eq_ok hvalid
  obtain ⟨hforall, -, -⟩ := checkEntries_eq_ok hentries
  obtain ⟨output, houtput, heq⟩ := List.mem_map.mp (Dict.mem_of_mem_ofList (Dict.mem_of_get? htext))
  obtain ⟨hid, -⟩ := Prod.mk.inj heq
  obtain ⟨entry, -, hchecks⟩ := Pointwise.exists_of_mem_right hforall houtput
  obtain ⟨lm, hlm, hknown⟩ := List.mem_map.mp hchecks.known
  obtain ⟨ref, href, rfl⟩ := List.mem_map.mp hlm
  obtain ⟨_, -, hfound⟩ := List.mem_filterMap.mp href
  refine ⟨ref, mem_of_lineById hfound, ?_⟩
  rw [← hid, hchecks.lineId, ← hknown]
  exact (congrArg LineRef.lineId (haddr ref)).symm

end Answer

/-! ## What becomes of it -/

section Walk

variable [Unicode] {R : Str → Str → Prop} {document : DocumentManifest} {page : PageManifest}
  {workspace : PageWorkspace} {refs : List LineRef} {textById : Dict Str Str} {s : RunState}

/-- The members of a join a page's chunk owns: the head on the page, the
tail there too or far from any line the answer may speak of. -/
structure Near (document : DocumentManifest) (page : PageManifest) (join : Join) : Prop where
  head : join.head ∈ page.refs
  tail : join.tail ∈ page.refs ∨
    join.tail ∈ document.refs ∧ ∀ ref ∈ page.refs, ref.lineId ≠ join.tail.lineId

omit [Unicode] in
/-- A claimed join has its head on the page, and its tail there or apart from it. -/
theorem near_of_claimed (hdoc : document.Identified) (hpage : page ∈ document.pages)
    (hapart : document.Apart) {start heap : Heap} (hcut : AllCut document.heap heap) {join : Join}
    (h : Claimed (workspaceOf document page start) heap join) : Near document page join := by
  rcases h.owned with ⟨htail, ref, -, -, hhead⟩ | ⟨hhead, hback, hpageId, hpartner⟩
  · exact ⟨mem_of_lineById hhead, .inl htail⟩
  · have hrefs : ∀ {ref : LineRef}, ref ∈ page.refs → ref ∈ document.refs := fun href =>
      List.mem_flatMap.mpr ⟨page, hpage, href⟩
    refine ⟨hhead, .inr ⟨?_, fun ref href hid => ?_⟩⟩
    · have hin : join.tail ∈ document.lines.map lineRef := by
        have := (List.mem_filter.mp (List.mem_eraseDups.mp hpartner)).2
        simpa using this
      obtain ⟨lm, hlm, heq⟩ := List.mem_map.mp hin
      obtain ⟨other, hother, hlm⟩ := List.mem_flatMap.mp hlm
      exact List.mem_flatMap.mpr ⟨other, hother, List.mem_map.mpr ⟨lm, hlm, heq⟩⟩
    · have hsource := (hcut join.head).backward_eq hback
      have hown : (document.heap join.head).pageId = join.head.pageId :=
        congrArg LineRef.pageId (addressed_heap document join.head)
      have hstill : (heap join.head).pageId = join.head.pageId :=
        congrArg LineRef.pageId (hcut.addressed join.head)
      refine hapart _ (mem_lines_of_mem_refs (hrefs hhead)) _ hsource ?_ ?_
      · rw [hown, ← hstill]
        exact hpageId
      · have heq : (⟨(document.heap join.head).pageId, join.tail.lineId⟩ : LineRef) = ref := by
          rw [hown, hdoc.pageId_of_mem_refs hpage hhead,
            ← hdoc.pageId_of_mem_refs hpage href, ← hid]
        exact heq ▸ hrefs href

/-- What the state of a page's work must be for its answers to fit. -/
structure Fitting (R : Str → Str → Prop) (document : DocumentManifest) (page : PageManifest)
    (heap : Heap) (textById : Dict Str Str) : Prop where
  addressed : Addressed heap
  related : Related R document.refs heap
  fits : Fits R page heap textById
  /-- It speaks of the page's lines only. -/
  known : ∀ id text, textById.get? id = some text → ∃ ref ∈ page.refs, ref.lineId = id

omit [Unicode] in
/-- Decisions were written, and nothing else. -/
theorem Fitting.next {h h' : Heap} (hs : Fitting R document page h textById)
    (hsame : SameSkeleton h h')
    (hrelated : Related R document.refs h') : Fitting R document page h' textById where
  addressed := hsame.sameSource.addressed hs.addressed
  related := hrelated
  fits ref href text htext := by
    rw [hsame.sameSource.ocrText]
    exact hs.fits ref href text htext
  known := hs.known

omit [Unicode] in
/-- The two texts a join is judged on fit its lines. -/
theorem proposedTexts_related (hsource : ∀ source, R source source)
    (hs : Fitting R document page s.heap textById) {join : Join} (hpage : page ∈ document.pages)
    (hjoin : Near document page join) :
    let texts := proposedTexts textById (s.heap join.tail) (s.heap join.head)
    R (s.heap join.tail).ocrText texts.1 ∧ R (s.heap join.head).ocrText texts.2 := by
  have hlineId : ∀ ref, (s.heap ref).lineId = ref.lineId := fun ref =>
    congrArg LineRef.lineId (hs.addressed ref)
  have hsaid : ∀ ref ∈ page.refs,
      R (s.heap ref).ocrText ((textById.get? (s.heap ref).lineId).getD (s.heap ref).ocrText) := by
    intro ref href
    rw [hlineId]
    cases htext : textById.get? ref.lineId with
    | none => exact hsource _
    | some text => exact hs.fits ref href text htext
  refine ⟨?_, hsaid join.head hjoin.head⟩
  dsimp only [proposedTexts, orElseStr]
  have htail : join.tail ∈ document.refs := by
    rcases hjoin.tail with hin | ⟨hin, -⟩
    · exact List.mem_flatMap.mpr ⟨page, hpage, hin⟩
    · exact hin
  split
  · next hcorrected => exact hs.related join.tail htail _ hcorrected
  · rcases hjoin.tail with hin | ⟨-, hfar⟩
    · exact hsaid join.tail hin
    · -- the answer does not speak of a line of another page
      rw [hlineId]
      cases htext : textById.get? join.tail.lineId with
      | none => exact hsource _
      | some text =>
        obtain ⟨ref, href, hid⟩ := hs.known _ _ htext
        exact absurd hid (hfar ref href)

/-- **A join judged gives its members fitting texts**: two sources, or what
was said of each of them. -/
theorem related_visitJoin (hsource : ∀ source, R source source)
    (hs : Fitting R document page s.heap textById) (config : GuardConfig) {join : Join}
    (hpage : page ∈ document.pages) (hjoin : Near document page join) :
    Related R document.refs (visitJoin config join textById s).heap := by
  -- the three writes of a visit: a fallback to source, subs that leave the texts, an accepted pair
  have hfell : ∀ t : RunState, Related R document.refs t.heap →
      Related R document.refs (fallBackJoin join t).heap := fun t ht =>
    related_fallBack hsource (related_fallBack hsource ht _ _) _ _
  have hsubs : ∀ (t : RunState) subs, Related R document.refs t.heap →
      Related R document.refs (writeSubs join subs t).heap := by
    intro t subs ht
    have hset : ∀ isForward (lm : LineManifest), (∀ text ∈ lm.correctedText, R lm.ocrText text) →
        ∀ text ∈ (setSubsContent isForward subs lm).correctedText,
          R (setSubsContent isForward subs lm).ocrText text := by
      intro isForward lm hlm
      unfold setSubsContent
      split <;> exact hlm
    intro ref href
    have hone := ht ref href
    simp only [writeSubs, Heap.set]
    split_ifs with htail hhead hhead
    · exact hset _ _ (hset _ _ (by rwa [← hhead, ← htail]))
    · exact hset _ _ (by rwa [← htail])
    · exact hset _ _ (by rwa [← hhead])
    · exact hone
  show Related R document.refs (reconcileOnePair config join textById s).2.heap
  unfold reconcileOnePair
  dsimp only
  split
  · exact hfell _ hs.related
  · apply hsubs
    split
    · exact hfell _ hs.related
    -- reconciling a pair keeps what was proposed or puts both sources back
    · obtain ⟨htail, hhead⟩ := proposedTexts_related hsource hs hpage hjoin
      have hfinal := resolveJoin_texts config join.isForward (s.heap join.tail) (s.heap join.head)
        (proposedTexts textById (s.heap join.tail) (s.heap join.head))
      generalize resolveJoin config join.isForward (s.heap join.tail) (s.heap join.head)
        (proposedTexts textById (s.heap join.tail) (s.heap join.head)) = final at hfinal ⊢
      have hparts : R (s.heap join.tail).ocrText final.finalPart1 ∧
          R (s.heap join.head).ocrText final.finalPart2 := by
        rcases hfinal with rfl | ⟨h1, h2⟩
        · exact ⟨hsource _, hsource _⟩
        · rw [h1, h2]
          exact ⟨htail, hhead⟩
      have haccepted : Related R document.refs (accept join.tail final.finalPart1
          (s.note (.join join.tail join.head join.isForward textById))).heap :=
        @related_accept _ _ (s.note _) hs.related _ _ hparts.1
      apply related_accept haccepted
      rw [(sameSkeleton_accept _ _ _).sameSource.ocrText]
      exact hparts.2

/-- Walking the units keeps what they propose fitting. -/
theorem fitting_walkUnitsReconciling (hsource : ∀ source, R source source)
    (hdoc : document.Identified)
    (hapart : document.Apart) (hpage : page ∈ document.pages) (start : Heap) (config : GuardConfig)
    {joins : Dict LineRef Join} (members : List LineRef) (writtenHeads : List LineRef)
    (hcut : AllCut document.heap s.heap)
    (hjoins : AllClaimed (workspaceOf document page start) s.heap joins)
    (hs : Fitting R document page s.heap textById) :
    Fitting R document page
      (walkUnitsReconciling config joins textById members (writtenHeads, s)).2.heap textById := by
  induction members generalizing writtenHeads s with
  | nil => exact hs
  | cons member members ih =>
    rw [walkUnitsReconciling]
    unfold visitMember
    split
    · exact ih _ hcut hjoins hs
    · next join hjoin =>
      split
      · exact ih _ hcut hjoins hs
      · have hsame := @sameSkeleton_reconcileOnePair config join textById s _
        have hnear := near_of_claimed hdoc hpage hapart hcut (hjoins _ _ hjoin)
        refine ih _ (hcut.trans hsame.onlyCut)
          (fun tail join hjoin => (hjoins tail join hjoin).congr hsame)
          (hs.next hsame (related_visitJoin hsource hs config hpage hnear))

omit [Unicode] in
/-- **A line judged by itself gets a fitting text.** -/
theorem fitting_applyLineAcceptance (hsource : ∀ source, R source source) (config : GuardConfig)
    {lines : List LineRef} (hlines : ∀ line ∈ lines, line ∈ page.refs)
    (hs : Fitting R document page s.heap textById) : Fitting R document page
      (applyLineAcceptance config workspace textById lines s).heap textById := by
  unfold applyLineAcceptance
  induction lines generalizing s with
  | nil => exact hs
  | cons line lines ih =>
    refine ih (fun l hl => hlines l (by simp [hl])) (hs.next (sameSkeleton_judgeLine _ _ _ _ _) ?_)
    unfold judgeLine
    dsimp only
    split
    · exact hs.related
    · split
      · exact hs.related
      · next text htext =>
        split
        · exact related_fallBack hsource hs.related _ _
        · refine related_accept hs.related (hs.fits line (hlines line (by simp)) text ?_)
          have hid : (s.heap line).lineId = line.lineId :=
            congrArg LineRef.lineId (hs.addressed line)
          rwa [hid] at htext

end Walk

/-! ## Over a run -/

/-- What a run keeps while its pages are worked on. -/
structure Earned (R : Str → Str → Prop) (document : DocumentManifest) (s : RunState) : Prop where
  source : SameSource document.heap s.heap
  cut : AllCut document.heap s.heap
  related : Related R document.refs s.heap

section Run

variable [Unicode] {R : Str → Str → Prop} {document : DocumentManifest}
  {pipeline : CorrectionPipeline} {page : PageManifest} {s s' : RunState}

omit [Unicode] in
theorem Earned.between (hsource : ∀ source, R source source) (hs : Earned R document s)
    (h : Between s s') : Earned R document s' := by
  have hput := h.lines hs.cut.addressed
  exact ⟨hs.source.trans hput.source, hs.cut.trans hput.links, hs.related.putBack hsource hput⟩

/-- A page's round keeps the heap related, whatever is proposed. -/
theorem rounds_earned [Digest] (hR : Tolerant R)
    (hproducers : ∀ producer ∈ pipeline.producers, producer.Proposes pipeline.guardConfig R)
    (hdoc : document.Identified) (hapart : document.Apart) (hpage : page ∈ document.pages)
    (start : Heap) : Rounds pipeline page (workspaceOf document page start)
    (Earned R document) where
  addressed _ hs := hs.cut.addressed
  between _ _ hs h := hs.between hR.source h
  answered s chunk response hs _ _ hanswer := by
    let workspace := workspaceOf document page start
    have htargets : ∀ line ∈ targetLines workspace chunk, line ∈ page.refs := fun _ =>
      mem_refs_of_mem_targetLines
    have hsame := @sameSkeleton_answered _ pipeline workspace chunk (textById response) s
    have hfitting : Fitting R document page s.heap (textById response) :=
      ⟨hs.cut.addressed, hs.related,
        fits_of_answerOf hR hproducers hdoc hpage rfl hs.cut.addressed hanswer,
        fun _ _ => hanswer.known hs.cut.addressed⟩
    have hwalked := fitting_walkUnitsReconciling hR.source hdoc hapart hpage start
      pipeline.guardConfig (walkOrder s.heap
        (claimsOf workspace s.heap (targetLines workspace chunk)).pool) [] hs.cut
      (fun _ _ hjoin => (claimed_of_get? htargets hjoin).1) hfitting
    have hjudged := @fitting_applyLineAcceptance R document page workspace (textById response) _
      hR.source pipeline.guardConfig _ htargets hwalked
    exact ⟨hs.source.trans hsame.sameSource, hs.cut.trans hsame.onlyCut, hjudged.related⟩

/-! ### The passes -/

omit [Unicode] in
theorem related_applyUnitReverts (hsource : ∀ source, R source source)
    (hs : Related R document.refs s.heap) (pass : RevertPass)
    (reverts : Dict LineRef FallbackReason) :
    Related R document.refs (applyUnitReverts document pass reverts s).2.heap := by
  intro ref href text hmem
  rcases (heap_applyUnitReverts document pass reverts s ref).1 with hsame | hback
  · rw [hsame] at hmem ⊢
    exact hs ref href text hmem
  · rw [hback] at hmem ⊢
    cases hmem
    exact hsource _

/-- Putting breaks back keeps the heap related. -/
theorem related_preserveBreakChars (hR : Tolerant R) (hs : Related R document.refs s.heap) :
    Related R document.refs (preserveBreakChars document s).heap := by
  have hone : ∀ (line : LineRef) (s : RunState), line ∈ document.refs →
      Related R document.refs s.heap →
      Related R document.refs (preserveBreakCharOf line s).heap := by
    intro line s hline hs ref href text hmem
    rcases heap_preserveBreakCharOf line s ref with hsame | ⟨rfl, old, hold, hne, hspelt⟩
    · rw [hsame] at hmem ⊢
      exact hs ref href text hmem
    · rw [hspelt] at hmem ⊢
      cases hmem
      exact hR.respelt _ _ (hs ref hline old hold) hne
  have hall : ∀ (lines : List LineRef) (s : RunState), lines ⊆ document.refs →
      Related R document.refs s.heap →
        Related R document.refs (lines.foldl (fun s ref => preserveBreakCharOf ref s) s).heap := by
    intro lines
    induction lines with
    | nil => exact fun _ _ hs => hs
    | cons line lines ih =>
      intro s hlines hs
      rw [List.cons_subset] at hlines
      exact ih _ hlines.2 (hone line s hlines.1 hs)
  exact hall _ _ (List.Subset.refl _) hs

/-- **The passes put lines back, or respell them.** -/
theorem related_finalizePasses (hR : Tolerant R) (hs : Related R document.refs s.heap) :
    Related R document.refs (finalizePasses pipeline document s).2.heap := by
  have hspelt : Related R document.refs
      (preserveBreakChars document (globalAdjacencyPass pipeline document s)).heap :=
    related_preserveBreakChars hR (related_applyUnitReverts hR.source hs _ _)
  unfold finalizePasses lossPolicyPass
  split
  · exact related_applyUnitReverts hR.source hspelt _ _
  · split
    · exact hspelt
    · exact related_applyUnitReverts hR.source hspelt _ _

/-- **A run decides nothing that was not proposed**: where every proposal of
its producers is so related to the source it is for, every line is so related
to its source wherever the run stops, and so is every decision it reports. -/
theorem related_run [Digest] (hR : Tolerant R) (pipeline : CorrectionPipeline)
    (document : DocumentManifest)
    (hproducers : ∀ producer ∈ pipeline.producers, producer.Proposes pipeline.guardConfig R)
    (hlines : ∀ page ∈ document.pages, ∀ lm ∈ page.lines, lm.pageId = page.pageId)
    (hlists : ∀ page ∈ document.pages, page.ListsOnce) (hapart : document.Apart)
    (htexts : ∀ lm ∈ document.lines, ∀ text ∈ lm.correctedText, R lm.ocrText text) :
    Related R document.refs (run pipeline document).2.heap ∧
      ∀ result, (run pipeline document).1 = .ok result →
        ∀ decision ∈ result.decisions, R decision.sourceText decision.finalText := by
  have hstart : Earned R document (initialState document) :=
    ⟨.refl _, fun _ => .refl _, fun ref href => htexts _ (mem_lines_of_mem_refs href)⟩
  have hpages : Related R document.refs
      ((correctDocument pipeline document).exec (initialState document)).2.heap := by
    -- past the door every page starts and ends `Earned`; a refused document is never touched
    by_cases hdoor : ensureIdentities document = .ok ()
    · have hdoc := identified_of_door hlines hdoor
      have hpaged : Paged pipeline document fun _ => Earned R document :=
        ⟨hstart, fun _ _ hs => hs, fun _ _ _ hs h => hs.between hR.source h,
          fun page hpage start _ _ => rounds_earned hR hproducers hdoc hapart hpage start⟩
      obtain ⟨-, hs, -⟩ := hpaged.correctDocument hdoor hdoc hlists ⟨[], []⟩
      exact hs.related
    · rw [state_refused hdoor]
      exact hstart.related
  have hrun : Related R document.refs (run pipeline document).2.heap := by
    rcases @state_run _ pipeline document _ with hstopped | hpassed
    · rw [hstopped]
      exact hpages
    · rw [hpassed]
      exact related_finalizePasses hR hpages
  -- a decision quotes its line of the last heap, or its source when no text was written
  refine ⟨hrun, fun result hresult decision hdecision => ?_⟩
  obtain ⟨totals, s, -, hstate, -, hdecisions⟩ := run_eq_ok hresult
  rw [hdecisions, ← hstate] at hdecision
  obtain ⟨ref, href, rfl⟩ := List.mem_map.mp hdecision
  show R ((run pipeline document).2.heap ref).ocrText
    (((run pipeline document).2.heap ref).correctedText.getD
      ((run pipeline document).2.heap ref).ocrText)
  cases htext : ((run pipeline document).2.heap ref).correctedText with
  | none => exact hR.source _
  | some text => exact hrun ref href text htext

end Run

/-! ### Producers of whole lines -/

/-- A producer of whole lines proposes what it says of each line shown. -/
theorem proposes_of_wholeLines [Digest] {producer : EditProducer} {config : GuardConfig}
    {R : Str → Str → Prop} (hsource : ∀ source, R source source)
    (h : ∀ before call ops, producer.produce before call = .ok ops → ∀ op ∈ ops,
      ∃ line ∈ call.request.lines, ∃ text pageId,
        op = .replaceLine line.lineId text pageId ∧ R line.ocrText text) :
    producer.Proposes config R := by
  intro before call ops hops lines hshown honce targets lm hlm text hproposed
  cases hproposed with
  | @wholeLine text pageId hop =>
    obtain ⟨line, hline, text', pageId', heq, hrelated⟩ := h before call ops hops _ hop
    obtain ⟨hid, rfl, rfl⟩ := EditOp.replaceLine.inj heq
    have hmem : line.shown ∈ lines.map LineManifest.shown := hshown ▸ List.mem_map_of_mem hline
    obtain ⟨lm', hlm', hsame⟩ := List.mem_map.mp hmem
    obtain ⟨hid', hocr⟩ := Prod.mk.inj hsame
    rw [honce lm hlm lm' hlm' (hid.trans hid'.symm), (Prod.mk.inj hocr).1]
    exact hrelated
  | @spans canonical text _ _ hspans =>
    -- there are no spans, and no spans give no text
    have hnone : ops.filter (fun op => op.lineId = lm.lineId && op.isSpan) = [] := by
      refine List.filter_eq_nil_iff.mpr fun op hop => ?_
      obtain ⟨line, -, _, _, rfl, -⟩ := h before call ops hops op hop
      simp [EditOp.isSpan, EditOp.kind]
    rw [hnone] at hspans
    simp [applyLineOps, wholeLines, spans, applySpanOps, normalizeSpans, withoutOverlaps] at hspans
  | source _ hknown =>
    have hin := Dict.mem_of_mem_ofList (Dict.mem_of_get? hknown)
    obtain ⟨lm', hlm', heq⟩ := List.mem_map.mp hin
    obtain ⟨hid, rfl⟩ := Prod.mk.inj heq
    rw [honce lm hlm lm' hlm' hid.symm]
    exact hsource _

/-- The text is the source, or nothing where the source is blank. -/
def Repeats (source text : Str) : Prop := text = source ∨ strip source = [] ∧ text = []

instance (source text : Str) : Decidable (Repeats source text) :=
  inferInstanceAs (Decidable (_ ∨ _ ∧ _))

theorem tolerant_repeats [Unicode] : Tolerant Repeats where
  source _ := .inl rfl
  blank _ h := .inr ⟨h, rfl⟩
  respelt source text h hne := by
    rcases h with rfl | ⟨hblank, rfl⟩
    · exact absurd rfl hne
    · refine .inr ⟨hblank, ?_⟩
      unfold preserveBreakChar
      split <;> rfl

theorem proposes_answering_nil [Digest] (config : GuardConfig) :
    (EditProducer.answering []).Proposes config Repeats := by
  refine proposes_of_wholeLines (fun _ => .inl rfl) ?_
  rintro before call _ ⟨⟩ op hop
  obtain ⟨line, hline, rfl⟩ := List.mem_map.mp hop
  exact ⟨line, hline, _, none, rfl, .inl rfl⟩

/-- A producer that repeats what it is shown leaves a broken word as it is. -/
theorem related_run_cleanFiles : Related Repeats (builtDocument .default cleanFiles).refs
    (@run .ascii .plain (.plain (.answering []) .default)
        (builtDocument .default cleanFiles)).2.heap :=
  (@related_run .ascii Repeats .plain (@tolerant_repeats .ascii) (.plain (.answering []) .default)
    (builtDocument .default cleanFiles)
    (fun producer h => by
      obtain rfl : producer = .answering [] := by
        simpa [CorrectionPipeline.producers, CorrectionPipeline.plain] using h
      exact @proposes_answering_nil .plain _)
    (by decide +kernel) (by decide +kernel) (by decide +kernel) (by decide +kernel)).1

end Saknussemm
