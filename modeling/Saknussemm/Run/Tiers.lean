import Saknussemm.Run.Batching
import Saknussemm.Run.Pipeline

/-! # What routing does to the targets of a plan.

A line is confirmed on its source and asked of nobody, or asked as often as
it was planned, of one producer.  A hyphen unit escalates whole or not at
all. -/

namespace Saknussemm

open Effects

/-! ## One chunk -/

section Chunk

variable {producer escalation : EditProducer} {tiers : Tiers}

/-- The targets of a chunk that are asked of one producer or the other. -/
def askedTargets (tiers : Tiers) (chunk : ChunkRequest) (escalated : Bool) : List Str :=
  (chunk.targets.filter (· ∉ tiers.skip)).filter fun id => decide (id ∈ tiers.escalate) = escalated

theorem mem_askedTargets {chunk : ChunkRequest} {escalated : Bool} {lineId : Str} :
    lineId ∈ askedTargets tiers chunk escalated ↔ (lineId ∈ chunk.targets ∧ lineId ∉ tiers.skip) ∧
      decide (lineId ∈ tiers.escalate) = escalated := by
  rw [askedTargets, List.mem_filter, List.mem_filter, decide_eq_true_eq, decide_eq_true_eq]

/-- A chunk gives one item for each producer that has targets in it. -/
theorem exists_workItems (producer escalation : EditProducer) (tiers : Tiers)
    (chunk : ChunkRequest) : ∃ primary escalated : ChunkRequest × EditProducer,
      (primary.2 = producer ∧ primary.1.lineIds = chunk.lineIds ∧
        primary.1.targets = askedTargets tiers chunk false) ∧
      (escalated.2 = escalation ∧ escalated.1.targets = askedTargets tiers chunk true) ∧
      workItems producer escalation tiers chunk =
        (if primary.1.targets = [] then [] else [primary]) ++
          if escalated.1.targets = [] then [] else [escalated] := by
  have hprimary : (chunk.targets.filter (· ∉ tiers.skip)).filter (· ∉ tiers.escalate) =
      askedTargets tiers chunk false := by
    refine List.filter_congr fun id _ => ?_
    simp
  have hescalated : (chunk.targets.filter (· ∉ tiers.skip)).filter (· ∈ tiers.escalate) =
      askedTargets tiers chunk true := by
    refine List.filter_congr fun id _ => ?_
    simp
  unfold workItems
  dsimp only
  rw [hprimary, hescalated]
  by_cases hall : askedTargets tiers chunk false = chunk.targets
  · refine ⟨(chunk, producer),
      ({ chunk with targetLineIds := some (askedTargets tiers chunk true) },
      escalation), ⟨rfl, rfl, hall.symm⟩, ⟨rfl, rfl⟩, ?_⟩
    rw [if_pos hall, hall]
    rfl
  · refine ⟨({ chunk with targetLineIds := some (askedTargets tiers chunk false) }, producer),
      ({ chunk with targetLineIds := some (askedTargets tiers chunk true) }, escalation),
      ⟨rfl, rfl, rfl⟩, ⟨rfl, rfl⟩, ?_⟩
    rw [if_neg hall]
    rfl

theorem countP_item (item : ChunkRequest × EditProducer) (lineId : Str) :
    (if item.1.targets = [] then [] else [item]).countP
    (fun item => decide (lineId ∈ item.1.targets)) =
      if lineId ∈ item.1.targets then 1 else 0 := by
  by_cases hnone : item.1.targets = []
  · simp [hnone]
  · rw [if_neg hnone, List.countP_singleton]
    simp

/-- **A chunk asks for each of its targets once**, but for the skipped. -/
theorem countP_workItems (chunk : ChunkRequest) (lineId : Str) :
    (workItems producer escalation tiers chunk).countP
        (fun item => decide (lineId ∈ item.1.targets)) =
      if lineId ∈ chunk.targets ∧ lineId ∉ tiers.skip then 1 else 0 := by
  obtain ⟨primary, escalated, ⟨-, -, hprimary⟩, ⟨-, hescalated⟩, hitems⟩ :=
    exists_workItems producer escalation tiers chunk
  rw [hitems, List.countP_append, countP_item, countP_item, hprimary, hescalated]
  simp only [mem_askedTargets]
  by_cases hasked : lineId ∈ chunk.targets ∧ lineId ∉ tiers.skip <;>
    by_cases hescalate : lineId ∈ tiers.escalate <;> simp [hasked, hescalate]

/-- And of one producer. -/
theorem producer_of_mem_workItems {chunk : ChunkRequest} {item : ChunkRequest × EditProducer}
    (h : item ∈ workItems producer escalation tiers chunk) :
    (item.2 = producer ∧ ∀ lineId ∈ item.1.targets, lineId ∉ tiers.escalate) ∨
      (item.2 = escalation ∧ ∀ lineId ∈ item.1.targets, lineId ∈ tiers.escalate) ∧
        item.1.targets ≠ [] := by
  obtain ⟨primary, escalated, ⟨hproducer, -, hprimary⟩, ⟨hescalation, hescalated⟩, hitems⟩ :=
    exists_workItems producer escalation tiers chunk
  rw [hitems, List.mem_append] at h
  rcases h with h | h
  · left
    split at h
    · cases h
    · rw [List.mem_singleton.mp h]
      refine ⟨hproducer, fun lineId hin => ?_⟩
      rw [hprimary] at hin
      exact of_decide_eq_false (mem_askedTargets.mp hin).2
  · right
    split at h
    · cases h
    · next hne =>
      rw [List.mem_singleton.mp h]
      refine ⟨⟨hescalation, fun lineId hin => ?_⟩, hne⟩
      rw [hescalated] at hin
      exact of_decide_eq_true (mem_askedTargets.mp hin).2

end Chunk

/-! ## The tiers of a page -/

section Page

variable {pipeline : CorrectionPipeline} {scorer : Str → ℚ} {pageLines : List LineManifest}

/-- A line is skipped when it is alone and its score says so. -/
theorem mem_skip_iff {lineId : Str} :
    lineId ∈ (scorePageIntoTiers pipeline scorer pageLines).skip ↔ ∃ lm ∈ pageLines,
      lm.lineId = lineId ∧ lm.hyphenRole = .none ∧
        routeLine (scorer lm.ocrText) pipeline.routingPolicy = .skip := by
  simp only [scorePageIntoTiers, List.mem_flatMap, List.mem_map]
  constructor
  · rintro ⟨_, ⟨lm, hlm, rfl⟩, hin⟩
    refine ⟨lm, hlm, ?_⟩
    unfold tierOf at hin
    dsimp only at hin
    cases hroute : routeLine (scorer lm.ocrText) pipeline.routingPolicy with
    | llm => simp [hroute] at hin
    | skip =>
      by_cases hrole : lm.hyphenRole = .none
      · simpa [hroute, hrole, eq_comm] using hin
      · simp [hroute, hrole] at hin
    | escalate =>
      simp only [hroute] at hin
      split at hin
      · simp at hin
      · split at hin <;> simp at hin
  · rintro ⟨lm, hlm, rfl, hrole, hroute⟩
    exact ⟨_, ⟨lm, hlm, rfl⟩, by simp [tierOf, hroute, hrole]⟩

/-- A line escalates on its own score, or with its unit on another's. -/
theorem mem_escalate_iff {lineId : Str} :
    lineId ∈ (scorePageIntoTiers pipeline scorer pageLines).escalate ↔
      pipeline.escalationProducer.isSome = true ∧ ∃ lm ∈ pageLines,
        routeLine (scorer lm.ocrText) pipeline.routingPolicy = .escalate ∧
        (lm.hyphenRole = .none ∧ lm.lineId = lineId ∨
          lm.hyphenRole ≠ .none ∧ lineId ∈ (pageLocalUnit pageLines lm.lineId).getD []) := by
  simp only [scorePageIntoTiers, List.mem_eraseDups, List.mem_flatMap, List.mem_map]
  constructor
  · rintro ⟨_, ⟨lm, hlm, rfl⟩, hin⟩
    unfold tierOf at hin
    dsimp only at hin
    cases hroute : routeLine (scorer lm.ocrText) pipeline.routingPolicy with
    | llm => simp [hroute] at hin
    | skip => simp [hroute] at hin
    | escalate =>
      simp only [hroute] at hin
      split at hin
      · cases hin
      next hcan =>
      rw [Bool.not_eq_true', Bool.not_eq_false] at hcan
      refine ⟨hcan, lm, hlm, hroute, ?_⟩
      split at hin
      · next hrole => exact .inl ⟨hrole, (List.mem_singleton.mp hin).symm⟩
      · next hrole => exact .inr ⟨hrole, hin⟩
  · rintro ⟨hcan, lm, hlm, hroute, hin⟩
    refine ⟨_, ⟨lm, hlm, rfl⟩, ?_⟩
    rcases hin with ⟨hrole, rfl⟩ | ⟨hrole, hin⟩
    · simp [tierOf, hroute, hcan, hrole]
    · simpa [tierOf, hroute, hcan, hrole] using hin

/-- A line with a unit on the page has a group there. -/
theorem exists_group_of_local {lineId other : Str}
    (h : other ∈ (pageLocalUnit pageLines lineId).getD []) : ∃ g ∈ deriveHyphenGroups pageLines,
      pageLocalUnit pageLines lineId = some (g.members.map LineRef.lineId) ∧
        other ∈ g.members.map LineRef.lineId := by
  unfold pageLocalUnit at h ⊢
  dsimp only at h ⊢
  cases hfind : List.find? _ _ with
  | none =>
    rw [hfind] at h
    cases h
  | some g =>
    rw [hfind] at h
    refine ⟨g, ?_, rfl, h⟩
    exact List.mem_of_mem_filter (List.mem_reverse.mp (List.mem_of_find?_eq_some hfind))

/-- **A unit escalates whole.** -/
theorem escalate_of_points (hids : (pageLines.map LineManifest.lineId).Nodup) {a b : LineManifest}
    (ha : a ∈ pageLines) (hb : b ∈ pageLines) (hrole : a.hyphenRole ≠ .none)
    (hlinked : Connected pageLines (lineRef a) (lineRef b))
    (h : a.lineId ∈ (scorePageIntoTiers pipeline scorer pageLines).escalate) :
    b.lineId ∈ (scorePageIntoTiers pipeline scorer pageLines).escalate := by
  rw [mem_escalate_iff] at h ⊢
  obtain ⟨hcan, lm, hlm, hroute, hin⟩ := h
  refine ⟨hcan, lm, hlm, hroute, ?_⟩
  rcases hin with ⟨hnone, hid⟩ | ⟨hsome, hin⟩
  · -- ids are distinct: a line without a role is not this one
    have := List.inj_on_of_nodup_map hids hlm ha hid
    exact absurd (this ▸ hnone) hrole
  · right
    refine ⟨hsome, ?_⟩
    obtain ⟨g, hg, hunit, hmem⟩ := exists_group_of_local hin
    obtain ⟨ref, href, hid⟩ := List.mem_map.mp hmem
    have hrefs := nodup_refs_of_ids hids
    obtain ⟨a', ha', rfl⟩ := List.mem_map.mp ((mem_members_iff hrefs hg href).mp href).1
    have haa : a' = a := List.inj_on_of_nodup_map hids ha' ha hid
    subst haa
    have hother := (mem_members_iff hrefs hg href).mpr ⟨List.mem_map_of_mem hb, hlinked⟩
    rw [hunit]
    exact List.mem_map_of_mem hother

end Page

/-! ## The routed plan -/

section Routed

variable {pipeline : CorrectionPipeline} {workspace : PageWorkspace}

/-- A line confirmed on its own source. -/
def LineManifest.confirmed (lm : LineManifest) : LineManifest :=
  { lm with correctedText := some lm.ocrText, status := .corrected }

/-- Accepting several lines confirms those lines only. -/
theorem heap_foldl_accept (lines : List LineRef) (s : RunState) (ref : LineRef) :
    (lines.foldl (fun s line => accept line (s.heap line).ocrText s) s).heap ref =
      if ref ∈ lines then (s.heap ref).confirmed else s.heap ref := by
  induction lines generalizing s with
  | nil => rfl
  | cons line lines ih =>
    rw [List.foldl_cons, ih]
    show (if ref ∈ lines then LineManifest.confirmed (s.heap.set line (s.heap line).confirmed ref)
      else s.heap.set line (s.heap line).confirmed ref) = _
    by_cases heq : ref = line
    · subst heq
      simp [LineManifest.confirmed]
    · rw [Heap.set_of_ne heq]
      simp [heq]

theorem lineId_of_lineById {lineId : Str} {ref : LineRef}
    (h : workspace.lineById lineId = some ref) : ref.lineId = lineId := by
  simpa using List.find?_some h

/-- Where ids are distinct, a ref is looked up by its id. -/
theorem lineById_of_mem (hids : (workspace.refs.map LineRef.lineId).Nodup) {ref : LineRef}
    (href : ref ∈ workspace.refs) : workspace.lineById ref.lineId = some ref := by
  have hsome : (workspace.lineById ref.lineId).isSome := by
    rw [PageWorkspace.lineById, List.find?_isSome]
    exact ⟨ref, href, decide_eq_true rfl⟩
  obtain ⟨found, hfound⟩ := Option.isSome_iff_exists.mp hsome
  rw [hfound, List.inj_on_of_nodup_map hids (mem_of_lineById hfound) href
    (lineId_of_lineById hfound)]

/-- **Confirming decides the skipped lines**, and no other. -/
theorem heap_confirmSkippedLines (hids : (workspace.refs.map LineRef.lineId).Nodup)
    (skip : List Str) (s : RunState) {ref : LineRef} (href : ref ∈ workspace.refs) :
    (confirmSkippedLines workspace skip s).heap ref =
      if ref.lineId ∈ skip then (s.heap ref).confirmed else s.heap ref := by
  rw [confirmSkippedLines, heap_foldl_accept]
  have hmem : ref ∈ skip.filterMap workspace.lineById ↔ ref.lineId ∈ skip := by
    rw [List.mem_filterMap]
    constructor
    · rintro ⟨lineId, hskip, hfound⟩
      rwa [lineId_of_lineById hfound]
    · intro hskip
      exact ⟨ref.lineId, hskip, lineById_of_mem hids href⟩
  simp only [hmem]

/-- What routing makes of a plan: which lines it decides, and whom it asks
for the others. -/
structure RoutesTargets (pipeline : CorrectionPipeline) (refs : List LineRef)
    (chunks : List ChunkRequest) (before after : Heap)
    (items : List (ChunkRequest × EditProducer)) : Prop where
  /-- A line is confirmed on its own source and asked of nobody, or left as it
  is and a target of as many items as of chunks of the plan. -/
  shared : ∀ ref ∈ refs,
    (after ref = (before ref).confirmed ∧ (before ref).hyphenRole = .none ∧
      items.countP (fun item => decide (ref.lineId ∈ item.1.targets)) = 0) ∨
    (after ref = before ref ∧
      items.countP (fun item => decide (ref.lineId ∈ item.1.targets)) =
        chunks.countP fun chunk => decide (ref.lineId ∈ chunk.targets))
  /-- One producer is asked for a line. -/
  oneProducer : ∀ ref ∈ refs, ∀ item ∈ items, ∀ other ∈ items, ref.lineId ∈ item.1.targets →
    ref.lineId ∈ other.1.targets → item.2 = other.2
  /-- Two linked lines with a role are asked of one producer. -/
  together : ∀ a ∈ refs, ∀ b ∈ refs, (before a).hyphenRole ≠ .none →
    (before b).hyphenRole ≠ .none → Connected (linesOf before refs) a b →
    ∀ item ∈ items, ∀ other ∈ items, a.lineId ∈ item.1.targets → b.lineId ∈ other.1.targets →
      item.2 = other.2
  /-- Any other producer than the first is the escalation producer given. -/
  given : ∀ item ∈ items, item.2 = pipeline.producer ∨ pipeline.escalationProducer = some item.2

/-- The work items own a line once, unless it is skipped. -/
theorem countP_flatMap_workItems {producer escalation : EditProducer} {tiers : Tiers}
    (chunks : List ChunkRequest) (lineId : Str) :
    (chunks.flatMap (workItems producer escalation tiers)).countP
        (fun item => decide (lineId ∈ item.1.targets)) =
      if lineId ∈ tiers.skip then 0
      else chunks.countP fun chunk => decide (lineId ∈ chunk.targets) := by
  induction chunks with
  | nil => simp
  | cons chunk chunks ih =>
    rw [List.flatMap_cons, List.countP_append, ih, countP_workItems, List.countP_cons]
    by_cases hskip : lineId ∈ tiers.skip <;> by_cases htarget : lineId ∈ chunk.targets <;>
      simp [hskip, htarget, Nat.add_comm]

/-- A plan that is not routed is asked of the first producer. -/
theorem routesTargets_unrouted (refs : List LineRef) (chunks : List ChunkRequest) (heap : Heap) :
    RoutesTargets pipeline refs chunks heap heap (chunks.map (·, pipeline.producer)) := by
  have hall : ∀ item ∈ chunks.map (·, pipeline.producer), item.2 = pipeline.producer := by
    intro item hitem
    obtain ⟨chunk, -, rfl⟩ := List.mem_map.mp hitem
    rfl
  refine ⟨fun ref _ => .inr ⟨rfl, ?_⟩, ?_, ?_, fun item hitem => .inl (hall item hitem)⟩
  · rw [List.countP_map]
    rfl
  · intro _ _ item hitem other hother _ _
    rw [hall item hitem, hall other hother]
  · intro _ _ _ _ _ _ _ item hitem other hother _ _
    rw [hall item hitem, hall other hother]

/-- The items of a routed plan. -/
def routedItems (pipeline : CorrectionPipeline) (tiers : Tiers) (chunks : List ChunkRequest) :
    List (ChunkRequest × EditProducer) :=
  chunks.flatMap <|
    workItems pipeline.producer (pipeline.escalationProducer.getD pipeline.producer) tiers

/-- The tier of a target says whom its item asks. -/
theorem producer_of_mem_routedItems {tiers : Tiers} {chunks : List ChunkRequest}
    {item : ChunkRequest × EditProducer} (hitem : item ∈ routedItems pipeline tiers chunks)
    {lineId : Str} (htarget : lineId ∈ item.1.targets) :
    item.2 = if lineId ∈ tiers.escalate
      then pipeline.escalationProducer.getD pipeline.producer else pipeline.producer := by
  obtain ⟨chunk, -, hitem⟩ := List.mem_flatMap.mp hitem
  rcases producer_of_mem_workItems hitem with ⟨heq, hnot⟩ | ⟨⟨heq, hall⟩, -⟩
  · rw [if_neg (hnot lineId htarget), heq]
  · rw [if_pos (hall lineId htarget), heq]

/-- A plan routed by a scorer. -/
theorem routesTargets_routed (scorer : Str → ℚ) (chunks : List ChunkRequest) (s : RunState)
    (haddr : Addressed s.heap) (hids : (workspace.refs.map LineRef.lineId).Nodup) :
    let tiers := scorePageIntoTiers pipeline scorer (linesOf s.heap workspace.refs)
    RoutesTargets pipeline workspace.refs chunks s.heap
      (confirmSkippedLines workspace tiers.skip s).heap (routedItems pipeline tiers chunks) := by
  intro tiers
  have hline : ∀ ref ∈ workspace.refs, s.heap ref ∈ linesOf s.heap workspace.refs ∧
      (s.heap ref).lineId = ref.lineId := by
    intro ref href
    exact ⟨List.mem_map_of_mem href, congrArg LineRef.lineId (haddr ref)⟩
  have hpageIds : ((linesOf s.heap workspace.refs).map LineManifest.lineId).Nodup := by
    have hsame : (linesOf s.heap workspace.refs).map LineManifest.lineId =
        workspace.refs.map LineRef.lineId := by
      conv_rhs => rw [← map_lineRef_linesOf haddr workspace.refs, List.map_map]
      rfl
    rwa [hsame]
  refine ⟨fun ref href => ?shared, ?oneProducer, ?together, fun item hitem => ?given⟩
  case shared =>
    rw [heap_confirmSkippedLines hids tiers.skip s href, routedItems, countP_flatMap_workItems]
    by_cases hskip : ref.lineId ∈ tiers.skip
    · rw [if_pos hskip, if_pos hskip]
      obtain ⟨lm, hlm, hid, hrole, -⟩ := mem_skip_iff.mp hskip
      have heq : lm = s.heap ref :=
        List.inj_on_of_nodup_map hpageIds hlm (hline ref href).1 (hid.trans (hline ref href).2.symm)
      exact .inl ⟨rfl, heq ▸ hrole, rfl⟩
    · rw [if_neg hskip, if_neg hskip]
      exact .inr ⟨rfl, rfl⟩
  case oneProducer =>
    intro ref _ item hitem other hother htarget htarget'
    rw [producer_of_mem_routedItems hitem htarget, producer_of_mem_routedItems hother htarget']
  case together =>
    intro a ha b hb hroleA hroleB hlinked item hitem other hother htarget htarget'
    -- a unit is in the tier whole, so both lines are in it or neither
    have hboth : a.lineId ∈ tiers.escalate ↔ b.lineId ∈ tiers.escalate := by
      obtain ⟨hmemA, hidA⟩ := hline a ha
      obtain ⟨hmemB, hidB⟩ := hline b hb
      rw [← hidA, ← hidB]
      rw [← haddr a, ← haddr b] at hlinked
      exact ⟨escalate_of_points hpageIds hmemA hmemB hroleA hlinked,
        escalate_of_points hpageIds hmemB hmemA hroleB (hlinked.symm _ _)⟩
    rw [producer_of_mem_routedItems hitem htarget, producer_of_mem_routedItems hother htarget']
    simp only [hboth]
  case given =>
    obtain ⟨chunk, -, hitem⟩ := List.mem_flatMap.mp hitem
    rcases producer_of_mem_workItems hitem with ⟨heq, -⟩ | ⟨⟨heq, hall⟩, hne⟩
    · exact .inl heq
    · right
      obtain ⟨lineId, htarget⟩ := List.exists_mem_of_ne_nil _ hne
      -- a line is in the tier only where there is a producer for it
      obtain ⟨hcan, -⟩ := mem_escalate_iff.mp (hall lineId htarget)
      obtain ⟨escalation, hescalation⟩ := Option.isSome_iff_exists.mp hcan
      rw [heq, hescalation]
      rfl

/-- **Routing shares out the targets of a plan and never splits a unit.** -/
theorem routesTargets_routeAndFilterChunks (chunks : List ChunkRequest) (s : RunState)
    (haddr : Addressed s.heap) (hids : (workspace.refs.map LineRef.lineId).Nodup) :
    ∃ items s', (routeAndFilterChunks pipeline workspace chunks).exec s = (.ok items, s') ∧
      RoutesTargets pipeline workspace.refs chunks s.heap s'.heap items := by
  unfold routeAndFilterChunks
  cases hscorer : routingScorer pipeline with
  | none => exact ⟨_, _, rfl, routesTargets_unrouted _ _ _⟩
  | some scorer => exact ⟨_, _, rfl, routesTargets_routed scorer chunks s haddr hids⟩

end Routed

/-! ## Two pages -/

/-- The page, as the run works on it. -/
def onePageWorkspace (lines : List LineManifest) : PageWorkspace :=
  workspaceOf (onePageDocument lines) (onePage lines) (onePageDocument lines).heap

/-- An engine that sends one text to a second producer. -/
def escalating (risky : String) : CorrectionPipeline :=
  { CorrectionPipeline.plain (.answering []) .default with
    escalationProducer := some (imageProducer 1)
    qeScorer := some fun text => if text = risky.toList then 1 else 0
    routingPolicy := ⟨none, some 1, fun _ h => by simp at h⟩ }

theorem routesTargets_brokenWord : ∃ items s',
    (routeAndFilterChunks (escalating "tail") (onePageWorkspace brokenWord)
      [(imageItem ["a", "b", "c"] 1).1]).exec (initialState (onePageDocument brokenWord)) =
        (.ok items, s') ∧
      RoutesTargets (escalating "tail") (onePageWorkspace brokenWord).refs
        [(imageItem ["a", "b", "c"] 1).1] (onePageDocument brokenWord).heap s'.heap items :=
  routesTargets_routeAndFilterChunks _ (initialState (onePageDocument brokenWord))
    (addressed_heap _) (by decide)

/-- **A line without a role escalates without the line that continues it.** -/
theorem routing_rolelessPage :
    Points rolelessPage ⟨"p".toList, "b".toList⟩ ⟨"p".toList, "a".toList⟩ ∧
    ((routeAndFilterChunks (escalating "le por") (onePageWorkspace rolelessPage)
      [(imageItem ["a", "x", "b"] 1).1]).exec
        (initialState (onePageDocument rolelessPage))).1.toOption.map
      (·.map fun item => (item.1.targets, item.2.imageCap)) =
        some [(["x".toList, "b".toList], none), (["a".toList], some 1)] := by
  unfold Points
  decide +kernel

end Saknussemm
