import Saknussemm.Planning.Atomicity

/-! # What a LINE plan may sever.

On a page whose links are mutual, wherever they lead, a cut that severs a
link of the page leaves every other link alone.  The walk looks partners
up by bare id, though: one that ends on a link to another page severs it
when some line of this page bears the partner's bare id. -/

namespace Saknussemm

/-! ## Mutual links -/

/-- A page among the lines of the other pages, its links mutual with theirs
and with each other.  Ids are unique on the page and may repeat elsewhere. -/
structure PageManifest.Mutual (page : PageManifest) (others : List LineManifest) : Prop where
  line_page : ∀ lm ∈ page.lines, lm.pageId = page.pageId
  line_ids : (page.lines.map LineManifest.lineId).Nodup
  other_page : ∀ lm ∈ others, lm.pageId ≠ page.pageId
  answered : ∀ x ∈ page.lines ++ others, ∀ y ∈ page.lines ++ others,
    forwardPartnerRef x = some (lineRef y) ↔ backwardPartnerRef y = some (lineRef x)

/-- Every link is mutual. -/
def Answered (lines : List LineManifest) : Prop :=
  ∀ x ∈ lines, ∀ y ∈ lines,
    forwardPartnerRef x = some (lineRef y) ↔ backwardPartnerRef y = some (lineRef x)

/-- A plan that severs links of its page and nothing else: links from or to
another page are as they were, a split names a link whose two lines are in
no chunk together, each severed link is recorded once and no other is, and
what is left is mutual. -/
structure SeversOwnLinks (page : PageManifest) (others : List LineManifest) (plan : ChunkPlan)
    (after : List LineManifest) : Prop where
  crossing : ∀ (i : Nat) (x x' : LineManifest) (ref : LineRef), page.lines[i]? = some x →
    after[i]? = some x' → ref.pageId ≠ page.pageId →
    (forwardPartnerRef x' = some ref ↔ forwardPartnerRef x = some ref) ∧
      (backwardPartnerRef x' = some ref ↔ backwardPartnerRef x = some ref)
  own : ∀ split ∈ plan.hyphenSplits, ∃ x ∈ page.lines, ∃ y ∈ page.lines,
    split = ⟨page.pageId, x.lineId, y.lineId⟩ ∧ forwardPartnerRef x = some (lineRef y) ∧
      ∀ chunk ∈ plan.chunks, x.lineId ∈ chunk.lineIds → y.lineId ∉ chunk.lineIds
  recorded : ∀ x ∈ page.lines, ∀ y ∈ page.lines, forwardPartnerRef x = some (lineRef y) →
    plan.hyphenSplits.count ⟨page.pageId, x.lineId, y.lineId⟩ =
      if Live after (lineRef x) (lineRef y) then 0 else 1
  answered : Answered (after ++ others)

/-- No chain walk ends on a link to another page whose bare id is borne by a
line of this page outside the walk. -/
def NoNamesake (config : ChunkPlannerConfig) (lines : List LineManifest) : Prop :=
  ∀ span ∈ chainSpans config lines, ∀ k, PhantomAt lines span.2 k → span.1 ≤ k ∧ k ≤ span.2

/-! ## One cut of a link -/

section Split

variable {tail head : LineManifest}

/-- A line with a forward link keeps its backward one. -/
theorem splitForwardLink_tail_backward {ref : LineRef} (h : forwardPartnerRef tail = some ref) :
    backwardPartnerRef (splitForwardLink tail head).1 = backwardPartnerRef tail := by
  rcases role_of_forward h with hrole | hrole <;>
    simp [splitForwardLink, backwardPartnerRef, hrole, pairRef]

theorem splitForwardLink_head_backward :
    backwardPartnerRef (splitForwardLink tail head).2.1 = none := by
  simp only [splitForwardLink]
  split <;> rfl

/-- A line with a backward link keeps its forward one. -/
theorem splitForwardLink_head_forward_of_backward {ref : LineRef}
    (h : backwardPartnerRef head = some ref) :
    forwardPartnerRef (splitForwardLink tail head).2.1 = forwardPartnerRef head := by
  rw [splitForwardLink_head_forward, if_neg]
  intro hrole
  rcases role_of_backward h with hr | hr <;> rw [hrole] at hr <;> cases hr

end Split

/-- The page after some links of it were cut: their tails have no forward
link, their heads no backward one, and nothing else changed. -/
structure Severed (lines : List LineManifest) (cuts : List (Nat × Nat))
    (lines' : List LineManifest) : Prop where
  refs : lines'.map lineRef = lines.map lineRef
  links : ∀ cut ∈ cuts, LinkAt lines cut.1 cut.2
  forward : ∀ (i : Nat) (x x' : LineManifest), lines[i]? = some x → lines'[i]? = some x' →
    forwardPartnerRef x' = if i ∈ cuts.map Prod.fst then none else forwardPartnerRef x
  backward : ∀ (i : Nat) (x x' : LineManifest), lines[i]? = some x → lines'[i]? = some x' →
    backwardPartnerRef x' = if i ∈ cuts.map Prod.snd then none else backwardPartnerRef x

theorem Severed.nil (lines : List LineManifest) : Severed lines [] lines where
  refs := rfl
  links := by simp
  forward i x x' hx hx' := by
    rw [hx, Option.some_inj] at hx'
    simp [hx']
  backward i x x' hx hx' := by
    rw [hx, Option.some_inj] at hx'
    simp [hx']

/-- A walk reads the links of lines that no earlier walk ended on. -/
theorem Severed.partnerAt_eq {lines lines' : List LineManifest} {cuts : List (Nat × Nat)}
    (hsev : Severed lines cuts lines') {i : Nat} (hi : i ∉ cuts.map Prod.fst) :
    partnerAt lines' i = partnerAt lines i := by
  have hposition : positionOf lines' = positionOf lines :=
    funext fun lineId => positionOf_congr hsev.refs lineId
  rw [partnerAt, partnerAt, hposition]
  cases hx : lines[i]? with
  | none =>
    have hlen : lines'.length = lines.length := by
      simpa using congrArg List.length hsev.refs
    rw [List.getElem?_eq_none_iff] at hx
    rw [List.getElem?_eq_none (by omega)]
  | some x =>
    obtain ⟨x', hx', -⟩ := getElem?_of_refs hsev.refs.symm hx
    have hforward := hsev.forward i x x' hx hx'
    rw [if_neg hi] at hforward
    rw [hx', Option.bind_some, Option.bind_some, forwardPartnerId, forwardPartnerId, hforward]

/-- The lines at two positions after both were rewritten. -/
theorem getElem?_severAt_cases {lines : List LineManifest} {cut : Nat × Nat}
    {tail head : LineManifest}
    (htail : lines[cut.1]? = some tail) (hhead : lines[cut.2]? = some head) (hne : cut.1 ≠ cut.2)
    {i : Nat} {x : LineManifest} (hx : (severAt lines cut)[i]? = some x) :
    (i = cut.1 ∧ x = (splitForwardLink tail head).1) ∨
      (i = cut.2 ∧ x = (splitForwardLink tail head).2.1) ∨
      (i ≠ cut.1 ∧ i ≠ cut.2 ∧ lines[i]? = some x) := by
  have hi := (List.getElem?_eq_some_iff.mp htail).1
  have hk := (List.getElem?_eq_some_iff.mp hhead).1
  rw [severAt_eq htail hhead] at hx
  by_cases htaili : i = cut.1
  · subst htaili
    rw [List.getElem?_set_ne hne.symm, List.getElem?_set_self hi, Option.some_inj] at hx
    exact .inl ⟨rfl, hx.symm⟩
  · by_cases hheadi : i = cut.2
    · subst hheadi
      rw [List.getElem?_set_self (by rwa [List.length_set]), Option.some_inj] at hx
      exact .inr (.inl ⟨rfl, hx.symm⟩)
    · rw [List.getElem?_set_ne (Ne.symm hheadi), List.getElem?_set_ne (Ne.symm htaili)] at hx
      exact .inr (.inr ⟨htaili, hheadi, hx⟩)

/-- A line without a forward link gets none from the walks. -/
theorem forward_planLineFrom_of_none (config : ChunkPlannerConfig) (pageId : Str) (fuel start : Nat)
    {lines : List LineManifest} {i : Nat} {lm : LineManifest} (hlm : lines[i]? = some lm)
    (hnone : forwardPartnerRef lm = none) :
    ∃ lm', (planLineFrom config pageId fuel lines start).2.2[i]? = some lm' ∧
      forwardPartnerRef lm' = none := by
  induction fuel generalizing lines start lm with
  | zero => exact ⟨lm, hlm, hnone⟩
  | succ fuel ih =>
    rw [planLineFrom]
    split
    case isFalse => exact ⟨lm, hlm, hnone⟩
    case isTrue =>
      dsimp only
      generalize followChain _ _ _ _ _ = last
      generalize sliceIds _ _ _ = chain
      -- the tail that was cut or passed keeps no link it did not have
      suffices hmid : ∃ mid, (severTail lines chain last).1[i]? = some mid ∧
          forwardPartnerRef mid = none by
        obtain ⟨mid, hmid, hmidNone⟩ := hmid
        exact ih _ hmid hmidNone
      rw [severTail]
      split
      case h_2 => exact ⟨lm, hlm, hnone⟩
      case h_1 tail partnerId partner htail hid _ =>
        split
        · exact ⟨lm, hlm, hnone⟩
        · cases hhead : lines[partner]? with
          | none => exact ⟨lm, hlm, hnone⟩
          | some head =>
            have hi : i ≠ last := by
              rintro rfl
              rw [htail, Option.some_inj] at hlm
              rw [htail, Option.bind_some, forwardPartnerId, hlm, hnone] at hid
              cases hid
            have hlen := (List.getElem?_eq_some_iff.mp hhead).1
            by_cases hk : i = partner
            · subst hk
              rw [hhead, Option.some_inj] at hlm
              refine ⟨_, List.getElem?_set_self (by rwa [List.length_set]), ?_⟩
              rw [splitForwardLink_head_forward, hlm, hnone, ite_self]
            · refine ⟨lm, ?_, hnone⟩
              rw [List.getElem?_set_ne (Ne.symm hk), List.getElem?_set_ne (Ne.symm hi), hlm]

/-- Two walks of a page share no position. -/
theorem chainSpansFrom_disjoint {config : ChunkPlannerConfig} {lines : List LineManifest}
    {fuel start : Nat} {a b : Nat × Nat} (ha : a ∈ chainSpansFrom config lines fuel start)
    (hb : b ∈ chainSpansFrom config lines fuel start) (hne : a ≠ b) : a.2 < b.1 ∨ b.2 < a.1 := by
  induction fuel generalizing start with
  | zero => cases ha
  | succ fuel ih =>
    rw [chainSpansFrom] at ha hb
    split at ha
    case isFalse => cases ha
    case isTrue hstart =>
      rw [if_pos hstart] at hb
      rcases List.mem_cons.mp ha with rfl | ha' <;> rcases List.mem_cons.mp hb with rfl | hb'
      · exact absurd rfl hne
      · have := mem_chainSpansFrom hb'
        exact .inl (by dsimp only; omega)
      · have := mem_chainSpansFrom ha'
        exact .inr (by dsimp only; omega)
      · exact ih ha' hb'

theorem chainSpans_disjoint {config : ChunkPlannerConfig} {lines : List LineManifest}
    {a b : Nat × Nat} (ha : a ∈ chainSpans config lines) (hb : b ∈ chainSpans config lines)
    (hne : a ≠ b) : a.2 < b.1 ∨ b.2 < a.1 :=
  chainSpansFrom_disjoint ha hb hne

/-- Each walk ends with one cut at most. -/
theorem nodup_lineCuts (config : ChunkPlannerConfig) (lines : List LineManifest) :
    ((lineCuts config lines).map Prod.fst).Nodup := by
  have hsub : ∀ spans : List (Nat × Nat),
      ((spans.filterMap (cutOf lines)).map Prod.fst).Sublist (spans.map Prod.snd) := by
    intro spans
    induction spans with
    | nil => exact .slnil
    | cons span spans ih =>
      rw [List.filterMap_cons, List.map_cons]
      split
      · exact ih.cons _
      · next cut hcut =>
        rw [List.map_cons, (cutOf_eq_some.mp hcut).1]
        exact ih.cons_cons _
  exact (hsub _).nodup (nodup_ends_chainSpansFrom _ _ _ _)

theorem PhantomAt.not_linkAt {lines : List LineManifest} {i k k' : Nat}
    (hphantom : PhantomAt lines i k) : ¬ LinkAt lines i k' := by
  obtain ⟨x, ref, hx, href, hoff, -⟩ := hphantom
  rintro ⟨x', y, hx', hy, hxy⟩
  obtain rfl : x = x' := by simpa [hx] using hx'
  obtain rfl : ref = lineRef y := by simpa [href] using hxy
  exact hoff (List.mem_map_of_mem (List.mem_of_getElem? hy))

/-- The record of a cut that is a link's. -/
theorem splitAt_eq {page : PageManifest} {cut : Nat × Nat} {x y : LineManifest}
    (hx : page.lines[cut.1]? = some x)
    (hy : page.lines[cut.2]? = some y) : splitAt page cut = ⟨page.pageId, x.lineId, y.lineId⟩ := by
  rw [splitAt, hx, hy]
  rfl

namespace PageManifest.Mutual

variable {config : ChunkPlannerConfig} {page : PageManifest} {others : List LineManifest}
  (h : page.Mutual others)

include h

theorem answered_page {x y : LineManifest} (hx : x ∈ page.lines) (hy : y ∈ page.lines) :
    forwardPartnerRef x = some (lineRef y) ↔ backwardPartnerRef y = some (lineRef x) :=
  h.answered x (List.mem_append_left _ hx) y (List.mem_append_left _ hy)

/-- A line of the page is the head of one link at most. -/
theorem linkAt_unique {i i' k : Nat} (hlink : LinkAt page.lines i k)
    (hlink' : LinkAt page.lines i' k) : i = i' := by
  obtain ⟨x, y, hx, hy, hxy⟩ := hlink
  obtain ⟨x', y', hx', hy', hxy'⟩ := hlink'
  obtain rfl : y = y' := by simpa [hy] using hy'
  have hb := (h.answered_page (List.mem_of_getElem? hx) (List.mem_of_getElem? hy)).mp hxy
  have hb' := (h.answered_page (List.mem_of_getElem? hx') (List.mem_of_getElem? hy)).mp hxy'
  have href : lineRef x = lineRef x' := by simpa [hb] using hb'
  exact position_unique h.line_ids hx hx' (congrArg LineRef.lineId href)

/-- **Cutting one more link** leaves the others alone. -/
theorem severed_snoc {cuts : List (Nat × Nat)} {lines' : List LineManifest}
    (hsev : Severed page.lines cuts lines') {cut : Nat × Nat}
    (hlink : LinkAt page.lines cut.1 cut.2) (hne : cut.1 ≠ cut.2)
    (hfresh : cut.1 ∉ cuts.map Prod.fst) :
    Severed page.lines (cuts ++ [cut]) (severAt lines' cut) := by
  -- the link is answered, so the two ends of a cut are fresh together
  have hfreshHead : cut.2 ∉ cuts.map Prod.snd := by
    intro hmem
    obtain ⟨other, hother, heq⟩ := List.mem_map.mp hmem
    have hsame := h.linkAt_unique hlink (heq ▸ hsev.links other hother)
    exact hfresh (hsame ▸ List.mem_map_of_mem hother)
  have hat := fun {i : Nat} {lm : LineManifest} (hlm : page.lines[i]? = some lm) =>
    @getElem?_of_refs lines' _ hsev.refs.symm i lm hlm
  obtain ⟨x, y, hx, hy, hxy⟩ := hlink
  obtain ⟨tail, htail, -⟩ := hat hx
  obtain ⟨head, hhead, -⟩ := hat hy
  have htailForward : forwardPartnerRef tail = some (lineRef y) := by
    rw [hsev.forward _ x tail hx htail, if_neg hfresh, hxy]
  have hheadBackward : backwardPartnerRef head = some (lineRef x) := by
    rw [hsev.backward _ y head hy hhead, if_neg hfreshHead]
    exact (h.answered_page (List.mem_of_getElem? hx) (List.mem_of_getElem? hy)).mp hxy
  refine ⟨(map_lineRef_severAt lines' cut).trans hsev.refs, ?_, ?_, ?_⟩
  · intro c hc
    rcases List.mem_append.mp hc with hc | hc
    · exact hsev.links c hc
    · rw [List.mem_singleton.mp hc]
      exact ⟨x, y, hx, hy, hxy⟩
  -- the forward links: the tail's goes, and the head's is its own
  · intro i z z' hz hz'
    have hsnoc : i ∈ (cuts ++ [cut]).map Prod.fst ↔ i ∈ cuts.map Prod.fst ∨ i = cut.1 := by simp
    rcases getElem?_severAt_cases htail hhead hne hz' with ⟨rfl, rfl⟩ | ⟨rfl, rfl⟩ | ⟨hi, hk, hold⟩
    · rw [splitForwardLink_tail_forward, if_pos (hsnoc.mpr (.inr rfl))]
    · rw [splitForwardLink_head_forward_of_backward hheadBackward, hsev.forward _ z head hz hhead]
      exact if_congr (by simp [Ne.symm hne]) rfl rfl
    · rw [hsev.forward i z z' hz hold]
      exact if_congr (by simp [hi]) rfl rfl
  -- the backward links: the head's goes, and the tail's is its own
  · intro i z z' hz hz'
    have hsnoc : i ∈ (cuts ++ [cut]).map Prod.snd ↔ i ∈ cuts.map Prod.snd ∨ i = cut.2 := by simp
    rcases getElem?_severAt_cases htail hhead hne hz' with ⟨rfl, rfl⟩ | ⟨rfl, rfl⟩ | ⟨hi, hk, hold⟩
    · rw [splitForwardLink_tail_backward htailForward, hsev.backward _ z tail hz htail]
      exact if_congr (by simp [hne]) rfl rfl
    · rw [splitForwardLink_head_backward, if_pos (hsnoc.mpr (.inr rfl))]
    · rw [hsev.backward i z z' hz hold]
      exact if_congr (by simp [hk]) rfl rfl

/-! ## The walks -/

/-- One walk, and the cut it ends with. -/
theorem planLineFrom_succ (fuel : Nat) {start : Nat} {cuts : List (Nat × Nat)}
    {lines' : List LineManifest} (hsev : Severed page.lines cuts lines')
    (hlt : ∀ cut ∈ cuts, cut.1 < start) (hstart : start < page.lines.length) :
    let last := followChain config.maxLinesPerRequest page.lines start page.lines.length start
    let cut := cutOf page.lines (start, last)
    let later := planLineFrom config page.pageId fuel (cut.toList.foldl severAt lines') (last + 1)
    planLineFrom config page.pageId (fuel + 1) lines' start =
      (chainChunk page (start, last) :: later.1,
        cut.toList.map (splitAt page) ++ later.2.1, later.2.2) := by
  have hfresh : ∀ i, start ≤ i → i ∉ cuts.map Prod.fst := by
    intro i hi hmem
    obtain ⟨cut, hcut, rfl⟩ := List.mem_map.mp hmem
    have := hlt cut hcut
    omega
  have hlen : lines'.length = page.lines.length := by
    simpa using congrArg List.length hsev.refs
  have hwalk : followChain config.maxLinesPerRequest lines' start page.lines.length start =
      followChain config.maxLinesPerRequest page.lines start page.lines.length start :=
    followChain_congr fun i hi => hsev.partnerAt_eq (hfresh i hi)
  have hle := (followChain_bounds config.maxLinesPerRequest start page.lines.length hstart).1
  have hsever := @severTail_of_partner page lines' h.line_page h.line_ids hsev.refs start _
    (hsev.partnerAt_eq (hfresh _ hle))
  rw [planLineFrom, hlen, if_pos hstart]
  dsimp only
  rw [hwalk, sliceIds_congr hsev.refs, hsever]
  rfl

variable (config) in
/-- **Walks whose cuts are links of the page** sever them and nothing else. -/
theorem planLineFrom_of_own (fuel : Nat) {start : Nat} {cuts : List (Nat × Nat)}
    {lines' : List LineManifest} (hsev : Severed page.lines cuts lines')
    (hlt : ∀ cut ∈ cuts, cut.1 < start)
    (hown : ∀ span ∈ chainSpansFrom config page.lines fuel start, ∀ cut,
      cutOf page.lines span = some cut → LinkAt page.lines cut.1 cut.2) :
    ∃ after, planLineFrom config page.pageId fuel lines' start =
        ((chainSpansFrom config page.lines fuel start).map (chainChunk page),
          ((chainSpansFrom config page.lines fuel start).filterMap (cutOf page.lines)).map
            (splitAt page), after) ∧
      Severed page.lines
        (cuts ++ (chainSpansFrom config page.lines fuel start).filterMap (cutOf page.lines))
        after := by
  -- induction on the fuel; a turn whose chain is cut short adds its cut, any other leaves the lines
  induction fuel generalizing start cuts lines' with
  | zero => exact ⟨lines', rfl, by simpa [chainSpansFrom] using hsev⟩
  | succ fuel ih =>
    by_cases hstart : start < page.lines.length
    · have hle := (followChain_bounds config.maxLinesPerRequest start page.lines.length hstart).1
      rw [h.planLineFrom_succ fuel hsev hlt hstart]
      rw [chainSpansFrom, if_pos hstart] at hown ⊢
      dsimp only at hown ⊢
      generalize followChain config.maxLinesPerRequest page.lines start page.lines.length start =
        last at hle hown ⊢
      have hrest := fun span hspan => hown span (List.mem_cons_of_mem _ hspan)
      -- the cut falls before the lines still to be planned, so it was not made already
      cases hcut : cutOf page.lines (start, last) with
      | none =>
        obtain ⟨after, heq, hafter⟩ := ih hsev (fun c hc => by have := hlt c hc; omega) hrest
        refine ⟨after, ?_, ?_⟩
        · simp [heq, hcut]
        · simpa [hcut] using hafter
      | some cut =>
        obtain ⟨hfst, -, hout⟩ := cutOf_eq_some.mp hcut
        dsimp only at hfst hout
        have hfresh : cut.1 ∉ cuts.map Prod.fst := by
          intro hmem
          obtain ⟨c, hc, heq⟩ := List.mem_map.mp hmem
          have := hlt c hc
          omega
        have hsev' := h.severed_snoc hsev (hown _ List.mem_cons_self cut hcut) (by omega) hfresh
        have hlt' : ∀ c ∈ cuts ++ [cut], c.1 < last + 1 := by
          intro c hc
          rcases List.mem_append.mp hc with hc | hc
          · have := hlt c hc
            omega
          · rw [List.mem_singleton.mp hc]
            omega
        obtain ⟨after, heq, hafter⟩ := ih hsev' hlt' hrest
        refine ⟨after, ?_, ?_⟩
        · simp [heq, hcut]
        · simpa [hcut] using hafter
    · refine ⟨lines', ?_, ?_⟩
      · have hlen : lines'.length = page.lines.length := by
          simpa using congrArg List.length hsev.refs
        rw [planLineFrom, chainSpansFrom, hlen, if_neg hstart]
        simp [hstart]
      · simpa [chainSpansFrom, hstart] using hsev

/-! ## A link lost to a namesake -/

/-- What is found at a partner's position is the partner, or a namesake. -/
theorem linkAt_or_phantomAt {i k : Nat} (hk : partnerAt page.lines i = some k) :
    LinkAt page.lines i k ∨ PhantomAt page.lines i k := by
  obtain ⟨x, ref, hx, href, hpos⟩ := partnerAt_eq_some_iff.mp hk
  by_cases hon : ref ∈ page.lines.map lineRef
  · obtain ⟨y, hy, rfl⟩ := List.mem_map.mp hon
    obtain ⟨j, hj⟩ := List.mem_iff_getElem?.mp hy
    have hpos' : positionOf page.lines (lineRef y).lineId = some j :=
      positionOf_eq_some h.line_ids hj
    obtain rfl : j = k := by simpa [hpos'] using hpos
    exact .inl ⟨x, y, hx, hj, href⟩
  · exact .inr ⟨x, ref, hx, href, hon, hpos⟩

variable (config) in
/-- **A walk that ends on a link to another page, and finds a namesake of
its partner outside the walk, takes that link off for good.** -/
theorem crossing_lost (fuel : Nat) {start : Nat} {cuts : List (Nat × Nat)}
    {lines' : List LineManifest} (hsev : Severed page.lines cuts lines')
    (hlt : ∀ cut ∈ cuts, cut.1 < start) {span cut : Nat × Nat}
    (hspan : span ∈ chainSpansFrom config page.lines fuel start)
    (hcut : cutOf page.lines span = some cut) (hstray : ¬ LinkAt page.lines cut.1 cut.2) :
    ∃ i k x', PhantomAt page.lines i k ∧
      (planLineFrom config page.pageId fuel lines' start).2.2[i]? = some x' ∧
      forwardPartnerRef x' = none := by
  -- induction on the fuel, one turn of the loop at a time; `cuts` are the seams cut so far
  induction fuel generalizing start cuts lines' with
  | zero => cases hspan
  | succ fuel ih =>
    rw [chainSpansFrom] at hspan
    split at hspan
    case isFalse => cases hspan
    case isTrue hstart =>
      have hle := (followChain_bounds config.maxLinesPerRequest start page.lines.length hstart).1
      rw [h.planLineFrom_succ fuel hsev hlt hstart]
      dsimp only at hspan ⊢
      generalize followChain config.maxLinesPerRequest page.lines start page.lines.length start =
        last at hle hspan ⊢
      have hlater : ∀ c ∈ cuts, c.1 < last + 1 := fun c hc => by have := hlt c hc; omega
      cases hfirst : cutOf page.lines (start, last) with
      | none =>
        rcases List.mem_cons.mp hspan with rfl | hspan
        · rw [hfirst] at hcut
          cases hcut
        · exact ih hsev hlater hspan
      | some first =>
        obtain ⟨hfst, hpartner, hout⟩ := cutOf_eq_some.mp hfirst
        dsimp only at hfst hpartner hout
        have hfresh : first.1 ∉ cuts.map Prod.fst := by
          intro hmem
          obtain ⟨c, hc, heq⟩ := List.mem_map.mp hmem
          have := hlt c hc
          omega
        by_cases hlink : LinkAt page.lines first.1 first.2
        -- a seam cut along a real link keeps the lines `Severed`, and the stray one is still ahead
        · have hsev' := h.severed_snoc hsev hlink (by omega) hfresh
          have hlt' : ∀ c ∈ cuts ++ [first], c.1 < last + 1 := by
            intro c hc
            rcases List.mem_append.mp hc with hc | hc
            · exact hlater c hc
            · rw [List.mem_singleton.mp hc]
              omega
          rcases List.mem_cons.mp hspan with rfl | hspan
          · rw [hfirst, Option.some_inj] at hcut
            exact absurd (hcut ▸ hlink) hstray
          · exact ih hsev' hlt' hspan
        · rw [hfst] at hpartner
          have hphantom := (h.linkAt_or_phantomAt hpartner).resolve_left hlink
          -- the first stray seam: the head loses its link here and no later turn gives it back
          have hbounds := partnerAt_lt hpartner
          have hlen : lines'.length = page.lines.length := by
            simpa using congrArg List.length hsev.refs
          have hcuts : Cuts lines'.length first := ⟨by omega, by omega, by omega⟩
          obtain ⟨mid, hmid, htail, -⟩ :=
            getElem?_severAt hcuts (List.getElem?_eq_getElem (hlen ▸ hbounds.1))
          obtain ⟨x', hx', hnone⟩ :=
            forward_planLineFrom_of_none config page.pageId fuel (last + 1) hmid (htail rfl)
          exact ⟨first.1, first.2, x', hphantom, hx', hnone⟩

/-- No walk ends on a namesake exactly when every cut is a link's. -/
theorem noNamesake_iff :
    NoNamesake config page.lines ↔ ∀ cut ∈ lineCuts config page.lines,
        LinkAt page.lines cut.1 cut.2 := by
  constructor
  · intro hnone cut hcut
    obtain ⟨span, hspan, heq⟩ := List.mem_filterMap.mp hcut
    obtain ⟨hfst, hpartner, hout⟩ := cutOf_eq_some.mp heq
    rw [hfst] at hpartner
    refine (h.linkAt_or_phantomAt hpartner).resolve_right fun hphantom => ?_
    have := hnone span hspan cut.2 (hfst ▸ hphantom)
    omega
  · intro hlinks span hspan k hphantom
    by_contra hout
    have hpartner : partnerAt page.lines span.2 = some k := by
      obtain ⟨x, ref, hx, href, -, hpos⟩ := hphantom
      exact partnerAt_eq_some_iff.mpr ⟨x, ref, hx, href, hpos⟩
    have hcut : cutOf page.lines span = some (span.2, k) :=
      cutOf_eq_some.mpr ⟨rfl, hpartner, by dsimp only; omega⟩
    exact hphantom.not_linkAt (hlinks _ (List.mem_filterMap.mpr ⟨span, hspan, hcut⟩))

/-! ## Links of the page, link by link -/

section Own

variable {after : List LineManifest}
  (hsev : Severed page.lines (lineCuts config page.lines) after)

include hsev

/-- A link's tail is cut exactly when its head is. -/
theorem tail_iff_head {i k : Nat} (hlink : LinkAt page.lines i k) :
    i ∈ (lineCuts config page.lines).map Prod.fst ↔
      k ∈ (lineCuts config page.lines).map Prod.snd := by
  constructor
  · intro hmem
    obtain ⟨cut, hcut, rfl⟩ := List.mem_map.mp hmem
    obtain ⟨x, y, hx, hy, hxy⟩ := hsev.links cut hcut
    obtain ⟨x', y', hx', hy', hxy'⟩ := hlink
    obtain rfl : x = x' := by simpa [hx] using hx'
    have href : lineRef y = lineRef y' := by simpa [hxy] using hxy'
    have hk := position_unique h.line_ids hy hy' (congrArg LineRef.lineId href)
    exact hk ▸ List.mem_map_of_mem hcut
  · intro hmem
    obtain ⟨cut, hcut, rfl⟩ := List.mem_map.mp hmem
    have hi := h.linkAt_unique hlink (hsev.links cut hcut)
    exact hi ▸ List.mem_map_of_mem hcut

/-- Links with another page are as they were. -/
theorem crossing_kept {i : Nat} {x x' : LineManifest} {ref : LineRef}
    (hx : page.lines[i]? = some x) (hx' : after[i]? = some x') (href : ref.pageId ≠ page.pageId) :
    (forwardPartnerRef x' = some ref ↔ forwardPartnerRef x = some ref) ∧
      (backwardPartnerRef x' = some ref ↔ backwardPartnerRef x = some ref) := by
  have hown : ∀ y ∈ page.lines, lineRef y ≠ ref := by
    rintro y hy rfl
    exact href (h.line_page y hy)
  constructor
  · rw [hsev.forward i x x' hx hx']
    split
    · next hmem =>
      obtain ⟨cut, hcut, rfl⟩ := List.mem_map.mp hmem
      obtain ⟨z, y, hz, hy, hzy⟩ := hsev.links cut hcut
      obtain rfl : x = z := by simpa [hx] using hz
      have hne := hown y (List.mem_of_getElem? hy)
      simp [hzy, hne]
    · exact Iff.rfl
  · rw [hsev.backward i x x' hx hx']
    split
    · next hmem =>
      obtain ⟨cut, hcut, rfl⟩ := List.mem_map.mp hmem
      obtain ⟨z, y, hz, hy, hzy⟩ := hsev.links cut hcut
      obtain rfl : x = y := by simpa [hx] using hy
      have hback := (h.answered_page (List.mem_of_getElem? hz) (List.mem_of_getElem? hx)).mp hzy
      have hne := hown z (List.mem_of_getElem? hz)
      simp [hback, hne]
    · exact Iff.rfl

/-- A link of the page is live unless its walk ended with it. -/
theorem live_iff {i : Nat} {x y : LineManifest} (hx : page.lines[i]? = some x)
    (hxy : forwardPartnerRef x = some (lineRef y)) :
    Live after (lineRef x) (lineRef y) ↔ i ∉ (lineCuts config page.lines).map Prod.fst := by
  constructor
  · rintro ⟨z', hz', hzx, hforward⟩ hmem
    obtain ⟨j, hj⟩ := List.mem_iff_getElem?.mp hz'
    obtain ⟨z, hz, hzz'⟩ := getElem?_of_refs hsev.refs hj
    obtain rfl := position_unique h.line_ids hz hx (congrArg LineRef.lineId (hzz'.trans hzx))
    rw [hsev.forward _ z z' hz hj, if_pos hmem] at hforward
    cases hforward
  · intro hmem
    obtain ⟨x', hx', hxx'⟩ := getElem?_of_refs hsev.refs.symm hx
    refine ⟨x', List.mem_of_getElem? hx', hxx', ?_⟩
    rw [hsev.forward i x x' hx hx', if_neg hmem, hxy]

/-- What is left is mutual. -/
theorem answered_after : Answered (after ++ others) := by
  have hold : ∀ {i : Nat} {x' : LineManifest}, after[i]? = some x' →
      ∃ x, page.lines[i]? = some x ∧ lineRef x = lineRef x' :=
    fun hx' => getElem?_of_refs hsev.refs hx'
  intro x' hx' y' hy'
  -- by which of the two lines is the page's own
  rcases List.mem_append.mp hx' with hxafter | hxother <;>
    rcases List.mem_append.mp hy' with hyafter | hyother
  · obtain ⟨i, hi⟩ := List.mem_iff_getElem?.mp hxafter
    obtain ⟨k, hk⟩ := List.mem_iff_getElem?.mp hyafter
    obtain ⟨x, hx, hxref⟩ := hold hi
    obtain ⟨y, hy, hyref⟩ := hold hk
    rw [hsev.forward i x x' hx hi, hsev.backward k y y' hy hk, ← hxref, ← hyref]
    have hmutual := h.answered_page (List.mem_of_getElem? hx) (List.mem_of_getElem? hy)
    -- both ends of a link are cut together, and no other link is touched
    by_cases hxy : forwardPartnerRef x = some (lineRef y)
    · have hboth := h.tail_iff_head hsev ⟨x, y, hx, hy, hxy⟩
      have hyx := hmutual.mp hxy
      by_cases hcut : i ∈ (lineCuts config page.lines).map Prod.fst
      · rw [if_pos hcut, if_pos (hboth.mp hcut)]
        simp
      · rw [if_neg hcut, if_neg fun hmem => hcut (hboth.mpr hmem)]
        exact hmutual
    · have hyx : backwardPartnerRef y ≠ some (lineRef x) := fun hyx => hxy (hmutual.mpr hyx)
      constructor <;> intro hsome <;> split at hsome <;> grind
  · obtain ⟨i, hi⟩ := List.mem_iff_getElem?.mp hxafter
    obtain ⟨x, hx, hxref⟩ := hold hi
    rw [(h.crossing_kept hsev hx hi (h.other_page y' hyother)).1, ← hxref]
    exact h.answered x (List.mem_append_left _ (List.mem_of_getElem? hx)) y'
      (List.mem_append_right _ hyother)
  · obtain ⟨k, hk⟩ := List.mem_iff_getElem?.mp hyafter
    obtain ⟨y, hy, hyref⟩ := hold hk
    rw [(h.crossing_kept hsev hy hk (h.other_page x' hxother)).2, ← hyref]
    exact h.answered x' (List.mem_append_right _ hxother) y
      (List.mem_append_left _ (List.mem_of_getElem? hy))
  · exact h.answered x' (List.mem_append_right _ hxother) y' (List.mem_append_right _ hyother)

end Own

/-- Each severed link is recorded once, and no other link is. -/
theorem count_splits {i : Nat} {x y : LineManifest} (hx : page.lines[i]? = some x)
    (hxy : forwardPartnerRef x = some (lineRef y))
    (hlinks : ∀ cut ∈ lineCuts config page.lines, LinkAt page.lines cut.1 cut.2) :
    ((lineCuts config page.lines).map (splitAt page)).count ⟨page.pageId, x.lineId, y.lineId⟩ =
      if i ∈ (lineCuts config page.lines).map Prod.fst then 1 else 0 := by
  -- distinct cuts have distinct tails, hence distinct records
  have hends := nodup_lineCuts config page.lines
  have htail : ∀ cut ∈ lineCuts config page.lines, ∀ lineId : Str,
      (splitAt page cut).tailLineId = lineId → ∀ {j z}, page.lines[j]? = some z →
      z.lineId = lineId → cut.1 = j := by
    rintro cut hcut lineId hid j z hz rfl
    obtain ⟨a, b, ha, hb, -⟩ := hlinks cut hcut
    rw [splitAt_eq ha hb] at hid
    exact position_unique h.line_ids ha hz hid
  split
  · next hmem =>
    obtain ⟨cut, hcut, rfl⟩ := List.mem_map.mp hmem
    obtain ⟨x', y', hx', hy', hxy'⟩ := hlinks cut hcut
    obtain rfl : x = x' := by simpa [hx] using hx'
    have href : lineRef y' = lineRef y := by simpa [hxy'] using hxy
    have hsplit : splitAt page cut = ⟨page.pageId, x.lineId, y.lineId⟩ := by
      rw [splitAt_eq hx' hy', show y'.lineId = y.lineId from congrArg LineRef.lineId href]
    have hnodup : ((lineCuts config page.lines).map (splitAt page)).Nodup := by
      refine (hends.of_map _).map_on fun a ha b hb hab => ?_
      obtain ⟨z, w, hz, hw, -⟩ := hlinks b hb
      have hid : (splitAt page a).tailLineId = z.lineId := by rw [hab, splitAt_eq hz hw]
      exact List.inj_on_of_nodup_map hends ha hb (htail a ha _ hid hz rfl)
    rw [← hsplit]
    exact List.count_eq_one_of_mem hnodup (List.mem_map_of_mem hcut)
  · next hmem =>
    refine List.count_eq_zero.mpr fun hsplit => hmem ?_
    obtain ⟨cut, hcut, heq⟩ := List.mem_map.mp hsplit
    have hi : cut.1 = i := htail cut hcut x.lineId (by rw [heq]) hx rfl
    exact hi ▸ List.mem_map_of_mem hcut

/-- The head of a cut is outside every walk that holds its tail. -/
theorem not_together {cut : Nat × Nat} (hcut : cut ∈ lineCuts config page.lines)
    {x y : LineManifest} (hx : page.lines[cut.1]? = some x) (hy : page.lines[cut.2]? = some y) :
    ∀ chunk ∈ (chainSpans config page.lines).map (chainChunk page),
      x.lineId ∈ chunk.lineIds → y.lineId ∉ chunk.lineIds := by
  intro chunk hchunk hxin hyin
  obtain ⟨span, hspan, rfl⟩ := List.mem_map.mp hchunk
  obtain ⟨own, hown, heq⟩ := List.mem_filterMap.mp hcut
  obtain ⟨hfst, -, hout⟩ := cutOf_eq_some.mp heq
  have hx' := (mem_sliceIds_iff h.line_ids hx).mp hxin
  have hy' := (mem_sliceIds_iff h.line_ids hy).mp hyin
  have hbounds := mem_chainSpansFrom hown
  have hsame : span = own := by
    by_contra hne
    rcases chainSpans_disjoint hspan hown hne with hlt | hlt <;> omega
  subst hsame
  omega

end PageManifest.Mutual

/-- **A LINE plan severs links of its page and nothing else exactly when no
walk ends on a namesake of another page's line.** -/
theorem seversOwnLinks_planLine_iff (config : ChunkPlannerConfig) (page : PageManifest)
    (others : List LineManifest) (h : page.Mutual others) :
    SeversOwnLinks page others (planLine config page).1 (planLine config page).2 ↔
      NoNamesake config page.lines := by
  rw [h.noNamesake_iff]
  -- a cut not along a link strips some line of a partner on another page, against `hown`
  constructor
  · intro hown cut hcut
    by_contra hstray
    obtain ⟨span, hspan, heq⟩ := List.mem_filterMap.mp hcut
    obtain ⟨i, k, x', ⟨x, ref, hx, href, hoff, hpos⟩, hx', hnone⟩ :=
      h.crossing_lost config page.lines.length (Severed.nil page.lines) (by simp) hspan heq hstray
    have hpage : ref.pageId ≠ page.pageId := by
      intro hpage
      obtain ⟨y, hy, hid⟩ := positionOf_some hpos
      have hymem := List.mem_of_getElem? hy
      refine hoff (List.mem_map.mpr ⟨y, hymem, ?_⟩)
      rw [lineRef, h.line_page y hymem, ← hpage, hid]
    have hkept := (hown.crossing i x x' ref hx hx' hpage).1.mpr href
    rw [hnone] at hkept
    cases hkept
  -- when every cut follows a link, the plan is the cuts of the page taken in order
  · intro hlinks
    obtain ⟨after, hplan, hsev⟩ :=
      h.planLineFrom_of_own config page.lines.length (Severed.nil page.lines) (by simp)
        fun span hspan cut hcut => hlinks cut (List.mem_filterMap.mpr ⟨span, hspan, hcut⟩)
    rw [List.nil_append] at hsev
    have heq : planLine config page = (⟨page.pageId, (chainSpans config page.lines).map
        (chainChunk page), .line, (lineCuts config page.lines).map (splitAt page)⟩, after) := by
      rw [planLine, hplan]
      rfl
    rw [heq]
    refine ⟨fun i x x' ref hx hx' href => h.crossing_kept hsev hx hx' href, ?_, ?_,
      h.answered_after hsev⟩
    · intro split hsplit
      obtain ⟨cut, hcut, rfl⟩ := List.mem_map.mp hsplit
      obtain ⟨x, y, hx, hy, hxy⟩ := hlinks cut hcut
      exact ⟨x, List.mem_of_getElem? hx, y, List.mem_of_getElem? hy, splitAt_eq hx hy, hxy,
        h.not_together hcut hx hy⟩
    · intro x hx y _ hxy
      obtain ⟨i, hi⟩ := List.mem_iff_getElem?.mp hx
      show ((lineCuts config page.lines).map (splitAt page)).count _ = _
      rw [h.count_splits hi hxy hlinks]
      by_cases hcut : i ∈ (lineCuts config page.lines).map Prod.fst
      · rw [if_pos hcut, if_neg fun hlive => (h.live_iff hsev hi hxy).mp hlive hcut]
      · rw [if_neg hcut, if_pos ((h.live_iff hsev hi hxy).mpr hcut)]

instance (page : PageManifest) (others : List LineManifest) : Decidable (page.Mutual others) :=
  decidable_of_iff
    ((∀ lm ∈ page.lines, lm.pageId = page.pageId) ∧
      (page.lines.map LineManifest.lineId).Nodup ∧
      (∀ lm ∈ others, lm.pageId ≠ page.pageId) ∧
      ∀ x ∈ page.lines ++ others, ∀ y ∈ page.lines ++ others,
        forwardPartnerRef x = some (lineRef y) ↔ backwardPartnerRef y = some (lineRef x))
    ⟨fun h => ⟨h.1, h.2.1, h.2.2.1, h.2.2.2⟩, fun h => ⟨h.1, h.2, h.3, h.4⟩⟩

/-- A chain of six lines is cut after the fourth, and there only. -/
theorem chainPage_seversOwnLinks : SeversOwnLinks (chainPage 6) []
    (planLine smallRequests (chainPage 6)).1 (planLine smallRequests (chainPage 6)).2 := by
  have h : (chainPage 6).Mutual [] := by decide +kernel
  exact (seversOwnLinks_planLine_iff smallRequests (chainPage 6) [] h).mpr
    (h.noNamesake_iff.mpr (by decide +kernel))

/-- Two files of one page each; both pages have a line `l1`, and the last
line of the first breaks a word. -/
def namesakePages : List PageManifest :=
  linkCrossPageHyphens .default
    [plainPage "a.xml" "p1" 0 [("l1", "debut", .none), ("l2", "fin-", .part1)],
      plainPage "b.xml" "p2" 2 [("l1", "ished", .none)]]

/-- The first of these pages. -/
def namesakePage : PageManifest := namesakePages.head?.getD (plainPage "a.xml" "p1" 0 [])

/-- The lines of the other page. -/
def namesakeLines : List LineManifest := namesakePages.tail.flatMap PageManifest.lines

/-- The broken word's link to the other page is severed, for the sake of the
line `l1` of its own page. -/
theorem namesakePage_loses_crossing : namesakePage.Mutual namesakeLines ∧
    ¬ SeversOwnLinks namesakePage namesakeLines (planLine smallRequests namesakePage).1
      (planLine smallRequests namesakePage).2 := by
  have h : namesakePage.Mutual namesakeLines := by decide +kernel
  refine ⟨h, fun hown => ?_⟩
  have hsplit : (planLine smallRequests namesakePage).1.hyphenSplits =
      [⟨"p1".toList, "l2".toList, "l1".toList⟩] := by decide +kernel
  obtain ⟨x, hx, y, hy, heq, hxy, -⟩ := hown.own _ (hsplit ▸ List.mem_singleton_self _)
  have hnone : ∀ x ∈ namesakePage.lines, ∀ y ∈ namesakePage.lines,
      forwardPartnerRef x ≠ some (lineRef y) := by decide +kernel
  exact hnone x hx y hy hxy

end Saknussemm
