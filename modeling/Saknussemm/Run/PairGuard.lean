import Saknussemm.Run.Attempt

/-! # The pairs the drift guard runs on.

The pairs of a chunk are kept by bare line ids, each line's under both of
its ends, and a line visited later writes over what an earlier one left.
Which pairs are judged, and which way round, is decided by the last line
that names an id and the first. -/

namespace Saknussemm

/-! ## The guard's loop -/

/-- The loop's body: no side is empty, and no text moved across. -/
def guardPair (texts ocrTexts : Dict Str Str) (config : GuardConfig) (pair : Str × Str) :
    Except ValidationError Unit :=
  let textA := (texts.get? pair.1).getD []
  let textB := (texts.get? pair.2).getD []
  if textA = [] then .error (.emptyPairMember pair.1)
  else if textB = [] then .error (.emptyPairMember pair.2)
  else
    let ocrA := (ocrTexts.get? pair.1).getD []
    let ocrB := (ocrTexts.get? pair.2).getD []
    if ocrA ≠ [] ∧ ocrB ≠ [] then checkPairDrift pair.1 pair.2 textA textB ocrA ocrB config
    else .ok ()

/-- The pairs the loop's body runs on, each two required lines once. -/
def pairsToCheck (required : List Str) (checked : List (Str × Str)) :
    List (Str × Str) → List (Str × Str)
  | [] => []
  | pair :: rest =>
    if (pair.1, pair.2) ∈ checked ∨ (pair.2, pair.1) ∈ checked then
      pairsToCheck required checked rest
    else if pair.1 ∉ required ∨ pair.2 ∉ required then pairsToCheck required checked rest
    else pair :: pairsToCheck required (pair :: checked) rest

/-- **The loop is its body on those pairs, in order.** -/
theorem checkPairs_eq_forM (texts : Dict Str Str) (required : List Str) (ocrTexts : Dict Str Str)
    (config : GuardConfig) (checked pairs : List (Str × Str)) :
    checkPairs texts required ocrTexts config checked pairs =
      (pairsToCheck required checked pairs).forM (guardPair texts ocrTexts config) := by
  induction pairs generalizing checked with
  | nil => rfl
  | cons pair rest ih =>
    obtain ⟨idA, idB⟩ := pair
    rw [checkPairs, pairsToCheck]
    split
    · exact ih checked
    · split
      · exact ih checked
      · have hcons : ∀ l, ((idA, idB) :: l).forM (guardPair texts ocrTexts config) =
            (guardPair texts ocrTexts config (idA, idB) >>= fun _ =>
              l.forM (guardPair texts ocrTexts config)) := fun _ => rfl
        rw [hcons, guardPair, ← ih]
        dsimp only
        split
        · rfl
        · split
          · rfl
          · split <;> rfl

variable {required : List Str}

/-- A pair is judged when both ids are required and it comes first of its
two readings. -/
theorem mem_pairsToCheck {rank : Str → Nat} {x y : Str} {pairs checked : List (Str × Str)}
    (hsorted : pairs.Pairwise fun e e' => rank e.1 < rank e'.1) :
    (x, y) ∈ pairsToCheck required checked pairs ↔
      (x ∈ required ∧ y ∈ required) ∧ ((x, y) ∉ checked ∧ (y, x) ∉ checked) ∧
        (x, y) ∈ pairs ∧ ((y, x) ∈ pairs → ¬ rank y < rank x) := by
  induction pairs generalizing checked with
  | nil => simp [pairsToCheck]
  | cons pair rest ih =>
    obtain ⟨a, b⟩ := pair
    obtain ⟨hbefore, hrest⟩ := List.pairwise_cons.mp hsorted
    have hih := fun checked => @ih checked hrest
    rw [pairsToCheck]
    by_cases hxy : (x, y) = (a, b)
    · -- the pair itself: nothing behind it has the same key
      cases hxy
      have hnot : (x, y) ∉ rest := fun hmem => Nat.lt_irrefl _ (hbefore _ hmem)
      have hfirst : (y, x) ∈ (x, y) :: rest → ¬ rank y < rank x := by
        intro hmem
        rcases List.mem_cons.mp hmem with heq | hmem
        · rw [Prod.mk.injEq] at heq
          rw [heq.1]
          exact Nat.lt_irrefl _
        · exact Nat.not_lt.mpr (hbefore _ hmem).le
      split
      · grind
      · split <;> grind
    · by_cases hyx : (y, x) = (a, b)
      · -- its other reading comes first
        cases hyx
        have hlater : (x, y) ∈ rest → rank y < rank x := fun hmem => hbefore _ hmem
        split
        · grind
        · split <;> grind
      · have hmem : (x, y) ∈ (a, b) :: rest ↔ (x, y) ∈ rest := by simp [hxy]
        have hmem' : (y, x) ∈ (a, b) :: rest ↔ (y, x) ∈ rest := by simp [hyx]
        rw [hmem, hmem']
        split
        · exact hih checked
        · split
          · exact hih checked
          · rw [List.mem_cons, or_iff_right hxy, hih, List.mem_cons, List.mem_cons,
              or_iff_right hxy, or_iff_right hyx]

/-- The pairs left to check are among the pairs. -/
theorem pairsToCheck_sublist (checked pairs : List (Str × Str)) :
    (pairsToCheck required checked pairs).Sublist pairs := by
  induction pairs generalizing checked with
  | nil => exact .slnil
  | cons pair rest ih =>
    obtain ⟨a, b⟩ := pair
    rw [pairsToCheck]
    split
    · exact (ih _).cons _
    · split
      · exact (ih _).cons _
      · exact (ih _).cons_cons _

/-! ## What the lines of a chunk tie together -/

/-- Each line with a forward partner, and the partner's bare id. -/
def pairClaims (lines : List LineManifest) : List (Str × Str) :=
  lines.filterMap fun lm => (forwardPartnerId lm).map (lm.lineId, ·)

/-- Each claim under both of its ends. -/
def bothEnds (claims : List (Str × Str)) : List (Str × Str) :=
  claims.flatMap fun claim => [claim, claim.swap]

/-- Writing the pairs line by line writes the claims under both ends. -/
theorem foldl_bothEnds_pairClaims {write : Dict Str Str → LineManifest → Dict Str Str}
    (hwrite : ∀ d lm, write d lm =
      (bothEnds ((forwardPartnerId lm).map (lm.lineId, ·)).toList).foldl
        (fun d e => Dict.set d e.1 e.2) d)
    (lines : List LineManifest) (d : Dict Str Str) :
    lines.foldl write d =
      (bothEnds (pairClaims lines)).foldl (fun d e => Dict.set d e.1 e.2) d := by
  induction lines generalizing d with
  | nil => rfl
  | cons lm lines ih =>
    have hclaims : pairClaims (lm :: lines) =
        ((forwardPartnerId lm).map (lm.lineId, ·)).toList ++ pairClaims lines := by
      rw [pairClaims, List.filterMap_cons]
      cases (forwardPartnerId lm).map (lm.lineId, ·) <;> rfl
    rw [List.foldl_cons, ih, hwrite, hclaims, bothEnds, bothEnds, bothEnds, List.flatMap_append,
      List.foldl_append]

/-- The pairs of a chunk are its claims, written under both ends in turn. -/
theorem buildHyphenPairs_eq (lines : List LineManifest) :
    buildHyphenPairs lines = Dict.ofList (bothEnds (pairClaims lines)) := by
  refine foldl_bothEnds_pairClaims (fun d lm => ?_) lines []
  dsimp only
  cases hrole : lm.hyphenRole with
  | none => simp [forwardPartnerId, forwardPartnerRef, hrole, bothEnds]
  | part2 => simp [forwardPartnerId, forwardPartnerRef, hrole, bothEnds]
  | part1 =>
    rcases hslot : lm.hyphenPairLineId with _ | _ | ⟨c, cs⟩ <;>
      simp [forwardPartnerId, forwardPartnerRef, hrole, pairRef, slotRef, hslot, bothEnds]
  | both =>
    rcases hslot : lm.hyphenForwardPairId with _ | _ | ⟨c, cs⟩ <;>
      simp [forwardPartnerId, forwardPartnerRef, hrole, forwardRef, slotRef, hslot, bothEnds]

/-- The last claim on `x` ties it to `y`. -/
def LastTied (claims : List (Str × Str)) (x y : Str) : Prop :=
  ∃ before claim after, claims = before ++ claim :: after ∧ (claim = (x, y) ∨ claim = (y, x)) ∧
    ∀ later ∈ after, later.1 ≠ x ∧ later.2 ≠ x

/-- The last tie of a line after one more claim. -/
theorem lastTied_concat {claims : List (Str × Str)} {claim : Str × Str} {x y : Str} :
    LastTied (claims ++ [claim]) x y ↔ (claim = (x, y) ∨ claim = (y, x)) ∨
      (claim.1 ≠ x ∧ claim.2 ≠ x) ∧ LastTied claims x y := by
  constructor
  · rintro ⟨before, tie, after, heq, htie, hafter⟩
    rcases List.eq_nil_or_concat after with rfl | ⟨after, last, rfl⟩
    · obtain ⟨-, hlast⟩ := List.append_inj' heq rfl
      rw [List.singleton_inj] at hlast
      exact .inl (hlast ▸ htie)
    · rw [List.concat_eq_append] at hafter heq
      rw [← List.cons_append, ← List.append_assoc] at heq
      obtain ⟨hclaims, hlast⟩ := List.append_inj' heq rfl
      rw [List.singleton_inj] at hlast
      exact .inr ⟨hlast ▸ hafter last (by simp), before, tie, after, hclaims, htie,
        fun later hlater => hafter later (by simp [hlater])⟩
  · rintro (htie | ⟨hfree, before, tie, after, rfl, htie, hafter⟩)
    · exact ⟨claims, claim, [], rfl, htie, by simp⟩
    · refine ⟨before, tie, after ++ [claim], by simp, htie, fun later hlater => ?_⟩
      rcases List.mem_append.mp hlater with hlater | hlater
      · exact hafter later hlater
      · rw [List.mem_singleton.mp hlater]
        exact hfree

/-- **A bare id is left paired with the other end of the last claim on it.** -/
theorem get?_bothEnds {claims : List (Str × Str)} {x y : Str} :
    (Dict.ofList (bothEnds claims)).get? x = some y ↔ LastTied claims x y := by
  induction claims using List.reverseRecOn with
  | nil =>
    constructor
    · exact fun h => by cases h
    · rintro ⟨before, claim, after, heq, -⟩
      simp at heq
  | append_singleton claims claim ih =>
    obtain ⟨a, b⟩ := claim
    have hset : Dict.ofList (bothEnds (claims ++ [(a, b)])) =
        Dict.set (Dict.set (Dict.ofList (bothEnds claims)) a b) b a := by
      simp [Dict.ofList, bothEnds, List.flatMap_append, List.foldl_append]
    rw [hset, Dict.get?_set, Dict.get?_set, lastTied_concat, ← ih]
    grind

/-- The ids in the order the claims name them. -/
def mentions (claims : List (Str × Str)) : List Str := claims.flatMap fun claim =>
    [claim.1, claim.2]

theorem map_fst_bothEnds (claims : List (Str × Str)) :
    (bothEnds claims).map Prod.fst = mentions claims := by
  simp [bothEnds, mentions, List.map_flatMap]

/-! ## The pairs judged -/

section Guard

variable (lines : List LineManifest) (targets : List Str)

/-- The joins of the chunk: a target and the target of its own page it
continues onto. -/
def targetJoins : List (Str × Str) :=
  lines.filterMap fun lm =>
    ((forwardPartnerRef lm).filter fun ref =>
      ref.pageId = lm.pageId ∧ lm.lineId ∈ targets ∧ ref.lineId ∈ targets).map
        fun ref => (lm.lineId, ref.lineId)

/-- Does a line have source text to drift from? -/
def HasSource (lineId : Str) : Prop := ((canonicalTexts lines).get? lineId).getD [] ≠ []

instance (lineId : Str) : Decidable (HasSource lines lineId) := inferInstanceAs (Decidable (_ ≠ _))

/-- The pairs the drift of which is judged when nothing is refused. -/
def judgedPairs : List (Str × Str) :=
  (pairsToCheck targets [] (buildHyphenPairs lines)).filter fun pair =>
    HasSource lines pair.1 ∧ HasSource lines pair.2

/-- **What the loop over a chunk's pairs refuses**: an empty text on either
side of a pair of targets, and drift in a pair that is judged. -/
theorem checkPairs_eq_ok_iff {texts : Dict Str Str} {config : GuardConfig} :
    checkPairs texts targets (canonicalTexts lines) config [] (buildHyphenPairs lines) = .ok () ↔
      (∀ pair ∈ pairsToCheck targets [] (buildHyphenPairs lines),
        (texts.get? pair.1).getD [] ≠ [] ∧ (texts.get? pair.2).getD [] ≠ []) ∧
      ∀ pair ∈ judgedPairs lines targets,
        checkPairDrift pair.1 pair.2 ((texts.get? pair.1).getD []) ((texts.get? pair.2).getD [])
          (((canonicalTexts lines).get? pair.1).getD [])
          (((canonicalTexts lines).get? pair.2).getD []) config = .ok () := by
  have hbody : ∀ pair, guardPair texts (canonicalTexts lines) config pair = .ok () ↔
      ((texts.get? pair.1).getD [] ≠ [] ∧ (texts.get? pair.2).getD [] ≠ []) ∧
        (HasSource lines pair.1 ∧ HasSource lines pair.2 →
          checkPairDrift pair.1 pair.2 ((texts.get? pair.1).getD [])
            ((texts.get? pair.2).getD []) (((canonicalTexts lines).get? pair.1).getD [])
            (((canonicalTexts lines).get? pair.2).getD []) config = .ok ()) := by
    intro pair
    unfold guardPair HasSource
    dsimp only
    split_ifs <;> grind
  rw [checkPairs_eq_forM, Fallible.forM_eq_ok]
  simp only [judgedPairs, List.mem_filter, decide_eq_true_eq]
  constructor
  · intro hall
    exact ⟨fun pair hpair => ((hbody pair).mp (hall pair hpair)).1,
      fun pair hpair => ((hbody pair).mp (hall pair hpair.1)).2 hpair.2⟩
  · rintro ⟨hfilled, hdrift⟩ pair hpair
    exact (hbody pair).mpr ⟨hfilled pair hpair, fun hsource => hdrift pair ⟨hpair, hsource⟩⟩

/-- The guard judges each join of the chunk once, tail first, and nothing
else. -/
def GuardsItsJoins : Prop := (judgedPairs lines targets).Perm (targetJoins lines targets)

/-- No claim takes an id of a join away or ties two targets that are no
join. -/
structure Untangled : Prop where
  /-- The last claim on a tail is its own join, and where that is the last
  claim on the head too, the tail is named before the head. -/
  tails : ∀ join ∈ targetJoins lines targets, LastTied (pairClaims lines) join.1 join.2 ∧
    (LastTied (pairClaims lines) join.2 join.1 →
      ¬ (mentions (pairClaims lines)).idxOf join.2 < (mentions (pairClaims lines)).idxOf join.1)
  /-- Two targets with source texts are only tied last by a join. -/
  others : ∀ x ∈ targets, ∀ y ∈ targets, HasSource lines x → HasSource lines y →
    LastTied (pairClaims lines) x y →
      (x, y) ∈ targetJoins lines targets ∨ (y, x) ∈ targetJoins lines targets
  /-- Every join has source texts to drift from. -/
  sources : ∀ join ∈ targetJoins lines targets, HasSource lines join.1 ∧ HasSource lines join.2

variable {lines targets}

theorem mem_targets_of_mem_targetJoins {join : Str × Str} (h : join ∈ targetJoins lines targets) :
    join.1 ∈ targets ∧ join.2 ∈ targets := by
  obtain ⟨lm, -, hjoin⟩ := List.mem_filterMap.mp h
  obtain ⟨ref, href, rfl⟩ := Option.map_eq_some_iff.mp hjoin
  have hkept := (Option.filter_eq_some_iff.mp href).2
  rw [decide_eq_true_eq] at hkept
  exact hkept.2

/-- A pair is judged when it is left in the pairs, between targets with
source texts, and comes first of its two readings. -/
theorem mem_judgedPairs {x y : Str} : (x, y) ∈ judgedPairs lines targets ↔
    (x ∈ targets ∧ y ∈ targets) ∧ (HasSource lines x ∧ HasSource lines y) ∧
      LastTied (pairClaims lines) x y ∧ (LastTied (pairClaims lines) y x →
        ¬ (mentions (pairClaims lines)).idxOf y < (mentions (pairClaims lines)).idxOf x) := by
  have hmem : ∀ x y, (x, y) ∈ buildHyphenPairs lines ↔ LastTied (pairClaims lines) x y := by
    intro x y
    rw [buildHyphenPairs_eq, ← get?_bothEnds]
    exact ⟨Dict.get?_of_mem (Dict.nodup_keys_ofList _), Dict.mem_of_get?⟩
  have hsorted : (buildHyphenPairs lines).Pairwise fun e e' =>
      (mentions (pairClaims lines)).idxOf e.1 < (mentions (pairClaims lines)).idxOf e'.1 := by
    have := Dict.pairwise_idxOf_keys_ofList (bothEnds (pairClaims lines))
    rw [map_fst_bothEnds, ← buildHyphenPairs_eq] at this
    rw [Dict.keys, List.pairwise_map] at this
    exact this
  rw [judgedPairs, List.mem_filter,
    @mem_pairsToCheck targets (List.idxOf · (mentions (pairClaims lines))) x y _ [] hsorted,
    hmem, hmem, decide_eq_true_eq]
  simp only [List.not_mem_nil, not_false_eq_true, and_self, true_and]
  grind

theorem nodup_judgedPairs : (judgedPairs lines targets).Nodup := by
  apply List.Nodup.sublist List.filter_sublist
  apply List.Nodup.sublist (pairsToCheck_sublist [] _)
  rw [buildHyphenPairs_eq]
  exact List.Nodup.of_map _ (Dict.nodup_keys_ofList _)

/-- The joins between targets list a pair once. -/
theorem nodup_targetJoins (hlines : (lines.map LineManifest.lineId).Nodup) :
    (targetJoins lines targets).Nodup := by
  apply List.Nodup.of_map Prod.fst
  refine hlines.sublist ?_
  clear hlines
  induction lines with
  | nil => exact .slnil
  | cons lm lines ih =>
    rw [targetJoins, List.filterMap_cons]
    cases hjoin : ((forwardPartnerRef lm).filter fun ref =>
        ref.pageId = lm.pageId ∧ lm.lineId ∈ targets ∧ ref.lineId ∈ targets).map
          fun ref => (lm.lineId, ref.lineId) with
    | none => exact ih.cons _
    | some join =>
      obtain ⟨ref, -, rfl⟩ := Option.map_eq_some_iff.mp hjoin
      exact ih.cons_cons _

/-- **The guard judges exactly the joins of a chunk whose claims are
untangled.** -/
theorem guardsItsJoins_iff (hlines : (lines.map LineManifest.lineId).Nodup) :
    GuardsItsJoins lines targets ↔ Untangled lines targets := by
  rw [GuardsItsJoins, List.perm_ext_iff_of_nodup nodup_judgedPairs (nodup_targetJoins hlines)]
  constructor
  · intro hsame
    have hjudged := fun join (hjoin : join ∈ targetJoins lines targets) =>
      mem_judgedPairs.mp ((hsame join).mpr hjoin)
    refine ⟨fun join hjoin => (hjudged join hjoin).2.2, fun x hx y hy hxs hys htied => ?_,
      fun join hjoin => (hjudged join hjoin).2.1⟩
    -- one reading of the pair comes first, and is judged
    by_cases hfirst : LastTied (pairClaims lines) y x →
        ¬ (mentions (pairClaims lines)).idxOf y < (mentions (pairClaims lines)).idxOf x
    · exact .inl ((hsame _).mp (mem_judgedPairs.mpr ⟨⟨hx, hy⟩, ⟨hxs, hys⟩, htied, hfirst⟩))
    · obtain ⟨hback, hlt⟩ := Classical.not_imp.mp hfirst
      rw [not_not] at hlt
      exact .inr ((hsame _).mp (mem_judgedPairs.mpr
        ⟨⟨hy, hx⟩, ⟨hys, hxs⟩, hback, fun _ => Nat.not_lt.mpr hlt.le⟩))
  · rintro h ⟨x, y⟩
    rw [mem_judgedPairs]
    constructor
    · rintro ⟨⟨hx, hy⟩, ⟨hxs, hys⟩, htied, hfirst⟩
      rcases h.others x hx y hy hxs hys htied with hjoin | hjoin
      · exact hjoin
      · -- the join the other way round is named first
        obtain ⟨hback, hnot⟩ := h.tails _ hjoin
        have hxy := hnot htied
        have hyx := hfirst hback
        dsimp only at hxy
        have hxmem : x ∈ mentions (pairClaims lines) := by
          obtain ⟨before, claim, after, heq, htie, -⟩ := htied
          rw [mentions, heq, List.mem_flatMap]
          rcases htie with rfl | rfl <;>
            exact ⟨_, List.mem_append_right _ List.mem_cons_self, by simp⟩
        obtain rfl : x = y := (List.idxOf_inj hxmem).mp (by omega)
        exact hjoin
    · intro hjoin
      have htargets := mem_targets_of_mem_targetJoins hjoin
      exact ⟨htargets, h.sources _ hjoin, h.tails _ hjoin⟩

end Guard

/-- A word broken over two lines, and at the foot of the page a word that
continues on the next one, on a line numbered like the first. -/
def footOfPage : List LineManifest :=
  [{ plainLine "p1".toList 0 "L1" "un por-" .part1 with hyphenPairLineId := some "L2".toList },
    { plainLine "p1".toList 1 "L2" "teur" .part2 with hyphenPairLineId := some "L1".toList },
    { plainLine "p1".toList 2 "L9" "la mai-" .part1 with
      hyphenPairLineId := some "L1".toList
      hyphenPairPageId := some "p2".toList }]

/-- **The line at the foot is judged against the first of its own page**, and
the word broken there the wrong way round. -/
theorem footOfPage_tangled :
    ¬ GuardsItsJoins footOfPage ["L1".toList, "L2".toList, "L9".toList] := by
  unfold GuardsItsJoins
  decide +kernel

theorem guardsItsJoins_twoLines : GuardsItsJoins (footOfPage.take 2) ["L1".toList, "L2".toList] ↔
    Untangled (footOfPage.take 2) ["L1".toList, "L2".toList] :=
  guardsItsJoins_iff (by decide)

end Saknussemm
