import Saknussemm.Alto.Parser
import Saknussemm.Page.Text
import Saknussemm.Linking.InPage

/-! # The two formats on the same text.

Where ALTO marks no hyphenation both parsers read the roles off the text,
and the linker does the rest.  PAGE gives the middle of a chain its role
before the linker has seen the pair, so what a refused pair leaves behind
depends on the format. -/

namespace Saknussemm

open Sweep

variable [Unicode]

/-- A line no parser pass has looked at. -/
structure LineManifest.Fresh (lm : LineManifest) : Prop where
  role : lm.hyphenRole = .none
  pair : lm.hyphenPairLineId = none
  forward : lm.hyphenForwardPairId = none
  sourceExplicit : lm.hyphenSourceExplicit = false
  forwardExplicit : lm.hyphenForwardExplicit = false
  subs : lm.hyphenSubsContent = none
  forwardSubs : lm.hyphenForwardSubsContent = none

/-- A line of text, with an ALTO `TextLine` that says the same and marks no
hyphenation. -/
structure UnmarkedLine where
  manifest : LineManifest
  textline : List Alto.Child
  fresh : manifest.Fresh
  unmarked : ∀ child ∈ textline, child.marksHyphen = false
  /-- A `TextLine` without elements has no text. -/
  silent : textline.filter Alto.Child.isElement = [] → manifest.ocrText = []

/-- What ALTO makes of the lines. -/
def altoHyphenation (policy : PairingPolicy) (lines : List UnmarkedLine) : List LineManifest :=
  linkHyphenPairs policy
    (lines.map fun line => Alto.parseTextlineHyphenInfo line.textline line.manifest)

/-- What PAGE makes of the lines. -/
def pageHyphenation (policy : PairingPolicy) (lines : List UnmarkedLine) : List LineManifest :=
  linkHyphenPairs policy (Page.assignHyphenRoles (lines.map UnmarkedLine.manifest))

/-- The two readings of a line agree on its hyphenation. -/
structure SameHyphenation (x y : LineManifest) : Prop where
  role : x.hyphenRole = y.hyphenRole
  forward : forwardPartnerRef x = forwardPartnerRef y
  backward : backwardPartnerRef x = backwardPartnerRef y

/-- Two lines in a row that both break are one chain for the policy. -/
def ChainAccepted (policy : PairingPolicy) (x y : LineManifest) : Prop :=
  Page.breaks x = true → Page.breaks y = true → policy.canPair x y = true

/-! ## What a linker step does to lines nothing is marked on -/

/-- Nothing about the line's breaks is explicit. -/
structure LineManifest.Unmarked (lm : LineManifest) : Prop where
  sourceExplicit : lm.hyphenSourceExplicit = false
  forwardExplicit : lm.hyphenForwardExplicit = false
  subs : lm.hyphenSubsContent = none
  forwardSubs : lm.hyphenForwardSubsContent = none

/-- Where a line is, as far as pairing goes. -/
def place (lm : LineManifest) : Str × Str × Coords := (lm.pageId, lm.blockId, lm.coords)

section Step

variable {policy : PairingPolicy} {x y c d : LineManifest}

omit [Unicode] in
/-- The policy looks at where two unmarked lines are, not at their roles. -/
theorem canPair_congr (hx : x.Unmarked) (hy : y.Unmarked) (hc : c.Unmarked) (hd : d.Unmarked)
    (hxy : place x = place y) (hcd : place c = place d) :
    policy.canPair x c = policy.canPair y d := by
  simp only [place, Prod.mk.injEq] at hxy hcd
  obtain ⟨hpage, hblock, hcoords⟩ := hxy
  obtain ⟨hpage', hblock', hcoords'⟩ := hcd
  have hexplicit : PairingPolicy.explicit x c = false := by
    simp [PairingPolicy.explicit, hx.sourceExplicit, hx.forwardExplicit, hc.sourceExplicit]
  have hexplicit' : PairingPolicy.explicit y d = false := by
    simp [PairingPolicy.explicit, hy.sourceExplicit, hy.forwardExplicit, hd.sourceExplicit]
  simp only [PairingPolicy.canPair, PairingPolicy.gapVetoed, PairingPolicy.continues, hexplicit,
    hexplicit', hpage, hblock, hcoords, hpage', hblock', hcoords']

omit [Unicode] in
/-- Claiming an unmarked line gives it its role and nothing else. -/
theorem claimCandidate_of_unmarked (hx : x.Unmarked) (hc : c.Unmarked)
    (hrole : c.hyphenRole ≠ .part2) :
    claimCandidate x c = { c with hyphenRole := if opensForward c then .both else .part2 } := by
  have hbreak : forwardBreakIsExplicit x = false := by
    simp [forwardBreakIsExplicit, hx.sourceExplicit, hx.forwardExplicit]
  obtain ⟨hsource, hforward, hsubs, hforwardSubs⟩ := hc
  cases c with
  | mk _ _ _ _ _ _ _ _ _ _ _ _ role =>
    dsimp only at hsource hforward hsubs hforwardSubs hrole
    subst hsource hforward hsubs hforwardSubs
    cases role with
    | part2 => exact absurd rfl hrole
    | _ => simp [claimCandidate, opensForward, hbreak]

omit [Unicode] in
/-- The candidate of a link between unmarked lines names the line back. -/
theorem joinPair_snd_of_unmarked (hx : x.Unmarked) (hc : c.Unmarked) :
    (joinPair x c).2 =
      { c with hyphenPairLineId := some x.lineId, hyphenPairPageId := some x.pageId } := by
  unfold joinPair
  split <;> simp [orElseOpt, hx.subs, hx.forwardSubs, hc.subs]

end Step

/-! ## The two readings side by side -/

section Agreement

variable {policy : PairingPolicy} {x y : LineManifest}

/-- How ALTO reads an unmarked line. -/
def altoRead (lm : LineManifest) : LineManifest :=
  if Page.breaks lm then { lm with hyphenRole := .part1 } else lm

/-- How PAGE reads a line, knowing whether the one before it breaks. -/
def pageRead (prevHyphenated : Bool) (lm : LineManifest) : LineManifest :=
  if Page.breaks lm then { lm with hyphenRole := if prevHyphenated then .both else .part1 } else lm

/-- The two readings of a line the linker is about to leave: the same, or
the middle of a chain whose first pair was refused. -/
def Twin (x y : LineManifest) : Prop :=
  y = x ∨ x.hyphenRole = .part1 ∧ x.hyphenPairLineId = none ∧ y = { x with hyphenRole := .both }

omit [Unicode] in
theorem LineManifest.Fresh.marked {lm : LineManifest} (h : lm.Fresh) : lm.Unmarked :=
  ⟨h.sourceExplicit, h.forwardExplicit, h.subs, h.forwardSubs⟩

theorem altoRead_unmarked {lm : LineManifest} (h : lm.Fresh) : (altoRead lm).Unmarked := by
  unfold altoRead
  split
  · exact ⟨h.sourceExplicit, h.forwardExplicit, h.subs, h.forwardSubs⟩
  · exact h.marked

theorem pageRead_unmarked {lm : LineManifest} {b : Bool} (h : lm.Fresh) :
    (pageRead b lm).Unmarked := by
  unfold pageRead
  split
  · exact ⟨h.sourceExplicit, h.forwardExplicit, h.subs, h.forwardSubs⟩
  · exact h.marked

/-- The two readings of a fresh line differ in one role at most. -/
theorem twin_read {lm : LineManifest} (h : lm.Fresh) (b : Bool) :
    Twin (altoRead lm) (pageRead b lm) ∧
      ((altoRead lm).hyphenRole = (pageRead b lm).hyphenRole ↔
          (b = true → ¬ Page.breaks lm = true)) := by
  unfold altoRead pageRead Twin
  by_cases hbreaks : Page.breaks lm = true
  · cases b <;> simp [hbreaks, h.pair]
  · simp [hbreaks]

/-- What the linker makes of either reading once it makes the link. -/
theorem claimCandidate_read {lm : LineManifest} (h : lm.Fresh) (hx : x.Unmarked) (hy : y.Unmarked)
    (b : Bool) : claimCandidate x (altoRead lm) = claimCandidate y (pageRead b lm) := by
  have halto : (altoRead lm).hyphenRole ≠ .part2 := by
    unfold altoRead
    split <;> simp [h.role]
  have hpage : (pageRead b lm).hyphenRole ≠ .part2 := by
    unfold pageRead
    split
    · cases b <;> simp
    · simp [h.role]
  rw [claimCandidate_of_unmarked hx (altoRead_unmarked h) halto,
    claimCandidate_of_unmarked hy (pageRead_unmarked h) hpage]
  unfold altoRead pageRead opensForward
  split
  · cases b <;> simp
  · rfl

/-- The readings `x` and `y` of the line `lm`, about to be a left half. -/
structure Tails (lm x y : LineManifest) : Prop where
  twin : Twin x y
  unmarked : x.Unmarked
  forward : x.hyphenForwardPairId = none
  source : lm.Unmarked
  placed : place x = place lm
  opens : opensForward x = Page.breaks lm

/-- The two readers leave a line with the same tail. -/
theorem tails_read {lm : LineManifest} (h : lm.Fresh) (b : Bool) :
    Tails lm (altoRead lm) (pageRead b lm) where
  twin := (twin_read h b).1
  unmarked := altoRead_unmarked h
  forward := by
    unfold altoRead
    split <;> exact h.forward
  source := h.marked
  placed := by
    unfold altoRead
    split <;> rfl
  opens := by
    unfold altoRead opensForward
    split
    · next hbreaks => simp [hbreaks]
    · next hbreaks => simp [hbreaks, h.role]

section Tails

variable {lm next : LineManifest} (h : Tails lm x y)

include h

theorem Tails.right : y.Unmarked ∧ place y = place lm ∧ opensForward y = opensForward x := by
  obtain ⟨twin, unmarked, -, -, placed, -⟩ := h
  rcases twin with rfl | ⟨hrole, -, rfl⟩
  · exact ⟨unmarked, placed, rfl⟩
  · exact ⟨⟨unmarked.1, unmarked.2, unmarked.3, unmarked.4⟩, placed, by simp [opensForward, hrole]⟩

theorem Tails.same : SameHyphenation x y ↔ x.hyphenRole = y.hyphenRole := by
  refine ⟨SameHyphenation.role, fun hrole => ?_⟩
  rcases h.twin with rfl | ⟨hpart1, -, rfl⟩
  · exact ⟨rfl, rfl, rfl⟩
  · rw [hpart1] at hrole
    cases hrole

/-- The two formats make the same link. -/
theorem Tails.links (hnext : next.Fresh) (b : Bool) :
    links policy x (altoRead next) = (Page.breaks lm && policy.canPair lm next) ∧
      links policy y (pageRead b next) = (Page.breaks lm && policy.canPair lm next) := by
  obtain ⟨hy, hplace, hopens⟩ := h.right
  have halto : place (altoRead next) = place next := (tails_read hnext b).placed
  have hpage : place (pageRead b next) = place next := (tails_read hnext b).right.2.1
  constructor
  · rw [Saknussemm.links, h.opens,
      canPair_congr h.unmarked h.source (altoRead_unmarked hnext) hnext.marked h.placed halto]
  · rw [Saknussemm.links, hopens, h.opens,
      canPair_congr hy h.source (pageRead_unmarked hnext) hnext.marked hplace hpage]

/-- The candidate of a link is read the same from then on. -/
theorem Tails.linked (hnext : next.Fresh) (b : Bool)
    (hlinks : (Page.breaks lm && policy.canPair lm next) = true) :
    (linkPair policy x (altoRead next)).2 = (linkPair policy y (pageRead b next)).2 ∧
      Tails next (linkPair policy x (altoRead next)).2 (linkPair policy y (pageRead b next)).2 := by
  obtain ⟨halto, hpage⟩ := @Tails.links _ policy x y lm next h hnext b
  have hy := h.right.1
  have hread := tails_read hnext b
  -- an unmarked line takes the claim whole, so what it becomes depends on the tail's name only
  have hrole : (altoRead next).hyphenRole ≠ .part2 := by
    unfold altoRead
    split <;> simp [hnext.role]
  have hclaimed : claimCandidate x (altoRead next) =
      { altoRead next with hyphenRole := if opensForward (altoRead next) then .both else .part2 } :=
    claimCandidate_of_unmarked h.unmarked hread.unmarked hrole
  have hmarked : (claimCandidate x (altoRead next)).Unmarked := by
    rw [hclaimed]
    exact ⟨hread.unmarked.1, hread.unmarked.2, hread.unmarked.3, hread.unmarked.4⟩
  have hsnd : (linkPair policy x (altoRead next)).2 =
      { claimCandidate x (altoRead next) with
        hyphenPairLineId := some x.lineId, hyphenPairPageId := some x.pageId } := by
    rw [linkPair_of_links (halto.trans hlinks), joinPair_snd_of_unmarked h.unmarked hmarked]
  have hids : y.lineId = x.lineId ∧ y.pageId = x.pageId := by
    rcases h.twin with rfl | ⟨-, -, rfl⟩ <;> exact ⟨rfl, rfl⟩
  have heq : (linkPair policy x (altoRead next)).2 = (linkPair policy y (pageRead b next)).2 := by
    rw [hsnd, linkPair_of_links (hpage.trans hlinks), ← claimCandidate_read hnext h.unmarked hy,
      joinPair_snd_of_unmarked hy hmarked, hids.1, hids.2]
  refine ⟨heq, .inl heq.symm, ?_, ?_, hnext.marked, ?_, ?_⟩
  · rw [hsnd]
    exact ⟨hmarked.1, hmarked.2, hmarked.3, hmarked.4⟩
  · rw [hsnd, hclaimed]
    exact hread.forward
  · rw [hsnd, hclaimed]
    exact hread.placed
  · rw [← hread.opens, hsnd, hclaimed]
    cases hopens : opensForward (altoRead next) <;> simp [opensForward]

/-- The line a link is made from keeps its disagreement, and no more. -/
theorem Tails.left (hnext : next.Fresh) (b : Bool)
    (hlinks : (Page.breaks lm && policy.canPair lm next) = true) :
    SameHyphenation (linkPair policy x (altoRead next)).1 (linkPair policy y (pageRead b next)).1 ↔
      x.hyphenRole = y.hyphenRole := by
  obtain ⟨halto, hpage⟩ := @Tails.links _ policy x y lm next h hnext b
  refine ⟨fun hsame => ?_, fun hrole => ?_⟩
  · simpa using hsame.role
  · obtain rfl : y = x := by
      rcases h.twin with heq | ⟨hpart1, -, rfl⟩
      · exact heq
      · rw [hpart1] at hrole
        cases hrole
    have hread := tails_read hnext b
    have hforward : forwardPartnerRef (linkPair policy y (altoRead next)).1 =
        forwardPartnerRef (linkPair policy y (pageRead b next)).1 := by
      have hrefs : lineRef (altoRead next) = lineRef (pageRead b next) := by
        rcases hread.twin with heq | ⟨-, -, heq⟩ <;> simp [heq, lineRef]
      simp only [lineRef, LineRef.mk.injEq] at hrefs
      rw [linkPair_fst_forward (halto.trans hlinks), linkPair_fst_forward (hpage.trans hlinks),
        hrefs.1, hrefs.2]
    exact ⟨by simp, hforward, by simp⟩

end Tails

/-! ## The whole page -/

/-- The lines of a page that carry text, linked in order. -/
def sweepAll (policy : PairingPolicy) : List LineManifest → List LineManifest
  | [] => []
  | x :: xs => sweep (linkPair policy) x xs

omit [Unicode] in
/-- Linking a page sweeps its substantive lines and puts the blank ones back. -/
theorem linkHyphenPairs_eq (lines : List LineManifest) : linkHyphenPairs policy lines =
    putBack lines (sweepAll policy (lines.filter LineManifest.substantive)) := by
  unfold linkHyphenPairs
  split
  · next hnil =>
    rw [hnil, sweepAll]
    induction lines with
    | nil => rfl
    | cons line lines ih =>
      rw [List.filter_eq_nil_iff] at hnil
      have hline : ¬ line.substantive = true := hnil line (by simp)
      rw [putBack, if_neg hline,
        ← ih (List.filter_eq_nil_iff.mpr fun l hl => hnil l (by simp [hl]))]
  · next line rest hcons => rw [hcons, sweepAll]

theorem altoRead_substantive (lm : LineManifest) : (altoRead lm).substantive = lm.substantive := by
  unfold altoRead
  split <;> rfl

theorem pageRead_substantive (b : Bool) (lm : LineManifest) :
    (pageRead b lm).substantive = lm.substantive := by
  unfold pageRead
  split <;> rfl

theorem assignHyphenRolesFrom_cons (b : Bool) (lm : LineManifest) (lines : List LineManifest) :
    Page.assignHyphenRolesFrom b (lm :: lines) =
      pageRead b lm :: Page.assignHyphenRolesFrom (Page.breaks lm) lines := rfl

/-- A line that breaks carries text. -/
theorem substantive_of_breaks {lm : LineManifest} (h : Page.breaks lm = true) :
    lm.substantive = true := by
  by_contra hblank
  have hstrip : strip lm.ocrText = [] := by simpa [LineManifest.substantive] using hblank
  rw [Page.breaks, trailingHyphenChar, split_of_strip_eq_nil hstrip] at h
  cases h

/-- **One sweep against the other.**  `before` is the line just before
`lines` on the page, and `lm` the last one with text: the two are the same
when the former breaks. -/
theorem sweep_same {before lm : LineManifest} (h : Tails lm x y)
    (hbefore : Page.breaks before = true → before = lm) {lines : List LineManifest}
    (hfresh : ∀ line ∈ lines, line.Fresh) :
    List.Forall₂ SameHyphenation
        (sweep (linkPair policy) x ((lines.map altoRead).filter LineManifest.substantive))
        (sweep (linkPair policy) y
          ((Page.assignHyphenRolesFrom (Page.breaks before) lines).filter
            LineManifest.substantive)) ↔
      x.hyphenRole = y.hyphenRole ∧ (before :: lines).IsChain (ChainAccepted policy) := by
  -- induction on the lines, the two sweeps carrying their own copy of the last substantive line
  induction lines generalizing before lm x y with
  | nil => simp [sweep, Page.assignHyphenRolesFrom, h.same]
  | cons next lines ih =>
    have hnext := hfresh next (by simp)
    have hrest : ∀ line ∈ lines, line.Fresh := fun line hline => hfresh line (by simp [hline])
    rw [List.map_cons, assignHyphenRolesFrom_cons, List.isChain_cons_cons]
    by_cases hblank : next.substantive = true
    · rw [List.filter_cons_of_pos (by rwa [altoRead_substantive]),
        List.filter_cons_of_pos (by rwa [pageRead_substantive]), sweep, sweep, List.forall₂_cons]
      -- linked, the two readers hand the next line on alike; otherwise the chain rule decides
      cases hlinks : (Page.breaks lm && policy.canPair lm next) with
      | true =>
        obtain ⟨hsame, htails⟩ := h.linked hnext (Page.breaks before) hlinks
        rw [h.left hnext _ hlinks, ih htails (fun _ => rfl) hrest]
        have hchain : ChainAccepted policy before next := by
          intro hbreaks _
          rw [hbefore hbreaks]
          simp only [Bool.and_eq_true] at hlinks
          exact hlinks.2
        simp [hsame, hchain]
      | false =>
        obtain ⟨halto, hpage⟩ := @Tails.links _ policy x y lm next h hnext (Page.breaks before)
        rw [linkPair_of_not_links (halto.trans hlinks), linkPair_of_not_links (hpage.trans hlinks),
          h.same, ih (tails_read hnext _) (fun _ => rfl) hrest, (twin_read hnext _).2]
        have hchain : ChainAccepted policy before next ↔
            (Page.breaks before = true → ¬ Page.breaks next = true) := by
          constructor
          · intro haccepted hbreaks hnextBreaks
            have hpair := haccepted hbreaks hnextBreaks
            obtain rfl := hbefore hbreaks
            simp [hbreaks, hpair] at hlinks
          · exact fun hno hbreaks hnextBreaks => absurd hnextBreaks (hno hbreaks)
        rw [hchain]
    -- a blank line takes part in neither sweep and carries no break
    · have hsilent : ¬ Page.breaks next = true :=
        fun hbreaks => hblank (substantive_of_breaks hbreaks)
      rw [List.filter_cons_of_neg (by rwa [altoRead_substantive]),
        List.filter_cons_of_neg (by rwa [pageRead_substantive]),
        ih h (fun hbreaks => absurd hbreaks hsilent) hrest]
      have hchain : ChainAccepted policy before next := fun _ hbreaks => absurd hbreaks hsilent
      simp [hchain]

/-- Leading blank lines change nothing: the first line with text is read
alike. -/
theorem sweepAll_same {lines : List LineManifest} (hfresh : ∀ line ∈ lines, line.Fresh) :
    List.Forall₂ SameHyphenation
        (sweepAll policy ((lines.map altoRead).filter LineManifest.substantive))
        (sweepAll policy ((Page.assignHyphenRoles lines).filter LineManifest.substantive)) ↔
      lines.IsChain (ChainAccepted policy) := by
  unfold Page.assignHyphenRoles
  induction lines with
  | nil => simp [sweepAll, Page.assignHyphenRolesFrom]
  | cons next lines ih =>
    have hnext := hfresh next (by simp)
    have hrest : ∀ line ∈ lines, line.Fresh := fun line hline => hfresh line (by simp [hline])
    rw [List.map_cons, assignHyphenRolesFrom_cons]
    by_cases hblank : next.substantive = true
    · rw [List.filter_cons_of_pos (by rwa [altoRead_substantive]),
        List.filter_cons_of_pos (by rwa [pageRead_substantive]), sweepAll, sweepAll,
        sweep_same (tails_read hnext false) (fun _ => rfl) hrest, (twin_read hnext false).2]
      simp
    · have hsilent : Page.breaks next = false := by
        by_contra hbreaks
        exact hblank (substantive_of_breaks (by simpa using hbreaks))
      rw [List.filter_cons_of_neg (by rwa [altoRead_substantive]),
        List.filter_cons_of_neg (by rwa [pageRead_substantive]), hsilent, ih hrest]
      cases lines with
      | nil => simp
      | cons other lines => simp [ChainAccepted, hsilent]

/-- The readings agree on what is blank, and on the blank lines. -/
theorem forall₂_read {lines : List LineManifest} (hfresh : ∀ line ∈ lines, line.Fresh) (b : Bool) :
    List.Forall₂ (fun line line' => line'.substantive = line.substantive ∧
        (line.substantive = false → SameHyphenation line line'))
      (lines.map altoRead) (Page.assignHyphenRolesFrom b lines) := by
  induction lines generalizing b with
  | nil => exact .nil
  | cons next lines ih =>
    have hnext := hfresh next (by simp)
    rw [List.map_cons, assignHyphenRolesFrom_cons]
    refine .cons ⟨by rw [pageRead_substantive, altoRead_substantive], fun hblank => ?_⟩
      (ih (fun line hline => hfresh line (by simp [hline])) _)
    rw [altoRead_substantive] at hblank
    refine (tails_read hnext b).same.mpr ((twin_read hnext b).2.mpr fun _ hbreaks => ?_)
    rw [substantive_of_breaks hbreaks] at hblank
    cases hblank

omit [Unicode] in
/-- The blank lines are read alike, and the others are what the sweeps
leave. -/
theorem putBack_same {lines lines' rewritten rewritten' : List LineManifest}
    (hlines : List.Forall₂ (fun line line' => line'.substantive = line.substantive ∧
      (line.substantive = false → SameHyphenation line line')) lines lines')
    (hlen : rewritten.length = (lines.filter LineManifest.substantive).length)
    (hlen' : rewritten'.length = (lines'.filter LineManifest.substantive).length) :
    List.Forall₂ SameHyphenation (putBack lines rewritten) (putBack lines' rewritten') ↔
      List.Forall₂ SameHyphenation rewritten rewritten' := by
  -- both sides have the same blank lines, which are handed back as they were
  induction hlines generalizing rewritten rewritten' with
  | nil =>
    obtain rfl := List.eq_nil_of_length_eq_zero hlen
    obtain rfl := List.eq_nil_of_length_eq_zero hlen'
    simp [putBack]
  | @cons line line' lines lines' hline _ ih =>
    cases hsub : line.substantive with
    | true =>
      have hsub' : line'.substantive = true := hline.1.trans hsub
      rw [List.filter_cons_of_pos hsub] at hlen
      rw [List.filter_cons_of_pos hsub'] at hlen'
      cases rewritten with
      | nil => simp at hlen
      | cons new rewritten =>
        cases rewritten' with
        | nil => simp at hlen'
        | cons new' rewritten' =>
          simp only [putBack, hsub, hsub', if_true, List.forall₂_cons]
          rw [ih (by simpa using hlen) (by simpa using hlen')]
    | false =>
      have hsub' : line'.substantive = false := hline.1.trans hsub
      rw [List.filter_cons_of_neg (by simp [hsub])] at hlen
      rw [List.filter_cons_of_neg (by simp [hsub'])] at hlen'
      simp only [putBack, hsub, hsub', Bool.false_eq_true, if_false, List.forall₂_cons]
      rw [ih hlen hlen']
      simp [hline.2 hsub]

omit [Unicode] in
theorem length_sweepAll (lines : List LineManifest) :
    (sweepAll policy lines).length = lines.length := by
  cases lines with
  | nil => rfl
  | cons x xs => simp [sweepAll]

/-- **The formats agree on a page exactly when the policy accepts its
chains**: two lines in a row that both end in a break mark. -/
theorem sameHyphenation_iff (policy : PairingPolicy) (lines : List UnmarkedLine) :
    List.Forall₂ SameHyphenation (altoHyphenation policy lines) (pageHyphenation policy lines) ↔
      (lines.map UnmarkedLine.manifest).IsChain (ChainAccepted policy) := by
  -- without marks a line is all the two readers see: one role from its last character
  have hfresh : ∀ lm ∈ lines.map UnmarkedLine.manifest, lm.Fresh := by
    intro lm hlm
    obtain ⟨line, -, rfl⟩ := List.mem_map.mp hlm
    exact line.fresh
  have halto : (lines.map fun line => Alto.parseTextlineHyphenInfo line.textline line.manifest) =
      (lines.map UnmarkedLine.manifest).map altoRead := by
    rw [List.map_map]
    refine List.map_congr_left fun line _ => ?_
    rw [Alto.parseTextlineHyphenInfo_of_unmarked line.unmarked fun hnone => by
      rw [line.silent hnone]; rfl]
    by_cases hbreaks : (trailingHyphenChar line.manifest.ocrText).isSome = true
    · simp [altoRead, Page.breaks, hbreaks, line.fresh.sourceExplicit]
    · simp [altoRead, Page.breaks, hbreaks]
  rw [altoHyphenation, pageHyphenation, halto, linkHyphenPairs_eq, linkHyphenPairs_eq]
  -- the sweeps agree line by line exactly along an accepted chain
  exact (putBack_same (forall₂_read hfresh false) (length_sweepAll _) (length_sweepAll _)).trans
    (sweepAll_same hfresh)

end Agreement

/-- A line of one `String`, `vpos` pixels down the page. -/
def unmarkedLine (lineId text : String) (vpos : Int) : UnmarkedLine where
  manifest := { plainLine "p".toList 0 lineId text .none with coords := ⟨0, vpos, 100, 10⟩ }
  textline := [.string [("CONTENT".toList, text.toList)]]
  fresh := ⟨rfl, rfl, rfl, rfl, rfl, rfl, rfl⟩
  unmarked child h := by
    obtain rfl := List.mem_singleton.mp h
    rfl
  silent := by simp [Alto.Child.isElement]

/-- Two broken lines with the height of the page between them. -/
def refusedChain : List UnmarkedLine := [unmarkedLine "a" "por-" 0, unmarkedLine "b" "ta-" 1000]

omit [Unicode] in
/-- **Refused, the second line is a `both` without a first half in PAGE**,
and a `part1` in ALTO. -/
theorem refusedChain_differs : ¬ List.Forall₂ SameHyphenation
    (@altoHyphenation Unicode.ascii .default refusedChain)
    (@pageHyphenation Unicode.ascii .default refusedChain) := by
  intro hsame
  have hsecond := (List.forall₂_iff_get.mp hsame).2 1 (by decide +kernel) (by decide +kernel)
  exact absurd hsecond.role (by decide +kernel)

end Saknussemm
