import Saknussemm.Linking.Slots

/-! # The in-page pass and the renaming of a page.

The in-page pass sweeps the substantive lines of a page.  It leaves every
pair of neighbours linked both ways or not at all, with both ends of the
page free, and renaming the page renames both ends of each link. -/

namespace Saknussemm

open Sweep

/-! ## What the in-page pass leaves on a page -/

/-- The slots in use are the ones the role gives a meaning to. -/
structure SlotsFit (lm : LineManifest) : Prop where
  none_unlinked : lm.hyphenRole = .none → lm.hyphenPairLineId = none
  forward_both : lm.hyphenRole ≠ .both → lm.hyphenForwardPairId = none

/-- The links of a line stay on its own page, spelled with its page id. -/
structure SlotsLocal (lm : LineManifest) : Prop where
  pair : lm.hyphenPairLineId ≠ none → lm.hyphenPairPageId = some lm.pageId
  forward : lm.hyphenForwardPairId ≠ none → lm.hyphenForwardPairPageId = some lm.pageId

/-- A line of page `pageId` no pass has linked yet. -/
structure Unlinked (pageId : Str) (lm : LineManifest) : Prop where
  page : lm.pageId = pageId
  id_ne : lm.lineId ≠ []
  pair : lm.hyphenPairLineId = none
  forward : lm.hyphenForwardPairId = none

/-- A line of page `pageId` whose forward link is still open. -/
structure OpenTail (pageId : Str) (lm : LineManifest) : Prop where
  page : lm.pageId = pageId
  id_ne : lm.lineId ≠ []
  onPage : SlotsLocal lm
  fit : SlotsFit lm
  forward : lm.hyphenForwardPairId = none
  pair : lm.hyphenRole = .part1 → lm.hyphenPairLineId = none

/-- A line of page `pageId` the in-page pass is done with. -/
structure PageLine (pageId : Str) (lm : LineManifest) : Prop where
  page : lm.pageId = pageId
  id_ne : lm.lineId ≠ []
  onPage : SlotsLocal lm
  fit : SlotsFit lm

section InPage

variable {policy : PairingPolicy} {pageId : Str} {x y : LineManifest}

theorem Unlinked.openTail (h : Unlinked pageId x) : OpenTail pageId x where
  page := h.page
  id_ne := h.id_ne
  onPage := ⟨fun hp => absurd h.pair hp, fun hf => absurd h.forward hf⟩
  fit := ⟨fun _ => h.pair, fun _ => h.forward⟩
  forward := h.forward
  pair := fun _ => h.pair

theorem OpenTail.pageLine (h : OpenTail pageId x) : PageLine pageId x :=
  ⟨h.page, h.id_ne, h.onPage, h.fit⟩

theorem Unlinked.backwardPartnerRef_eq (h : Unlinked pageId x) : backwardPartnerRef x = none := by
  unfold backwardPartnerRef pairRef
  rw [h.pair]
  split <;> rfl

theorem OpenTail.forwardPartnerRef_eq (h : OpenTail pageId x) : forwardPartnerRef x = none := by
  unfold forwardPartnerRef pairRef forwardRef
  rw [h.forward]
  split
  · next hr => rw [h.pair hr]; rfl
  · rfl
  · rfl

/-- The candidate of a link made in its page: its forward side is open. -/
theorem OpenTail.linkPair_snd (hx : OpenTail pageId x) (hy : Unlinked pageId y) :
    OpenTail pageId (linkPair policy x y).2 := by
  cases h : links policy x y with
  | false =>
    rw [linkPair_of_not_links h]
    exact hy.openTail
  | true =>
    have hrole := linkPair_snd_hyphenRole h
    have hlocal : SlotsLocal (linkPair policy x y).2 := by
      rw [linkPair_of_links h]
      unfold joinPair
      split <;> exact ⟨fun _ => by simp [hx.page, hy.page], fun hf => by simp [hy.forward] at hf⟩
    have hfwd : (linkPair policy x y).2.hyphenForwardPairId = none := by
      rw [linkPair_of_links h]
      unfold joinPair
      split <;> simp [hy.forward]
    have hpage : lineRef (linkPair policy x y).2 = lineRef y := linkPair_snd_ref
    simp only [lineRef, LineRef.mk.injEq] at hpage
    refine ⟨hpage.1.trans hy.page, hpage.2 ▸ hy.id_ne, hlocal, ⟨?_, fun _ => hfwd⟩, hfwd, ?_⟩
    · intro hn
      rw [hrole] at hn
      cases ho : opensForward y <;> simp [ho] at hn
    · intro hn
      rw [hrole] at hn
      cases ho : opensForward y <;> simp [ho] at hn

/-- The line of a link made in its page: its slots still fit. -/
theorem OpenTail.linkPair_fst (hx : OpenTail pageId x) (hy : Unlinked pageId y) :
    PageLine pageId (linkPair policy x y).1 := by
  cases h : links policy x y with
  | false =>
    rw [linkPair_of_not_links h]
    exact hx.pageLine
  | true =>
    have hopen : opensForward x = true := by
      simp only [links, Bool.and_eq_true] at h
      exact h.1
    have hpage : lineRef (linkPair policy x y).1 = lineRef x := linkPair_fst_ref
    simp only [lineRef, LineRef.mk.injEq] at hpage
    refine ⟨hpage.1.trans hx.page, hpage.2 ▸ hx.id_ne, ?_, ?_⟩
    · rw [linkPair_of_links h]
      unfold joinPair
      split
      · exact ⟨hx.onPage.pair, fun _ => by simp [hx.page, hy.page]⟩
      · exact ⟨fun _ => by simp [hx.page, hy.page], hx.onPage.forward⟩
    · have hrole : (linkPair policy x y).1.hyphenRole = x.hyphenRole := linkPair_fst_hyphenRole
      refine ⟨fun hn => ?_, fun hn => ?_⟩
      · rw [hrole] at hn
        simp [opensForward, hn] at hopen
      · rw [hrole] at hn
        rw [linkPair_of_links h]
        simp [joinPair, hn, hx.forward]

/-- **One round of the in-page pass** links its pair both ways or not at all. -/
theorem OpenTail.joined (hx : OpenTail pageId x) (hy : Unlinked pageId y) :
    JoinedLines (linkPair policy x y).1 (linkPair policy x y).2 := by
  cases h : links policy x y with
  | false =>
    rw [linkPair_of_not_links h]
    exact .inr ⟨hx.forwardPartnerRef_eq, hy.backwardPartnerRef_eq⟩
  | true =>
    left
    refine ⟨?_, ?_⟩
    · rw [linkPair_fst_forward h, linkPair_snd_ref, slotRef_some hy.id_ne, hx.page, hy.page]
      simp [lineRef, hy.page]
    · rw [linkPair_snd_backward h, linkPair_fst_ref, slotRef_some hx.id_ne, hx.page, hy.page]
      simp [lineRef, hx.page]

/-- A later round rewrites the forward side only. -/
theorem JoinedLines.linkPair_fst {z : LineManifest} (h : JoinedLines x y) :
    JoinedLines x (linkPair policy y z).1 := by
  rcases h with ⟨hf, hb⟩ | ⟨hf, hb⟩
  · exact .inl ⟨by rw [hf, linkPair_fst_ref], by rw [linkPair_fst_backward, hb]⟩
  · exact .inr ⟨hf, by rw [linkPair_fst_backward, hb]⟩

variable {xs : List LineManifest}

/-- **The in-page pass joins every pair of neighbours.** -/
theorem isChain_sweep_linkPair (hx : Unlinked pageId x) (hxs : ∀ y ∈ xs, Unlinked pageId y) :
    (sweep (linkPair policy) x xs).IsChain JoinedLines :=
  sweep_isChain (P := OpenTail pageId) (Q := Unlinked pageId)
    (fun _ _ hx hy => ⟨hx.joined hy, hx.linkPair_snd hy⟩)
    (fun _ _ _ h _ _ => h.linkPair_fst) hx.openTail hxs

theorem pageLine_sweep_linkPair (hx : Unlinked pageId x) (hxs : ∀ y ∈ xs, Unlinked pageId y) :
    ∀ z ∈ sweep (linkPair policy) x xs, PageLine pageId z :=
  sweep_forall (P := OpenTail pageId) (Q := Unlinked pageId)
    (fun _ _ hx hy => ⟨hx.linkPair_fst hy, hx.linkPair_snd hy⟩)
    (fun _ hx => hx.pageLine) hx.openTail hxs

end InPage

/-- What the first two passes leave of a page's substantive lines: its
lines are its own, neighbours are joined, and both ends are free. -/
structure JoinedPage (pageId : Str) (lines : List LineManifest) : Prop where
  line : ∀ x ∈ lines, PageLine pageId x
  chain : lines.IsChain JoinedLines
  head : ∀ x ∈ lines.head?, backwardPartnerRef x = none
  last : ∀ x ∈ lines.getLast?, forwardPartnerRef x = none

/-- Sweeping unlinked lines joins them on their page. -/
theorem joinedPage_sweep {policy : PairingPolicy} {pageId : Str} {x : LineManifest}
    {xs : List LineManifest} (hx : Unlinked pageId x) (hxs : ∀ y ∈ xs, Unlinked pageId y) :
    JoinedPage pageId (sweep (linkPair policy) x xs) where
  line := pageLine_sweep_linkPair hx hxs
  chain := isChain_sweep_linkPair hx hxs
  head := by
    obtain ⟨tail, htail⟩ := sweep_eq_cons (linkPair policy) x xs
    rw [htail]
    simp [map_sweepHead (g := backwardPartnerRef) fun _ _ => linkPair_fst_backward,
      hx.backwardPartnerRef_eq]
  last := by
    intro z hz
    have step : ∀ x y, OpenTail pageId x → Unlinked pageId y →
        OpenTail pageId (linkPair policy x y).2 := fun _ _ hx hy => hx.linkPair_snd hy
    exact (sweep_getLast step hx.openTail hxs z hz).forwardPartnerRef_eq

/-! ### Putting the lines back -/

theorem substantive_of_ocrText {x y : LineManifest} (h : x.ocrText = y.ocrText) :
    x.substantive = y.substantive := by
  unfold LineManifest.substantive
  rw [h]

/-- The blank lines keep their place: rewritten lines come back as they went. -/
theorem filter_putBack {lines rewritten : List LineManifest}
    (hlen : rewritten.length = (lines.filter LineManifest.substantive).length)
    (hsub : ∀ x ∈ rewritten, x.substantive = true) :
    (putBack lines rewritten).filter LineManifest.substantive = rewritten := by
  induction lines generalizing rewritten with
  | nil => simpa [putBack] using List.eq_nil_of_length_eq_zero (by simpa using hlen)
  | cons line lines ih =>
    by_cases hline : line.substantive = true
    · cases rewritten with
      | nil => simp [hline] at hlen
      | cons new rewritten =>
        have hnew : new.substantive = true := hsub new (by simp)
        simp only [putBack, hline, if_true, List.filter_cons, hnew]
        rw [ih (by simpa [hline] using hlen) fun x hx => hsub x (by simp [hx])]
    · simp only [putBack, hline, Bool.false_eq_true, if_false, List.filter_cons]
      exact ih (by simpa [hline] using hlen) hsub

/-- Pointwise, putting back replaces the substantive lines and nothing else. -/
theorem forall₂_putBack {K : LineManifest → LineManifest → Prop}
    {lines rewritten : List LineManifest} (hblank : ∀ x ∈ lines, x.substantive = false → K x x)
    (h : List.Forall₂ K (lines.filter LineManifest.substantive) rewritten) :
    List.Forall₂ K lines (putBack lines rewritten) := by
  induction lines generalizing rewritten with
  | nil => exact .nil
  | cons line lines ih =>
    have hblank' : ∀ x ∈ lines, x.substantive = false → K x x :=
      fun x hx => hblank x (by simp [hx])
    by_cases hline : line.substantive = true
    · rw [List.filter_cons_of_pos hline] at h
      cases h with
      | cons hnew hrest =>
        simp only [putBack, hline, if_true]
        exact .cons hnew (ih hblank' hrest)
    · rw [List.filter_cons_of_neg hline] at h
      simp only [putBack, hline, Bool.false_eq_true, if_false]
      exact .cons (hblank line (by simp) (by simpa using hline)) (ih hblank' h)

/-- A sweep that keeps every text keeps the lines substantive. -/
theorem substantive_sweep {f : LineManifest → LineManifest → LineManifest × LineManifest}
    (h₁ : ∀ x y, (f x y).1.ocrText = x.ocrText) (h₂ : ∀ x y, (f x y).2.ocrText = y.ocrText)
    {x : LineManifest} {ys : List LineManifest} (h : ∀ z ∈ x :: ys, z.substantive = true) :
    ∀ z ∈ sweep f x ys, z.substantive = true := by
  have hmap := sweep_map (g := LineManifest.substantive)
    (fun x y => substantive_of_ocrText (h₁ x y)) (fun x y => substantive_of_ocrText (h₂ x y)) x ys
  intro z hz
  have hmem : z.substantive ∈ (x :: ys).map LineManifest.substantive :=
    hmap ▸ List.mem_map_of_mem hz
  obtain ⟨w, hw, hwz⟩ := List.mem_map.mp hmem
  rw [← hwz, h w hw]

/-- The in-page pass, seen on the substantive lines alone. -/
theorem filter_linkHyphenPairs {policy : PairingPolicy} {lines : List LineManifest}
    {x : LineManifest} {xs : List LineManifest}
    (h : lines.filter LineManifest.substantive = x :: xs) :
    (linkHyphenPairs policy lines).filter LineManifest.substantive
      = sweep (linkPair policy) x xs := by
  unfold linkHyphenPairs
  rw [h]
  apply filter_putBack (by rw [sweep_length, h]; rfl)
  apply substantive_sweep (fun _ _ => linkPair_fst_ocrText) (fun _ _ => linkPair_snd_ocrText)
  intro z hz
  have hz' : z ∈ lines.filter LineManifest.substantive := h ▸ hz
  exact (List.mem_filter.mp hz').2

/-! ## Renaming a page -/

/-- The same line, on another page id. -/
def LineRef.onPage (pageId : Str) (ref : LineRef) : LineRef := { ref with pageId := pageId }

section Rename

variable {old new : Str} {x y : LineManifest}

@[simp] theorem renameLine_ref : lineRef (renameLine old new x) = (lineRef x).onPage new := rfl

@[simp] theorem renameLine_substantive :
    (renameLine old new x).substantive = x.substantive := rfl

theorem slotRef_rename {l p : Option Str} (h : l ≠ none → p = some old) :
    slotRef new (if p = some old then some new else p) l
      = (slotRef old p l).map (LineRef.onPage new) := by
  rcases l with _ | _ | ⟨c, cs⟩
  · rfl
  · rfl
  · simp [h, slotRef, LineRef.onPage]

theorem PageLine.pairRef_rename (hx : PageLine old x) :
    pairRef (renameLine old new x) = (pairRef x).map (LineRef.onPage new) := by
  unfold pairRef
  rw [hx.page]
  exact slotRef_rename fun h => hx.page ▸ hx.onPage.pair h

theorem PageLine.forwardRef_rename (hx : PageLine old x) :
    forwardRef (renameLine old new x) = (forwardRef x).map (LineRef.onPage new) := by
  unfold forwardRef
  rw [hx.page]
  exact slotRef_rename fun h => hx.page ▸ hx.onPage.forward h

theorem PageLine.forwardPartnerRef_rename (hx : PageLine old x) :
    forwardPartnerRef (renameLine old new x)
      = (forwardPartnerRef x).map (LineRef.onPage new) := by
  have hrole : (renameLine old new x).hyphenRole = x.hyphenRole := rfl
  unfold forwardPartnerRef
  rw [hrole]
  cases x.hyphenRole <;> simp [hx.pairRef_rename, hx.forwardRef_rename]

theorem PageLine.backwardPartnerRef_rename (hx : PageLine old x) :
    backwardPartnerRef (renameLine old new x)
      = (backwardPartnerRef x).map (LineRef.onPage new) := by
  have hrole : (renameLine old new x).hyphenRole = x.hyphenRole := rfl
  unfold backwardPartnerRef
  rw [hrole]
  cases x.hyphenRole <;> simp [hx.pairRef_rename]

/-- A slot is empty or not by its line id alone. -/
theorem forwardPartnerRef_rename_eq_none :
    forwardPartnerRef (renameLine old new x) = none ↔ forwardPartnerRef x = none := by
  have hrole : (renameLine old new x).hyphenRole = x.hyphenRole := rfl
  unfold forwardPartnerRef pairRef forwardRef
  rw [hrole]
  cases x.hyphenRole <;> simp [slotRef_eq_none, renameLine]

theorem backwardPartnerRef_rename_eq_none :
    backwardPartnerRef (renameLine old new x) = none ↔ backwardPartnerRef x = none := by
  have hrole : (renameLine old new x).hyphenRole = x.hyphenRole := rfl
  unfold backwardPartnerRef pairRef
  rw [hrole]
  cases x.hyphenRole <;> simp [slotRef_eq_none, renameLine]

theorem PageLine.rename (hx : PageLine old x) : PageLine new (renameLine old new x) where
  page := rfl
  id_ne := hx.id_ne
  onPage := by
    refine ⟨fun h => ?_, fun h => ?_⟩
    · have hp : x.hyphenPairPageId = some old := hx.page ▸ hx.onPage.pair h
      simp [renameLine, hp]
    · have hf : x.hyphenForwardPairPageId = some old := hx.page ▸ hx.onPage.forward h
      simp [renameLine, hf]
  fit := ⟨hx.fit.none_unlinked, hx.fit.forward_both⟩

/-- Renaming a page keeps two lines joined. -/
theorem JoinedLines.rename (hx : PageLine old x) (hy : PageLine old y) (h : JoinedLines x y) :
    JoinedLines (renameLine old new x) (renameLine old new y) := by
  rcases h with ⟨hf, hb⟩ | ⟨hf, hb⟩
  · left
    refine ⟨?_, ?_⟩
    · rw [hx.forwardPartnerRef_rename, hf]
      rfl
    · rw [hy.backwardPartnerRef_rename, hb]
      rfl
  · right
    refine ⟨?_, ?_⟩
    · rw [hx.forwardPartnerRef_rename, hf]
      rfl
    · rw [hy.backwardPartnerRef_rename, hb]
      rfl

/-- **Renaming a page renames both ends of its links.** -/
theorem JoinedPage.rename {lines : List LineManifest} (h : JoinedPage old lines) :
    JoinedPage new (lines.map (renameLine old new)) where
  line := by
    intro x hx
    obtain ⟨w, hw, rfl⟩ := List.mem_map.mp hx
    exact (h.line w hw).rename
  chain := by
    rw [List.isChain_map]
    exact h.chain.imp_of_mem_imp fun x y hx hy hxy => hxy.rename (h.line x hx) (h.line y hy)
  head := by
    intro x hx
    rw [List.head?_map, Option.mem_map] at hx
    obtain ⟨w, hw, rfl⟩ := hx
    rw [(h.line w (List.mem_of_head? hw)).backwardPartnerRef_rename, h.head w hw]
    rfl
  last := by
    intro x hx
    rw [List.getLast?_map, Option.mem_map] at hx
    obtain ⟨w, hw, rfl⟩ := hx
    rw [(h.line w (List.mem_of_getLast? hw)).forwardPartnerRef_rename, h.last w hw]
    rfl

end Rename

end Saknussemm
