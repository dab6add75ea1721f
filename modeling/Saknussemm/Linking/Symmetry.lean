import Saknussemm.Linking.Seams
import Saknussemm.Library.Pointwise

/-! # Link symmetry of the built document.

The three passes are put together: what the pages look like when the
cross-page pass starts, what it makes of them, and the condition on the
*input files* under which no link is lost and every link is answered. -/

namespace Saknussemm

open Sweep

/-! ## Pages before the cross-page pass -/

/-- A page after the first two passes: its substantive lines are joined,
its blank lines have no link, and every line carries the page's id. -/
structure LinkedPage (page : PageManifest) : Prop where
  joined : JoinedPage page.pageId (substantive page)
  blank : ∀ lm ∈ page.lines, lm.substantive = false →
    forwardPartnerRef lm = none ∧ backwardPartnerRef lm = none
  line_page : ∀ lm ∈ page.lines, lm.pageId = page.pageId

/-- A blank line of the rewritten page is a blank line of the page. -/
theorem mem_of_mem_putBack {lines rewritten : List LineManifest}
    (hsub : ∀ x ∈ rewritten, x.substantive = true) {x : LineManifest}
    (hx : x ∈ putBack lines rewritten) : x ∈ lines ∨ x ∈ rewritten := by
  induction lines generalizing rewritten with
  | nil => cases hx
  | cons line lines ih =>
    by_cases hline : line.substantive = true
    · cases rewritten with
      | nil =>
        simp only [putBack, hline, if_true] at hx
        rcases List.mem_cons.mp hx with rfl | hx
        · exact .inl (by simp)
        · rcases ih hsub hx with h | h
          · exact .inl (List.mem_cons_of_mem _ h)
          · exact .inr h
      | cons new rewritten =>
        simp only [putBack, hline, if_true] at hx
        rcases List.mem_cons.mp hx with rfl | hx
        · exact .inr (by simp)
        · rcases ih (fun y hy => hsub y (by simp [hy])) hx with h | h
          · exact .inl (List.mem_cons_of_mem _ h)
          · exact .inr (List.mem_cons_of_mem _ h)
    · simp only [putBack, hline, Bool.false_eq_true, if_false] at hx
      rcases List.mem_cons.mp hx with rfl | hx
      · exact .inl (by simp)
      · rcases ih hsub hx with h | h
        · exact .inl (List.mem_cons_of_mem _ h)
        · exact .inr h

section Parsed

variable {policy : PairingPolicy} {page : PageManifest}

theorem PageManifest.Parsed.unlinkedLine (h : page.Parsed)
    (hids : ∀ lm ∈ page.lines, lm.lineId ≠ [])
    {lm : LineManifest} (hlm : lm ∈ page.lines) : Unlinked page.pageId lm :=
  ⟨h.line_page lm hlm, hids lm hlm, (h.unlinked lm hlm).1, (h.unlinked lm hlm).2.2.1⟩

/-- The in-page pass on a parsed page: nothing, or one sweep. -/
theorem substantive_linkPage (policy : PairingPolicy) (page : PageManifest) :
    substantive (linkPage policy page) =
      match substantive page with
      | [] => []
      | x :: xs => sweep (linkPair policy) x xs := by
  unfold substantive
  cases h : page.lines.filter LineManifest.substantive with
  | nil => simp [linkPage, linkHyphenPairs, h]
  | cons x xs => exact filter_linkHyphenPairs h

/-- A line of a linked page is one of the page's own or a substantive one. -/
theorem mem_linkPage {lm : LineManifest} (hlm : lm ∈ (linkPage policy page).lines) :
    lm ∈ page.lines ∨ lm ∈ substantive (linkPage policy page) := by
  by_cases hs : lm.substantive = true
  · exact .inr (List.mem_filter.mpr ⟨hlm, hs⟩)
  · unfold linkPage linkHyphenPairs at hlm
    cases h : page.lines.filter LineManifest.substantive with
    | nil =>
      rw [h] at hlm
      exact .inl hlm
    | cons x xs =>
      rw [h] at hlm
      have hsub : ∀ y ∈ sweep (linkPair policy) x xs, y.substantive = true := by
        rw [← filter_linkHyphenPairs h]
        exact fun y hy => (List.mem_filter.mp hy).2
      rcases mem_of_mem_putBack hsub hlm with hmem | hmem
      · exact .inl hmem
      · exact absurd (hsub lm hmem) hs

/-- **The in-page pass leaves a linked page.** -/
theorem PageManifest.Parsed.linkedPage (h : page.Parsed)
    (hids : ∀ lm ∈ page.lines, lm.lineId ≠ []) : LinkedPage (linkPage policy page) := by
  have hjoined : JoinedPage page.pageId (substantive (linkPage policy page)) := by
    rw [substantive_linkPage]
    cases hs : substantive page with
    | nil => exact ⟨by simp, List.isChain_nil, by simp, by simp⟩
    | cons x xs =>
      have hmem : ∀ y ∈ x :: xs, Unlinked page.pageId y := fun y hy =>
        h.unlinkedLine hids (List.mem_of_mem_filter (hs ▸ hy))
      exact joinedPage_sweep (hmem x (by simp)) fun y hy => hmem y (by simp [hy])
  refine ⟨hjoined, fun lm hlm hblank => ?_, fun lm hlm => ?_⟩
  · rcases mem_linkPage hlm with hmem | hmem
    · have hopen := h.unlinkedLine hids hmem
      exact ⟨hopen.openTail.forwardPartnerRef_eq, hopen.backwardPartnerRef_eq⟩
    · exact absurd (List.mem_filter.mp hmem).2 (by simp [hblank])
  · rcases mem_linkPage hlm with hmem | hmem
    · exact h.line_page lm hmem
    · exact (hjoined.line lm hmem).page

end Parsed

theorem substantive_renamePage (newId : Str) (page : PageManifest) :
    substantive (renamePage newId page) =
        (substantive page).map (renameLine page.pageId newId) := by
  unfold substantive renamePage
  rw [List.filter_map]
  rfl

/-- Renaming a linked page leaves it linked. -/
theorem LinkedPage.rename {page : PageManifest} (h : LinkedPage page) (newId : Str) :
    LinkedPage (renamePage newId page) where
  joined := by
    rw [substantive_renamePage]
    exact h.joined.rename
  blank := by
    intro lm hlm hblank
    obtain ⟨w, hw, rfl⟩ := List.mem_map.mp hlm
    obtain ⟨hf, hb⟩ := h.blank w hw hblank
    exact ⟨forwardPartnerRef_rename_eq_none.mpr hf, backwardPartnerRef_rename_eq_none.mpr hb⟩
  line_page := by
    intro lm hlm
    obtain ⟨w, hw, rfl⟩ := List.mem_map.mp hlm
    rfl

/-! ## The seams of a list of linked pages -/

/-- The seam lines of one linked page: ready inside, free at both ends. -/
theorem LinkedPage.isChain_pageSeamLines {page : PageManifest} (h : LinkedPage page) :
    (pageSeamLines page).IsChain Adjacent := by
  have hchain := h.joined.chain
  unfold pageSeamLines
  cases hs : substantive page with
  | nil => exact List.isChain_nil
  | cons x xs =>
    rw [hs] at hchain
    cases xs with
    | nil => exact List.isChain_singleton _
    | cons y ys =>
      obtain ⟨hxy, hys⟩ := List.isChain_cons_cons.mp hchain
      refine List.isChain_cons_cons.mpr ⟨by simpa [Adjacent] using hxy, ?_⟩
      refine (List.isChain_map fun line => (⟨false, line⟩ : SeamLine)).mpr (hys.imp ?_)
      intro u v huv
      simpa [Adjacent] using huv

theorem map_line_pageSeamLines (page : PageManifest) :
    (pageSeamLines page).map SeamLine.line = substantive page := by
  unfold pageSeamLines
  cases substantive page <;> simp [Function.comp_def]

theorem map_line_seamLines (pages : List PageManifest) :
    (seamLines pages).map SeamLine.line = pages.flatMap substantive := by
  simp [seamLines, List.map_flatMap, map_line_pageSeamLines]

/-- A page with text opens its seam at its first line, which continues none. -/
theorem head_of_pageSeamLines {page : PageManifest} (h : LinkedPage page) {y : SeamLine}
    (hy : y ∈ (pageSeamLines page).head?) :
    y.opensPage = true ∧ backwardPartnerRef y.line = none ∧ PageLine page.pageId y.line := by
  have hline := h.joined.line
  have hhead := h.joined.head
  unfold pageSeamLines at hy
  cases hs : substantive page with
  | nil => simp [hs] at hy
  | cons x xs =>
    rw [hs] at hy hline hhead
    obtain rfl : ⟨true, x⟩ = y := by simpa using hy
    exact ⟨rfl, hhead x (by simp), hline x (by simp)⟩

theorem last_of_pageSeamLines {page : PageManifest} (h : LinkedPage page) {x : SeamLine}
    (hx : x ∈ (pageSeamLines page).getLast?) :
    forwardPartnerRef x.line = none ∧ PageLine page.pageId x.line := by
  have hx' : x.line ∈ (substantive page).getLast? := by
    rw [← map_line_pageSeamLines, List.getLast?_map, Option.mem_map]
    exact ⟨x, hx, rfl⟩
  exact ⟨h.joined.last _ hx', h.joined.line _ (List.mem_of_getLast? hx')⟩

section Pages

variable {pages : List PageManifest} (hpages : ∀ page ∈ pages, LinkedPage page)

include hpages

/-- The document opens with the head of a page. -/
theorem head_of_seamLines {y : SeamLine} (hy : y ∈ (seamLines pages).head?) :
    ∃ page ∈ pages, y.opensPage = true ∧ backwardPartnerRef y.line = none ∧
      PageLine page.pageId y.line := by
  rw [seamLines, List.head?_flatMap] at hy
  obtain ⟨page, hpage, hy⟩ := List.exists_of_findSome?_eq_some hy
  exact ⟨page, hpage, head_of_pageSeamLines (hpages page hpage) hy⟩

/-- … and closes with the last line of one. -/
theorem last_of_seamLines {x : SeamLine} (hx : x ∈ (seamLines pages).getLast?) :
    forwardPartnerRef x.line = none := by
  rw [seamLines, List.getLast?_flatMap] at hx
  obtain ⟨page, hpage, hx⟩ := List.exists_of_findSome?_eq_some hx
  exact (last_of_pageSeamLines (hpages page (List.mem_reverse.mp hpage)) hx).1

/-- **Before the cross-page pass every seam is ready**: distinct page ids
are all it takes. -/
theorem isChain_seamLines (hids : (pages.map PageManifest.pageId).Nodup) :
    (seamLines pages).IsChain Adjacent := by
  induction pages with
  | nil => exact List.isChain_nil
  | cons page pages ih =>
    rw [List.map_cons, List.nodup_cons] at hids
    have hpage := hpages page (by simp)
    have hrest : ∀ q ∈ pages, LinkedPage q := fun q hq => hpages q (by simp [hq])
    refine List.isChain_append.mpr ⟨hpage.isChain_pageSeamLines, ih hrest hids.2, ?_⟩
    intro x hx y hy
    obtain ⟨hxfree, hxline⟩ := last_of_pageSeamLines hpage hx
    obtain ⟨q, hq, hopens, hyfree, hyline⟩ := head_of_seamLines hrest hy
    unfold Adjacent
    rw [if_pos hopens]
    refine ⟨hxfree, hyfree, ?_, hxline.id_ne, hyline.id_ne, hyline.fit⟩
    rw [hxline.page, hyline.page]
    intro heq
    exact hids.1 (heq ▸ List.mem_map_of_mem hq)

end Pages

/-! ## Pages after the cross-page pass -/

/-- Page by page, the same page with its lines rewritten by `K`. -/
def PagesRel (K : LineManifest → LineManifest → Prop) (p q : PageManifest) : Prop :=
  q.pageId = p.pageId ∧ q.sourceFile = p.sourceFile ∧ List.Forall₂ K p.lines q.lines

/-- Putting lines back replaces lines and nothing else of the pages. -/
theorem forall₂_putBackPages {K : LineManifest → LineManifest → Prop}
    {pages : List PageManifest} {rewritten : List LineManifest}
    (hblank : ∀ page ∈ pages, ∀ lm ∈ page.lines, lm.substantive = false → K lm lm)
    (h : List.Forall₂ K (pages.flatMap substantive) rewritten) :
    List.Forall₂ (PagesRel K) pages (putBackPages pages rewritten) := by
  induction pages generalizing rewritten with
  | nil => exact .nil
  | cons page pages ih =>
    rw [List.flatMap_cons] at h
    have hlen := h.length_eq
    rw [List.length_append] at hlen
    obtain ⟨hnow, hlater⟩ : List.Forall₂ K (substantive page)
          (rewritten.take (substantive page).length) ∧
        List.Forall₂ K (pages.flatMap substantive)
          (rewritten.drop (substantive page).length) := by
      have htake := List.forall₂_take (substantive page).length h
      have hdrop := List.forall₂_drop (substantive page).length h
      simpa using And.intro htake hdrop
    exact .cons ⟨rfl, rfl, forall₂_putBack (hblank page (by simp)) hnow⟩
      (ih (fun q hq => hblank q (by simp [hq])) hlater)

/-- The substantive lines of the result are the rewritten ones. -/
theorem flatMap_substantive_putBackPages {pages : List PageManifest}
    {rewritten : List LineManifest}
    (hlen : rewritten.length = (pages.flatMap substantive).length)
    (hsub : ∀ x ∈ rewritten, x.substantive = true) :
    (putBackPages pages rewritten).flatMap substantive = rewritten := by
  induction pages generalizing rewritten with
  | nil =>
    obtain rfl : rewritten = [] := List.eq_nil_of_length_eq_zero hlen
    rfl
  | cons page pages ih =>
    rw [List.flatMap_cons, List.length_append] at hlen
    rw [putBackPages, List.flatMap_cons]
    rw [ih (by rw [List.length_drop]; omega) fun x hx => hsub x (List.mem_of_mem_drop hx)]
    have hpage : substantive
        { page with lines := putBack page.lines (rewritten.take (substantive page).length) }
          = rewritten.take (substantive page).length :=
      filter_putBack (by simp [substantive] at hlen ⊢; omega)
        fun x hx => hsub x (List.mem_of_mem_take hx)
    rw [hpage, List.take_append_drop]

/-- A blank line of the result was there before. -/
theorem mem_of_mem_putBackPages {pages : List PageManifest} {rewritten : List LineManifest}
    (hsub : ∀ x ∈ rewritten, x.substantive = true) {page : PageManifest}
    (hpage : page ∈ putBackPages pages rewritten) {lm : LineManifest} (hlm : lm ∈ page.lines)
    (hblank : lm.substantive = false) : ∃ q ∈ pages, lm ∈ q.lines := by
  induction pages generalizing rewritten with
  | nil => cases hpage
  | cons q pages ih =>
    rcases List.mem_cons.mp hpage with rfl | hpage
    · rcases mem_of_mem_putBack (fun x hx => hsub x (List.mem_of_mem_take hx)) hlm with h | h
      · exact ⟨q, by simp, h⟩
      · rw [hsub lm (List.mem_of_mem_take h)] at hblank
        cases hblank
    · obtain ⟨q', hq', hlm'⟩ := ih (fun x hx => hsub x (List.mem_of_mem_drop hx)) hpage
      exact ⟨q', by simp [hq'], hlm'⟩

section CrossPage

variable {policy : PairingPolicy} {pages : List PageManifest}

theorem length_sewSeams (lines : List SeamLine) :
    (sewSeams policy lines).length = lines.length := by
  cases lines <;> simp [sewSeams]

/-- Sewing keeps refs, in order. -/
theorem map_ref_sewSeams (lines : List SeamLine) :
    (sewSeams policy lines).map lineRef = lines.map fun u => lineRef u.line := by
  cases lines with
  | nil => rfl
  | cons x ys =>
    have hmap := sweep_map (f := sewStep policy) (g := fun u => lineRef u.line)
      (fun _ _ => sewStep_fst_ref) (fun _ _ => sewStep_snd_ref) x ys
    simpa [sewSeams, Function.comp_def] using hmap

/-- Sewing leaves blank lines out. -/
theorem substantive_sewSeams :
    ∀ x ∈ sewSeams policy (seamLines pages), x.substantive = true := by
  have hmap : ∀ lines : List SeamLine, (sewSeams policy lines).map LineManifest.substantive
      = lines.map fun u => u.line.substantive := by
    intro lines
    cases lines with
    | nil => rfl
    | cons x ys =>
      have h := sweep_map (f := sewStep policy) (g := fun u => u.line.substantive)
        (fun _ _ => substantive_of_ocrText sewStep_fst_ocrText)
        (fun _ _ => substantive_of_ocrText sewStep_snd_ocrText) x ys
      simpa [sewSeams, Function.comp_def] using h
  intro x hx
  have hmem : x.substantive ∈ (seamLines pages).map fun u => u.line.substantive :=
    hmap _ ▸ List.mem_map_of_mem hx
  obtain ⟨u, hu, hux⟩ := List.mem_map.mp hmem
  have hline : u.line ∈ pages.flatMap substantive := by
    rw [← map_line_seamLines]
    exact List.mem_map_of_mem hu
  obtain ⟨page, -, hmem⟩ := List.mem_flatMap.mp hline
  rw [← hux]
  exact (List.mem_filter.mp hmem).2

/-- The substantive lines of the built pages are the sewn ones. -/
theorem flatMap_substantive_linkCrossPageHyphens :
    (linkCrossPageHyphens policy pages).flatMap substantive
      = sewSeams policy (seamLines pages) := by
  refine flatMap_substantive_putBackPages ?_ substantive_sewSeams
  rw [length_sewSeams, ← map_line_seamLines, List.length_map]

/-- The cross-page pass keeps every page and every line in its place. -/
theorem forall₂_linkCrossPageHyphens :
    List.Forall₂ (PagesRel fun x y => lineRef y = lineRef x) pages
      (linkCrossPageHyphens policy pages) := by
  refine forall₂_putBackPages (fun _ _ _ _ _ => rfl) ?_
  apply Pointwise.of_map_eq
  rw [map_ref_sewSeams, ← map_line_seamLines, List.map_map]
  rfl

variable (hpages : ∀ page ∈ pages, LinkedPage page)
  (hids : (pages.map PageManifest.pageId).Nodup)

include hpages hids

/-- **Sound seams, joined document**: the sewn lines form a joined chain. -/
theorem isChain_sewSeams (hsound : (seamLines pages).IsChain (SoundPair policy)) :
    (sewSeams policy (seamLines pages)).IsChain JoinedLines := by
  have hadj := isChain_seamLines hpages hids
  cases h : seamLines pages with
  | nil => exact List.isChain_nil
  | cons x ys =>
    rw [h] at hadj hsound
    exact (List.isChain_map _).mpr (isChain_joined_of_sound hadj hsound)

/-- Every substantive line survives with the forward link it had. -/
theorem forall₂_kept_sewSeams (hsound : (seamLines pages).IsChain (SoundPair policy)) :
    List.Forall₂ Kept (pages.flatMap substantive) (sewSeams policy (seamLines pages)) := by
  have hadj := isChain_seamLines hpages hids
  rw [← map_line_seamLines]
  cases h : seamLines pages with
  | nil => exact .nil
  | cons x ys =>
    rw [h] at hadj hsound
    exact List.forall₂_map_left_iff.mpr
      (List.forall₂_map_right_iff.mpr (forall₂_kept_of_sound hadj hsound))

/-- **Neighbours that agree betray no unsound seam.** -/
theorem sound_of_agree (hagree : (sewSeams policy (seamLines pages)).IsChain Agree) :
    (seamLines pages).IsChain (SoundPair policy) := by
  have hadj := isChain_seamLines hpages hids
  have hlast := fun x hx => last_of_seamLines (x := x) hpages hx
  cases h : seamLines pages with
  | nil => exact List.isChain_nil
  | cons x ys =>
    rw [h] at hadj hlast hagree
    exact sound_of_isChain_agree hadj hlast ((List.isChain_map _).mp hagree)

/-- The ends of the sewn document are free. -/
theorem last_sewSeams (hsound : (seamLines pages).IsChain (SoundPair policy)) {x : LineManifest}
    (hx : x ∈ (sewSeams policy (seamLines pages)).getLast?) : forwardPartnerRef x = none := by
  have hadj := isChain_seamLines hpages hids
  have hlast := fun u hu => last_of_seamLines (x := u) hpages hu
  cases h : seamLines pages with
  | nil => simp [h, sewSeams] at hx
  | cons y ys =>
    rw [h] at hx hadj hsound hlast
    rw [sewSeams, List.getLast?_map, Option.mem_map] at hx
    obtain ⟨u, hu, rfl⟩ := hx
    exact free_last_of_sound hadj hsound hlast u hu

omit hids in
/-- The first line of the sewn seams continues none. -/
theorem head_sewSeams {x : LineManifest} (hx : x ∈ (sewSeams policy (seamLines pages)).head?) :
    backwardPartnerRef x = none := by
  have hhead := fun y hy => head_of_seamLines (y := y) hpages hy
  cases h : seamLines pages with
  | nil => simp [h, sewSeams] at hx
  | cons y ys =>
    rw [h] at hx hhead
    obtain ⟨tail, htail⟩ := sweep_eq_cons (sewStep policy) y ys
    rw [sewSeams, htail] at hx
    obtain rfl : (sweepHead (sewStep policy) y ys).line = x := by simpa using hx
    obtain ⟨-, -, -, hfree, -⟩ := hhead y (by simp)
    rw [← hfree]
    exact map_sweepHead (g := fun u => backwardPartnerRef u.line)
      (fun _ _ => sewStep_fst_backward) y ys

/-- **The cross-page pass keeps a document symmetric exactly when its seams
are sound.** -/
theorem linkSymmetric_linkCrossPageHyphens_iff
    (hrefs : (((linkCrossPageHyphens policy pages).flatMap PageManifest.lines).map lineRef).Nodup) :
    LinkSymmetric ((linkCrossPageHyphens policy pages).flatMap PageManifest.lines)
      ↔ (seamLines pages).IsChain (SoundPair policy) := by
  have hsubst : ∀ x ∈ sewSeams policy (seamLines pages),
      x ∈ (linkCrossPageHyphens policy pages).flatMap PageManifest.lines := by
    rw [← flatMap_substantive_linkCrossPageHyphens]
    intro x hx
    obtain ⟨page, hpage, hmem⟩ := List.mem_flatMap.mp hx
    exact List.mem_flatMap.mpr ⟨page, hpage, (List.mem_filter.mp hmem).1⟩
  constructor
  · intro hsym
    apply sound_of_agree hpages hids
    exact isChain_of_symmetric fun x hx y hy => hsym x (hsubst x hx) y (hsubst y hy)
  · intro hsound
    refine symmetric_of_isChain hrefs hsubst ?_ (isChain_sewSeams hpages hids hsound)
      (fun x hx => head_sewSeams hpages hx) (fun x hx => last_sewSeams hpages hids hsound hx)
    intro x hx
    obtain ⟨page, hpage, hlm⟩ := List.mem_flatMap.mp hx
    by_cases hs : x.substantive = true
    · left
      rw [← flatMap_substantive_linkCrossPageHyphens]
      exact List.mem_flatMap.mpr ⟨page, hpage, List.mem_filter.mpr ⟨hlm, hs⟩⟩
    · right
      have hblank : x.substantive = false := by simpa using hs
      obtain ⟨q, hq, hmem⟩ := mem_of_mem_putBackPages substantive_sewSeams hpage hlm hblank
      exact (hpages q hq).blank x hmem hblank

end CrossPage

end Saknussemm
