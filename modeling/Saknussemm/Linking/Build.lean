import Saknussemm.Linking.Symmetry
import Saknussemm.Library.Fallible
import Saknussemm.Library.Pointwise

/-! # When the builder keeps its links.

The condition is about the files as their parsers read them: where a page
of text follows another, the word broken at the foot of the first is sewn
to the head of the second, and three things about those two lines decide
whether the document stays symmetric. -/

namespace Saknussemm

open Sweep

/-! ## Distinct identities -/

theorem uniqueIdentities_iff {pages : List PageManifest} : uniqueIdentities pages = true ↔
    (pages.map PageManifest.pageId).Nodup ∧
      (∀ page ∈ pages, (page.blocks.map BlockManifest.blockId).Nodup) ∧
      (pages.flatMap fun page => page.lines.map LineManifest.lineId).Nodup := by
  simp [uniqueIdentities, and_assoc]

theorem ensureUniqueIdentities_ok {pages : List PageManifest} {name : Str}
    (h : ensureUniqueIdentities pages name = .ok ()) : uniqueIdentities pages = true := by
  unfold ensureUniqueIdentities at h
  split at h
  · assumption
  · cases h

theorem ensureElementIdsPresent_ok {pages : List PageManifest} {name : Str}
    (h : ensureElementIdsPresent pages name = .ok ()) :
    ∀ page ∈ pages, ∀ lm ∈ page.lines, lm.lineId ≠ [] := by
  unfold ensureElementIdsPresent at h
  split at h
  · next hall => simpa using hall
  · cases h

/-- The door's checks, spelled out. -/
theorem ensureIdentities_ok {doc : DocumentManifest} (h : ensureIdentities doc = .ok ()) :
    (∀ page ∈ doc.pages, uniqueIdentities (pagesOfFile doc.pages page.sourceFile) = true) ∧
      ∀ p ∈ doc.pages, ∀ q ∈ doc.pages, p.pageId = q.pageId → p.sourceFile = q.sourceFile := by
  obtain ⟨⟨⟩, hfiles, hacross⟩ := Fallible.bind_eq_ok.mp h
  refine ⟨fun page hpage => ?_, fun p hp q hq hpq => ?_⟩
  · exact ensureUniqueIdentities_ok
      (Fallible.forM_eq_ok.mp hfiles _ (List.mem_map_of_mem hpage))
  · unfold ensureUniquePageIdsAcrossFiles at hacross
    split at hacross
    · next hall =>
      simp only [List.all_eq_true, Bool.or_eq_true, decide_eq_true_eq] at hall
      exact (hall p hp q hq).resolve_left (by simp [hpq])
    · cases hacross

section Door

variable {doc : DocumentManifest} (h : ensureIdentities doc = .ok ())

include h

/-- **Past the door, page ids are unique**: within a file by the first
check, across files by the second. -/
theorem nodup_pageIds : (doc.pages.map PageManifest.pageId).Nodup := by
  obtain ⟨hfiles, hacross⟩ := ensureIdentities_ok h
  unfold List.Nodup
  rw [List.pairwise_map, List.pairwise_iff_forall_sublist]
  intro p q hpq heq
  have hp : p ∈ doc.pages := hpq.subset (by simp)
  have hq : q ∈ doc.pages := hpq.subset (by simp)
  have hfile := (uniqueIdentities_iff.mp (hfiles p hp)).1
  unfold List.Nodup at hfile
  rw [List.pairwise_map, pagesOfFile, List.pairwise_filter,
    List.pairwise_iff_forall_sublist] at hfile
  exact hfile hpq (by simp) (by simp [hacross p hp q hq heq]) heq

/-- … and so are line refs, when lines carry their page's id. -/
theorem nodup_refs (hpage : ∀ page ∈ doc.pages, ∀ lm ∈ page.lines, lm.pageId = page.pageId) :
    (doc.lines.map lineRef).Nodup := by
  have hids := nodup_pageIds h
  obtain ⟨hfiles, -⟩ := ensureIdentities_ok h
  unfold DocumentManifest.lines
  rw [List.map_flatMap, List.nodup_flatMap]
  constructor
  · intro page hp
    have hlines := (uniqueIdentities_iff.mp (hfiles page hp)).2.2
    rw [List.nodup_flatMap] at hlines
    have hone := hlines.1 page (List.mem_filter.mpr ⟨hp, by simp⟩)
    apply List.Nodup.of_map LineRef.lineId
    simpa [Function.comp_def, lineRef] using hone
  · unfold List.Nodup at hids
    rw [List.pairwise_map] at hids
    apply hids.imp_of_mem
    intro p q hp hq hne
    show List.Disjoint _ _
    rw [List.disjoint_left]
    intro ref hrp hrq
    obtain ⟨x, hx, rfl⟩ := List.mem_map.mp hrp
    obtain ⟨y, hy, hxy⟩ := List.mem_map.mp hrq
    have hpid : y.pageId = x.pageId := congrArg LineRef.pageId hxy
    rw [hpage q hq y hy, hpage p hp x hx] at hpid
    exact hne hpid.symm

end Door

/-! ## From files to seams -/

/-- The pages of the files in order, each with the id it will carry. -/
def qualifiedPages (files : List SourceFile) : List (Str × PageManifest) :=
  let parsed := files.map fun file => (file.name, file.pages)
  files.flatMap fun file => file.pages.map fun page =>
    (if colliding parsed page.pageId then qualifiedId file.name page.pageId else page.pageId, page)

/-- What the first two passes make of a page. -/
def preparedPage (policy : PairingPolicy) (page : Str × PageManifest) : PageManifest :=
  renamePage page.1 (linkPage policy page.2)

/-- The seam between two consecutive pages of text is clean.  If the last
line of the first breaks a word and the policy lets words cross pages,
then both pages have an id, and the first line of the second does not
itself break a word that continues on its page. -/
def CleanSeam (policy : PairingPolicy) (p q : Str × PageManifest) : Prop :=
  ∀ tail ∈ (substantive p.2).getLast?, ∀ head ∈ (substantive q.2).head?,
    opensForward tail = true → policy.sameBlockOnly = false →
      p.1 ≠ [] ∧ q.1 ≠ [] ∧
        ¬ (head.hyphenRole = .part1 ∧
          ∃ next ∈ (substantive q.2)[1]?, policy.canPair head next = true)

/-- Does the page carry any text? -/
def hasText (page : Str × PageManifest) : Bool := !(substantive page.2).isEmpty

/-- Every seam between consecutive pages of text is clean. -/
def CleanSeams (policy : PairingPolicy) (files : List SourceFile) : Prop :=
  ((qualifiedPages files).filter hasText).IsChain (CleanSeam policy)

/-- No link the in-page pass made between two lines of a page is lost. -/
def InPageLinksKept (before after : List PageManifest) : Prop :=
  List.Forall₂ (fun p q : PageManifest => ∀ (i j : Nat) x y, p.lines[i]? = some x →
    p.lines[j]? = some y → forwardPartnerRef x = some (lineRef y) →
      ∃ x' y', q.lines[i]? = some x' ∧ q.lines[j]? = some y' ∧
        forwardPartnerRef x' = some (lineRef y')) before after

/-! ### The builder, in terms of its files -/

theorem renameLine_self {lm : LineManifest} {old : Str} (h : lm.pageId = old) :
    renameLine old old lm = lm := by
  have hslot : ∀ p : Option Str, (if p = some old then some old else p) = p := by
    intro p
    split <;> grind
  subst h
  simp only [renameLine, hslot]

/-- A renaming to the page's own id changes nothing. -/
theorem renamePage_self {page : PageManifest} (hline : ∀ lm ∈ page.lines, lm.pageId = page.pageId)
    (hblock : ∀ block ∈ page.blocks, block.pageId = page.pageId) :
    renamePage page.pageId page = page := by
  have hlines : page.lines.map (renameLine page.pageId page.pageId) = page.lines :=
    (List.map_congr_left fun lm hlm => renameLine_self (hline lm hlm)).trans (List.map_id _)
  have hblocks : page.blocks.map (fun block => { block with pageId := page.pageId })
      = page.blocks := by
    refine (List.map_congr_left fun block hb => ?_).trans (List.map_id _)
    rw [← hblock block hb]
    rfl
  unfold renamePage
  rw [hlines, hblocks]

section Builder

variable {policy : PairingPolicy} {files : List SourceFile} {doc : DocumentManifest}

/-- Line ids are present in every file. -/
def IdsPresent (files : List SourceFile) : Prop :=
  ∀ file ∈ files, ∀ page ∈ file.pages, ∀ lm ∈ page.lines, lm.lineId ≠ []

/-- The in-page pass keeps every line in its place. -/
theorem forall₂_linkPage (policy : PairingPolicy) (page : PageManifest) :
    List.Forall₂ (fun x y => lineRef y = lineRef x) page.lines (linkPage policy page).lines := by
  unfold linkPage linkHyphenPairs
  cases h : page.lines.filter LineManifest.substantive with
  | nil => exact List.forall₂_same.mpr fun _ _ => rfl
  | cons x xs =>
    refine forall₂_putBack (fun _ _ _ => rfl) ?_
    rw [h]
    exact Pointwise.of_map_eq
      (sweep_map (fun _ _ => linkPair_fst_ref) (fun _ _ => linkPair_snd_ref) x xs)

/-- A parsed file lists its pages as parsed, and no line of them without an id.
-/
theorem parseFile_ok {file : SourceFile} {parsed : Str × List PageManifest}
    (h : parseFile policy file = .ok parsed) :
    parsed = (file.name, file.pages.map (linkPage policy)) ∧
      ∀ page ∈ file.pages, ∀ lm ∈ page.lines, lm.lineId ≠ [] := by
  obtain ⟨⟨⟩, -, h⟩ := Fallible.bind_eq_ok.mp h
  obtain ⟨⟨⟩, hids, h⟩ := Fallible.bind_eq_ok.mp h
  cases h
  refine ⟨rfl, fun page hpage lm hlm => ?_⟩
  obtain ⟨lm', hlm', href⟩ := Pointwise.exists_of_mem_left (forall₂_linkPage policy page) hlm
  have hid : lm'.lineId = lm.lineId := congrArg LineRef.lineId href
  rw [← hid]
  exact ensureElementIdsPresent_ok hids _ (List.mem_map_of_mem hpage) lm' hlm'

/-- The in-page pass leaves the page ids, and so their collisions, alone. -/
theorem colliding_linkPage (pageId : Str) :
    colliding (files.map fun file => (file.name, file.pages.map (linkPage policy))) pageId
      = colliding (files.map fun file => (file.name, file.pages)) pageId := by
  have hids : (allPages (files.map fun file => (file.name, file.pages.map (linkPage policy)))).map
      PageManifest.pageId = (allPages (files.map fun file => (file.name, file.pages))).map
      PageManifest.pageId := by
    simp [allPages, List.map_flatMap, List.flatMap_map, Function.comp_def, linkPage]
  unfold colliding
  rw [hids]

/-- The first two passes, page by page. -/
theorem allPages_disambiguatePageIds (hpresent : IdsPresent files) :
    allPages (disambiguatePageIds
        (files.map fun file => (file.name, file.pages.map (linkPage policy))))
      = (qualifiedPages files).map (preparedPage policy) := by
  simp only [allPages, disambiguatePageIds, qualifiedPages, List.map_map, List.flatMap_map,
    List.map_flatMap, Function.comp_def]
  refine List.flatMap_congr fun file hfile => List.map_congr_left fun page hpage => ?_
  have hlinked := ((file.parsed page hpage).linkedPage (hpresent file hfile page hpage) :
    LinkedPage (linkPage policy page))
  have hid : (linkPage policy page).pageId = page.pageId := rfl
  rw [colliding_linkPage, hid]
  cases hc : colliding (files.map fun file => (file.name, file.pages)) page.pageId with
  | true => simp only [preparedPage, if_true]
  | false =>
    simp only [preparedPage, Bool.false_eq_true, if_false]
    exact (renamePage_self hlinked.line_page (file.parsed page hpage).block_page).symm

/-- A successful build is the three passes, on files whose ids are present. -/
theorem buildDocumentManifest_ok (h : buildDocumentManifest policy files = .ok doc) :
    IdsPresent files ∧ doc.pages = linkCrossPageHyphens policy
      ((qualifiedPages files).map (preparedPage policy)) := by
  obtain ⟨parsed, hparsed, h⟩ := Fallible.bind_eq_ok.mp h
  have hforall := (Fallible.mapM_eq_ok.mp hparsed).imp fun _ _ hp => parseFile_ok hp
  have hpresent : IdsPresent files := by
    intro file hfile
    obtain ⟨_, -, -, hids⟩ := Pointwise.exists_of_mem_left hforall hfile
    exact hids
  have heq : parsed = files.map fun file => (file.name, file.pages.map (linkPage policy)) := by
    have := Pointwise.map_eq (g := id) hforall fun _ _ hp => hp.1
    simpa using this
  subst heq
  cases h
  exact ⟨hpresent, by rw [allPages_disambiguatePageIds hpresent]⟩

end Builder

/-! ### The condition on the files -/

section Condition

variable {policy : PairingPolicy}

/-- The rewritten lines of a page break words where the parsed ones did. -/
theorem map_opensForward_preparedPage (policy : PairingPolicy) (page : Str × PageManifest) :
    (substantive (preparedPage policy page)).map opensForward
      = (substantive page.2).map opensForward := by
  rw [preparedPage, substantive_renamePage, substantive_linkPage, List.map_map]
  cases substantive page.2 with
  | nil => rfl
  | cons x xs =>
    exact sweep_map (g := opensForward) (fun _ _ => linkPair_fst_opensForward)
      (fun _ _ => linkPair_snd_opensForward) x xs

variable {page : Str × PageManifest}

/-- What the two passes need to know of a page: it is parsed, with ids. -/
def Readable (page : Str × PageManifest) : Prop :=
  page.2.Parsed ∧ ∀ lm ∈ page.2.lines, lm.lineId ≠ []

theorem Readable.linkedPage (h : Readable page) : LinkedPage (preparedPage policy page) :=
  (h.1.linkedPage h.2).rename page.1

theorem substantive_preparedPage_cons (policy : PairingPolicy) {x : LineManifest}
    {xs : List LineManifest}
    (hs : substantive page.2 = x :: xs) : ∃ tail, substantive (preparedPage policy page)
      = renameLine page.2.pageId page.1 (sweepHead (linkPair policy) x xs) :: tail := by
  obtain ⟨tail, htail⟩ := sweep_eq_cons (linkPair policy) x xs
  have hlinked : substantive (linkPage policy page.2) = sweep (linkPair policy) x xs :=
    filter_linkHyphenPairs hs
  rw [preparedPage, substantive_renamePage, hlinked, htail]
  exact ⟨_, rfl⟩

/-- The head of a prepared page continues on its page exactly when the
parsed head may pair with the line below it. -/
theorem Readable.head_forward (h : Readable page) {x : LineManifest} {xs : List LineManifest}
    (hs : substantive page.2 = x :: xs) (hrole : x.hyphenRole = .part1) :
    forwardPartnerRef (renameLine page.2.pageId page.1 (sweepHead (linkPair policy) x xs)) ≠ none
      ↔ ∃ next ∈ (x :: xs)[1]?, policy.canPair x next = true := by
  have hmem : ∀ y ∈ x :: xs, Unlinked page.2.pageId y := fun y hy =>
    h.1.unlinkedLine h.2 (List.mem_of_mem_filter (hs ▸ hy))
  rw [Ne, forwardPartnerRef_rename_eq_none]
  cases xs with
  | nil => simpa [sweepHead] using (hmem x (by simp)).openTail.forwardPartnerRef_eq
  | cons y ys =>
    have hlinks : links policy x y = policy.canPair x y := by
      simp [links, opensForward, hrole]
    cases hc : policy.canPair x y with
    | false =>
      rw [hc] at hlinks
      have hx := (hmem x (by simp)).openTail.forwardPartnerRef_eq
      simp [sweepHead, linkPair_of_not_links hlinks, hx, hc]
    | true =>
      rw [hc] at hlinks
      have hne := (hmem y (by simp)).id_ne
      simp [sweepHead, linkPair_fst_forward hlinks, slotRef_some hne, hc]

/-- **A seam is sound after the first two passes exactly when it is clean
in the files.** -/
theorem soundPair_iff_cleanSeam {p q : Str × PageManifest} (hp : Readable p) (hq : Readable q)
    (hne : p.1 ≠ q.1) {x y : SeamLine} (hx : x ∈ (pageSeamLines (preparedPage policy p)).getLast?)
    (hy : y ∈ (pageSeamLines (preparedPage policy q)).head?) :
    SoundPair policy x y ↔ CleanSeam policy p q := by
  obtain ⟨hxfree, hxline⟩ := last_of_pageSeamLines hp.linkedPage hx
  obtain ⟨hopens, -, hyline⟩ := head_of_pageSeamLines hq.linkedPage hy
  have hxp : x.line.pageId = p.1 := hxline.page
  have hyp : y.line.pageId = q.1 := hyline.page
  have hcan : policy.canPair x.line y.line = !policy.sameBlockOnly :=
    PairingPolicy.canPair_of_pageId_ne (by rw [hxp, hyp]; exact hne)
  -- The tail of the seam opens a word exactly when the parsed tail does.
  have htail : ∃ tail ∈ (substantive p.2).getLast?, opensForward tail = opensForward x.line := by
    have hx' : x.line ∈ (substantive (preparedPage policy p)).getLast? := by
      rw [← map_line_pageSeamLines, List.getLast?_map, Option.mem_map]
      exact ⟨x, hx, rfl⟩
    have hmap : opensForward x.line ∈ ((substantive p.2).map opensForward).getLast? := by
      rw [← map_opensForward_preparedPage policy p, List.getLast?_map, Option.mem_map]
      exact ⟨_, hx', rfl⟩
    rwa [List.getLast?_map, Option.mem_map] at hmap
  obtain ⟨tail, htail, hopen⟩ := htail
  cases hs : substantive q.2 with
  | nil =>
    have hempty : substantive (preparedPage policy q) = [] := by
      rw [preparedPage, substantive_renamePage, substantive_linkPage, hs]
      rfl
    simp [pageSeamLines, hempty] at hy
  | cons head rest =>
    obtain ⟨others, hothers⟩ := substantive_preparedPage_cons policy hs
    have hyhead : y.line
        = renameLine q.2.pageId q.1 (sweepHead (linkPair policy) head rest) := by
      simp only [pageSeamLines, hothers, List.head?_cons, Option.mem_def,
        Option.some.injEq] at hy
      rw [← hy]
    have hyrole : y.line.hyphenRole = head.hyphenRole := by
      rw [hyhead]
      exact map_sweepHead (g := LineManifest.hyphenRole)
        (fun _ _ => linkPair_fst_hyphenRole) head rest
    have hclobber : (y.line.hyphenRole = .part1 ∧ forwardPartnerRef y.line ≠ none) ↔
        (head.hyphenRole = .part1 ∧
          ∃ next ∈ (head :: rest)[1]?, policy.canPair head next = true) := by
      rw [hyrole]
      refine and_congr_right fun hrole => ?_
      rw [hyhead]
      exact hq.head_forward hs hrole
    have hneeds : needsForwardLink x.line = opensForward tail := by
      rw [needsForwardLink_eq, hxfree, hopen]
      simp
    unfold SoundPair SeamSound CleanSeam
    rw [hclobber, hneeds, hcan, hxp, hyp, hs]
    have htl : (substantive p.2).getLast? = some tail := htail
    rw [htl]
    simp [hopens]

theorem pageSeamLines_eq_nil {page : Str × PageManifest} :
    pageSeamLines (preparedPage policy page) = [] ↔ hasText page = false := by
  have h := congrArg List.isEmpty (map_opensForward_preparedPage policy page)
  simp only [List.isEmpty_map] at h
  unfold hasText pageSeamLines
  rw [← h]
  cases substantive (preparedPage policy page) <;> simp

/-- Inside a page there is no seam to be sound about. -/
theorem isChain_soundPair_pageSeamLines (policy : PairingPolicy) (page : PageManifest) :
    (pageSeamLines page).IsChain (SoundPair policy) := by
  unfold pageSeamLines
  cases substantive page with
  | nil => exact List.isChain_nil
  | cons x xs =>
    have hall : ∀ u, ∀ y ∈ xs.map fun line => (⟨false, line⟩ : SeamLine), SoundPair policy u y := by
      intro u y hy hopens
      obtain ⟨line, -, rfl⟩ := List.mem_map.mp hy
      cases hopens
    exact (List.pairwise_cons.mpr
      ⟨hall _, List.pairwise_of_forall_mem_list fun u _ y hy => hall u y hy⟩).isChain

/-- The first line of a document is the first line of its first page of text. -/
theorem head_seamLines_iff {pages : List (Str × PageManifest)} {y : SeamLine} :
    y ∈ (seamLines (pages.map (preparedPage policy))).head? ↔
      ∃ q ∈ (pages.filter hasText).head?, y ∈ (pageSeamLines (preparedPage policy q)).head? := by
  induction pages with
  | nil => simp [seamLines]
  | cons p pages ih =>
    have hcons : seamLines ((p :: pages).map (preparedPage policy))
        = pageSeamLines (preparedPage policy p)
          ++ seamLines (pages.map (preparedPage policy)) := rfl
    rw [hcons]
    cases ht : hasText p with
    | false =>
      rw [pageSeamLines_eq_nil.mpr ht, List.nil_append, ih, List.filter_cons_of_neg (by simp [ht])]
    | true =>
      rw [List.filter_cons_of_pos ht, List.head?_cons]
      cases hl : pageSeamLines (preparedPage policy p) with
      | nil => rw [pageSeamLines_eq_nil.mp hl] at ht; cases ht
      | cons z zs => simp [hl]

/-- **The seams of the document are sound exactly when the files are clean.** -/
theorem isChain_soundPair_iff {pages : List (Str × PageManifest)}
    (hread : ∀ p ∈ pages, Readable p) (hids : (pages.map Prod.fst).Nodup) :
    (seamLines (pages.map (preparedPage policy))).IsChain (SoundPair policy) ↔
      (pages.filter hasText).IsChain (CleanSeam policy) := by
  -- induction on the pages; a page without text contributes no line and no seam
  induction pages with
  | nil => simp [seamLines]
  | cons p pages ih =>
    rw [List.map_cons, List.nodup_cons] at hids
    have hrest : ∀ q ∈ pages, Readable q := fun q hq => hread q (by simp [hq])
    have hcons : seamLines ((p :: pages).map (preparedPage policy))
        = pageSeamLines (preparedPage policy p)
          ++ seamLines (pages.map (preparedPage policy)) := rfl
    rw [hcons]
    cases ht : hasText p with
    | false =>
      rw [pageSeamLines_eq_nil.mpr ht, List.nil_append, ih hrest hids.2,
        List.filter_cons_of_neg (by simp [ht])]
    | true =>
      rw [List.filter_cons_of_pos ht, List.isChain_append, List.isChain_cons, ih hrest hids.2]
      have hpage := isChain_soundPair_pageSeamLines policy (preparedPage policy p)
      -- the one new seam joins the last line of this page to the first of the next page with text
      have hseam : (∀ x ∈ (pageSeamLines (preparedPage policy p)).getLast?,
          ∀ y ∈ (seamLines (pages.map (preparedPage policy))).head?, SoundPair policy x y) ↔
          ∀ q ∈ (pages.filter hasText).head?, CleanSeam policy p q := by
        have hne : ∀ q ∈ (pages.filter hasText).head?, Readable q ∧ p.1 ≠ q.1 := by
          intro q hq
          have hmem : q ∈ pages := List.mem_of_mem_filter (List.mem_of_head? hq)
          exact ⟨hrest q hmem, fun heq => hids.1 (heq ▸ List.mem_map_of_mem hmem)⟩
        have hread_p := hread p (by simp)
        constructor
        · intro h q hq
          have hq₀ : pageSeamLines (preparedPage policy q) ≠ [] := fun hnil =>
            absurd (List.mem_filter.mp (List.mem_of_head? hq)).2
              (by simp [pageSeamLines_eq_nil.mp hnil])
          have hp₀ : pageSeamLines (preparedPage policy p) ≠ [] := fun hnil => by
            rw [pageSeamLines_eq_nil.mp hnil] at ht
            cases ht
          have hx := List.getLast?_eq_some_getLast hp₀
          have hy := List.head?_eq_some_head hq₀
          exact (soundPair_iff_cleanSeam hread_p (hne q hq).1 (hne q hq).2 hx hy).mp
            (h _ hx _ (head_seamLines_iff.mpr ⟨q, hq, hy⟩))
        · intro h x hx y hy
          obtain ⟨q, hq, hyq⟩ := head_seamLines_iff.mp hy
          exact (soundPair_iff_cleanSeam hread_p (hne q hq).1 (hne q hq).2 hx hyq).mpr (h q hq)
      rw [hseam]
      exact ⟨fun h => ⟨h.2.2, h.2.1⟩, fun h => ⟨hpage, h.2, h.1⟩⟩

end Condition

/-! ## Link symmetry -/

section Main

variable {policy : PairingPolicy} {files : List SourceFile} {doc : DocumentManifest}

theorem IdsPresent.readable (h : IdsPresent files) : ∀ p ∈ qualifiedPages files, Readable p := by
  intro p hp
  obtain ⟨file, hfile, hmem⟩ := List.mem_flatMap.mp hp
  obtain ⟨page, hpage, rfl⟩ := List.mem_map.mp hmem
  exact ⟨file.parsed page hpage, h file hfile page hpage⟩

/-- The pages as the in-page pass leaves them, before any renaming. -/
def linkedPages (policy : PairingPolicy) (files : List SourceFile) : List PageManifest :=
  files.flatMap fun file => file.pages.map (linkPage policy)

/-- The identity checks, read on the built document. -/
theorem distinct_of_door (hbuild : buildDocumentManifest policy files = .ok doc)
    (hdoor : ensureIdentities doc = .ok ()) :
    ((qualifiedPages files).map Prod.fst).Nodup ∧ (doc.lines.map lineRef).Nodup := by
  obtain ⟨hpresent, hpages⟩ := buildDocumentManifest_ok hbuild
  have hread := hpresent.readable
  have hkeep : List.Forall₂ (PagesRel fun x y => lineRef y = lineRef x)
      ((qualifiedPages files).map (preparedPage policy)) doc.pages :=
    hpages ▸ forall₂_linkCrossPageHyphens
  have hids : doc.pages.map PageManifest.pageId = (qualifiedPages files).map Prod.fst := by
    rw [Pointwise.map_eq (f := PageManifest.pageId) hkeep fun _ _ h => h.1, List.map_map]
    rfl
  refine ⟨hids ▸ nodup_pageIds hdoor, nodup_refs hdoor fun page hpage lm hlm => ?_⟩
  obtain ⟨before, hbefore, hid, -, hlines⟩ := Pointwise.exists_of_mem_right hkeep hpage
  obtain ⟨p, hp, rfl⟩ := List.mem_map.mp hbefore
  obtain ⟨old, hold, href⟩ := Pointwise.exists_of_mem_right hlines hlm
  have holdPage := (hread p hp).linkedPage.line_page old hold
  rw [hid, ← holdPage]
  exact congrArg LineRef.pageId href

/-- Renaming a linked page and then keeping its links loses none of them. -/
theorem keeps_of_rename {page q : PageManifest} {newId : Str} (h : LinkedPage page)
    (hq : PagesRel Kept (renamePage newId page) q) {i j : Nat} {x y : LineManifest}
    (hx : page.lines[i]? = some x) (hy : page.lines[j]? = some y)
    (hlink : forwardPartnerRef x = some (lineRef y)) :
    ∃ x' y', q.lines[i]? = some x' ∧ q.lines[j]? = some y' ∧
      forwardPartnerRef x' = some (lineRef y') := by
  obtain ⟨-, -, hlines⟩ := hq
  have hx₂ : (renamePage newId page).lines[i]? = some (renameLine page.pageId newId x) := by
    simp [renamePage, hx]
  have hy₂ : (renamePage newId page).lines[j]? = some (renameLine page.pageId newId y) := by
    simp [renamePage, hy]
  obtain ⟨x', hx', hkx⟩ := Pointwise.exists_of_getElem? hlines hx₂
  obtain ⟨y', hy', hky⟩ := Pointwise.exists_of_getElem? hlines hy₂
  have hmem : x ∈ page.lines := List.mem_of_getElem? hx
  have hxline : PageLine page.pageId x := by
    by_cases hs : x.substantive = true
    · exact h.joined.line x (List.mem_filter.mpr ⟨hmem, hs⟩)
    · rw [(h.blank x hmem (by simpa using hs)).1] at hlink
      cases hlink
  have hfwd : forwardPartnerRef (renameLine page.pageId newId x)
      = some (lineRef (renameLine page.pageId newId y)) := by
    rw [hxline.forwardPartnerRef_rename, hlink]
    rfl
  refine ⟨x', y', hx', hy', ?_⟩
  rw [hkx.2 (by simp [hfwd]), hfwd, hky.1]

/-- Clean seams lose no in-page link. -/
theorem inPageLinksKept_of_sound (hread : ∀ p ∈ qualifiedPages files, Readable p)
    (hids : ((qualifiedPages files).map Prod.fst).Nodup)
    (hsound : (seamLines ((qualifiedPages files).map (preparedPage policy))).IsChain
      (SoundPair policy)) :
    InPageLinksKept (linkedPages policy files) (linkCrossPageHyphens policy
      ((qualifiedPages files).map (preparedPage policy))) := by
  have hlinked : ∀ page ∈ (qualifiedPages files).map (preparedPage policy), LinkedPage page := by
    intro page hpage
    obtain ⟨p, hp, rfl⟩ := List.mem_map.mp hpage
    exact (hread p hp).linkedPage
  have hnodup : (((qualifiedPages files).map (preparedPage policy)).map
      PageManifest.pageId).Nodup := by
    rw [List.map_map]
    exact hids
  have hkept : List.Forall₂ (PagesRel Kept) ((qualifiedPages files).map (preparedPage policy))
      (linkCrossPageHyphens policy ((qualifiedPages files).map (preparedPage policy))) :=
    forall₂_putBackPages (fun _ _ lm _ _ => Kept.refl lm)
      (forall₂_kept_sewSeams hlinked hnodup hsound)
  have hbefore : linkedPages policy files
      = (qualifiedPages files).map fun p => linkPage policy p.2 := by
    simp [linkedPages, qualifiedPages, List.map_flatMap, Function.comp_def]
  rw [hbefore]
  unfold InPageLinksKept
  rw [List.forall₂_map_left_iff] at hkept ⊢
  refine ((List.forall₂_and_left _ _).mpr ⟨hread, hkept⟩).imp ?_
  rintro p q ⟨hp, hpq⟩ i j x y hx hy hlink
  exact keeps_of_rename (hp.1.linkedPage hp.2) hpq hx hy hlink

/-- **Link symmetry of the built document.**  On a document the pipeline
accepts, all links are mutual and no in-page link is lost exactly when the
seams of the files are clean. -/
theorem linkSymmetric_iff_cleanSeams (hbuild : buildDocumentManifest policy files = .ok doc)
    (hdoor : ensureIdentities doc = .ok ()) :
    LinkSymmetric doc.lines ∧ InPageLinksKept (linkedPages policy files) doc.pages
      ↔ CleanSeams policy files := by
  -- past the door qualified names are distinct, so a reference finds one line
  obtain ⟨hids, hrefs⟩ := distinct_of_door hbuild hdoor
  obtain ⟨hpresent, hpages⟩ := buildDocumentManifest_ok hbuild
  have hread := hpresent.readable
  have hlinked : ∀ page ∈ (qualifiedPages files).map (preparedPage policy), LinkedPage page := by
    intro page hpage
    obtain ⟨p, hp, rfl⟩ := List.mem_map.mp hpage
    exact (hread p hp).linkedPage
  have hnodup : (((qualifiedPages files).map (preparedPage policy)).map
      PageManifest.pageId).Nodup := by
    rw [List.map_map]
    exact hids
  unfold DocumentManifest.lines at hrefs ⊢
  rw [hpages] at hrefs ⊢
  -- on linked pages symmetry is decided at the seams, one for each pair of pages with text
  rw [linkSymmetric_linkCrossPageHyphens_iff hlinked hnodup hrefs, CleanSeams,
    ← isChain_soundPair_iff hread hids]
  exact and_iff_left_of_imp fun hsound => inPageLinksKept_of_sound hread hids hsound

end Main

/-- A word broken over two pages, on files whose only seam is clean. -/
def cleanFiles : List SourceFile :=
  [plainFile "a.xml" [("p1", 0, [("l1", "l'orga-", .part1)]),
    ("p2", 1, [("l2", "nisation", .none)])]]

/-- The document the passes make of a list of files. -/
def builtDocument (policy : PairingPolicy) (files : List SourceFile) : DocumentManifest where
  sourceFiles := files.map SourceFile.name
  pages := linkCrossPageHyphens policy ((qualifiedPages files).map (preparedPage policy))

theorem linkSymmetric_cleanFiles :
    LinkSymmetric (builtDocument .default cleanFiles).lines ∧
      InPageLinksKept (linkedPages .default cleanFiles) (builtDocument .default cleanFiles).pages
      ↔ CleanSeams .default cleanFiles :=
  linkSymmetric_iff_cleanSeams (by decide +kernel) (by decide +kernel)

/-- The same word broken a second time, inside the second page. -/
def chainFiles : List SourceFile :=
  [plainFile "a.xml" [("p1", 0, [("l1", "l'orga-", .part1)]),
    ("p2", 1, [("l2", "nisa-", .part1), ("l3", "tion", .none)])]]

instance (l : List LineManifest) : Decidable (LinkSymmetric l) :=
  inferInstanceAs (Decidable (∀ x ∈ l, ∀ y ∈ l, _ ↔ _))

/-- **The promoted head forgets its own continuation**: `l3` still names
`l2` as the line it continues, and `l2` no longer names `l3`. -/
theorem chainFiles_asymmetric : ∃ doc, buildDocumentManifest .default chainFiles = .ok doc ∧
    ensureIdentities doc = .ok () ∧
    ¬ (LinkSymmetric doc.lines ∧ InPageLinksKept (linkedPages .default chainFiles) doc.pages) := by
  refine ⟨builtDocument .default chainFiles, by decide +kernel, by decide +kernel, fun h => ?_⟩
  exact absurd h.1 (by decide +kernel)

end Saknussemm
