import Saknussemm.Linking.Build
import Saknussemm.Run.Phases

/-! # Links that cross to another page.

Only the cross-page pass makes them, and both lines of such a link have a
role from then on, sound seam or not. -/

namespace Saknussemm

open Sweep

/-- The lines of other pages a line names, in either slot. -/
def crossings (lm : LineManifest) : List LineRef :=
  [(lm.hyphenPairLineId, lm.hyphenPairPageId),
    (lm.hyphenForwardPairId, lm.hyphenForwardPairPageId)].filterMap fun
    | (some (c :: cs), some (p :: ps)) =>
      if p :: ps = lm.pageId then none else some ⟨p :: ps, c :: cs⟩
    | _ => none

/-- The line a slot names on another page. -/
def crossing (own : Str) : Option Str × Option Str → Option LineRef
  | (some (c :: cs), some (p :: ps)) => if p :: ps = own then none else some ⟨p :: ps, c :: cs⟩
  | _ => none

theorem mem_crossings {lm : LineManifest} {ref : LineRef} : ref ∈ crossings lm ↔
    crossing lm.pageId (lm.hyphenPairLineId, lm.hyphenPairPageId) = some ref ∨
      crossing lm.pageId (lm.hyphenForwardPairId, lm.hyphenForwardPairPageId) = some ref := by
  have hsame : crossings lm = [(lm.hyphenPairLineId, lm.hyphenPairPageId),
      (lm.hyphenForwardPairId, lm.hyphenForwardPairPageId)].filterMap (crossing lm.pageId) := by
    rw [crossings]
    congr 1
  rw [hsame, List.mem_filterMap]
  simp

theorem crossing_eq_some {own id page : Str} {ref : LineRef}
    (h : crossing own (some id, some page) = some ref) : ref = ⟨page, id⟩ := by
  rcases id with _ | ⟨c, cs⟩
  · cases h
  · rcases page with _ | ⟨p, ps⟩
    · cases h
    · simp only [crossing] at h
      split at h
      · cases h
      · exact (Option.some_inj.mp h).symm

section Sewing

variable {policy : PairingPolicy} {x y : LineManifest} {ref : LineRef}

/-- Linking two lines lets them name each other, and gives both a role. -/
theorem mem_crossings_linkPair_fst (h : ref ∈ crossings (linkPair policy x y).1) :
    ref ∈ crossings x ∨ ref = lineRef y ∧ (linkPair policy x y).2.hyphenRole ≠ .none := by
  by_cases hlinks : links policy x y = true
  · have hrole : (linkPair policy x y).2.hyphenRole ≠ .none := by
      rw [linkPair_snd_hyphenRole hlinks]
      split <;> simp
    rw [linkPair_of_links hlinks] at h
    rw [mem_crossings] at h ⊢
    unfold joinPair at h
    split at h
    · rcases h with h | h
      · exact .inl (.inl h)
      · exact .inr ⟨by simpa [lineRef] using crossing_eq_some h, hrole⟩
    · rcases h with h | h
      · exact .inr ⟨by simpa [lineRef] using crossing_eq_some h, hrole⟩
      · exact .inl (.inr h)
  · rw [linkPair_of_not_links (by simpa using hlinks)] at h
    exact .inl h

/-- The head of a pair names its own partner, or the tail when the tail has a
role. -/
theorem mem_crossings_linkPair_snd (h : ref ∈ crossings (linkPair policy x y).2) :
    ref ∈ crossings y ∨ ref = lineRef x ∧ (linkPair policy x y).1.hyphenRole ≠ .none := by
  by_cases hlinks : links policy x y = true
  · have hrole : (linkPair policy x y).1.hyphenRole ≠ .none := by
      rw [linkPair_fst_hyphenRole]
      intro hnone
      rw [links, opensForward, hnone] at hlinks
      simp at hlinks
    rw [linkPair_of_links hlinks] at h
    rw [mem_crossings] at h ⊢
    unfold joinPair at h
    split at h
    all_goals
      rcases h with h | h
      · exact .inr ⟨by simpa [lineRef] using crossing_eq_some h, hrole⟩
      · refine .inl (.inr ?_)
        simpa using h
  · rw [linkPair_of_not_links (by simpa using hlinks)] at h
    exact .inl h

theorem sewStep_cases (x y : SeamLine) :
    ((sewStep policy x y).1.line = x.line ∧ (sewStep policy x y).2.line = y.line) ∨
      (sewStep policy x y).1.line = (linkPair policy x.line y.line).1 ∧
        (sewStep policy x y).2.line = (linkPair policy x.line y.line).2 := by
  unfold sewStep sewSeam
  split
  · split
    · exact .inr ⟨rfl, rfl⟩
    · exact .inl ⟨rfl, rfl⟩
  · exact .inl ⟨rfl, rfl⟩

/-- **What a sewn line names on another page has a role.** -/
theorem role_of_mem_crossings_sewSeams {lines : List SeamLine}
    (hlines : ∀ u ∈ lines, crossings u.line = []) {z : LineManifest}
    (hz : z ∈ sewSeams policy lines) (href : ref ∈ crossings z) :
    ∃ w ∈ sewSeams policy lines, lineRef w = ref ∧ w.hyphenRole ≠ .none := by
  cases lines with
  | nil => cases hz
  | cons first rest =>
    obtain ⟨u, hu, rfl⟩ := List.mem_map.mp hz
    -- a join names its two ends and gives both a role, which no later join takes away
    have hsweep := @sweep_names _ _ (sewStep policy) (fun u => lineRef u.line)
      (fun u k => k ∈ crossings u.line) (fun u => u.line.hyphenRole ≠ .none)
      (fun _ _ => sewStep_fst_ref) (fun _ _ => sewStep_snd_ref)
      (fun x y hx => ?_) (fun x y k hk => ?_) (fun x y k hk => ?_) (fun _ => False) first rest
      (fun k hk => ?_) (fun y hy k hk => ?_) u hu ref href
    · obtain ⟨w, hw, hkey, hrole⟩ := hsweep.resolve_left id
      exact ⟨w.line, List.mem_map_of_mem hw, hkey, hrole⟩
    · rcases @sewStep_cases policy x y with ⟨h, -⟩ | ⟨h, -⟩
      · rwa [h]
      · rwa [h, linkPair_fst_hyphenRole]
    · rcases @sewStep_cases policy x y with ⟨h1, h2⟩ | ⟨h1, h2⟩
      · exact .inl (h1 ▸ hk)
      · rw [h1] at hk
        rw [h2]
        exact mem_crossings_linkPair_fst hk
    · rcases @sewStep_cases policy x y with ⟨h1, h2⟩ | ⟨h1, h2⟩
      · exact .inl (h2 ▸ hk)
      · rw [h2] at hk
        rw [h1]
        exact mem_crossings_linkPair_snd hk
    · rw [hlines first (by simp)] at hk
      cases hk
    · rw [hlines y (by simp [hy])] at hk
      cases hk

end Sewing

/-! ## Before the pass -/

theorem crossing_none (own : Str) (page : Option Str) : crossing own (none, page) = none := rfl

theorem crossing_own (id : Option Str) (own : Str) : crossing own (id, some own) = none := by
  rcases id with _ | _ | ⟨c, cs⟩
  · rfl
  · rfl
  · rcases own with _ | ⟨p, ps⟩
    · rfl
    · simp [crossing]

/-- A line whose slots are local names no line of another page. -/
theorem SlotsLocal.crossings_eq {lm : LineManifest} (h : SlotsLocal lm) : crossings lm = [] := by
  refine List.eq_nil_iff_forall_not_mem.mpr fun ref href => ?_
  rw [mem_crossings] at href
  rcases href with href | href
  · by_cases hnone : lm.hyphenPairLineId = none
    · rw [hnone, crossing_none] at href
      cases href
    · rw [h.pair hnone, crossing_own] at href
      cases href
  · by_cases hnone : lm.hyphenForwardPairId = none
    · rw [hnone, crossing_none] at href
      cases href
    · rw [h.forward hnone, crossing_own] at href
      cases href

section Built

variable {policy : PairingPolicy} {files : List SourceFile} {document : DocumentManifest}

/-- The lines of a prepared page name lines of their page only. -/
theorem crossings_preparedPage {page : Str × PageManifest} (hread : Readable page)
    {lm : LineManifest} (hlm : lm ∈ (preparedPage policy page).lines) : crossings lm = [] := by
  obtain ⟨w, hw, rfl⟩ := List.mem_map.mp hlm
  have hline : PageLine page.2.pageId w := by
    rcases mem_linkPage hw with hparsed | hlinked
    · exact (hread.1.unlinkedLine hread.2 hparsed).openTail.pageLine
    · exact (hread.1.linkedPage hread.2).joined.line w hlinked
  exact hline.rename.onPage.crossings_eq

/-- **In a built document every link that crosses names a line with a role.** -/
theorem role_of_mem_crossings (hbuild : buildDocumentManifest policy files = .ok document)
    {lm : LineManifest} (hlm : lm ∈ document.lines) {ref : LineRef} (href : ref ∈ crossings lm) :
    ∃ w ∈ document.lines, lineRef w = ref ∧ w.hyphenRole ≠ .none := by
  obtain ⟨hpresent, hpages⟩ := buildDocumentManifest_ok hbuild
  have hread := hpresent.readable
  let prepared := (qualifiedPages files).map (preparedPage policy)
  have hnone : ∀ page ∈ prepared, ∀ lm ∈ page.lines, crossings lm = [] := by
    intro page hpage lm hlm
    obtain ⟨p, hp, rfl⟩ := List.mem_map.mp hpage
    exact crossings_preparedPage (hread p hp) hlm
  obtain ⟨page, hpage, hin⟩ := List.mem_flatMap.mp hlm
  rw [hpages] at hpage
  by_cases hsub : lm.substantive = true
  · have hsewn : lm ∈ sewSeams policy (seamLines prepared) := by
      rw [← flatMap_substantive_linkCrossPageHyphens]
      exact List.mem_flatMap.mpr ⟨page, hpage, List.mem_filter.mpr ⟨hin, hsub⟩⟩
    have hseam : ∀ u ∈ seamLines prepared, crossings u.line = [] := by
      intro u hu
      have hline : u.line ∈ prepared.flatMap substantive := by
        rw [← map_line_seamLines]
        exact List.mem_map_of_mem hu
      obtain ⟨q, hq, hmem⟩ := List.mem_flatMap.mp hline
      exact hnone q hq u.line (List.mem_filter.mp hmem).1
    obtain ⟨w, hw, hwref, hrole⟩ := role_of_mem_crossings_sewSeams hseam hsewn href
    rw [← flatMap_substantive_linkCrossPageHyphens] at hw
    obtain ⟨q, hq, hmem⟩ := List.mem_flatMap.mp hw
    exact ⟨w, List.mem_flatMap.mpr ⟨q, hpages ▸ hq, (List.mem_filter.mp hmem).1⟩, hwref, hrole⟩
  · obtain ⟨q, hq, hmem⟩ := mem_of_mem_putBackPages substantive_sewSeams hpage hin
      (by simpa using hsub)
    rw [hnone q hq lm hmem] at href
    cases href

/-- Past the door a built document is one a run can rely on. -/
theorem built_identified (hbuild : buildDocumentManifest policy files = .ok document)
    (hdoor : ensureIdentities document = .ok ()) : document.Identified := by
  obtain ⟨hpresent, hpages⟩ := buildDocumentManifest_ok hbuild
  have hread := hpresent.readable
  refine ⟨fun page hpage lm hlm => ?_, ?_⟩
  · have hkeep : List.Forall₂ (PagesRel fun x y => lineRef y = lineRef x)
        ((qualifiedPages files).map (preparedPage policy)) document.pages :=
      hpages ▸ forall₂_linkCrossPageHyphens
    obtain ⟨before, hbefore, hid, -, hlines⟩ := Pointwise.exists_of_mem_right hkeep hpage
    obtain ⟨p, hp, rfl⟩ := List.mem_map.mp hbefore
    obtain ⟨old, hold, href⟩ := Pointwise.exists_of_mem_right hlines hlm
    have holdPage := (hread p hp).linkedPage.line_page old hold
    rw [hid, ← holdPage]
    exact congrArg LineRef.pageId href
  · have hnodup := (distinct_of_door hbuild hdoor).2
    have hrefs : document.refs = document.lines.map lineRef := by
      rw [DocumentManifest.refs, DocumentManifest.lines, List.map_flatMap]
      rfl
    rwa [hrefs]

/-- A document built and let through the door has roles at both ends of a
crossing. -/
theorem built_crossingsRoled (hbuild : buildDocumentManifest policy files = .ok document)
    (hdoor : ensureIdentities document = .ok ()) : document.CrossingsRoled := by
  have hdoc := built_identified hbuild hdoor
  intro page hpage ref href
  have hslot := (List.mem_filter.mp (List.mem_eraseDups.mp href)).1
  obtain ⟨slot, hslots, hnamed⟩ := List.mem_filterMap.mp hslot
  obtain ⟨lm, hlm, hin⟩ := List.mem_flatMap.mp hslots
  obtain ⟨r, hr, rfl⟩ := List.mem_map.mp hlm
  have hown : (document.heap r).pageId = page.pageId := by
    have hr' : (document.heap r).pageId = r.pageId :=
      congrArg LineRef.pageId (addressed_heap document r)
    rw [hr', hdoc.pageId_of_mem_refs hpage hr]
  -- the slot crosses the page, so the line names a partner that has a role
  have hcrossing : crossing (document.heap r).pageId slot = some ref := by
    rw [hown]
    exact hnamed
  have hmem : ref ∈ crossings (document.heap r) := by
    rw [mem_crossings]
    simp only [List.mem_cons, List.not_mem_nil, or_false] at hin
    rcases hin with rfl | rfl
    · exact .inl hcrossing
    · exact .inr hcrossing
  have hline : document.heap r ∈ document.lines :=
    mem_lines_of_mem_refs (List.mem_flatMap.mpr ⟨page, hpage, hr⟩)
  obtain ⟨w, hw, hwref, hrole⟩ := role_of_mem_crossings hbuild hline hmem
  -- references are distinct, so looking the partner up finds that very line
  have hfound : document.heap ref = w := by
    have hnodup := (distinct_of_door hbuild hdoor).2
    rw [DocumentManifest.heap]
    cases hfind : document.lines.find? (lineRef · = ref) with
    | none => exact absurd (List.find?_eq_none.mp hfind w hw) (by simp [hwref])
    | some found =>
      have hfoundRef : lineRef found = ref := by simpa using List.find?_some hfind
      exact List.inj_on_of_nodup_map hnodup (List.mem_of_find?_eq_some hfind) hw
        (hfoundRef.trans hwref.symm)
  rwa [hfound]

end Built

end Saknussemm
