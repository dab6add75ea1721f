import Mathlib.Data.List.Sort
import Saknussemm.Document
import Saknussemm.Library.Dict
import Saknussemm.Library.UnionFind

/-! # Atomic correction units: hyphen groups.

A hyphenated word split across lines is one thing to correct.  The single
derivation of that grouping: the connected components of the pointers,
members in reading order.  A simple pair is a two-member group, a
`part1 → both → part2` chain one three-member group. -/

namespace Saknussemm

/-- A maximal chain of hyphen-linked lines, in reading order. -/
structure HyphenGroup where
  members : List LineRef
  /-- The members do not all live on one page. -/
  spansPages : Bool
  /-- Every link in the group is source-explicit. -/
  explicit : Bool
  /-- Every pointer of every member resolved inside the set the group was
  derived from. -/
  complete : Bool
  deriving DecidableEq

/-- The pointers a line carries: both slots, whatever its role. -/
def pointers (lm : LineManifest) : List LineRef := (pairRef lm).toList ++ (forwardRef lm).toList

/-- Every link this line participates in is source-explicit. -/
def linksExplicit (lm : LineManifest) : Bool :=
  !(truthy lm.hyphenPairLineId && !lm.hyphenSourceExplicit) &&
    !(truthy lm.hyphenForwardPairId && !lm.hyphenForwardExplicit)

/-- The lines by ref. -/
def linesByRef (lines : List LineManifest) : Dict LineRef LineManifest :=
  Dict.ofList (lines.map fun lm => (lineRef lm, lm))

/-- The pointers that resolve among the lines, as pairs to unite. -/
def resolvedLinks (byRef : Dict LineRef LineManifest) : List (LineRef × LineRef) :=
  byRef.flatMap fun (ref, lm) =>
    ((pointers lm).filter (· ∈ byRef.keys)).map fun partner => (ref, partner)

/-- The representative of a line's component. -/
def componentOf (byRef : Dict LineRef LineManifest) (ref : LineRef) : LineRef :=
  let links := resolvedLinks byRef
  (UnionFind.find links.length (UnionFind.unions links.length links) ref).1

/-- The components, in order of their first line. -/
def components (byRef : Dict LineRef LineManifest) : List (List LineRef) :=
  (byRef.keys.map (componentOf byRef)).eraseDups.map fun root =>
    byRef.keys.filter (componentOf byRef · = root)

/-- Where a line comes in the document. -/
def orderOf (byRef : Dict LineRef LineManifest) (ref : LineRef) : Nat :=
  ((byRef.get? ref).map LineManifest.lineOrderGlobal).getD 0

/-- One component of two members or more, as a group. -/
def groupOf (byRef : Dict LineRef LineManifest) (members : List LineRef) : HyphenGroup :=
  let ordered := members.insertionSort fun a b => orderOf byRef a ≤ orderOf byRef b
  { members := ordered
    spansPages := 1 < (ordered.map LineRef.pageId).eraseDups.length
    explicit := ordered.all fun ref => (byRef.get? ref).all linksExplicit
    complete := ordered.all fun ref =>
      (byRef.get? ref).all fun lm => (pointers lm).all (· ∈ byRef.keys) }

/-- Maximal hyphen components over `lines`, in reading order.  Links that
point outside `lines` are ignored. -/
def deriveHyphenGroups (lines : List LineManifest) : List HyphenGroup :=
  let byRef := linesByRef lines
  let groups := ((components byRef).filter (2 ≤ ·.length)).map (groupOf byRef)
  groups.insertionSort fun g h =>
    (g.members.head?.map (orderOf byRef)).getD 0 ≤ (h.members.head?.map (orderOf byRef)).getD 0

/-- The group of a line, if it is in one. -/
def hyphenGroupOf (groups : List HyphenGroup) (ref : LineRef) : Option HyphenGroup :=
  groups.find? (ref ∈ ·.members)

/-- `seeds` plus every line of the pool sharing a hyphen unit with one of
them. -/
def unitsContaining (seeds pool : List LineManifest) : List LineManifest :=
  let seedRefs := seeds.map lineRef
  let groups := deriveHyphenGroups pool
  let wanted := seedRefs ++ seedRefs.flatMap fun ref =>
    ((hyphenGroupOf groups ref).map HyphenGroup.members).getD []
  let byRef := Dict.ofList (seeds.map fun lm => (lineRef lm, lm))
  let byRef := pool.foldl
    (fun d lm => if lineRef lm ∈ Dict.keys d then d else Dict.set d (lineRef lm) lm) byRef
  (byRef.filter fun e => e.1 ∈ wanted).map Prod.snd

/-- Sever the forward link `tail → head`: roles and link fields change,
texts do not.  The source refuses a pair that is not linked; its one
caller looks the head up by the tail's own forward link. -/
def splitForwardLink (tail head : LineManifest) : LineManifest × LineManifest × HyphenSplit :=
  let tail' :=
    if tail.hyphenRole = .both then
      { tail with
        hyphenRole := .part2
        hyphenForwardPairId := none
        hyphenForwardPairPageId := none
        hyphenForwardSubsContent := none }
    else
      { tail with
        hyphenRole := .none
        hyphenPairLineId := none
        hyphenPairPageId := none
        hyphenSubsContent := none }
  let head' :=
    if head.hyphenRole = .both then
      { head with
        hyphenRole := .part1
        hyphenPairLineId := head.hyphenForwardPairId
        hyphenPairPageId := head.hyphenForwardPairPageId
        hyphenSubsContent := head.hyphenForwardSubsContent
        hyphenSourceExplicit := head.hyphenForwardExplicit
        hyphenForwardPairId := none
        hyphenForwardPairPageId := none
        hyphenForwardSubsContent := none }
    else
      { head with
        hyphenRole := .none
        hyphenPairLineId := none
        hyphenPairPageId := none
        hyphenSubsContent := none }
  (tail', head', ⟨tail.pageId, tail.lineId, head.lineId⟩)

/-! ## What a group is

On lines with distinct refs, two lines are in one group exactly when
pointers connect them. -/

/-- One of the slots of a line names another line of the set. -/
def Points (lines : List LineManifest) (x y : LineRef) : Prop :=
  ∃ lm ∈ lines, lineRef lm = x ∧ y ∈ pointers lm ∧ y ∈ lines.map lineRef

/-- Two lines share a hyphen unit. -/
def Connected (lines : List LineManifest) : LineRef → LineRef → Prop :=
  Relation.EqvGen (Points lines)

section Groups

variable {lines : List LineManifest} (hrefs : (lines.map lineRef).Nodup)

include hrefs

theorem linesByRef_eq : linesByRef lines = lines.map fun lm => (lineRef lm, lm) :=
  Dict.ofList_of_nodup (by simpa [Function.comp_def] using hrefs)

theorem keys_linesByRef : (linesByRef lines).keys = lines.map lineRef := by
  rw [linesByRef_eq hrefs]
  simp [Dict.keys, Function.comp_def]

/-- The pairs united are the links that point from one line of the map to
another. -/
theorem listed_resolvedLinks :
    UnionFind.Listed (resolvedLinks (linesByRef lines)) = Points lines := by
  funext x y
  have hkeys : Dict.keys (lines.map fun lm => (lineRef lm, lm)) = lines.map lineRef := by
    simp [Dict.keys, Function.comp_def]
  simp only [UnionFind.Listed, resolvedLinks, linesByRef_eq hrefs, hkeys, Points, eq_iff_iff]
  simp only [List.flatMap_map, List.mem_flatMap, List.mem_map, List.mem_filter,
    decide_eq_true_eq, Prod.mk.injEq]
  constructor
  · rintro ⟨lm, hlm, partner, ⟨hpointer, hmem⟩, rfl, rfl⟩
    exact ⟨lm, hlm, rfl, hpointer, hmem⟩
  · rintro ⟨lm, hlm, rfl, hpointer, hmem⟩
    exact ⟨lm, hlm, y, ⟨hpointer, hmem⟩, rfl, rfl⟩

/-- **Same component, same unit.** -/
theorem componentOf_eq_iff (x y : LineRef) :
    componentOf (linesByRef lines) x = componentOf (linesByRef lines) y ↔ Connected lines x y := by
  unfold componentOf Connected
  rw [← listed_resolvedLinks hrefs]
  exact UnionFind.sameRoot_iff (Nat.le_refl _) x y

/-- The members of a group are one component of at least two lines. -/
theorem mem_deriveHyphenGroups {group : HyphenGroup} (h : group ∈ deriveHyphenGroups lines) :
    ∃ root ∈ lines.map lineRef, 2 ≤ group.members.length ∧ ∀ ref, ref ∈ group.members ↔
      ref ∈ lines.map lineRef ∧ Connected lines root ref := by
  simp only [deriveHyphenGroups, List.mem_insertionSort, List.mem_map, List.mem_filter,
    components, List.mem_eraseDups, decide_eq_true_eq] at h
  obtain ⟨members, ⟨⟨rep, ⟨root, hroot, rfl⟩, rfl⟩, hlen⟩, rfl⟩ := h
  rw [keys_linesByRef hrefs] at hroot hlen ⊢
  refine ⟨root, hroot, by simpa [groupOf, List.length_insertionSort] using hlen, fun ref => ?_⟩
  simp only [groupOf, List.mem_insertionSort, List.mem_filter, decide_eq_true_eq]
  rw [componentOf_eq_iff hrefs]
  exact and_congr_right fun _ => ⟨fun h => h.symm _ _, fun h => h.symm _ _⟩

/-- **A group is closed under connection**, and nothing else is in it. -/
theorem mem_members_iff {group : HyphenGroup} (h : group ∈ deriveHyphenGroups lines)
    {x y : LineRef} (hx : x ∈ group.members) :
    y ∈ group.members ↔ y ∈ lines.map lineRef ∧ Connected lines x y := by
  obtain ⟨root, -, -, hmem⟩ := mem_deriveHyphenGroups hrefs h
  have hrx := ((hmem x).mp hx).2
  rw [hmem y]
  exact and_congr_right fun _ =>
    ⟨fun hy => (hrx.symm _ _).trans _ _ _ hy, fun hy => hrx.trans _ _ _ hy⟩

/-- Two connected lines are members of some group. -/
theorem exists_group {x y : LineRef} (hx : x ∈ lines.map lineRef) (hy : y ∈ lines.map lineRef)
    (hne : x ≠ y) (hxy : Connected lines x y) : ∃ group ∈ deriveHyphenGroups lines,
      x ∈ group.members ∧ y ∈ group.members := by
  have hkeys := keys_linesByRef hrefs
  let members := (linesByRef lines).keys.filter
    (componentOf (linesByRef lines) · = componentOf (linesByRef lines) x)
  have hxm : x ∈ members := by simp [members, hkeys, List.mem_map.mp hx]
  have hym : y ∈ members := by
    have := (componentOf_eq_iff hrefs y x).mpr (hxy.symm _ _)
    simp [members, hkeys, List.mem_map.mp hy, this]
  have hlen : 2 ≤ members.length := by
    by_contra hlt
    have hsub : members.length ≤ 1 := by omega
    rcases hm : members with _ | ⟨a, _ | ⟨b, rest⟩⟩
    · simp [hm] at hxm
    · rw [hm, List.mem_singleton] at hxm hym
      exact hne (hxm.trans hym.symm)
    · simp [hm] at hsub
  refine ⟨groupOf (linesByRef lines) members, ?_, ?_, ?_⟩
  · simp only [deriveHyphenGroups, List.mem_insertionSort, List.mem_map, List.mem_filter,
      components, List.mem_eraseDups, decide_eq_true_eq]
    exact ⟨members, ⟨⟨_, ⟨x, hkeys ▸ hx, rfl⟩, rfl⟩, hlen⟩, rfl⟩
  · simpa [groupOf, List.mem_insertionSort] using hxm
  · simpa [groupOf, List.mem_insertionSort] using hym

/-- The group of a line holds the lines of the set connected to it. -/
theorem mem_hyphenGroupOf_iff {seed ref : LineRef} (hne : seed ≠ ref) :
    ref ∈ ((hyphenGroupOf (deriveHyphenGroups lines) seed).map HyphenGroup.members).getD [] ↔
      seed ∈ lines.map lineRef ∧ ref ∈ lines.map lineRef ∧ Connected lines seed ref := by
  constructor
  · cases hfind : hyphenGroupOf (deriveHyphenGroups lines) seed with
    | none => simp
    | some group =>
      intro href
      have hgroup := List.mem_of_find?_eq_some hfind
      have hseed : seed ∈ group.members := by simpa using List.find?_some hfind
      exact ⟨((mem_members_iff hrefs hgroup hseed).mp hseed).1,
        (mem_members_iff hrefs hgroup hseed).mp href⟩
  · rintro ⟨hseed, href, hconnected⟩
    obtain ⟨group, hgroup, hseedIn, hrefIn⟩ := exists_group hrefs hseed href hne hconnected
    cases hfind : hyphenGroupOf (deriveHyphenGroups lines) seed with
    | none =>
      have := List.find?_eq_none.mp hfind group hgroup
      simp [hseedIn] at this
    | some found =>
      have hfound := List.mem_of_find?_eq_some hfind
      have hseed' : seed ∈ found.members := by simpa using List.find?_some hfind
      exact (mem_members_iff hrefs hfound hseed').mpr ⟨href, hconnected⟩

omit hrefs in
/-- A pool adds the lines whose refs are new. -/
theorem pooled_spec (pool : List LineManifest) {d : Dict LineRef LineManifest}
    (hnodup : (Dict.keys d).Nodup) (hvalue : ∀ e ∈ d, lineRef e.2 = e.1) :
    let pooled := pool.foldl
      (fun d lm => if lineRef lm ∈ Dict.keys d then d else Dict.set d (lineRef lm) lm) d
    (∀ ref, ref ∈ Dict.keys pooled ↔ ref ∈ Dict.keys d ∨ ref ∈ pool.map lineRef) ∧
      (Dict.keys pooled).Nodup ∧ (∀ e ∈ pooled, lineRef e.2 = e.1) ∧
      ∀ e ∈ pooled, e ∈ d ∨ e.2 ∈ pool := by
  -- induction on the pool: the first line met under a reference stays
  induction pool generalizing d with
  | nil => exact ⟨by simp, hnodup, hvalue, fun e he => .inl he⟩
  | cons lm pool ih =>
    rw [List.foldl_cons]
    by_cases hmem : lineRef lm ∈ Dict.keys d
    · rw [if_pos hmem]
      obtain ⟨hkeys, hnodup', hvalue', hfrom⟩ := ih hnodup hvalue
      refine ⟨fun ref => ?_, hnodup', hvalue', fun e he => ?_⟩
      · rw [hkeys ref, List.map_cons, List.mem_cons]
        constructor
        · rintro (hd | hpool)
          · exact .inl hd
          · exact .inr (.inr hpool)
        · rintro (hd | rfl | hpool)
          · exact .inl hd
          · exact .inl hmem
          · exact .inr hpool
      · exact (hfrom e he).imp_right (List.mem_cons_of_mem _)
    · rw [if_neg hmem]
      have hset : ∀ e ∈ Dict.set d (lineRef lm) lm, lineRef e.2 = e.1 := by
        intro e he
        rcases Dict.mem_of_mem_set he with rfl | he
        · rfl
        · exact hvalue e he
      obtain ⟨hkeys, hnodup', hvalue', hfrom⟩ := ih (Dict.nodup_keys_set hnodup _ _) hset
      refine ⟨fun ref => ?_, hnodup', hvalue', fun e he => ?_⟩
      · rw [hkeys ref, Dict.mem_keys_set, List.map_cons, List.mem_cons]
        grind
      · rcases hfrom e he with hin | hpool
        · rcases Dict.mem_of_mem_set hin with rfl | hin
          · exact .inr List.mem_cons_self
          · exact .inl hin
        · exact .inr (List.mem_cons_of_mem _ hpool)

omit hrefs in
/-- The seeds and the pool by ref: each ref once, with its own line. -/
theorem seeded_spec (seeds pool : List LineManifest) :
    let pooled := pool.foldl
      (fun d lm => if lineRef lm ∈ Dict.keys d then d else Dict.set d (lineRef lm) lm)
      (Dict.ofList (seeds.map fun lm => (lineRef lm, lm)))
    (∀ ref, ref ∈ Dict.keys pooled ↔ ref ∈ seeds.map lineRef ∨ ref ∈ pool.map lineRef) ∧
      (Dict.keys pooled).Nodup ∧ (∀ e ∈ pooled, lineRef e.2 = e.1) ∧
      ∀ e ∈ pooled, e.2 ∈ seeds ∨ e.2 ∈ pool := by
  have hstart : ∀ ref, ref ∈ Dict.keys (Dict.ofList (seeds.map fun lm => (lineRef lm, lm))) ↔
      ref ∈ seeds.map lineRef := by
    intro ref
    rw [Dict.mem_keys_ofList, List.map_map]
    rfl
  have hseed : ∀ e ∈ Dict.ofList (seeds.map fun lm => (lineRef lm, lm)),
      lineRef e.2 = e.1 ∧ e.2 ∈ seeds := by
    intro e he
    obtain ⟨lm, hlm, rfl⟩ := List.mem_map.mp (Dict.mem_of_mem_ofList he)
    exact ⟨rfl, hlm⟩
  obtain ⟨hkeys, hnodup, hvalue, hfrom⟩ := pooled_spec pool (Dict.nodup_keys_ofList _)
    fun e he => (hseed e he).1
  refine ⟨fun ref => ?_, hnodup, hvalue, fun e he => ?_⟩
  · rw [hkeys ref, hstart ref]
  · exact (hfrom e he).imp_left fun hin => (hseed e hin).2

/-- **The seeds, and what shares a unit with one of them.** -/
theorem mem_unitsContaining_iff {seeds : List LineManifest} {ref : LineRef} :
    ref ∈ (unitsContaining seeds lines).map lineRef ↔ ref ∈ seeds.map lineRef ∨
      ref ∈ lines.map lineRef ∧
        ∃ seed ∈ seeds.map lineRef, seed ∈ lines.map lineRef ∧ Connected lines seed ref := by
  let pooled := lines.foldl
    (fun d lm => if lineRef lm ∈ Dict.keys d then d else Dict.set d (lineRef lm) lm)
    (Dict.ofList (seeds.map fun lm => (lineRef lm, lm)))
  obtain ⟨hkeys, -, hvalue, -⟩ := seeded_spec seeds lines
  -- the pool is filtered by the seeds and the members of their groups
  let wanted := seeds.map lineRef ++ (seeds.map lineRef).flatMap fun seed =>
    ((hyphenGroupOf (deriveHyphenGroups lines) seed).map HyphenGroup.members).getD []
  show ref ∈ ((pooled.filter fun e => e.1 ∈ wanted).map Prod.snd).map lineRef ↔ _
  have hmem : ref ∈ ((pooled.filter fun e => e.1 ∈ wanted).map Prod.snd).map lineRef ↔
      (ref ∈ seeds.map lineRef ∨ ref ∈ lines.map lineRef) ∧ ref ∈ wanted := by
    rw [← hkeys ref, List.map_map]
    constructor
    · intro href
      obtain ⟨e, he, rfl⟩ := List.mem_map.mp href
      obtain ⟨hin, hwanted⟩ := List.mem_filter.mp he
      rw [Function.comp_apply, hvalue e hin]
      exact ⟨List.mem_map_of_mem hin, of_decide_eq_true hwanted⟩
    · rintro ⟨hkey, hwanted⟩
      obtain ⟨e, he, rfl⟩ := List.mem_map.mp hkey
      exact List.mem_map.mpr
        ⟨e, List.mem_filter.mpr ⟨he, decide_eq_true hwanted⟩, hvalue e he⟩
  rw [hmem, List.mem_append, List.mem_flatMap]
  constructor
  · rintro ⟨-, hseed | ⟨seed, hseed, href⟩⟩
    · exact .inl hseed
    · by_cases hne : seed = ref
      · exact .inl (hne ▸ hseed)
      · obtain ⟨hseedIn, hrefIn, hconnected⟩ := (mem_hyphenGroupOf_iff hrefs hne).mp href
        exact .inr ⟨hrefIn, seed, hseed, hseedIn, hconnected⟩
  · rintro (hseed | ⟨hrefIn, seed, hseed, hseedIn, hconnected⟩)
    · exact ⟨.inl hseed, .inl hseed⟩
    · refine ⟨.inr hrefIn, ?_⟩
      by_cases hne : seed = ref
      · exact .inl (hne ▸ hseed)
      · exact .inr ⟨seed, hseed, (mem_hyphenGroupOf_iff hrefs hne).mpr
          ⟨hseedIn, hrefIn, hconnected⟩⟩

/-! ## The groups of a list of lines -/

omit hrefs in
/-- A unit lists each reference once. -/
theorem nodup_map_unitsContaining (seeds pool : List LineManifest) :
    ((unitsContaining seeds pool).map lineRef).Nodup := by
  obtain ⟨-, hnodup, hvalue, -⟩ := seeded_spec seeds pool
  unfold unitsContaining
  dsimp only at hnodup hvalue ⊢
  generalize pool.foldl _ _ = pooled at hnodup hvalue ⊢
  have hkeys : ∀ entries : List (LineRef × LineManifest), entries ⊆ pooled →
      (entries.map Prod.snd).map lineRef = entries.map Prod.fst := by
    intro entries hentries
    rw [List.map_map]
    exact List.map_congr_left fun e he => hvalue e (hentries he)
  rw [hkeys _ List.filter_sublist.subset]
  exact hnodup.sublist (List.filter_sublist.map _)

omit hrefs in
theorem mem_of_mem_unitsContaining {seeds pool : List LineManifest} {lm : LineManifest}
    (h : lm ∈ unitsContaining seeds pool) : lm ∈ seeds ∨ lm ∈ pool := by
  obtain ⟨-, -, -, hfrom⟩ := seeded_spec seeds pool
  obtain ⟨e, he, rfl⟩ := List.mem_map.mp h
  exact hfrom e (List.mem_of_mem_filter he)

omit hrefs in
/-- A group lists its component in reading order. -/
theorem perm_groupOf (byRef : Dict LineRef LineManifest) (members : List LineRef) :
    (groupOf byRef members).members.Perm members :=
  List.perm_insertionSort _ _

omit hrefs in
theorem pairwise_members_groupOf (byRef : Dict LineRef LineManifest) (members : List LineRef) :
    (groupOf byRef members).members.Pairwise fun x y => orderOf byRef x ≤ orderOf byRef y := by
  have : Std.Total fun x y : LineRef => orderOf byRef x ≤ orderOf byRef y :=
    ⟨fun x y => Nat.le_total _ _⟩
  have : IsTrans LineRef fun x y => orderOf byRef x ≤ orderOf byRef y :=
    ⟨fun x y z => Nat.le_trans⟩
  exact List.pairwise_insertionSort _ _

/-- A derived group is made of one component. -/
theorem exists_component {group : HyphenGroup} (h : group ∈ deriveHyphenGroups lines) :
    ∃ members : List LineRef, members.Sublist (lines.map lineRef) ∧
      group = groupOf (linesByRef lines) members := by
  simp only [deriveHyphenGroups, List.mem_insertionSort, List.mem_map, List.mem_filter,
    components] at h
  obtain ⟨members, ⟨⟨rep, -, rfl⟩, -⟩, rfl⟩ := h
  refine ⟨_, ?_, rfl⟩
  rw [keys_linesByRef hrefs]
  exact List.filter_sublist

theorem get?_linesByRef {lm : LineManifest} (hlm : lm ∈ lines) :
    (linesByRef lines).get? (lineRef lm) = some lm := by
  refine Dict.get?_of_mem ?_ ?_
  · rw [keys_linesByRef hrefs]
    exact hrefs
  · rw [linesByRef_eq hrefs]
    exact List.mem_map_of_mem hlm

omit hrefs in
/-- No line is in two groups. -/
theorem pairwise_disjoint_deriveHyphenGroups :
    (deriveHyphenGroups lines).Pairwise fun g h => g.members.Disjoint h.members := by
  have hcomponents : (components (linesByRef lines)).Pairwise List.Disjoint := by
    unfold components
    rw [List.pairwise_map]
    refine (Dict.nodup_eraseDups _).imp fun hne => ?_
    intro x hx hx'
    exact hne ((of_decide_eq_true (List.mem_filter.mp hx).2).symm.trans
      (of_decide_eq_true (List.mem_filter.mp hx').2))
  have hgroups : (((components (linesByRef lines)).filter (2 ≤ ·.length)).map
      (groupOf (linesByRef lines))).Pairwise fun g h => g.members.Disjoint h.members := by
    rw [List.pairwise_map]
    refine (hcomponents.sublist List.filter_sublist).imp fun {members members'} hdisjoint => ?_
    intro x hx hx'
    exact hdisjoint ((perm_groupOf _ members).mem_iff.mp hx)
      ((perm_groupOf _ members').mem_iff.mp hx')
  have hsymm : ∀ {g h : HyphenGroup}, g.members.Disjoint h.members →
      h.members.Disjoint g.members := by
    intro g h hdisjoint x hx hx'
    exact hdisjoint hx' hx
  refine (List.Perm.pairwise_iff hsymm ?_).mpr hgroups
  exact List.perm_insertionSort _ _

/-- The connected components of the lines of a list, two lines or more each. -/
structure AreComponents (lines : List LineManifest) (groups : List HyphenGroup) : Prop where
  /-- A group is a component. -/
  component : ∀ group ∈ groups, 2 ≤ group.members.length ∧ group.members.Nodup ∧
    ∀ x ∈ group.members, ∀ y,
      y ∈ group.members ↔ y ∈ lines.map lineRef ∧ Connected lines x y
  /-- Every component is a group. -/
  all : ∀ x ∈ lines.map lineRef, ∀ y ∈ lines.map lineRef, x ≠ y → Connected lines x y →
    ∃ group ∈ groups, x ∈ group.members ∧ y ∈ group.members
  once : groups.Pairwise fun g h => g.members.Disjoint h.members
  inOrder : ∀ group ∈ groups, group.members.Pairwise fun x y => ∀ a ∈ lines, ∀ b ∈ lines,
    lineRef a = x → lineRef b = y → a.lineOrderGlobal ≤ b.lineOrderGlobal
  /-- A group is complete when no pointer of its lines leaves the list. -/
  complete : ∀ group ∈ groups, group.complete = true ↔
    ∀ lm ∈ lines, lineRef lm ∈ group.members → ∀ y ∈ pointers lm, y ∈ lines.map lineRef

/-- **Hyphen groups are the connected components** of the pointers among the
lines, and the units of some lines are these lines and their groups. -/
theorem areComponents_deriveHyphenGroups :
    AreComponents lines (deriveHyphenGroups lines) ∧ ∀ seeds : List LineManifest,
      ((unitsContaining seeds lines).map lineRef).Nodup ∧
      (∀ lm ∈ unitsContaining seeds lines, lm ∈ seeds ∨ lm ∈ lines) ∧
      ∀ ref, ref ∈ (unitsContaining seeds lines).map lineRef ↔ ref ∈ seeds.map lineRef ∨
        ∃ group ∈ deriveHyphenGroups lines, ref ∈ group.members ∧
          ∃ seed ∈ seeds.map lineRef, seed ∈ group.members := by
  refine ⟨⟨fun group hgroup => ?component, fun x hx y hy => exists_group hrefs hx hy,
    pairwise_disjoint_deriveHyphenGroups, fun group hgroup => ?inOrder,
    fun group hgroup => ?complete⟩, fun seeds => ⟨nodup_map_unitsContaining seeds lines,
    fun lm => mem_of_mem_unitsContaining, fun ref => ?units⟩⟩
  -- two members of one group share a root, and sharing a root is being connected
  case component =>
    obtain ⟨root, -, hlength, -⟩ := mem_deriveHyphenGroups hrefs hgroup
    obtain ⟨members, hsublist, rfl⟩ := exists_component hrefs hgroup
    exact ⟨hlength, (perm_groupOf _ _).nodup_iff.mpr (hrefs.sublist hsublist),
      fun x hx y => mem_members_iff hrefs hgroup hx⟩
  -- the group was sorted by document order, and sorting leaves its members
  case inOrder =>
    obtain ⟨members, -, rfl⟩ := exists_component hrefs hgroup
    refine (pairwise_members_groupOf _ _).imp fun {x y} hxy a ha b hb hax hby => ?_
    subst hax hby
    simpa [orderOf, get?_linesByRef hrefs ha, get?_linesByRef hrefs hb] using hxy
  -- `complete` is read off the links of the members, each of which is a line of the map
  case complete =>
    obtain ⟨members, hsublist, rfl⟩ := exists_component hrefs hgroup
    have hmembers : ∀ ref ∈ (groupOf (linesByRef lines) members).members, ref ∈ lines.map lineRef :=
      fun ref href => hsublist.subset ((perm_groupOf _ _).mem_iff.mp href)
    show ((groupOf (linesByRef lines) members).members.all _) = true ↔ _
    rw [List.all_eq_true]
    constructor
    · intro hall lm hlm hmem y hy
      have := hall _ hmem
      rw [get?_linesByRef hrefs hlm, Option.all_some, List.all_eq_true] at this
      have := of_decide_eq_true (this y hy)
      rwa [keys_linesByRef hrefs] at this
    · intro hall ref href
      obtain ⟨lm, hlm, rfl⟩ := List.mem_map.mp (hmembers ref href)
      rw [get?_linesByRef hrefs hlm, Option.all_some, List.all_eq_true]
      intro y hy
      rw [keys_linesByRef hrefs]
      exact decide_eq_true (hall lm hlm href y hy)
  -- a unit is its seeds with the groups the seeds are in
  case units =>
    rw [mem_unitsContaining_iff hrefs]
    constructor
    · rintro (hseed | ⟨href, seed, hseed, hseedIn, hconnected⟩)
      · exact .inl hseed
      · by_cases hne : seed = ref
        · exact .inl (hne ▸ hseed)
        · obtain ⟨group, hgroup, hin, hin'⟩ := exists_group hrefs hseedIn href hne hconnected
          exact .inr ⟨group, hgroup, hin', seed, hseed, hin⟩
    · rintro (hseed | ⟨group, hgroup, href, seed, hseed, hin⟩)
      · exact .inl hseed
      · obtain ⟨hrefIn, hconnected⟩ := (mem_members_iff hrefs hgroup hin).mp href
        exact .inr ⟨hrefIn, seed, hseed, ((mem_members_iff hrefs hgroup hin).mp hin).1, hconnected⟩

end Groups

/-- A broken word over two lines, and the line after. -/
def brokenWord : List LineManifest :=
  [{ plainLine "p".toList 0 "a" "le por-" .part1 with
      hyphenPairLineId := some "b".toList
      hyphenPairPageId := some "p".toList },
    { plainLine "p".toList 1 "b" "tail" .part2 with
      hyphenPairLineId := some "a".toList
      hyphenPairPageId := some "p".toList },
    plainLine "p".toList 2 "c" "du roi" .none]

theorem areComponents_brokenWord : AreComponents brokenWord (deriveHyphenGroups brokenWord) :=
  (areComponents_deriveHyphenGroups (by decide)).1

end Saknussemm
