import Saknussemm.Planning.Links
import Saknussemm.Planning.Windows

/-! # Which window a line is a target of.

A line is a target of the last window it is in, unless one window holds
its whole hyphen unit, and then of the last that does.  A window holds its
core, and what the links of the lines it holds draw in up to its line cap. -/

namespace Saknussemm

/-! ## The last entry of a range -/

theorem getLast?_filter_range {n j : Nat} {p : Nat → Bool} (hj : j < n) (hpj : p j = true)
    (hlast : ∀ i, j < i → i < n → p i = false) : ((List.range n).filter p).getLast? = some j := by
  induction n with
  | zero => omega
  | succ n ih =>
    rw [List.range_succ, List.filter_append, List.getLast?_append]
    rcases Nat.lt_succ_iff_lt_or_eq.mp hj with hlt | rfl
    · have hn : p n = false := hlast n hlt (Nat.lt_succ_self n)
      rw [ih hlt fun i hi hin => hlast i hi (by omega)]
      simp [hn]
    · simp [hpj]

/-- Overriding a value by a list of options that agree. -/
theorem foldl_or_of_mem {α β : Type*} {f : α → Option β} {l : List α} {init : Option β} {c : β}
    (hagree : ∀ a ∈ l, f a = none ∨ f a = some c) (hmem : ∃ a ∈ l, f a = some c) :
    l.foldl (fun b a => (f a).or b) init = some c := by
  have hkeep : ∀ l : List α, (∀ a ∈ l, f a = none ∨ f a = some c) →
      l.foldl (fun b a => (f a).or b) (some c) = some c := by
    intro l
    induction l with
    | nil => simp
    | cons a l ih =>
      intro hall
      have ha : (f a).or (some c) = some c := by
        rcases hall a List.mem_cons_self with h | h <;> simp [h]
      rw [List.foldl_cons, ha]
      exact ih fun b hb => hall b (List.mem_cons_of_mem _ hb)
  induction l generalizing init with
  | nil => simp at hmem
  | cons a l ih =>
    rw [List.foldl_cons]
    obtain ⟨b, hb, hfb⟩ := hmem
    have hl : ∀ b ∈ l, f b = none ∨ f b = some c :=
      fun b hb => hagree b (List.mem_cons_of_mem _ hb)
    rcases List.mem_cons.mp hb with rfl | htail
    · rw [hfb, Option.some_or]
      exact hkeep l hl
    · exact ih hl ⟨b, htail, hfb⟩

theorem foldl_or_of_none {α β : Type*} {f : α → Option β} {l : List α} {init : Option β}
    (hnone : ∀ a ∈ l, f a = none) : l.foldl (fun b a => (f a).or b) init = init := by
  induction l generalizing init with
  | nil => rfl
  | cons a l ih =>
    rw [List.foldl_cons, hnone a List.mem_cons_self, Option.none_or]
    exact ih fun b hb => hnone b (List.mem_cons_of_mem _ hb)

/-! ## Windows by index -/

variable {config : ChunkPlannerConfig} {page : PageManifest}

theorem windowLineIds_getD {lines : List LineManifest} {j s : Nat}
    (hj : (windowStarts config lines)[j]? = some s) :
    (windowLineIds config lines).getD j [] = sliceIds lines s (windowEnd config lines s) := by
  rw [windowLineIds, List.getD_eq_getElem?_getD, List.getElem?_map, hj]
  rfl

theorem length_windowLineIds (lines : List LineManifest) :
    (windowLineIds config lines).length = (windowStarts config lines).length :=
  List.length_map _

/-- The starts come in order. -/
theorem windowStarts_lt {lines : List LineManifest} {j j' s s' : Nat}
    (hj : (windowStarts config lines)[j]? = some s)
    (hj' : (windowStarts config lines)[j']? = some s') (hlt : j < j') : s < s' := by
  obtain ⟨h, rfl⟩ := List.getElem?_eq_some_iff.mp hj
  obtain ⟨h', rfl⟩ := List.getElem?_eq_some_iff.mp hj'
  exact List.pairwise_iff_getElem.mp (pairwise_windowStartsFrom _ _) j j' h h' hlt

/-- The window a unit is pinned to, as the line's own override. -/
def pinnedWindow (windows : List (List Str)) (members : List Str) (lineId : Str) : Option Nat :=
  if members.length < 2 ∨ lineId ∉ members then none
  else (commonWindows windows members).getLast?

/-- The last unit that pins a line decides its window; an unpinned line goes to
its last one. -/
theorem targetWindow_eq (windows : List (List Str)) (units : List (List Str)) (lineId : Str) :
    targetWindow windows units lineId =
      units.foldl (fun win members => (pinnedWindow windows members lineId).or win)
        (membership windows lineId).getLast? := by
  rw [targetWindow]
  congr 1
  funext win members
  rw [pinnedWindow]
  by_cases hlen : members.length < 2
  · simp [hlen]
  · by_cases hmem : lineId ∈ members
    · cases hc : (commonWindows windows members).getLast? <;> simp [hlen, hmem]
    · cases hc : (commonWindows windows members).getLast? <;> simp [hlen, hmem]

theorem mem_commonWindows {windows : List (List Str)} {members : List Str} {j : Nat} :
    j ∈ commonWindows windows members ↔
      j < windows.length ∧ ∀ id ∈ members, id ∈ windows.getD j [] := by
  simp [commonWindows]

theorem mem_membership {windows : List (List Str)} {lineId : Str} {j : Nat} :
    j ∈ membership windows lineId ↔ j < windows.length ∧ lineId ∈ windows.getD j [] := by
  simp [membership]

/-- A line is in the window it is a target of. -/
theorem mem_of_targetWindow {windows units : List (List Str)} {lineId : Str} {j : Nat}
    (h : targetWindow windows units lineId = some j) :
    j < windows.length ∧ lineId ∈ windows.getD j [] := by
  rw [targetWindow_eq] at h
  have hinit : ∀ init : Option Nat,
      (∀ j, init = some j → j < windows.length ∧ lineId ∈ windows.getD j []) →
      ∀ j, units.foldl (fun win members => (pinnedWindow windows members lineId).or win) init
        = some j → j < windows.length ∧ lineId ∈ windows.getD j [] := by
    clear h
    induction units with
    | nil => exact fun init hinit j hj => hinit j hj
    | cons members units ih =>
      intro init hinit j hj
      refine ih _ (fun i hi => ?_) j hj
      rcases Option.or_eq_some_iff.mp hi with hpin | ⟨-, hi⟩
      · rw [pinnedWindow] at hpin
        split at hpin
        · cases hpin
        · next hno =>
          have hmem := mem_commonWindows.mp (List.mem_of_getLast? hpin)
          exact ⟨hmem.1, hmem.2 lineId (by grind)⟩
      · exact hinit i hi
  exact hinit _ (fun i hi => mem_membership.mp (List.mem_of_getLast? hi)) j h

namespace PageManifest.WellLinked

variable (h : page.WellLinked)

include h

/-- The last window a line is in is the last one that starts before it. -/
theorem membership_getLast? {i j s : Nat} {x : LineManifest} (hx : page.lines[i]? = some x)
    (hs : LastStart config page.lines i s) (hj : (windowStarts config page.lines)[j]? = some s) :
    (membership (windowLineIds config page.lines) x.lineId).getLast? = some j := by
  refine getLast?_filter_range ?_ ?_ ?_
  · rw [length_windowLineIds]
    exact (List.getElem?_eq_some_iff.mp hj).1
  · rw [windowLineIds_getD hj, decide_eq_true_iff, h.mem_sliceIds_iff hx]
    exact ⟨hs.le, hs.lt_windowEnd⟩
  · intro j' hlt hj'
    rw [length_windowLineIds] at hj'
    have hs' := List.getElem?_eq_getElem hj'
    rw [windowLineIds_getD hs', decide_eq_false_iff_not, h.mem_sliceIds_iff hx]
    rintro ⟨hle, -⟩
    have := windowStarts_lt hj hs' hlt
    have := hs.last _ (List.mem_of_getElem? hs') hle
    omega

theorem membership_ne_nil {i : Nat} {x : LineManifest} (hx : page.lines[i]? = some x) :
    membership (windowLineIds config page.lines) x.lineId ≠ [] := by
  obtain ⟨s, hs⟩ := exists_lastStart config (List.getElem?_eq_some_iff.mp hx).1
  obtain ⟨j, hj⟩ := List.mem_iff_getElem?.mp hs.mem
  intro hnil
  have := h.membership_getLast? hx hs hj
  rw [hnil] at this
  cases this

end PageManifest.WellLinked

/-! ## Units and windows -/

/-- The line at a position is drawn into the window that starts at `start`:
it is in the core, or no further than the partner of a line that is drawn
in, and within the line cap. -/
inductive Drawn (config : ChunkPlannerConfig) (lines : List LineManifest) (start : Nat) : Nat → Prop
  | core {position : Nat} : start ≤ position → position < coreEnd config lines start →
      Drawn config lines start position
  | link {i k position : Nat} : Drawn config lines start i → partnerAt lines i = some k →
      start ≤ position → position ≤ k → position < extensionLimit config lines start →
      Drawn config lines start position

/-- All of a unit is drawn into some window. -/
def UnitFits (config : ChunkPlannerConfig) (lines : List LineManifest) (ref : LineRef) : Prop :=
  ∃ start ∈ windowStarts config lines, ∀ (position : Nat) (lm : LineManifest),
    lines[position]? = some lm → Connected lines ref (lineRef lm) →
      Drawn config lines start position

/-- **What a window holds** is what is drawn into it. -/
theorem drawn_iff {lines : List LineManifest} {start position : Nat} (h : start < lines.length) :
    Drawn config lines start position ↔
        start ≤ position ∧ position < windowEnd config lines start := by
  obtain ⟨hcore, hlimit, hend⟩ := windowEnd_spec config h
  constructor
  · intro hdrawn
    induction hdrawn with
    | core hle hlt => exact ⟨hle, by omega⟩
    | link _ hpartner hle hk hcap ih =>
      refine ⟨hle, ?_⟩
      rcases hend with hfull | hclosed
      · omega
      · have := hclosed _ _ ih.1 ih.2 hpartner
        omega
  · rintro ⟨hle, hlt⟩
    -- whatever the extension has taken in so far was drawn in
    have hextend : ∀ (fuel stop : Nat),
        (∀ p, start ≤ p → p < stop → Drawn config lines start p) →
        ∀ p, start ≤ p → p < extendWindow lines start
          (extensionLimit config lines start) fuel stop → Drawn config lines start p := by
      intro fuel
      induction fuel with
      | zero => exact fun stop hall => hall
      | succ fuel ih =>
        intro stop hall
        rw [extendWindow]
        split
        · dsimp only
          split
          · exact hall
          · refine ih _ fun p hp hreach => ?_
            by_cases hin : p < stop
            · exact hall p hp hin
            · obtain ⟨i, k, hi, hstop, hpartner, hk⟩ := exists_partner_of_lt_unitReach
                (Nat.le_of_not_lt hin) (Nat.lt_of_lt_of_le hreach (Nat.min_le_left _ _))
              exact .link (hall i hi hstop) hpartner hp hk
                (Nat.lt_of_lt_of_le hreach (Nat.min_le_right _ _))
        · exact hall
    exact hextend _ _ (fun p hp hpcore => .core hp hpcore) position hle hlt

/-- The line ids of a unit, as the target assignment lists them. -/
def unitIds (config : ChunkPlannerConfig) (lines : List LineManifest) (group : HyphenGroup) :
    List Str :=
  (group.members.map LineRef.lineId).filter fun id =>
    membership (windowLineIds config lines) id ≠ []

/-- The window a line of the page is a target of. -/
def targetOf (config : ChunkPlannerConfig) (lines : List LineManifest) (lineId : Str) :
    Option Nat :=
  targetWindow (windowLineIds config lines) ((deriveHyphenGroups lines).map (unitIds config lines))
    lineId

/-- A window that holds the unit of a line whole. -/
def HoldsUnit (config : ChunkPlannerConfig) (lines : List LineManifest) (ref : LineRef)
    (start : Nat) : Prop :=
  ∀ (position : Nat) (lm : LineManifest), lines[position]? = some lm →
    Connected lines ref (lineRef lm) → start ≤ position ∧ position < windowEnd config lines start

/-- **A unit that fits is held** by some window. -/
theorem exists_holdsUnit_iff {ref : LineRef} :
    (∃ start ∈ windowStarts config page.lines, HoldsUnit config page.lines ref start) ↔
      UnitFits config page.lines ref := by
  refine exists_congr fun start => and_congr_right fun hmem => ?_
  have hdrawn : ∀ position, _ ↔ _ := fun position =>
    @drawn_iff config page.lines start position (mem_windowStarts_lt hmem)
  exact forall₃_congr fun position lm _ => forall_congr' fun _ => (hdrawn position).symm

namespace PageManifest.WellLinked

variable (h : page.WellLinked)

include h

/-! ## Targets -/

variable (config) in
/-- The ids of a unit are those of its members on the page. -/
theorem mem_unitIds_iff {group : HyphenGroup} (hgroup : group ∈ deriveHyphenGroups page.lines)
    {x : LineManifest} (hx : x ∈ page.lines) :
    x.lineId ∈ unitIds config page.lines group ↔ lineRef x ∈ group.members := by
  obtain ⟨root, -, -, hmem⟩ := mem_deriveHyphenGroups h.refs hgroup
  obtain ⟨i, hi⟩ := List.mem_iff_getElem?.mp hx
  rw [unitIds, List.mem_filter, List.mem_map]
  constructor
  · rintro ⟨⟨ref, href, hid⟩, -⟩
    obtain ⟨y, hy, rfl⟩ := List.mem_map.mp ((hmem ref).mp href).1
    rw [List.inj_on_of_nodup_map h.line_ids hy hx hid] at href
    exact href
  · intro hxm
    exact ⟨⟨lineRef x, hxm, rfl⟩, by simpa using h.membership_ne_nil hi⟩

variable (config) in
/-- All of a unit's lines are in some window, so none is left out. -/
theorem length_unitIds {group : HyphenGroup} (hgroup : group ∈ deriveHyphenGroups page.lines) :
    2 ≤ (unitIds config page.lines group).length := by
  obtain ⟨root, -, hlen, hmem⟩ := mem_deriveHyphenGroups h.refs hgroup
  rw [unitIds, List.filter_eq_self.mpr, List.length_map]
  · exact hlen
  · intro id hid
    obtain ⟨ref, href, rfl⟩ := List.mem_map.mp hid
    obtain ⟨y, hy, rfl⟩ := List.mem_map.mp ((hmem ref).mp href).1
    obtain ⟨i, hi⟩ := List.mem_iff_getElem?.mp hy
    exact decide_eq_true (h.membership_ne_nil hi)

/-- The windows that hold a group are those that hold the unit of any of
its members. -/
theorem commonWindows_eq_nil_iff {group : HyphenGroup}
    (hgroup : group ∈ deriveHyphenGroups page.lines) {x : LineManifest}
    (hxm : lineRef x ∈ group.members) :
    commonWindows (windowLineIds config page.lines) (unitIds config page.lines group) = [] ↔
      ¬ UnitFits config page.lines (lineRef x) := by
  rw [← exists_holdsUnit_iff]
  have hmembers := fun y (hy : y ∈ page.lines) =>
    (h.mem_unitIds_iff config hgroup hy).trans (mem_members_iff h.refs hgroup hxm)
  -- a window holds the unit's ids exactly when every line connected to `x` stands in its range
  have hholds : ∀ j s, (windowStarts config page.lines)[j]? = some s →
      ((∀ id ∈ unitIds config page.lines group, id ∈ (windowLineIds config page.lines).getD j []) ↔
        HoldsUnit config page.lines (lineRef x) s) := by
    intro j s hj
    rw [windowLineIds_getD hj]
    constructor
    · intro hall position lm hlm hconnected
      have hlm' : lm ∈ page.lines := List.mem_of_getElem? hlm
      rw [← h.mem_sliceIds_iff hlm]
      exact hall _ ((hmembers lm hlm').mpr ⟨List.mem_map_of_mem hlm', hconnected⟩)
    · intro hholds id hid
      obtain ⟨ref, href, rfl⟩ := List.mem_map.mp (List.mem_filter.mp hid).1
      obtain ⟨hon, hconnected⟩ := (mem_members_iff h.refs hgroup hxm).mp href
      obtain ⟨y, hy, rfl⟩ := List.mem_map.mp hon
      obtain ⟨i, hi⟩ := List.mem_iff_getElem?.mp hy
      exact (h.mem_sliceIds_iff hi).mpr (hholds i y hi hconnected)
  rw [List.eq_nil_iff_forall_not_mem]
  constructor
  · rintro hnone ⟨s, hs, hh⟩
    obtain ⟨j, hj⟩ := List.mem_iff_getElem?.mp hs
    refine hnone j (mem_commonWindows.mpr ⟨?_, (hholds j s hj).mpr hh⟩)
    rw [length_windowLineIds]
    exact (List.getElem?_eq_some_iff.mp hj).1
  · intro hnone j hj
    obtain ⟨hlt, hall⟩ := mem_commonWindows.mp hj
    rw [length_windowLineIds] at hlt
    have hs := List.getElem?_eq_getElem hlt
    exact hnone ⟨_, List.mem_of_getElem? hs, (hholds j _ hs).mp hall⟩

theorem assignWindowTargets_eq : assignWindowTargets (windowLineIds config page.lines) page.lines =
    (List.range (windowLineIds config page.lines).length).map fun i =>
      ((windowLineIds config page.lines).getD i []).filter fun lineId =>
        targetOf config page.lines lineId = some i := by
  have hvisited : page.lines.filter
      (fun lm => membership (windowLineIds config page.lines) lm.lineId ≠ []) = page.lines := by
    refine List.filter_eq_self.mpr fun lm hlm => ?_
    obtain ⟨i, hi⟩ := List.mem_iff_getElem?.mp hlm
    simpa using h.membership_ne_nil hi
  rw [assignWindowTargets, hvisited]
  rfl

/-- **A unit that fits is targeted whole.** -/
theorem targetOf_of_fits {group : HyphenGroup} (hgroup : group ∈ deriveHyphenGroups page.lines)
    {x : LineManifest} (hx : x ∈ page.lines) (hxm : lineRef x ∈ group.members)
    (hfits : UnitFits config page.lines (lineRef x)) :
    targetOf config page.lines x.lineId =
      (commonWindows (windowLineIds config page.lines)
        (unitIds config page.lines group)).getLast? := by
  have hne := mt (h.commonWindows_eq_nil_iff hgroup hxm).mp (not_not_intro hfits)
  obtain ⟨c, hc⟩ := Option.isSome_iff_exists.mp (List.getLast?_isSome.mpr hne)
  have hpin : ∀ g ∈ deriveHyphenGroups page.lines, lineRef x ∈ g.members →
      pinnedWindow (windowLineIds config page.lines) (unitIds config page.lines g) x.lineId
        = some c := by
    intro g hg hxg
    have hlen := h.length_unitIds config hg
    have hin := (h.mem_unitIds_iff config hg hx).mpr hxg
    rw [pinnedWindow, if_neg (by rintro (hlt | hnot) <;> [omega; exact hnot hin]), ← hc]
    -- two groups with a common member have the same members
    congr 1
    refine List.filter_congr fun j _ => ?_
    rw [Bool.eq_iff_iff, List.all_eq_true, List.all_eq_true]
    have hsame : ∀ id, id ∈ unitIds config page.lines g ↔ id ∈ unitIds config page.lines group := by
      intro id
      have href : ∀ ref, ref ∈ g.members ↔ ref ∈ group.members := fun ref =>
        (mem_members_iff h.refs hg hxg).trans (mem_members_iff h.refs hgroup hxm).symm
      simp only [unitIds, List.mem_filter, List.mem_map, href]
    simp only [hsame]
  rw [targetOf, targetWindow_eq, hc]
  refine foldl_or_of_mem ?_ ?_
  · intro members hmembers
    obtain ⟨g, hg, rfl⟩ := List.mem_map.mp hmembers
    by_cases hxg : lineRef x ∈ g.members
    · exact .inr (hpin g hg hxg)
    · refine .inl (if_pos (.inr ?_))
      rwa [h.mem_unitIds_iff _ hg hx]
  · exact ⟨_, List.mem_map_of_mem hgroup, hpin group hgroup hxm⟩

/-- A line of a unit that does not fit stays with its last window. -/
theorem targetOf_of_not_fits {i j s : Nat} {x : LineManifest} (hx : page.lines[i]? = some x)
    (hfits : ¬ UnitFits config page.lines (lineRef x)) (hs : LastStart config page.lines i s)
    (hj : (windowStarts config page.lines)[j]? = some s) :
    targetOf config page.lines x.lineId = some j := by
  have hxl : x ∈ page.lines := List.mem_of_getElem? hx
  rw [targetOf, targetWindow_eq, h.membership_getLast? hx hs hj]
  refine foldl_or_of_none fun members hmembers => ?_
  obtain ⟨g, hg, rfl⟩ := List.mem_map.mp hmembers
  rw [pinnedWindow]
  split
  · rfl
  · next hin =>
    have hxg : lineRef x ∈ g.members := (h.mem_unitIds_iff config hg hxl).mp (by grind)
    rw [(h.commonWindows_eq_nil_iff hg hxg).mpr hfits]
    rfl

/-- The chunks of a WINDOW plan own the lines their windows are targets of. -/
theorem together_tryWindow {x y : Str} : (tryWindow config page).Together x y ↔
    ∃ j, targetOf config page.lines x = some j ∧ targetOf config page.lines y = some j := by
  -- one chunk for each window, owning what the window is the target of
  have howned : ∀ {chunk : ChunkRequest}, chunk ∈ (tryWindow config page).chunks ↔
      ∃ j < (windowLineIds config page.lines).length, chunk =
        makeChunk page.pageId .window ((windowLineIds config page.lines).getD j []) none
          (some (((windowLineIds config page.lines).getD j []).filter
            fun lineId => targetOf config page.lines lineId = some j)) := by
    intro chunk
    constructor
    · intro hchunk
      obtain ⟨⟨ids, targets⟩, hpair, rfl⟩ := List.mem_map.mp hchunk
      obtain ⟨j, hj⟩ := List.mem_iff_getElem?.mp hpair
      obtain ⟨hids, htargets⟩ := List.getElem?_zip_eq_some.mp hj
      rw [h.assignWindowTargets_eq, List.getElem?_map, Option.map_eq_some_iff] at htargets
      obtain ⟨i, hi, rfl⟩ := htargets
      obtain ⟨hlt, rfl⟩ := List.getElem?_eq_some_iff.mp hids
      obtain rfl : j = i := by simpa [hlt] using hi
      exact ⟨j, hlt, by simp [List.getD_eq_getElem?_getD, hlt]⟩
    · rintro ⟨j, hlt, rfl⟩
      refine List.mem_map.mpr ⟨((windowLineIds config page.lines).getD j [], _), ?_, rfl⟩
      refine List.mem_iff_getElem?.mpr ⟨j, List.getElem?_zip_eq_some.mpr ⟨?_, ?_⟩⟩
      · simp [List.getD_eq_getElem?_getD, hlt]
      · simp [h.assignWindowTargets_eq, hlt]
  constructor
  · rintro ⟨chunk, hchunk, hx, hy⟩
    obtain ⟨j, -, rfl⟩ := howned.mp hchunk
    simp only [ChunkRequest.targets, makeChunk, Option.getD_some, List.mem_filter,
      decide_eq_true_eq] at hx hy
    exact ⟨j, hx.2, hy.2⟩
  · rintro ⟨j, hx, hy⟩
    obtain ⟨hj, hxj⟩ := mem_of_targetWindow hx
    obtain ⟨-, hyj⟩ := mem_of_targetWindow hy
    refine ⟨_, howned.mpr ⟨j, hj, rfl⟩, ?_, ?_⟩
    · exact List.mem_filter.mpr ⟨hxj, by simpa using hx⟩
    · exact List.mem_filter.mpr ⟨hyj, by simpa using hy⟩

/-- A link is whole in one window when its unit fits a window, or no window
starts between its lines. -/
theorem together_tryWindow_iff {i k : Nat} {x y : LineManifest} (hx : page.lines[i]? = some x)
    (hy : page.lines[k]? = some y) (hxy : forwardPartnerRef x = some (lineRef y)) :
    (tryWindow config page).Together x.lineId y.lineId ↔
      UnitFits config page.lines (lineRef x) ∨
        ∀ start ∈ windowStarts config page.lines, start ≤ k → start ≤ i := by
  have hxl : x ∈ page.lines := List.mem_of_getElem? hx
  have hyl : y ∈ page.lines := List.mem_of_getElem? hy
  have hconnected := connected_of_link hxl hyl hxy
  rw [h.together_tryWindow]
  -- a unit that fits goes whole to one common window, so its two lines go together
  by_cases hfits : UnitFits config page.lines (lineRef x)
  · simp only [hfits, true_or, iff_true]
    obtain ⟨group, hgroup, hxm, hym⟩ := exists_group h.refs (List.mem_map_of_mem hxl)
      (List.mem_map_of_mem hyl) (h.ne_of_link hxl hxy) hconnected
    have hne := mt (h.commonWindows_eq_nil_iff hgroup hxm).mp (not_not_intro hfits)
    obtain ⟨c, hc⟩ := Option.isSome_iff_exists.mp (List.getLast?_isSome.mpr hne)
    have hfits' : UnitFits config page.lines (lineRef y) := by
      obtain ⟨start, hmem, hall⟩ := hfits
      exact ⟨start, hmem, fun p lm hlm hc => hall p lm hlm (hconnected.trans _ _ _ hc)⟩
    refine ⟨c, ?_, ?_⟩
    · rw [h.targetOf_of_fits hgroup hxl hxm hfits, hc]
    · rw [h.targetOf_of_fits hgroup hyl hym hfits', hc]
  -- one that does not is dealt line by line, each to the last window that starts at or before it
  · have hfits' : ¬ UnitFits config page.lines (lineRef y) := by
      rintro ⟨start, hmem, hall⟩
      exact hfits ⟨start, hmem,
        fun p lm hlm hc => hall p lm hlm ((hconnected.symm _ _).trans _ _ _ hc)⟩
    obtain ⟨s, hs⟩ := exists_lastStart config (List.getElem?_eq_some_iff.mp hx).1
    obtain ⟨s', hs'⟩ := exists_lastStart config (List.getElem?_eq_some_iff.mp hy).1
    obtain ⟨j, hj⟩ := List.mem_iff_getElem?.mp hs.mem
    obtain ⟨j', hj'⟩ := List.mem_iff_getElem?.mp hs'.mem
    have hik : i < k := h.later i k ⟨x, y, hx, hy, hxy⟩
    simp only [hfits, false_or, h.targetOf_of_not_fits hx hfits hs hj,
      h.targetOf_of_not_fits hy hfits' hs' hj', Option.some.injEq]
    -- the two windows are one exactly when no window starts between the lines
    constructor
    · rintro ⟨_, rfl, rfl⟩ start hmem hle
      obtain rfl : s = s' := by simpa [hj] using hj'
      exact Nat.le_trans (hs'.last start hmem hle) hs.le
    · intro hnone
      have hle : s ≤ s' := hs'.last s hs.mem (by have := hs.le; omega)
      have hge : s' ≤ s := hs.last s' hs'.mem (hnone s' hs'.mem hs'.le)
      obtain rfl : s = s' := Nat.le_antisymm hle hge
      refine ⟨j, rfl, ?_⟩
      exact (List.getElem?_inj (List.getElem?_eq_some_iff.mp hj').1
        ((pairwise_windowStartsFrom _ _).imp Nat.ne_of_lt)).mp (hj'.trans hj.symm)

end PageManifest.WellLinked

end Saknussemm
