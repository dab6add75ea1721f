import Saknussemm.Document
import Saknussemm.Planning.Blocks
import Saknussemm.Planning.LinePlan
import Saknussemm.Planning.Targets

/-! # When a plan keeps every link.

PAGE and BLOCK plans do.  A WINDOW plan does when each linked unit is drawn
into some window whole, or the windows do not part it by chance.  A LINE
plan does when no chain steps over a line whose link leads past its end, and
none looks its next line up, outside the chunk, at one that continues onto
another line and has no backward side to lose; so it always does on a page
whose links keep apart. -/

namespace Saknussemm

/-! ## The conditions -/

/-- The page is within the limits of one request. -/
def PageFits (config : ChunkPlannerConfig) (page : PageManifest) : Prop :=
  withinBudget config page.lines = true

/-- The page has blocks, and each group of linked ones is within the limits. -/
def BlocksFit (config : ChunkPlannerConfig) (page : PageManifest) : Prop :=
  blockGroups page ≠ [] ∧ ∀ group ∈ blockGroups page,
    withinBudget config (group.flatMap (linesOfBlock page)) = true

/-- Each linked unit is drawn into a window whole, or no window starts
between the two lines of the link. -/
def UnitsFit (config : ChunkPlannerConfig) (lines : List LineManifest) : Prop :=
  ∀ (i k : Nat) (x : LineManifest), lines[i]? = some x → LinkAt lines i k →
    UnitFits config lines (lineRef x) ∨ ∀ start ∈ windowStarts config lines, start ≤ k → start ≤ i

/-- The pages each granularity plans without a silent cut. -/
def CutsNothing (config : ChunkPlannerConfig) (page : PageManifest) :
    Option ChunkGranularity → Prop
  | some .line => TurnsKeep config page.lines 0
  | some .window => UnitsFit config page.lines
  | some .block => BlocksFit config page ∨ UnitsFit config page.lines
  | some .page | none => PageFits config page ∨ BlocksFit config page ∨ UnitsFit config page.lines

/-! ## PAGE, BLOCK and WINDOW -/

variable {config : ChunkPlannerConfig} {page : PageManifest}

theorem tryPage_eq_none_iff : tryPage config page = none ↔ ¬ PageFits config page := by
  rw [tryPage, PageFits]
  split
  · next hfits => simp [hfits]
  · next hfits => simp [hfits]

theorem tryBlock_eq_none_iff : tryBlock config page = none ↔ ¬ BlocksFit config page := by
  have hfits : ((blockGroups page).all
        (fun group => withinBudget config (group.flatMap (linesOfBlock page)))
        && !(blockGroups page).isEmpty) = true ↔ BlocksFit config page := by
    rw [BlocksFit, Bool.and_eq_true, List.all_eq_true, and_comm]
    simp
  rw [← hfits, tryBlock]
  split
  · next hall => simp [hall]
  · next hall => simp [hall]

theorem linksKept_tryPage {plan : ChunkPlan} (hplan : tryPage config page = some plan) :
    LinksKept page plan page.lines :=
  linksKept_self.mpr fun _ htail _ hhead _ => together_tryPage hplan htail hhead

namespace PageManifest.WellLinked

variable (h : page.WellLinked)

include h

theorem linksKept_tryBlock {plan : ChunkPlan} (hplan : tryBlock config page = some plan) :
    LinksKept page plan page.lines :=
  linksKept_self.mpr fun _ htail _ hhead hlink => h.together_tryBlock hplan htail hhead hlink

/-- Windows keep the links exactly when every unit fits in one of them. -/
theorem linksKept_tryWindow_iff :
    LinksKept page (tryWindow config page) page.lines ↔ UnitsFit config page.lines := by
  rw [linksKept_self]
  constructor
  · rintro hkept i k x hx ⟨x', y, hx', hy, hxy⟩
    obtain rfl : x = x' := by simpa [hx] using hx'
    exact (h.together_tryWindow_iff hx hy hxy).mp
      (hkept x (List.mem_of_getElem? hx) y (List.mem_of_getElem? hy) hxy)
  · intro hfits x hx y hy hxy
    obtain ⟨i, hi⟩ := List.mem_iff_getElem?.mp hx
    obtain ⟨k, hk⟩ := List.mem_iff_getElem?.mp hy
    exact (h.together_tryWindow_iff hi hk hxy).mpr (hfits i k x hi ⟨x, y, hi, hk, hxy⟩)

end PageManifest.WellLinked

/-! ## LINE -/

theorem planLine_eq (config : ChunkPlannerConfig) (page : PageManifest) :
    planLine config page =
      (⟨page.pageId, (planLineFrom config page.pageId page.lines.length page.lines 0).1, .line,
          (planLineFrom config page.pageId page.lines.length page.lines 0).2.1⟩,
        (planLineFrom config page.pageId page.lines.length page.lines 0).2.2) :=
  rfl

namespace PageManifest.WellLinked

variable (h : page.WellLinked)

include h

theorem linksForward : LinksForward page.pageId page.lines :=
  ⟨h.line_page, h.line_ids, h.later⟩

/-- Where the refs are those of the page, a live link is one between the
positions it was between. -/
theorem live_iff_linkAt {after : List LineManifest}
    (hrefs : after.map lineRef = page.lines.map lineRef) {i k : Nat} {x y : LineManifest}
    (hx : page.lines[i]? = some x) (hy : page.lines[k]? = some y) :
    Live after (lineRef x) (lineRef y) ↔ LinkAt after i k := by
  constructor
  · rintro ⟨z, hz, hzx, hzy⟩
    obtain ⟨j, hj⟩ := List.mem_iff_getElem?.mp hz
    obtain ⟨w, hw, hwz⟩ := getElem?_of_refs hrefs hj
    obtain rfl : j = i := position_unique h.line_ids hw hx (congrArg LineRef.lineId (hwz.trans hzx))
    obtain ⟨y', hy', hyref⟩ := getElem?_of_refs hrefs.symm hy
    exact ⟨z, y', hj, hy', by rw [hzy, hyref]⟩
  · rintro ⟨x', y', hx', hy', hxy⟩
    obtain ⟨w, hw, hwx⟩ := getElem?_of_refs hrefs hx'
    obtain ⟨v, hv, hvy⟩ := getElem?_of_refs hrefs hy'
    obtain rfl : x = w := by simpa using hx.symm.trans hw
    obtain rfl : y = v := by simpa using hy.symm.trans hv
    exact ⟨x', List.mem_of_getElem? hx', hwx.symm, by rw [hxy, hvy]⟩

/-- **When a LINE plan keeps every link.** -/
theorem linksKept_planLine_iff :
    LinksKept page (planLine config page).1 (planLine config page).2 ↔
      TurnsKeep config page.lines 0 := by
  have hrefs := @lineRef_planLineFrom config page.pageId page.lines 0 page.lines.length
    h.linksForward
  rw [← keepsFrom_iff page.lines.length h.linksForward (Nat.le_add_left _ _), planLine_eq]
  constructor
  · intro hkept i k x y hx hy hxy
    obtain ⟨htogether, hrecorded⟩ :=
      hkept x (List.mem_of_getElem? hx) y (List.mem_of_getElem? hy) hxy
    rw [h.live_iff_linkAt hrefs hx hy] at htogether hrecorded
    exact ⟨fun hbehind => absurd hbehind (Nat.not_lt_zero i), fun _ => htogether,
      fun _ => hrecorded⟩
  · intro hkeeps x hxl y hyl hxy
    obtain ⟨i, hx⟩ := List.mem_iff_getElem?.mp hxl
    obtain ⟨k, hy⟩ := List.mem_iff_getElem?.mp hyl
    rw [h.live_iff_linkAt hrefs hx hy]
    obtain ⟨-, htogether, hrecorded⟩ := hkeeps i k x y hx hy hxy
    exact ⟨htogether (Nat.zero_le i), hrecorded (Nat.zero_le i)⟩

/-- A page whose links keep apart loses none to a LINE plan. -/
theorem turnsKeep_of_apart (hapart : LinksApart page.lines) : TurnsKeep config page.lines 0 := by
  refine Turned.turnsKeep ⟨rfl, h.linksForward, fun i x x' hx hx' => ?_⟩ hapart
  obtain rfl : x = x' := by simpa using hx.symm.trans hx'
  exact .inr ⟨rfl, .inl rfl⟩

end PageManifest.WellLinked

/-! ## Every granularity -/

/-- What `planPage` falls back to when a page has no BLOCK plan. -/
theorem linksKept_blockOrWindow (h : page.WellLinked) :
    LinksKept page ((tryBlock config page).getD (tryWindow config page)) page.lines ↔
      BlocksFit config page ∨ UnitsFit config page.lines := by
  cases hplan : tryBlock config page with
  | none =>
    rw [Option.getD_none, h.linksKept_tryWindow_iff, or_iff_right (tryBlock_eq_none_iff.mp hplan)]
  | some plan =>
    have hfits : BlocksFit config page := by
      by_contra hnot
      rw [tryBlock_eq_none_iff.mpr hnot] at hplan
      cases hplan
    rw [Option.getD_some]
    exact iff_of_true (h.linksKept_tryBlock hplan) (.inl hfits)

/-- Left to itself the planner keeps the links where a page, its blocks or its
windows hold the units. -/
theorem linksKept_autoPlan (h : page.WellLinked) :
    LinksKept page (autoPlan config page) page.lines ↔
      PageFits config page ∨ BlocksFit config page ∨ UnitsFit config page.lines := by
  rw [autoPlan]
  cases hplan : tryPage config page with
  | none =>
    rw [Option.none_or, linksKept_blockOrWindow h,
      or_iff_right (tryPage_eq_none_iff.mp hplan)]
  | some plan =>
    have hfits : PageFits config page := by
      by_contra hnot
      rw [tryPage_eq_none_iff.mpr hnot] at hplan
      cases hplan
    rw [Option.some_or, Option.getD_some]
    exact iff_of_true (linksKept_tryPage hplan) (.inl hfits)

/-- A plan keeps the links exactly when its granularity cuts none. -/
theorem linksKept_of_force (force : Option ChunkGranularity) (h : page.WellLinked) :
    LinksKept page (planPage config page force).1 (planPage config page force).2 ↔
      CutsNothing config page force := by
  cases force with
  | none => exact linksKept_autoPlan h
  | some granularity =>
    cases granularity with
    | line => exact h.linksKept_planLine_iff
    | window => exact h.linksKept_tryWindow_iff
    | block => exact linksKept_blockOrWindow h
    | page =>
      show LinksKept page ((tryPage config page).getD (autoPlan config page)) page.lines ↔ _
      cases hplan : tryPage config page with
      | none =>
        rw [Option.getD_none]
        exact linksKept_autoPlan h
      | some plan =>
        have hfits : PageFits config page := by
          by_contra hnot
          rw [tryPage_eq_none_iff.mpr hnot] at hplan
          cases hplan
        rw [Option.getD_some]
        exact iff_of_true (linksKept_tryPage hplan) (.inl hfits)

/-- **A plan keeps every link of a page exactly when it cuts nothing**, and
a LINE plan cuts nothing where the links of the page keep apart. -/
theorem linksKept_planPage_iff (config : ChunkPlannerConfig) (page : PageManifest)
    (force : Option ChunkGranularity) (h : page.WellLinked) :
    (LinksKept page (planPage config page force).1 (planPage config page force).2 ↔
      CutsNothing config page force) ∧
    (LinksApart page.lines → CutsNothing config page (some .line)) :=
  ⟨linksKept_of_force force h, h.turnsKeep_of_apart⟩

/-- A linked page of `n` lines that each break a word. -/
def chainPage (n : Nat) : PageManifest :=
  linkPage .default (plainPage "a.xml" "p1" 0
    ((List.range n).map fun i => (toString i, "a-", HyphenRole.part1)))

/-- Small requests: four lines at most, windows of four with one in common. -/
def smallRequests : ChunkPlannerConfig where
  maxInputCharsPerRequest := 1000
  maxLinesPerRequest := 4
  lineWindowSize := 4
  lineWindowOverlap := 1
  chars_pos := by decide
  lines_pos := by decide
  window_pos := by decide

/-- A chain of thirteen lines is kept whole, so it fits a window. -/
theorem chainPage_cutsNothing : CutsNothing smallRequests (chainPage 13) none :=
  (linksKept_planPage_iff smallRequests (chainPage 13) none (by decide +kernel)).1.mp
    (by decide +kernel)

/-- A chain of sixteen lines is longer than any window: links stay live
across chunks, and no split says so. -/
theorem chainPage_cut : (chainPage 16).WellLinked ∧
    ¬ LinksKept (chainPage 16) (planPage smallRequests (chainPage 16) none).1
      (planPage smallRequests (chainPage 16) none).2 := by
  decide +kernel

end Saknussemm
