import Saknussemm.Linking.InPage
import Saknussemm.Planner

/-! # The links of a page, and what a plan does to them.

What the planner is handed is a page of blocks and lines, any of which may
continue onto a later one.  A plan keeps the links when each of them is
either whole in one chunk or named by one split.  PAGE and BLOCK plans
always do. -/

namespace Saknussemm

/-! ## Links -/

/-- The line at position `i` continues onto the one at position `k`. -/
def LinkAt (lines : List LineManifest) (i k : Nat) : Prop :=
  ∃ x y, lines[i]? = some x ∧ lines[k]? = some y ∧ forwardPartnerRef x = some (lineRef y)

/-- A page whose ids are unique and whose lines are each in their block.
Any line may continue onto a later one of the page, or onto another page. -/
structure PageManifest.WellLinked (page : PageManifest) : Prop where
  line_page : ∀ lm ∈ page.lines, lm.pageId = page.pageId
  line_ids : (page.lines.map LineManifest.lineId).Nodup
  block_ids : (page.blocks.map BlockManifest.blockId).Nodup
  in_block : ∀ lm ∈ page.lines, ∃ block ∈ page.blocks,
    block.blockId = lm.blockId ∧ lm.lineId ∈ block.lineIds
  later : ∀ i k, LinkAt page.lines i k → i < k

instance (lines : List LineManifest) (i k : Nat) : Decidable (LinkAt lines i k) :=
  decidable_of_iff
    (∃ x ∈ lines[i]?, ∃ y ∈ lines[k]?, forwardPartnerRef x = some (lineRef y))
    ⟨fun ⟨x, hx, y, hy, h⟩ => ⟨x, y, hx, hy, h⟩, fun ⟨x, y, hx, hy, h⟩ => ⟨x, hx, y, hy, h⟩⟩

theorem LinkAt.lt_length {lines : List LineManifest} {i k : Nat} (h : LinkAt lines i k) :
    i < lines.length ∧ k < lines.length := by
  obtain ⟨x, y, hx, hy, -⟩ := h
  exact ⟨(List.getElem?_eq_some_iff.mp hx).1, (List.getElem?_eq_some_iff.mp hy).1⟩

/-- The positions of a page are finitely many, so being well linked can be
checked. -/
theorem wellLinked_iff {page : PageManifest} :
    ((∀ lm ∈ page.lines, lm.pageId = page.pageId) ∧
      (page.lines.map LineManifest.lineId).Nodup ∧
      (page.blocks.map BlockManifest.blockId).Nodup ∧
      (∀ lm ∈ page.lines, ∃ block ∈ page.blocks,
        block.blockId = lm.blockId ∧ lm.lineId ∈ block.lineIds) ∧
      ∀ i < page.lines.length, ∀ k < page.lines.length, LinkAt page.lines i k → i < k) ↔
      page.WellLinked := by
  constructor
  · rintro ⟨hpage, hids, hblocks, hin, hlater⟩
    exact ⟨hpage, hids, hblocks, hin,
      fun i k hlink => hlater i hlink.lt_length.1 k hlink.lt_length.2 hlink⟩
  · intro h
    exact ⟨h.line_page, h.line_ids, h.block_ids, h.in_block, fun i _ k _ hlink => h.later i k hlink⟩

instance (page : PageManifest) : Decidable page.WellLinked := decidable_of_iff _ wellLinked_iff

/-- The forward link from `tail` to `head` is live among the lines. -/
def Live (lines : List LineManifest) (tail head : LineRef) : Prop :=
  ∃ lm ∈ lines, lineRef lm = tail ∧ forwardPartnerRef lm = some head

/-- Both lines are targets of one and the same chunk. -/
def ChunkPlan.Together (plan : ChunkPlan) (x y : Str) : Prop :=
  ∃ chunk ∈ plan.chunks, x ∈ chunk.targets ∧ y ∈ chunk.targets

/-- **No link is cut silently**: a link of the page that is still live is
whole in a chunk, and one that is not is named by exactly one split. -/
def LinksKept (page : PageManifest) (plan : ChunkPlan) (after : List LineManifest) : Prop :=
  ∀ tail ∈ page.lines, ∀ head ∈ page.lines, forwardPartnerRef tail = some (lineRef head) →
    (Live after (lineRef tail) (lineRef head) → plan.Together tail.lineId head.lineId) ∧
    (¬ Live after (lineRef tail) (lineRef head) →
      plan.hyphenSplits.count ⟨page.pageId, tail.lineId, head.lineId⟩ = 1)

instance (lines : List LineManifest) (tail head : LineRef) : Decidable (Live lines tail head) :=
  inferInstanceAs (Decidable (∃ _ ∈ _, _ ∧ _))

instance (plan : ChunkPlan) (x y : Str) : Decidable (plan.Together x y) :=
  inferInstanceAs (Decidable (∃ _ ∈ _, _ ∧ _))

instance (page : PageManifest) (plan : ChunkPlan) (after : List LineManifest) :
    Decidable (LinksKept page plan after) :=
  inferInstanceAs (Decidable (∀ _ ∈ _, ∀ _ ∈ _, _ → _ ∧ _))

/-- Where the lines are left alone, it is a matter of the targets. -/
theorem linksKept_self {page : PageManifest} {plan : ChunkPlan} :
    LinksKept page plan page.lines ↔
      ∀ tail ∈ page.lines, ∀ head ∈ page.lines, forwardPartnerRef tail = some (lineRef head) →
        plan.Together tail.lineId head.lineId := by
  constructor
  · intro h tail htail head hhead hlink
    exact (h tail htail head hhead hlink).1 ⟨tail, htail, rfl, hlink⟩
  · intro h tail htail head hhead hlink
    exact ⟨fun _ => h tail htail head hhead hlink,
      fun hdead => absurd ⟨tail, htail, rfl, hlink⟩ hdead⟩

/-! ## The two slots as links -/

/-- The forward partner is one of the lines the slots name. -/
theorem mem_pointers_of_forward {lm : LineManifest} {ref : LineRef}
    (h : forwardPartnerRef lm = some ref) : ref ∈ pointers lm := by
  rw [forwardPartnerRef] at h
  simp only [pointers, List.mem_append, Option.mem_toList]
  cases hr : lm.hyphenRole <;> simp only [hr] at h
  · cases h
  · exact .inl h
  · cases h
  · exact .inr h

/-- Linked lines share a hyphen unit. -/
theorem connected_of_link {lines : List LineManifest} {x y : LineManifest} (hx : x ∈ lines)
    (hy : y ∈ lines) (hxy : forwardPartnerRef x = some (lineRef y)) :
    Connected lines (lineRef x) (lineRef y) :=
  .rel _ _ ⟨x, hx, rfl, mem_pointers_of_forward hxy, List.mem_map.mpr ⟨y, hy, rfl⟩⟩

/-- Only a role with a forward side has a forward partner. -/
theorem role_of_forward {lm : LineManifest} {ref : LineRef} (h : forwardPartnerRef lm = some ref) :
    lm.hyphenRole = .part1 ∨ lm.hyphenRole = .both := by
  rw [forwardPartnerRef] at h
  cases hr : lm.hyphenRole <;> simp [hr] at h ⊢

/-- Only a role with a backward side has a backward partner. -/
theorem role_of_backward {lm : LineManifest} {ref : LineRef}
    (h : backwardPartnerRef lm = some ref) : lm.hyphenRole = .part2 ∨ lm.hyphenRole = .both := by
  rw [backwardPartnerRef] at h
  cases hr : lm.hyphenRole <;> simp [hr] at h ⊢

/-! ## Positions -/

section Positions

variable {lines : List LineManifest} (hids : (lines.map LineManifest.lineId).Nodup)

include hids

theorem position_unique {i k : Nat} {x y : LineManifest} (hx : lines[i]? = some x)
    (hy : lines[k]? = some y) (hid : x.lineId = y.lineId) : i = k := by
  have hi : i < (lines.map LineManifest.lineId).length := by
    simpa using (List.getElem?_eq_some_iff.mp hx).1
  refine (List.getElem?_inj hi hids).mp ?_
  rw [List.getElem?_map, List.getElem?_map, hx, hy, Option.map_some, Option.map_some, hid]

theorem positionOf_eq_some {i : Nat} {x : LineManifest} (hx : lines[i]? = some x) :
    positionOf lines x.lineId = some i := by
  cases hp : positionOf lines x.lineId with
  | none =>
    rw [positionOf, List.findIdx?_eq_none_iff] at hp
    simpa using hp x (List.mem_of_getElem? hx)
  | some k =>
    rw [positionOf, List.findIdx?_eq_some_iff_getElem] at hp
    obtain ⟨hk, hid, -⟩ := hp
    have hid' : lines[k].lineId = x.lineId := by simpa using hid
    rw [position_unique hids hx (List.getElem?_eq_getElem hk) hid'.symm]

/-- With distinct ids a slice lists a line exactly when its range holds the
line. -/
theorem mem_sliceIds_iff {i a b : Nat} {x : LineManifest} (hx : lines[i]? = some x) :
    x.lineId ∈ sliceIds lines a b ↔ a ≤ i ∧ i < b := by
  rw [sliceIds, List.mem_map]
  constructor
  · rintro ⟨y, hy, hid⟩
    obtain ⟨k, hk⟩ := List.mem_iff_getElem?.mp hy
    rw [List.getElem?_take, List.getElem?_drop] at hk
    split at hk
    · have := position_unique hids hx hk hid.symm
      omega
    · cases hk
  · rintro ⟨ha, hb⟩
    refine ⟨x, List.mem_iff_getElem?.mpr ⟨i - a, ?_⟩, rfl⟩
    rw [List.getElem?_take, if_pos (by omega), List.getElem?_drop, Nat.add_sub_cancel' ha, hx]

end Positions

namespace PageManifest.WellLinked

variable {page : PageManifest} (h : page.WellLinked)

include h

theorem lineRef_eq {lm : LineManifest} (hlm : lm ∈ page.lines) :
    lineRef lm = ⟨page.pageId, lm.lineId⟩ := by
  rw [lineRef, h.line_page lm hlm]

theorem refs : (page.lines.map lineRef).Nodup := by
  have heq : page.lines.map lineRef =
      (page.lines.map LineManifest.lineId).map fun id => ⟨page.pageId, id⟩ := by
    rw [List.map_map]
    exact List.map_congr_left fun lm hlm => h.lineRef_eq hlm
  rw [heq]
  exact h.line_ids.map fun a b hab => by simpa using hab

end PageManifest.WellLinked

theorem positionOf_some {lines : List LineManifest} {lineId : Str} {i : Nat}
    (h : positionOf lines lineId = some i) : ∃ lm, lines[i]? = some lm ∧ lm.lineId = lineId := by
  rw [positionOf, List.findIdx?_eq_some_iff_getElem] at h
  obtain ⟨hi, hid, -⟩ := h
  exact ⟨lines[i], List.getElem?_eq_getElem hi, by simpa using hid⟩

/-- A partner is a line with the bare id the forward slot names. -/
theorem partnerAt_eq_some_iff {lines : List LineManifest} {i k : Nat} :
    partnerAt lines i = some k ↔ ∃ x ref, lines[i]? = some x ∧ forwardPartnerRef x = some ref ∧
      positionOf lines ref.lineId = some k := by
  simp only [partnerAt, forwardPartnerId, Option.bind_eq_some_iff, Option.map_eq_some_iff]
  constructor
  · rintro ⟨_, ⟨x, hx, ref, href, rfl⟩, hk⟩
    exact ⟨x, ref, hx, href, hk⟩
  · rintro ⟨x, ref, hx, href, hk⟩
    exact ⟨_, ⟨x, hx, ref, href, rfl⟩, hk⟩

/-- A link is found where it points. -/
theorem partnerAt_of_link {lines : List LineManifest} (hids : (lines.map LineManifest.lineId).Nodup)
    {i k : Nat} {x y : LineManifest} (hx : lines[i]? = some x) (hy : lines[k]? = some y)
    (hxy : forwardPartnerRef x = some (lineRef y)) : partnerAt lines i = some k :=
  partnerAt_eq_some_iff.mpr ⟨x, _, hx, hxy, positionOf_eq_some hids hy⟩

theorem partnerAt_lt {lines : List LineManifest} {i k : Nat} (h : partnerAt lines i = some k) :
    i < lines.length ∧ k < lines.length := by
  obtain ⟨x, ref, hx, -, hpos⟩ := partnerAt_eq_some_iff.mp h
  obtain ⟨y, hy, -⟩ := positionOf_some hpos
  exact ⟨(List.getElem?_eq_some_iff.mp hx).1, (List.getElem?_eq_some_iff.mp hy).1⟩

namespace PageManifest.WellLinked

variable {page : PageManifest} (h : page.WellLinked)

include h

theorem mem_sliceIds_iff {i a b : Nat} {x : LineManifest} (hx : page.lines[i]? = some x) :
    x.lineId ∈ sliceIds page.lines a b ↔ a ≤ i ∧ i < b :=
  Saknussemm.mem_sliceIds_iff h.line_ids hx

/-- No line continues onto itself. -/
theorem ne_of_link {x y : LineManifest} (hx : x ∈ page.lines)
    (hxy : forwardPartnerRef x = some (lineRef y)) : lineRef x ≠ lineRef y := by
  intro heq
  obtain ⟨i, hi⟩ := List.mem_iff_getElem?.mp hx
  exact Nat.lt_irrefl i (h.later i i ⟨x, x, hi, hi, heq ▸ hxy⟩)

end PageManifest.WellLinked

end Saknussemm
