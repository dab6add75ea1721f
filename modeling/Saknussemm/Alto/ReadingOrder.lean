import Saknussemm.Alto.Parser
import Saknussemm.Library.Succession

/-! # The reading order of an ALTO page.

Blocks are read in document order, unless they name their successors by
`IDNEXT`.  Declarations that contradict one another are not guessed at: the
blocks then keep their document order. -/

namespace Saknussemm.Alto

/-- A `TextBlock`: its `ID` and `IDNEXT`, and the rest of the element. -/
structure TextBlock (α : Type) where
  id : Option Str
  idNext : Option Str
  content : α
  deriving DecidableEq

/-- What a page's container holds.  A margin container is passed over, as is
what is no element. -/
inductive LayoutNode (α : Type) where
  | textBlock (block : TextBlock α)
  | skipped
  | group (children : List (LayoutNode α))

variable {α : Type}

mutual

/-- The `TextBlock`s one child of a container brings: descent stops at one. -/
def LayoutNode.textBlocks : LayoutNode α → List (TextBlock α)
  | .textBlock block => [block]
  | .skipped => []
  | .group children => collectBlocksSkippingMargins children

/-- Every `TextBlock` of a container in document order. -/
def collectBlocksSkippingMargins : List (LayoutNode α) → List (TextBlock α)
  | [] => []
  | child :: rest => child.textBlocks ++ collectBlocksSkippingMargins rest

end

/-- A usable ID is not empty. -/
def TextBlock.bid (block : TextBlock α) : Option Str := block.id.filter (· ≠ [])

/-- Enter a block under its ID, which no other block may have. -/
def addById (byId : Dict Str (TextBlock α)) (block : TextBlock α) : Option
    (Dict Str (TextBlock α)) :=
  match block.bid with
  | none => some byId
  | some id => if id ∈ Dict.keys byId then none else some (Dict.set byId id block)

/-- The blocks by ID, unless two share one. -/
def blocksById (blocks : List (TextBlock α)) : Option (Dict Str (TextBlock α)) :=
  blocks.foldlM addById []

/-- The link a block declares within the container: from its ID to the next. -/
def TextBlock.link (byId : Dict Str (TextBlock α)) (block : TextBlock α) : Option (Str × Str) :=
  match block.idNext.map strip, block.bid with
  | some next, some id => if next ≠ [] ∧ next ∈ Dict.keys byId then some (id, next) else none
  | _, _ => none

/-- Declared successors, and the IDs they name. -/
structure Links where
  succ : Dict Str Str
  referenced : List Str

/-- Add a block's link, which may name neither itself nor what is named. -/
def addLink (byId : Dict Str (TextBlock α)) (links : Links) (block : TextBlock α) : Option Links :=
  match block.link byId with
  | none => some links
  | some (id, next) =>
    if next = id ∨ next ∈ links.referenced then none
    else some ⟨Dict.set links.succ id next, links.referenced ++ [next]⟩

/-- The links of the blocks, unless one names itself or two name one block. -/
def linksOf (byId : Dict Str (TextBlock α)) (blocks : List (TextBlock α)) : Option Links :=
  blocks.foldlM (addLink byId) ⟨[], []⟩

/-- The blocks put in order so far. -/
structure Ordered (α : Type) where
  visited : List Str
  blocks : List (TextBlock α)

/-- Follow a chain to its end, or to a block that was visited.  There is no
result when the turns run out or an ID has no block. -/
def walkChain (byId : Dict Str (TextBlock α)) (succ : Dict Str Str) :
    Nat → Str → Ordered α → Option (Ordered α)
  | 0, _, _ => none
  | turns + 1, cur, order =>
    if cur ∈ order.visited then some order
    else
      (Dict.get? byId cur).bind fun block =>
        let order := ⟨order.visited ++ [cur], order.blocks ++ [block]⟩
        match Dict.get? succ cur with
        | none => some order
        | some next => walkChain byId succ turns next order

/-- Put one block of the document, with its chain, in order. -/
def visitBlock (byId : Dict Str (TextBlock α)) (links : Links) (turns : Nat) (order : Ordered α)
    (block : TextBlock α) : Option (Ordered α) :=
  match block.bid with
  | none => some { order with blocks := order.blocks ++ [block] }
  | some id =>
    if id ∈ order.visited ∨ id ∈ links.referenced then some order
    else walkChain byId links.succ turns id order

/-- The blocks of a container in reading order. -/
def orderBlocks (blocks : List (TextBlock α)) : Option (List (TextBlock α)) :=
  if blocks.length < 2 then some blocks
  else
    match blocksById blocks with
    | none => some blocks
    | some byId =>
      match linksOf byId blocks with
      | none => some blocks
      | some links =>
        if links.succ = [] then some blocks
        else
          (blocks.foldlM (visitBlock byId links (blocks.length + 1)) ⟨[], []⟩).map fun order =>
            if order.blocks.length ≠ blocks.length then blocks else order.blocks

/-- Every `TextBlock` under a container, in reading order. -/
def blocksInReadingOrder (container : List (LayoutNode α)) : Option (List (TextBlock α)) :=
  orderBlocks (collectBlocksSkippingMargins container)

/-! ## The links of a container -/

open Relation Succession

section Declared

variable {blocks : List (TextBlock α)}

/-- The block of one ID declares the block of another as its successor. -/
def Declares (blocks : List (TextBlock α)) (x y : Str) : Prop :=
  ∃ a ∈ blocks, ∃ b ∈ blocks, a.bid = some x ∧ b.bid = some y ∧ a.idNext.map strip = some y

/-- The usable IDs. -/
def usableIds (blocks : List (TextBlock α)) : List Str := blocks.filterMap TextBlock.bid

/-- The blocks under their IDs. -/
def blockEntries (blocks : List (TextBlock α)) : Dict Str (TextBlock α) :=
  blocks.filterMap fun block => block.bid.map (·, block)

theorem keys_blockEntries (blocks : List (TextBlock α)) :
    Dict.keys (blockEntries blocks) = usableIds blocks := by
  rw [Dict.keys, blockEntries, List.map_filterMap]
  refine List.filterMap_congr fun block _ => ?_
  cases block.bid <;> rfl

theorem mem_blockEntries_iff {id : Str} {block : TextBlock α} :
    (id, block) ∈ blockEntries blocks ↔ block ∈ blocks ∧ block.bid = some id := by
  simp only [blockEntries, List.mem_filterMap, Option.map_eq_some_iff, Prod.mk.injEq]
  constructor
  · rintro ⟨block, hmem, id, hid, rfl, rfl⟩
    exact ⟨hmem, hid⟩
  · rintro ⟨hmem, hid⟩
    exact ⟨block, hmem, id, hid, rfl, rfl⟩

/-- The table of a reading order is built when its ids are distinct, and lists
the blocks by id. -/
theorem foldlM_addById (blocks : List (TextBlock α)) (byId table : Dict Str (TextBlock α))
    (h : (Dict.keys byId).Nodup) : blocks.foldlM addById byId = some table ↔
      (Dict.keys byId ++ usableIds blocks).Nodup ∧ table = byId ++ blockEntries blocks := by
  -- induction on the blocks: a second block of one id is the only failure
  induction blocks generalizing byId with
  | nil =>
    show some byId = some table ↔ (Dict.keys byId ++ []).Nodup ∧ table = byId ++ []
    rw [List.append_nil, List.append_nil, Option.some.injEq, eq_comm, and_iff_right h]
  | cons block blocks ih =>
    rw [List.foldlM_cons]
    cases hid : block.bid with
    | none =>
      have hadd : addById byId block = some byId := by rw [addById, hid]
      rw [hadd, Option.bind_eq_bind, Option.bind_some, ih byId h]
      simp [usableIds, blockEntries, hid]
    | some id =>
      have hids : usableIds (block :: blocks) = id :: usableIds blocks :=
        List.filterMap_cons_some hid
      rw [hids]
      by_cases hmem : id ∈ Dict.keys byId
      · have hadd : addById byId block = none := by
          rw [addById, hid]
          exact if_pos hmem
        have hnot : ¬ (Dict.keys byId ++ id :: usableIds blocks).Nodup := fun hnodup =>
          (List.nodup_append.mp hnodup).2.2 id hmem id List.mem_cons_self rfl
        rw [hadd]
        exact ⟨fun hnone => absurd hnone (Option.some_ne_none table).symm,
          fun hboth => absurd hboth.1 hnot⟩
      · have hadd : addById byId block = some (byId ++ [(id, block)]) := by
          rw [addById, hid]
          exact (if_neg hmem).trans (congrArg some (Dict.set_of_notMem hmem block))
        have hkeys : Dict.keys (byId ++ [(id, block)]) = Dict.keys byId ++ [id] :=
          by simp [Dict.keys]
        have hnodup : (Dict.keys (byId ++ [(id, block)])).Nodup := by
          rw [← Dict.set_of_notMem hmem block]
          exact Dict.nodup_keys_set h id block
        rw [hadd, Option.bind_eq_bind, Option.bind_some, ih _ hnodup, hkeys]
        simp [blockEntries, hid]

/-- Distinct IDs make a table of the blocks. -/
theorem blocksById_eq_some_iff {table : Dict Str (TextBlock α)} : blocksById blocks = some table ↔
    (usableIds blocks).Nodup ∧ table = blockEntries blocks :=
  foldlM_addById blocks [] table List.nodup_nil

/-- The links that blocks declare under a table. -/
def declaredLinks (byId : Dict Str (TextBlock α)) (blocks : List (TextBlock α)) : Dict Str Str :=
  blocks.filterMap (TextBlock.link byId)

/-- A block links to the block it names, when that block has an id of its
own. -/
theorem link_eq_some_iff {byId : Dict Str (TextBlock α)} {block : TextBlock α} {x y : Str} :
    block.link byId = some (x, y) ↔ block.bid = some x ∧ block.idNext.map strip = some y ∧
      y ≠ [] ∧ y ∈ Dict.keys byId := by
  unfold TextBlock.link
  cases block.idNext.map strip with
  | none => simp
  | some next =>
    cases block.bid with
    | none => simp
    | some id =>
      simp only [Option.some.injEq]
      grind

/-- A block declares one link at most, from its own ID. -/
theorem keys_declaredLinks_sublist (byId : Dict Str (TextBlock α)) (blocks : List (TextBlock α)) :
    (Dict.keys (declaredLinks byId blocks)).Sublist (usableIds blocks) := by
  induction blocks with
  | nil => exact List.Sublist.slnil
  | cons block blocks ih =>
    unfold declaredLinks usableIds at ih ⊢
    cases hlink : block.link byId with
    | none =>
      rw [List.filterMap_cons_none hlink]
      cases hid : block.bid with
      | none => rwa [List.filterMap_cons_none hid]
      | some id =>
        rw [List.filterMap_cons_some hid]
        exact ih.cons id
    | some link =>
      rw [List.filterMap_cons_some hlink,
        List.filterMap_cons_some (link_eq_some_iff.mp hlink).1]
      exact ih.cons_cons link.1

/-- The links are read when no block follows itself and no block is followed
twice. -/
theorem foldlM_addLink (byId : Dict Str (TextBlock α)) (blocks : List (TextBlock α))
    (links all : Links) (hids : (Dict.keys links.succ ++ usableIds blocks).Nodup)
    (hrefs : links.referenced.Nodup) : blocks.foldlM (addLink byId) links = some all ↔
      (∀ link ∈ declaredLinks byId blocks, link.2 ≠ link.1) ∧
        (links.referenced ++ (declaredLinks byId blocks).map Prod.snd).Nodup ∧
        all = ⟨links.succ ++ declaredLinks byId blocks,
          links.referenced ++ (declaredLinks byId blocks).map Prod.snd⟩ := by
  -- induction on the blocks, the links read so far standing in the accumulator
  induction blocks generalizing links with
  | nil =>
    show some links = some all ↔ _
    simp [declaredLinks, hrefs, eq_comm]
  | cons block blocks ih =>
    have hrest : (Dict.keys links.succ ++ usableIds blocks).Nodup := by
      refine hids.sublist (List.Sublist.append_left ?_ _)
      unfold usableIds
      exact (List.sublist_cons_self block blocks).filterMap _
    rw [List.foldlM_cons]
    cases hlink : block.link byId with
    | none =>
      have hadd : addLink byId links block = some links := by rw [addLink, hlink]
      have hlinks : declaredLinks byId (block :: blocks) = declaredLinks byId blocks :=
        List.filterMap_cons_none hlink
      rw [hadd, Option.bind_eq_bind, Option.bind_some, ih links hrest hrefs, hlinks]
    | some link =>
      obtain ⟨x, y⟩ := link
      have hid := (link_eq_some_iff.mp hlink).1
      have hlinks : declaredLinks byId (block :: blocks) = (x, y) :: declaredLinks byId blocks :=
        List.filterMap_cons_some hlink
      have hids' : usableIds (block :: blocks) = x :: usableIds blocks :=
        List.filterMap_cons_some hid
      rw [hids'] at hids
      rw [hlinks]
      -- a block that follows itself, or one already followed, stops the fold
      by_cases hbad : y = x ∨ y ∈ links.referenced
      · have hadd : addLink byId links block = none := by
          rw [addLink, hlink]
          exact if_pos hbad
        rw [hadd]
        constructor
        · exact fun hnone => nomatch hnone
        · rintro ⟨hself, hnodup, -⟩
          rcases hbad with hxy | hmem
          · exact absurd hxy (hself (x, y) List.mem_cons_self)
          · exact absurd rfl ((List.nodup_append.mp hnodup).2.2 y hmem y List.mem_cons_self)
      · have hnew : x ∉ Dict.keys links.succ := fun hmem =>
          (List.nodup_append.mp hids).2.2 x hmem x List.mem_cons_self rfl
        have hadd : addLink byId links block =
            some ⟨links.succ ++ [(x, y)], links.referenced ++ [y]⟩ := by
          rw [addLink, hlink]
          apply (if_neg hbad).trans
          rw [Dict.set_of_notMem hnew]
        rw [not_or] at hbad
        have hrefs' : (links.referenced ++ [y]).Nodup :=
          List.nodup_append.mpr ⟨hrefs, List.nodup_singleton y, fun z hz y' hy' hzy =>
            hbad.2 (List.mem_singleton.mp hy' ▸ hzy ▸ hz)⟩
        have hkeys : (Dict.keys (links.succ ++ [(x, y)]) ++ usableIds blocks).Nodup := by
          simpa [Dict.keys] using hids
        rw [hadd, Option.bind_eq_bind, Option.bind_some, ih _ hkeys hrefs']
        simp [hbad.1]

theorem mem_usableIds_iff {id : Str} :
    id ∈ usableIds blocks ↔ ∃ block ∈ blocks, block.bid = some id := List.mem_filterMap

/-- An ID that is usable is not empty. -/
theorem ne_nil_of_bid {block : TextBlock α} {id : Str} (h : block.bid = some id) : id ≠ [] := by
  obtain ⟨-, hne⟩ := Option.filter_eq_some_iff.mp h
  exact of_decide_eq_true hne

theorem mem_declaredLinks_iff {x y : Str} :
    (x, y) ∈ declaredLinks (blockEntries blocks) blocks ↔ Declares blocks x y := by
  simp only [declaredLinks, List.mem_filterMap, link_eq_some_iff, keys_blockEntries,
    mem_usableIds_iff]
  constructor
  · rintro ⟨a, ha, hx, hnext, -, b, hb, hy⟩
    exact ⟨a, ha, b, hb, hx, hy, hnext⟩
  · rintro ⟨a, ha, b, hb, hx, hy, hnext⟩
    exact ⟨a, ha, hx, hnext, ne_nil_of_bid hy, b, hb, hy⟩

/-- Declarations that can be followed: distinct IDs, and links without
self-reference, convergence or cycle. -/
structure Consistent (blocks : List (TextBlock α)) : Prop where
  distinct : (usableIds blocks).Nodup
  noSelf : ∀ x, ¬ Declares blocks x x
  noConvergence : Unconverging (Declares blocks)
  noCycle : ∀ x, ¬ TransGen (Declares blocks) x x

/-- The links are read unless one names itself or two converge. -/
theorem linksOf_eq_some_iff (hids : (usableIds blocks).Nodup) {links : Links} :
    linksOf (blockEntries blocks) blocks = some links ↔
      (∀ x, ¬ Declares blocks x x) ∧ Unconverging (Declares blocks) ∧
        links = ⟨declaredLinks (blockEntries blocks) blocks,
          (declaredLinks (blockEntries blocks) blocks).map Prod.snd⟩ := by
  have hkeys := hids.sublist (keys_declaredLinks_sublist (blockEntries blocks) blocks)
  have hnodup : (declaredLinks (blockEntries blocks) blocks).Nodup := List.Nodup.of_map _ hkeys
  have hself : (∀ link ∈ declaredLinks (blockEntries blocks) blocks, link.2 ≠ link.1) ↔
      ∀ x, ¬ Declares blocks x x := by
    constructor
    · exact fun h x hx => h (x, x) (mem_declaredLinks_iff.mpr hx) rfl
    · rintro h ⟨x, y⟩ hlink hsame
      obtain rfl : y = x := hsame
      exact h y (mem_declaredLinks_iff.mp hlink)
  have hconverge : ((declaredLinks (blockEntries blocks) blocks).map Prod.snd).Nodup ↔
      Unconverging (Declares blocks) := by
    rw [List.nodup_map_iff_inj_on hnodup]
    constructor
    · intro h x y z hx hy
      have := h _ (mem_declaredLinks_iff.mpr hx) _ (mem_declaredLinks_iff.mpr hy) rfl
      exact congrArg Prod.fst this
    · rintro h ⟨x, z⟩ hx ⟨y, z'⟩ hy hsame
      obtain rfl : z = z' := hsame
      rw [h (mem_declaredLinks_iff.mp hx) (mem_declaredLinks_iff.mp hy)]
  have hfold := foldlM_addLink (blockEntries blocks) blocks ⟨[], []⟩ links hids List.nodup_nil
  rw [List.nil_append, List.nil_append, hself, hconverge] at hfold
  exact hfold

end Declared

/-! ## One chain -/

section Walk

variable {blocks : List (TextBlock α)} {succ : Dict Str Str}

/-- Steps of the successor table. -/
def Follows (succ : Dict Str Str) (x y : Str) : Prop := Dict.get? succ x = some y

theorem get?_blockEntries (hids : (usableIds blocks).Nodup) {id : Str} {block : TextBlock α} :
    Dict.get? (blockEntries blocks) id = some block ↔ block ∈ blocks ∧ block.bid = some id := by
  rw [← mem_blockEntries_iff]
  exact ⟨Dict.mem_of_get?, Dict.get?_of_mem (by rwa [keys_blockEntries])⟩

/-- The blocks of a chain from one ID on. -/
structure IsChainFrom (blocks : List (TextBlock α)) (step : Str → Str → Prop) (cur : Str)
    (chain : List (TextBlock α)) : Prop where
  member : ∀ block ∈ chain, block ∈ blocks
  nodup : (usableIds chain).Nodup
  /-- The blocks reached. -/
  reached : ∀ x, x ∈ usableIds chain ↔ ReflTransGen step cur x
  /-- The first is the block of the ID, the others are named by one before. -/
  first : ∃ block rest, chain = block :: rest ∧ block.bid = some cur ∧
    ∀ other ∈ rest, ∃ x y, step x y ∧ other.bid = some y
  adjacent : ∀ a ∈ chain, ∀ x y, a.bid = some x → step x y →
    ∃ b, b.bid = some y ∧ [a, b] <:+: chain

/-- A block that names no successor is a chain. -/
theorem isChainFrom_singleton {step : Str → Str → Prop} {cur : Str} {block : TextBlock α}
    (hblock : block ∈ blocks) (hid : block.bid = some cur) (hlast : ∀ y, ¬ step cur y) :
    IsChainFrom blocks step cur [block] := by
  have hone : usableIds [block] = [cur] := List.filterMap_cons_some hid
  refine ⟨fun other hother => ?member, ?nodup, fun x => ?reached,
    ⟨block, [], rfl, hid, fun _ h => nomatch h⟩, fun a ha x y hx hy => ?adjacent⟩
  case member => rwa [List.mem_singleton.mp hother]
  case nodup =>
    rw [hone]
    exact List.nodup_singleton cur
  case reached =>
    rw [hone, List.mem_singleton]
    constructor
    · rintro rfl
      exact .refl
    · intro hx
      rcases hx.cases_head with rfl | ⟨y, hy, -⟩
      · rfl
      · exact absurd hy (hlast y)
  case adjacent =>
    rw [List.mem_singleton.mp ha, hid] at hx
    cases hx
    exact absurd hy (hlast y)

/-- A block in front of the chain of its only successor is a chain, if it is
not led back to. -/
theorem IsChainFrom.cons {step : Str → Str → Prop} {cur next : Str} {block : TextBlock α}
    {chain : List (TextBlock α)} (h : IsChainFrom blocks step next chain)
    (hblock : block ∈ blocks) (hid : block.bid = some cur) (hstep : step cur next)
    (honly : ∀ y, step cur y → next = y) (hacyclic : ¬ TransGen step cur cur) :
    IsChainFrom blocks step cur (block :: chain) := by
  have hcons : usableIds (block :: chain) = cur :: usableIds chain := List.filterMap_cons_some hid
  obtain ⟨first, rest, hfirst, hfirstId, hrest⟩ := h.first
  refine ⟨fun other hother => ?member, ?nodup, fun x => ?reached,
    ⟨block, chain, rfl, hid, fun other hother => ?first⟩, fun a ha x y hx hy => ?adjacent⟩
  case member =>
    rcases List.mem_cons.mp hother with rfl | hother
    · exact hblock
    · exact h.member other hother
  case nodup =>
    rw [hcons]
    refine List.nodup_cons.mpr ⟨fun hmem => ?_, h.nodup⟩
    exact hacyclic (TransGen.head' hstep ((h.reached cur).mp hmem))
  case reached =>
    rw [hcons, List.mem_cons, h.reached]
    constructor
    · rintro (rfl | hx)
      · exact .refl
      · exact hx.head hstep
    · intro hx
      rcases hx.cases_head with rfl | ⟨y, hy, hyx⟩
      · exact .inl rfl
      · obtain rfl := honly y hy
        exact .inr hyx
  case first =>
    rw [hfirst] at hother
    rcases List.mem_cons.mp hother with rfl | hother
    · exact ⟨cur, next, hstep, hfirstId⟩
    · exact hrest other hother
  case adjacent =>
    rcases List.mem_cons.mp ha with rfl | ha
    · -- the block itself: its successor is the first of the chain
      rw [hid] at hx
      cases hx
      obtain rfl := honly y hy
      exact ⟨first, hfirstId, by rw [hfirst]; exact ⟨[], rest, rfl⟩⟩
    · obtain ⟨b, hb, hpair⟩ := h.adjacent a ha x y hx hy
      exact ⟨b, hb, hpair.trans (List.suffix_cons block chain).isInfix⟩

/-- **A walk from an unvisited head adds its whole chain.** -/
theorem walkChain_spec (hids : (usableIds blocks).Nodup)
    (hsucc : ∀ x y, Follows succ x y → y ∈ usableIds blocks) (turns : Nat) (cur : Str)
    (order : Ordered α) (hcur : cur ∈ usableIds blocks)
    (hvisited : order.visited ⊆ usableIds blocks) (hnodup : order.visited.Nodup)
    (hnew : ∀ y, ReflTransGen (Follows succ) cur y → y ∉ order.visited)
    (hacyclic : ∀ y, ReflTransGen (Follows succ) cur y → ¬ TransGen (Follows succ) y y)
    (hturns : (usableIds blocks).length < turns + order.visited.length) :
    ∃ chain, walkChain (blockEntries blocks) succ turns cur order =
        some ⟨order.visited ++ usableIds chain, order.blocks ++ chain⟩ ∧
      IsChainFrom blocks (Follows succ) cur chain := by
  induction turns generalizing cur order with
  | zero =>
    -- more IDs were visited than there are
    have := (List.subperm_of_subset hnodup hvisited).length_le
    omega
  | succ turns ih =>
    have hnot := hnew cur .refl
    obtain ⟨block, hblock, hid⟩ := mem_usableIds_iff.mp hcur
    rw [walkChain, if_neg hnot, (get?_blockEntries hids).mpr ⟨hblock, hid⟩, Option.bind_some]
    dsimp only
    cases hnext : Dict.get? succ cur with
    | none =>
      have hone : usableIds [block] = [cur] := List.filterMap_cons_some hid
      refine ⟨[block], by rw [hone], isChainFrom_singleton hblock hid fun y hy => ?_⟩
      rw [Follows, hnext] at hy
      cases hy
    | some next =>
      have hstep : Follows succ cur next := hnext
      have hreach : ∀ y, ReflTransGen (Follows succ) next y → ReflTransGen (Follows succ) cur y :=
        fun y hy => hy.head hstep
      have hvisited' : order.visited ++ [cur] ⊆ usableIds blocks :=
        List.append_subset.mpr ⟨hvisited, fun x hx => List.mem_singleton.mp hx ▸ hcur⟩
      have hnodup' : (order.visited ++ [cur]).Nodup := by
        refine List.nodup_append.mpr ⟨hnodup, List.nodup_singleton cur, ?_⟩
        rintro x hx y hy rfl
        exact hnot (List.mem_singleton.mp hy ▸ hx)
      have hnew' : ∀ y, ReflTransGen (Follows succ) next y → y ∉ order.visited ++ [cur] := by
        intro y hy hmem
        rcases List.mem_append.mp hmem with hold | hown
        · exact hnew y (hreach y hy) hold
        · -- the walk would be back where it started
          rw [List.mem_singleton.mp hown] at hy
          exact hacyclic cur .refl (TransGen.head' hstep hy)
      have hroom : (usableIds blocks).length < turns + (order.visited ++ [cur]).length := by
        rw [List.length_append, List.length_singleton]
        omega
      obtain ⟨chain, hwalk, hchain⟩ := ih next ⟨order.visited ++ [cur], order.blocks ++ [block]⟩
        (hsucc _ _ hstep) hvisited' hnodup' hnew' (fun y hy => hacyclic y (hreach y hy)) hroom
      refine ⟨block :: chain, ?_, hchain.cons hblock hid hstep
        (fun y hy => Option.some.inj (hnext.symm.trans hy)) (hacyclic cur .refl)⟩
      have hcons : usableIds (block :: chain) = cur :: usableIds chain :=
        List.filterMap_cons_some hid
      apply hwalk.trans
      rw [hcons, List.append_assoc, List.append_assoc]
      rfl

end Walk

/-! ## All blocks -/

section Visit

variable {blocks : List (TextBlock α)}

/-- Does a block of the container name this one as its successor? -/
def isReferenced (blocks : List (TextBlock α)) (block : TextBlock α) : Bool :=
  blocks.any fun a => a.bid.isSome && block.bid.isSome && a.idNext.map strip = block.bid

theorem isReferenced_iff {block : TextBlock α} (hblock : block ∈ blocks) :
    isReferenced blocks block = true ↔ ∃ x y, Declares blocks x y ∧ block.bid = some y := by
  simp only [isReferenced, List.any_eq_true, Bool.and_eq_true, decide_eq_true_eq,
    Option.isSome_iff_exists]
  constructor
  · rintro ⟨a, ha, ⟨⟨x, hx⟩, y, hy⟩, hnext⟩
    exact ⟨x, y, ⟨a, ha, block, hblock, hx, hy, hnext.trans hy⟩, hy⟩
  · rintro ⟨x, y, ⟨a, ha, b, hb, hx, -, hnext⟩, hy⟩
    exact ⟨a, ha, ⟨⟨x, hx⟩, y, hy⟩, hnext.trans hy.symm⟩

/-- The links as they are read. -/
def readLinks (blocks : List (TextBlock α)) : Links :=
  ⟨declaredLinks (blockEntries blocks) blocks,
    (declaredLinks (blockEntries blocks) blocks).map Prod.snd⟩

theorem mem_referenced_iff {y : Str} :
    y ∈ (readLinks blocks).referenced ↔ ∃ x, Declares blocks x y := by
  simp only [readLinks, List.mem_map, Prod.exists, mem_declaredLinks_iff]
  constructor
  · rintro ⟨x, y, hxy, rfl⟩
    exact ⟨x, hxy⟩
  · rintro ⟨x, hxy⟩
    exact ⟨x, y, hxy, rfl⟩

theorem follows_readLinks (hids : (usableIds blocks).Nodup) :
    Follows (readLinks blocks).succ = Declares blocks := by
  have hkeys := hids.sublist (keys_declaredLinks_sublist (blockEntries blocks) blocks)
  funext x y
  rw [← mem_declaredLinks_iff]
  exact propext ⟨Dict.mem_of_get?, Dict.get?_of_mem hkeys⟩

theorem mem_of_declares {x y : Str} (h : Declares blocks x y) :
    x ∈ usableIds blocks ∧ y ∈ usableIds blocks := by
  obtain ⟨a, ha, b, hb, hx, hy, -⟩ := h
  exact ⟨mem_usableIds_iff.mpr ⟨a, ha, hx⟩, mem_usableIds_iff.mpr ⟨b, hb, hy⟩⟩

/-- What is in order once some blocks of the document were visited. -/
structure Visited (blocks done : List (TextBlock α)) (order : Ordered α) : Prop where
  ids : order.visited = usableIds order.blocks
  nodup : order.visited.Nodup
  member : ∀ block ∈ order.blocks, block ∈ blocks
  /-- Blocks that none names stand as in the document. -/
  heads : order.blocks.filter (!isReferenced blocks ·) = done.filter (!isReferenced blocks ·)
  reached : ∀ x, x ∈ order.visited ↔ ∃ h ∈ usableIds done, IsHead (Declares blocks) h ∧
    ReflTransGen (Declares blocks) h x
  adjacent : ∀ a ∈ order.blocks, ∀ x y, a.bid = some x → Declares blocks x y →
    ∃ b, b.bid = some y ∧ [a, b] <:+: order.blocks

/-- Successors stand together in a list and one behind it, if they do in each. -/
theorem adjacent_append {step : Str → Str → Prop} {before after : List (TextBlock α)}
    (hbefore : ∀ a ∈ before, ∀ x y, a.bid = some x → step x y →
      ∃ b, b.bid = some y ∧ [a, b] <:+: before)
    (hafter : ∀ a ∈ after, ∀ x y, a.bid = some x → step x y →
      ∃ b, b.bid = some y ∧ [a, b] <:+: after) :
    ∀ a ∈ before ++ after, ∀ x y, a.bid = some x → step x y →
      ∃ b, b.bid = some y ∧ [a, b] <:+: before ++ after := by
  intro a ha x y hx hy
  rcases List.mem_append.mp ha with ha | ha
  · obtain ⟨b, hb, hpair⟩ := hbefore a ha x y hx hy
    exact ⟨b, hb, hpair.trans (List.prefix_append _ _).isInfix⟩
  · obtain ⟨b, hb, hpair⟩ := hafter a ha x y hx hy
    exact ⟨b, hb, hpair.trans (List.suffix_append _ _).isInfix⟩

section Turn

variable {done rest : List (TextBlock α)} {block : TextBlock α} {order : Ordered α}

/-- A block without an ID is put behind what is in order. -/
theorem Visited.add_anonymous (h : Visited blocks done order) (hblock : block ∈ blocks)
    (hid : block.bid = none) :
    Visited blocks (done ++ [block]) { order with blocks := order.blocks ++ [block] } := by
  have hfree : isReferenced blocks block = false := by simp [isReferenced, hid]
  refine ⟨?_, h.nodup, ?_, ?_, ?_, adjacent_append h.adjacent fun a ha x y hx _ => ?_⟩
  · simp [h.ids, usableIds, hid]
  · simpa [or_imp, forall_and, hblock] using h.member
  · simp [h.heads, hfree]
  · simpa [usableIds, hid] using h.reached
  · rw [List.mem_singleton.mp ha, hid] at hx
    cases hx

/-- A block that another names is left to the chain it stands in. -/
theorem Visited.pass_referenced (h : Visited blocks done order) (hblock : block ∈ blocks) {id : Str}
    (hid : block.bid = some id) (hnamed : id ∈ (readLinks blocks).referenced) :
    Visited blocks (done ++ [block]) order := by
  obtain ⟨x, hx⟩ := mem_referenced_iff.mp hnamed
  have hreferenced := (isReferenced_iff hblock).mpr ⟨x, id, hx, hid⟩
  have hids' : usableIds (done ++ [block]) = usableIds done ++ [id] := by simp [usableIds, hid]
  refine ⟨h.ids, h.nodup, h.member, ?_, fun y => ?_, h.adjacent⟩
  · simp [h.heads, hreferenced]
  · rw [h.reached, hids']
    constructor
    · rintro ⟨head, hhead, hrest⟩
      exact ⟨head, List.mem_append_left _ hhead, hrest⟩
    · rintro ⟨head, hhead, hfree, hreach⟩
      rcases List.mem_append.mp hhead with hhead | hown
      · exact ⟨head, hhead, hfree, hreach⟩
      · rw [List.mem_singleton.mp hown] at hfree
        exact absurd hx (hfree x)

/-- A head is put behind what is in order, with its chain. -/
theorem Visited.add_chain (hids : (usableIds blocks).Nodup) (h : Visited blocks done order)
    (hblock : block ∈ blocks) {id : Str} (hid : block.bid = some id)
    (hhead : IsHead (Declares blocks) id)
    (hnew : ∀ y, ReflTransGen (Declares blocks) id y → y ∉ order.visited)
    {chain : List (TextBlock α)} (hchain : IsChainFrom blocks (Declares blocks) id chain) :
    Visited blocks (done ++ [block])
      ⟨order.visited ++ usableIds chain, order.blocks ++ chain⟩ := by
  have hids' : usableIds (done ++ [block]) = usableIds done ++ [id] := by simp [usableIds, hid]
  refine ⟨?ids, ?nodup, ?member, ?heads, fun y => ?reached,
    adjacent_append h.adjacent hchain.adjacent⟩
  case ids => simp [h.ids, usableIds]
  case nodup =>
    refine List.nodup_append.mpr ⟨h.nodup, hchain.nodup, ?_⟩
    rintro y hy z hz rfl
    exact hnew y ((hchain.reached y).mp hz) hy
  case member =>
    intro b hb
    rcases List.mem_append.mp hb with hb | hb
    · exact h.member b hb
    · exact hchain.member b hb
  case heads =>
    -- of the chain only the first block is one that none names
    obtain ⟨first, others, rfl, hfirstId, hothers⟩ := hchain.first
    have hsame : first = block := by
      have hfirst := (get?_blockEntries hids).mpr
        ⟨hchain.member first List.mem_cons_self, hfirstId⟩
      exact Option.some.inj (hfirst.symm.trans ((get?_blockEntries hids).mpr ⟨hblock, hid⟩))
    subst hsame
    have hrest : others.filter (!isReferenced blocks ·) = [] := by
      refine List.filter_eq_nil_iff.mpr fun other hother => ?_
      obtain ⟨x, y, hxy, hy⟩ := hothers other hother
      have hin := hchain.member other (List.mem_cons_of_mem _ hother)
      simp [(isReferenced_iff hin).mpr ⟨x, y, hxy, hy⟩]
    have hsingle : (first :: others).filter (!isReferenced blocks ·) =
        [first].filter (!isReferenced blocks ·) := by
      rw [List.filter_cons, List.filter_cons, hrest, List.filter_nil]
    rw [List.filter_append, List.filter_append, h.heads, hsingle]
  case reached =>
    rw [List.mem_append, h.reached, hchain.reached, hids']
    constructor
    · rintro (⟨head, hin, hrest⟩ | hreach)
      · exact ⟨head, List.mem_append_left _ hin, hrest⟩
      · exact ⟨id, List.mem_append_right _ (List.mem_singleton_self id), hhead, hreach⟩
    · rintro ⟨head, hin, hfree, hreach⟩
      rcases List.mem_append.mp hin with hin | hown
      · exact .inl ⟨head, hin, hfree, hreach⟩
      · exact .inr (List.mem_singleton.mp hown ▸ hreach)

theorem Visited.subset (h : Visited blocks done order) : order.visited ⊆ usableIds blocks := by
  rw [h.ids]
  intro y hy
  obtain ⟨b, hb, hby⟩ := mem_usableIds_iff.mp hy
  exact mem_usableIds_iff.mpr ⟨b, h.member b hb, hby⟩

/-- No other head reaches what an unvisited one does. -/
theorem Visited.notMem_of_reached (hids : (usableIds blocks).Nodup)
    (hconverge : Unconverging (Declares blocks)) (hsplit : blocks = done ++ block :: rest)
    (h : Visited blocks done order) {id : Str} (hid : block.bid = some id)
    (hhead : IsHead (Declares blocks) id) {y : Str} (hy : ReflTransGen (Declares blocks) id y) :
    y ∉ order.visited := by
  intro hmem
  obtain ⟨head, hin, hfree, hreach⟩ := (h.reached y).mp hmem
  have hsame : head = id := head_unique hconverge hfree hhead hreach hy
  have hall : usableIds blocks = usableIds done ++ id :: usableIds rest := by
    rw [hsplit]
    simp [usableIds, hid]
  rw [hall] at hids
  exact (List.nodup_append.mp hids).2.2 id (hsame ▸ hin) id List.mem_cons_self rfl

/-- **One block of the document**, with its chain if it heads one. -/
theorem Visited.visit (hids : (usableIds blocks).Nodup) (hconverge : Unconverging (Declares blocks))
    (hsplit : blocks = done ++ block :: rest) (h : Visited blocks done order) :
    ∃ order', visitBlock (blockEntries blocks) (readLinks blocks) (blocks.length + 1) order block =
        some order' ∧ Visited blocks (done ++ [block]) order' := by
  have hblock : block ∈ blocks := by simp [hsplit]
  unfold visitBlock
  cases hid : block.bid with
  | none => exact ⟨_, rfl, h.add_anonymous hblock hid⟩
  | some id =>
    dsimp only
    by_cases hnamed : id ∈ (readLinks blocks).referenced
    · rw [if_pos (.inr hnamed)]
      exact ⟨order, rfl, h.pass_referenced hblock hid hnamed⟩
    · have hhead : IsHead (Declares blocks) id :=
        fun x hx => hnamed (mem_referenced_iff.mpr ⟨x, hx⟩)
      have hnew : ∀ y, ReflTransGen (Declares blocks) id y → y ∉ order.visited :=
        fun y => h.notMem_of_reached hids hconverge hsplit hid hhead
      have hnot : ¬ (id ∈ order.visited ∨ id ∈ (readLinks blocks).referenced) :=
        not_or.mpr ⟨hnew id .refl, hnamed⟩
      have hturns : (usableIds blocks).length < blocks.length + 1 + order.visited.length := by
        have := List.length_filterMap_le TextBlock.bid blocks
        unfold usableIds
        omega
      have hsucc := follows_readLinks hids
      obtain ⟨chain, hwalk, hchain⟩ := @walkChain_spec α blocks (readLinks blocks).succ hids
        (by rw [hsucc]; exact fun x y hxy => (mem_of_declares hxy).2) (blocks.length + 1) id order
        (mem_usableIds_iff.mpr ⟨block, hblock, hid⟩) h.subset h.nodup (by rwa [hsucc])
        (by rw [hsucc]; exact fun y hy => not_cyclic_of_head hconverge hhead hy) hturns
      rw [if_neg hnot]
      exact ⟨_, hwalk, h.add_chain hids hblock hid hhead hnew (hsucc ▸ hchain)⟩

end Turn

/-- **Every block is visited**, and the walk ends. -/
theorem exists_visited (hids : (usableIds blocks).Nodup)
    (hconverge : Unconverging (Declares blocks)) : ∃ order,
      blocks.foldlM (visitBlock (blockEntries blocks) (readLinks blocks) (blocks.length + 1))
        ⟨[], []⟩ = some order ∧ Visited blocks blocks order := by
  have hfold : ∀ (rest done : List (TextBlock α)) (order : Ordered α), blocks = done ++ rest →
      Visited blocks done order → ∃ order',
        rest.foldlM (visitBlock (blockEntries blocks) (readLinks blocks) (blocks.length + 1))
          order = some order' ∧ Visited blocks blocks order' := by
    intro rest
    induction rest with
    | nil =>
      intro done order hsplit h
      rw [List.append_nil] at hsplit
      exact ⟨order, rfl, hsplit ▸ h⟩
    | cons block rest ih =>
      intro done order hsplit h
      obtain ⟨next, hnext, hvisited⟩ := h.visit hids hconverge hsplit
      obtain ⟨order', hrest, hall⟩ := ih (done ++ [block]) next (by simp [hsplit]) hvisited
      refine ⟨order', ?_, hall⟩
      rw [List.foldlM_cons, hnext]
      exact hrest
  refine hfold blocks [] ⟨[], []⟩ rfl ⟨rfl, List.nodup_nil, by simp, rfl, fun x => ?_, by simp⟩
  simp [usableIds]

end Visit

/-! ## The reading order -/

section Reading

variable {blocks : List (TextBlock α)} {order : Ordered α}

/-- Blocks of the container, split into those with an ID and those without. -/
theorem filter_isSome_bid (hids : (usableIds blocks).Nodup) {l : List (TextBlock α)}
    (hl : ∀ block ∈ l, block ∈ blocks) :
    l.filter (·.bid.isSome) = (usableIds l).filterMap (Dict.get? (blockEntries blocks)) := by
  rw [usableIds, List.filterMap_filterMap, ← List.filterMap_eq_filter]
  refine List.filterMap_congr fun block hblock => ?_
  cases hid : block.bid with
  | none => simp [Option.guard, hid]
  | some id =>
    have hget := (get?_blockEntries hids).mpr ⟨hl block hblock, hid⟩
    simp [Option.guard, hid, hget]

theorem length_usableIds (l : List (TextBlock α)) :
    (usableIds l).length = (l.filter (·.bid.isSome)).length := by
  rw [usableIds, List.length_filterMap_eq_countP, List.countP_eq_length_filter]

theorem Visited.filter_free (h : Visited blocks blocks order) :
    order.blocks.filter (! ·.bid.isSome) = blocks.filter (! ·.bid.isSome) := by
  have hfree : ∀ l : List (TextBlock α), l.filter (! ·.bid.isSome) =
      (l.filter (!isReferenced blocks ·)).filter (! ·.bid.isSome) := by
    intro l
    rw [List.filter_filter]
    refine List.filter_congr fun block _ => ?_
    cases hid : block.bid <;> simp [isReferenced, hid]
  rw [hfree, h.heads, ← hfree]

/-- **When every ID was visited the order is a permutation.** -/
theorem Visited.perm (hids : (usableIds blocks).Nodup) (h : Visited blocks blocks order)
    (hall : usableIds blocks ⊆ order.visited) : order.blocks.Perm blocks := by
  have hperm : (usableIds order.blocks).Perm (usableIds blocks) := by
    rw [← h.ids]
    refine (List.perm_ext_iff_of_nodup h.nodup hids).mpr fun x => ⟨fun hx => ?_, fun hx => hall hx⟩
    rw [h.ids] at hx
    obtain ⟨block, hblock, hid⟩ := mem_usableIds_iff.mp hx
    exact mem_usableIds_iff.mpr ⟨block, h.member block hblock, hid⟩
  have hnamed : (order.blocks.filter (·.bid.isSome)).Perm (blocks.filter (·.bid.isSome)) := by
    rw [filter_isSome_bid hids h.member, filter_isSome_bid hids fun _ hblock => hblock]
    exact hperm.filterMap _
  have hboth := hnamed.append (.of_eq h.filter_free)
  exact (List.filter_append_perm _ _).symm.trans (hboth.trans (List.filter_append_perm _ _))

/-- An order of full length has visited every ID. -/
theorem Visited.all_of_length (h : Visited blocks blocks order)
    (hlength : order.blocks.length = blocks.length) : usableIds blocks ⊆ order.visited := by
  have hsplit : ∀ l : List (TextBlock α),
      l.length = (usableIds l).length + (l.filter (! ·.bid.isSome)).length := by
    intro l
    rw [length_usableIds, ← List.length_append]
    exact (List.filter_append_perm _ l).length_eq.symm
  have hcount : (usableIds order.blocks).length = (usableIds blocks).length := by
    have horder := hsplit order.blocks
    have hblocks := hsplit blocks
    rw [h.filter_free] at horder
    omega
  have hsub : (usableIds order.blocks).Subperm (usableIds blocks) := by
    refine List.subperm_of_subset (h.ids ▸ h.nodup) fun x hx => ?_
    obtain ⟨block, hblock, hid⟩ := mem_usableIds_iff.mp hx
    exact mem_usableIds_iff.mpr ⟨block, h.member block hblock, hid⟩
  rw [h.ids]
  exact (hsub.perm_of_length_le hcount.ge).symm.subset

/-- **Every ID is visited when there is no cycle, and only then.** -/
theorem Visited.all_iff (hconverge : Unconverging (Declares blocks))
    (h : Visited blocks blocks order) :
    usableIds blocks ⊆ order.visited ↔ ∀ x, ¬ TransGen (Declares blocks) x x := by
  constructor
  · intro hall x hcycle
    obtain ⟨y, hxy, -⟩ := TransGen.head'_iff.mp hcycle
    obtain ⟨head, -, hhead, hreach⟩ := (h.reached x).mp (hall (mem_of_declares hxy).1)
    exact not_cyclic_of_head hconverge hhead hreach hcycle
  · intro hacyclic x hx
    obtain ⟨head, hin, hhead, hreach⟩ := exists_head (List.finite_toSet (usableIds blocks))
      (fun _ _ hstep => (mem_of_declares hstep).1) hacyclic hx
    exact (h.reached x).mpr ⟨head, hin, hhead, hreach⟩

/-- What a reading order may do to the blocks of a container. -/
structure SafeReordering (blocks result : List (TextBlock α)) : Prop where
  perm : result.Perm blocks
  /-- Where the declarations can be followed, a block's successor stands next
  to it. -/
  adjacent : Consistent blocks → ∀ a ∈ blocks, ∀ b ∈ blocks, a.bid.isSome → b.bid.isSome →
    a.idNext.map strip = b.bid → [a, b] <:+: result
  /-- And blocks that none names, heads of chains and others, keep their order. -/
  heads : Consistent blocks →
    result.filter (!isReferenced blocks ·) = blocks.filter (!isReferenced blocks ·)
  /-- Elsewhere the blocks keep their document order. -/
  otherwise : ¬ Consistent blocks → result = blocks

theorem safeReordering_self (h : Consistent blocks → ∀ x y, ¬ Declares blocks x y) :
    SafeReordering blocks blocks where
  perm := .refl _
  adjacent hconsistent a ha b hb hidA hidB hnext := by
    obtain ⟨x, hx⟩ := Option.isSome_iff_exists.mp hidA
    obtain ⟨y, hy⟩ := Option.isSome_iff_exists.mp hidB
    exact absurd ⟨a, ha, b, hb, hx, hy, hnext.trans hy⟩ (h hconsistent x y)
  heads _ := rfl
  otherwise _ := rfl

/-- The blocks as visited, where no cycle kept some from being visited. -/
theorem safeReordering_of_visited (hids : (usableIds blocks).Nodup)
    (hself : ∀ x, ¬ Declares blocks x x) (hconverge : Unconverging (Declares blocks))
    (hvisited : Visited blocks blocks order) :
    SafeReordering blocks
      (if order.blocks.length ≠ blocks.length then blocks else order.blocks) := by
  by_cases hlength : order.blocks.length = blocks.length
  · -- every ID was visited, so there is no cycle
    rw [if_neg (not_not.mpr hlength)]
    have hall := hvisited.all_of_length hlength
    have hperm := hvisited.perm hids hall
    refine ⟨hperm, fun _ a ha b hb hidA hidB hnext => ?_, fun _ => hvisited.heads, fun hnot => ?_⟩
    · obtain ⟨x, hx⟩ := Option.isSome_iff_exists.mp hidA
      obtain ⟨y, hy⟩ := Option.isSome_iff_exists.mp hidB
      obtain ⟨b', hb', hpair⟩ := hvisited.adjacent a (hperm.symm.subset ha) x y hx
        ⟨a, ha, b, hb, hx, hy, hnext.trans hy⟩
      have hin : b' ∈ blocks := hvisited.member b' (hpair.subset (by simp))
      have hsame := (get?_blockEntries hids).mpr ⟨hin, hb'⟩
      rw [(get?_blockEntries hids).mpr ⟨hb, hy⟩] at hsame
      cases hsame
      exact hpair
    · exact absurd ⟨hids, hself, hconverge, (hvisited.all_iff hconverge).mp hall⟩ hnot
  · rw [if_pos hlength]
    have hcyclic : ¬ Consistent blocks := fun hconsistent =>
      hlength (hvisited.perm hids ((hvisited.all_iff hconverge).mpr hconsistent.noCycle)).length_eq
    exact ⟨.refl _, fun h => absurd h hcyclic, fun h => absurd h hcyclic, fun _ => rfl⟩

/-- **Reading order is a safe reordering**: the walk ends, and loses or
repeats no block. -/
theorem safeReordering_blocksInReadingOrder (container : List (LayoutNode α)) :
    ∃ result, blocksInReadingOrder container = some result ∧
      SafeReordering (collectBlocksSkippingMargins container) result := by
  unfold blocksInReadingOrder
  generalize collectBlocksSkippingMargins container = blocks
  unfold orderBlocks
  by_cases hfew : blocks.length < 2
  · rw [if_pos hfew]
    refine ⟨blocks, rfl, safeReordering_self fun hconsistent x y hxy => ?_⟩
    -- one block can only name itself
    obtain ⟨a, ha, b, hb, hx, hy, -⟩ := id hxy
    have hsame : a = b := by
      rcases blocks with _ | ⟨only, _ | ⟨_, _⟩⟩
      · cases ha
      · rw [List.mem_singleton.mp ha, List.mem_singleton.mp hb]
      · exact absurd hfew (by simp)
    rw [hsame] at hx
    obtain rfl : x = y := Option.some.inj (hx.symm.trans hy)
    exact hconsistent.noSelf x hxy
  rw [if_neg hfew]
  cases htable : blocksById blocks with
  | none =>
    refine ⟨blocks, rfl, safeReordering_self fun hconsistent _ _ _ => ?_⟩
    rw [blocksById_eq_some_iff.mpr ⟨hconsistent.distinct, rfl⟩] at htable
    cases htable
  | some byId =>
  obtain ⟨hids, rfl⟩ := blocksById_eq_some_iff.mp htable
  dsimp only
  cases hlinks : linksOf (blockEntries blocks) blocks with
  | none =>
    refine ⟨blocks, rfl, safeReordering_self fun hconsistent _ _ _ => ?_⟩
    rw [(linksOf_eq_some_iff hids).mpr
      ⟨hconsistent.noSelf, hconsistent.noConvergence, rfl⟩] at hlinks
    cases hlinks
  | some links =>
  obtain ⟨hself, hconverge, hread⟩ := (linksOf_eq_some_iff hids).mp hlinks
  obtain rfl : links = readLinks blocks := hread
  dsimp only
  by_cases hempty : (readLinks blocks).succ = []
  · rw [if_pos hempty]
    refine ⟨blocks, rfl, safeReordering_self fun _ x y hxy => ?_⟩
    have hmem := mem_declaredLinks_iff.mpr hxy
    rw [show declaredLinks (blockEntries blocks) blocks = [] from hempty] at hmem
    cases hmem
  rw [if_neg hempty]
  obtain ⟨order, hfold, hvisited⟩ := exists_visited hids hconverge
  rw [hfold]
  exact ⟨_, rfl, safeReordering_of_visited hids hself hconverge hvisited⟩

end Reading

/-- A block under an ID that names another. -/
def chained (id next : String) : TextBlock Unit := ⟨some id.toList, some next.toList, ()⟩

/-- A declared chain overrides the document order. -/
example : blocksInReadingOrder
    [.textBlock (chained "B1" "B3"), .group [.textBlock (chained "B2" "")],
      .textBlock (chained "B3" " B2 ")] =
    some [chained "B1" "B3", chained "B3" " B2 ", chained "B2" ""] := by
  decide +kernel

end Saknussemm.Alto
