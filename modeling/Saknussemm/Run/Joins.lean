import Saknussemm.Run.Turns

/-! # Each join is judged once, on earned texts.

An answered chunk walks the joins it owns: those its targets open on the
page, and those they close from another page.  A join has one owner, and
its owner one turn, so over a run it is judged once at most; and whoever
owns it has an answer for the line that makes it theirs. -/

namespace Saknussemm

open Effects

/-! ## Counting a join -/

/-- Is it a judgement of this join? -/
def Mark.isJoinOf (tail head : LineRef) : Mark → Bool
  | join t h .. => t = tail && h = head
  | _ => false

/-- How often a join was judged. -/
def RunState.judged (s : RunState) (tail head : LineRef) : Nat :=
  s.trail.countP fun entry => entry.2.isJoinOf tail head

theorem isJoin_of_isJoinOf {mark : Mark} {tail head : LineRef}
    (h : mark.isJoinOf tail head = true) : mark.isJoin = true := by
  cases mark <;> grind [Mark.isJoinOf, Mark.isJoin]

theorem judged_eq (s : RunState) (tail head : LineRef) :
    s.judged tail head = s.joins.countP fun entry => entry.2.isJoinOf tail head := by
  rw [RunState.judged, RunState.joins, List.countP_filter]
  refine List.countP_congr fun entry _ => ?_
  simp only [Bool.and_eq_true, iff_self_and]
  exact isJoin_of_isJoinOf

/-- What a judgement leaves in the record. -/
def joinEntry (join : Join) (textById : Dict Str Str) (s : RunState) : Snapshot × Mark :=
  (⟨s.heap, s.producerOps⟩, .join join.tail join.head join.isForward textById)

section Walk

variable [Unicode] {config : GuardConfig} {textById : Dict Str Str}

/-- A visit notes its join, and no other. -/
theorem joins_visitJoin (join : Join) (s : RunState) :
    (visitJoin config join textById s).joins = s.joins ++ [joinEntry join textById s] := by
  have hnote : (s.note (.join join.tail join.head join.isForward textById)).joins =
      s.joins ++ [joinEntry join textById s] := by
    show List.filter _ (s.trail ++ [_]) = _
    rw [List.filter_append]
    rfl
  have hfell : ∀ s, (fallBackJoin join s).joins = s.joins := fun s =>
    (joins_of_trail rfl rfl).trans (joins_of_trail rfl rfl)
  show (reconcileOnePair config join textById s).2.joins = _
  unfold reconcileOnePair
  dsimp only
  split
  · exact (hfell _).trans hnote
  · show RunState.joins (if _ then _ else _) = _
    split
    · exact (hfell _).trans hnote
    · exact ((joins_of_trail rfl rfl).trans (joins_of_trail rfl rfl)).trans hnote

omit [Unicode] in
theorem joins_judgeLine (workspace : PageWorkspace) (line : LineRef) (s : RunState) :
    (judgeLine config workspace textById line s).joins = s.joins := by
  unfold judgeLine
  dsimp only
  split
  · rfl
  · split
    · rfl
    · split <;> exact joins_of_trail rfl rfl

omit [Unicode] in
theorem joins_applyLineAcceptance (workspace : PageWorkspace) (lines : List LineRef)
    (s : RunState) :
    (applyLineAcceptance config workspace textById lines s).joins = s.joins := by
  unfold applyLineAcceptance
  induction lines generalizing s with
  | nil => rfl
  | cons line lines ih => exact (ih _).trans (joins_judgeLine _ _ _)

/-- Joins under their tails, a head to each. -/
structure OneHead (joins : Dict LineRef Join) (tail head : LineRef) : Prop where
  keyed : ∀ member join, joins.get? member = some join → join.tail = member
  onto : ∀ member join, joins.get? member = some join → join.head = head → member = tail
  own : ∀ join, joins.get? tail = some join → join.head = head

/-- **A walk judges each join it comes by once.** -/
theorem judged_walkUnitsReconciling {joins : Dict LineRef Join} {tail head : LineRef}
    (hone : OneHead joins tail head) {members : List LineRef} (hmembers : members.Nodup) :
    ∀ (written : List LineRef) (s : RunState),
      (walkUnitsReconciling config joins textById members (written, s)).2.judged tail head =
        s.judged tail head + if tail ∈ members ∧ head ∉ written ∧
            (joins.get? tail).isSome then 1 else 0 := by
  -- induction on the members still to be visited; `written` is what the walk has settled so far
  induction members with
  | nil => exact fun written s => by simp [walkUnitsReconciling]
  | cons member members ih =>
    intro written s
    obtain ⟨hfresh, hmembers⟩ := List.nodup_cons.mp hmembers
    rw [walkUnitsReconciling, visitMember]
    cases hjoin : joins.get? member with
    | none =>
      rw [ih hmembers]
      have hne : (joins.get? tail).isSome → tail ≠ member := by
        rintro hsome rfl
        rw [hjoin] at hsome
        cases hsome
      congr 2
      grind
    | some join =>
      have hkey := hone.keyed member join hjoin
      dsimp only
      split
      -- a head already written skips the join, so nothing is noted for this member
      · next hwritten =>
        rw [ih hmembers]
        have hskip : tail = member → head ∈ written := by
          rintro rfl
          rw [← hone.own join hjoin]
          exact hwritten
        congr 2
        grind
      · next hunwritten =>
        rw [ih hmembers, judged_eq, joins_visitJoin, List.countP_append, ← judged_eq,
          List.countP_singleton]
        -- only the tail's own join is the one counted, and it is met once
        by_cases hown : member = tail
        · obtain rfl := hown
          have hhead := hone.own join hjoin
          have hcounted : (joinEntry join textById s).2.isJoinOf member head = true := by
            simp [joinEntry, Mark.isJoinOf, hkey, hhead]
          rw [if_pos hcounted, if_neg (fun h => hfresh h.1),
            if_pos ⟨List.mem_cons_self, hhead ▸ hunwritten, by simp [hjoin]⟩]
        · have hother : ¬ (joinEntry join textById s).2.isJoinOf tail head = true := by
            simp [joinEntry, Mark.isJoinOf, hkey, hown]
          have hne : join.head ≠ head := fun h => hown (hone.onto member join hjoin h)
          rw [if_neg hother, Nat.add_zero]
          congr 2
          simp only [List.mem_cons, List.mem_append, List.not_mem_nil, or_false, eq_iff_iff]
          grind

end Walk

/-! ## The joins of a document -/

/-- Links were cut at most. -/
def AllCut (h h' : Heap) : Prop := ∀ ref, OnlyCut (h ref) (h' ref)

theorem AllCut.addressed {document : DocumentManifest} {heap : Heap}
    (h : AllCut document.heap heap) : Addressed heap := fun ref =>
  (h ref).ref.trans (addressed_heap document ref)

section Joined

variable {document : DocumentManifest} {page : PageManifest} {heap start : Heap}
  {tail head : LineRef}

/-- A symmetric document reads a link from either end. -/
theorem continues_iff (hsym : LinkSymmetric document.lines) :
    Continues document document.heap tail head ↔ tail ∈ document.refs ∧ head ∈ document.refs ∧
      backwardPartnerRef (document.heap head) = some tail := by
  refine and_congr_right fun htail => and_congr_right fun hhead => ?_
  have hlink := hsym _ (mem_lines_of_mem_refs htail) _ (mem_lines_of_mem_refs hhead)
  rwa [addressed_heap, addressed_heap] at hlink

theorem continues_tail_eq (hsym : LinkSymmetric document.lines) {other : LineRef}
    (h : Continues document document.heap tail head)
    (h' : Continues document document.heap other head) : other = tail := by
  have hback := ((continues_iff hsym).mp h).2.2
  rw [((continues_iff hsym).mp h').2.2] at hback
  exact Option.some.inj hback

theorem continues_head_eq {other : LineRef} (h : Continues document document.heap tail head)
    (h' : Continues document document.heap tail other) : other = head := by
  have hforward := h.2.2
  rw [h'.2.2] at hforward
  exact Option.some.inj hforward

theorem mem_refs_of_mem_page (hpage : page ∈ document.pages) {ref : LineRef}
    (href : ref ∈ page.refs) : ref ∈ document.refs := List.mem_flatMap.mpr ⟨page, hpage, href⟩

/-- Lines of one page id are on one page. -/
theorem mem_page_of_pageId (hdoc : document.Identified)
    (hids : (document.pages.map PageManifest.pageId).Nodup) (hpage : page ∈ document.pages)
    {ref : LineRef} (href : ref ∈ document.refs)
    (hid : ref.pageId = page.pageId) : ref ∈ page.refs := by
  obtain ⟨other, hother, hin⟩ := List.mem_flatMap.mp href
  have hsame : other = page := List.inj_on_of_nodup_map hids hother hpage
    ((hdoc.pageId_of_mem_refs hother hin).symm.trans hid)
  exact hsame ▸ hin

/-- A partner on another page is one of the page's partners. -/
theorem mem_crossPagePartners (hcut : AllCut document.heap start) (hhead : head ∈ page.refs)
    (hid : head.pageId = page.pageId) (htail : tail ∈ document.refs)
    (hback : backwardPartnerRef (start head) = some tail) (hcross : tail.pageId ≠ head.pageId) :
    tail ∈ crossPagePartners document page start := by
  have hown : (start head).pageId = head.pageId := congrArg LineRef.pageId (hcut.addressed head)
  have hpair : pairRef (start head) = some tail := by
    unfold backwardPartnerRef at hback
    split at hback
    · exact hback
    · exact hback
    · cases hback
  have hrefs : tail ∈ document.lines.map lineRef := by
    rw [← addressed_heap document tail]
    exact List.mem_map_of_mem (mem_lines_of_mem_refs htail)
  refine List.mem_eraseDups.mpr (List.mem_filter.mpr ⟨List.mem_filterMap.mpr
    ⟨((start head).hyphenPairLineId, (start head).hyphenPairPageId),
      List.mem_flatMap.mpr ⟨start head, List.mem_map_of_mem hhead, by simp⟩, ?_⟩,
        by simpa using hrefs⟩)
  -- the slot names a page of its own, otherwise the partner would be on the head's page
  unfold pairRef slotRef at hpair
  rcases hline : (start head).hyphenPairLineId with _ | _ | ⟨c, cs⟩
  · rw [hline] at hpair
    cases hpair
  · rw [hline] at hpair
    cases hpair
  · rw [hline] at hpair
    rcases hslot : (start head).hyphenPairPageId with _ | _ | ⟨p, ps⟩
    · rw [hslot] at hpair
      cases hpair
      exact absurd hown hcross
    · rw [hslot] at hpair
      cases hpair
      exact absurd hown hcross
    · rw [hslot] at hpair
      cases hpair
      exact if_neg fun h => hcross (h.trans hid.symm)

variable (hdoc : document.Identified) (hids : (document.pages.map PageManifest.pageId).Nodup)
  (hsym : LinkSymmetric document.lines) (hpage : page ∈ document.pages)
  (hcut : AllCut document.heap heap)

include hdoc hsym hpage hcut

/-- **What a page's chunk may claim is a join of the document.** -/
theorem Claimed.continues {join : Join} (h : Claimed (workspaceOf document page start) heap join) :
    Continues document document.heap join.tail join.head := by
  rcases h.owned with ⟨htail, ref, hforward, hpageId, hfound⟩ | ⟨hhead, hback, -, hpartner⟩
  · have hhead : join.head ∈ page.refs := mem_of_lineById hfound
    have hid : join.head.lineId = ref.lineId := by simpa using List.find?_some hfound
    have hpid : join.head.pageId = ref.pageId := by
      have hown : (heap join.tail).pageId = join.tail.pageId :=
        congrArg LineRef.pageId (hcut.addressed join.tail)
      rw [hpageId, hown, hdoc.pageId_of_mem_refs hpage hhead, hdoc.pageId_of_mem_refs hpage htail]
    have hsame : ref = join.head := by
      cases ref
      cases hjoin : join.head
      grind
    exact ⟨mem_refs_of_mem_page hpage htail, mem_refs_of_mem_page hpage hhead,
      (hcut join.tail).forward_eq (hsame ▸ hforward)⟩
  · have htail : join.tail ∈ document.lines.map lineRef := by
      simpa using (List.mem_filter.mp (List.mem_eraseDups.mp hpartner)).2
    have htail' : join.tail ∈ document.refs := by
      obtain ⟨lm, hlm, href⟩ := List.mem_map.mp htail
      obtain ⟨q, hq, hin⟩ := List.mem_flatMap.mp hlm
      exact mem_refs_of_mem_page hq (href ▸ List.mem_map_of_mem hin)
    exact (continues_iff hsym).mpr ⟨htail', mem_refs_of_mem_page hpage hhead,
      (hcut join.head).backward_eq hback⟩

/-- The join of a line among a chunk's is the document's. -/
theorem oneHead_claimsOf {lines : List LineRef} (hlines : ∀ line ∈ lines, line ∈ page.refs)
    (hlink : Continues document document.heap tail head) :
    OneHead (claimsOf (workspaceOf document page start) heap lines).joins tail head := by
  have hclaimed : ∀ {member join},
      (claimsOf (workspaceOf document page start) heap lines).joins.get?
      member = some join → Continues document document.heap member join.head := by
    intro member join hjoin
    obtain ⟨hclaimed, rfl⟩ := claimed_of_get? hlines hjoin
    exact hclaimed.continues hdoc hsym hpage hcut
  refine ⟨fun member join hjoin => (claimed_of_get? hlines hjoin).2,
    fun member join hjoin hhead => ?_, fun join hjoin => continues_head_eq hlink (hclaimed hjoin)⟩
  exact continues_tail_eq hsym hlink (hhead ▸ hclaimed hjoin)

end Joined

/-! ## Owners -/

/-- The line whose chunk judges a join: its tail on a page, its head across
pages. -/
def joinOwner (tail head : LineRef) : LineRef := if tail.pageId = head.pageId then tail else head

/-- The owner of the join still carries the link. -/
def Carried (heap : Heap) (tail head : LineRef) : Prop :=
  if tail.pageId = head.pageId then forwardPartnerRef (heap tail) = some head
  else backwardPartnerRef (heap head) = some tail

instance (heap : Heap) (tail head : LineRef) : Decidable (Carried heap tail head) :=
  inferInstanceAs (Decidable
    (if tail.pageId = head.pageId then forwardPartnerRef (heap tail) = some head
    else backwardPartnerRef (heap head) = some tail))

theorem Carried.of_cut {h h' : Heap} (hcut : AllCut h h') {tail head : LineRef}
    (hcarried : Carried h' tail head) : Carried h tail head := by
  unfold Carried at hcarried ⊢
  split
  · next hpage =>
    rw [if_pos hpage] at hcarried
    exact (hcut tail).forward_eq hcarried
  · next hpage =>
    rw [if_neg hpage] at hcarried
    exact (hcut head).backward_eq hcarried

/-! ## The lines a chunk's joins live among -/

/-- A pool holds what was added and what it held. -/
theorem mem_foldl_addToPool {refs pool : List LineRef} {ref : LineRef} :
    ref ∈ refs.foldl addToPool pool ↔ ref ∈ pool ∨ ref ∈ refs := by
  induction refs generalizing pool with
  | nil => simp
  | cons r refs ih =>
    rw [List.foldl_cons, ih, addToPool]
    split
    · next hin =>
      rw [List.mem_cons]
      constructor
      · exact Or.imp_right .inr
      · rintro (h | rfl | h)
        · exact .inl h
        · exact .inl hin
        · exact .inr h
    · rw [List.mem_append, List.mem_singleton, List.mem_cons, or_assoc]

theorem nodup_foldl_addToPool {refs pool : List LineRef} (h : pool.Nodup) :
    (refs.foldl addToPool pool).Nodup := by
  induction refs generalizing pool with
  | nil => exact h
  | cons r refs ih =>
    rw [List.foldl_cons]
    apply ih
    unfold addToPool
    split
    · exact h
    · next hnew => exact List.nodup_append.mpr ⟨h, List.nodup_singleton r, by grind⟩

theorem pool_foldl_add (joins : List Join) (claims : Claims) :
    (joins.foldl Claims.add claims).pool =
      (joins.flatMap fun join => [join.tail, join.head]).foldl addToPool claims.pool := by
  induction joins generalizing claims with
  | nil => rfl
  | cons join joins ih => exact ih _

section Pool

variable {workspace : PageWorkspace} {heap : Heap} {lines : List LineRef} {tail : LineRef}

theorem nodup_pool : (claimsOf workspace heap lines).pool.Nodup := by
  rw [claimsOf, pool_foldl_add]
  exact nodup_foldl_addToPool (nodup_foldl_addToPool List.nodup_nil)

/-- Both lines of a join are in the pool it is walked in. -/
theorem mem_pool_of_owned {line : LineRef} (hline : line ∈ lines) {join : Join}
    (howned : join ∈ ownedJoins workspace heap line) :
    join.tail ∈ (claimsOf workspace heap lines).pool ∧
      join.head ∈ (claimsOf workspace heap lines).pool := by
  have hjoin : join ∈ lines.flatMap (ownedJoins workspace heap) :=
    List.mem_flatMap.mpr ⟨line, hline, howned⟩
  rw [claimsOf, pool_foldl_add]
  constructor <;>
    exact mem_foldl_addToPool.mpr (.inr (List.mem_flatMap.mpr ⟨join, hjoin, by simp⟩))

theorem isSome_get?_claimsOf : ((claimsOf workspace heap lines).joins.get? tail).isSome ↔
    ∃ line ∈ lines, ∃ join ∈ ownedJoins workspace heap line, join.tail = tail := by
  rw [claimsOf, joins_foldl_add, Dict.isSome_get?]
  refine (@Dict.mem_keys_foldl_set _ _ _ _ Join.tail id _ _ _).trans ?_
  simp only [Dict.keys, List.map_nil, List.not_mem_nil, false_or, List.mem_flatMap]
  constructor
  · rintro ⟨join, ⟨line, hline, howned⟩, htail⟩
    exact ⟨line, hline, join, howned, htail⟩
  · rintro ⟨line, hline, join, howned, htail⟩
    exact ⟨join, ⟨line, hline, howned⟩, htail⟩

end Pool

/-! ### The walk's order -/

section Order

variable {heap : Heap} {pool : List LineRef} (hheap : Addressed heap) (hpool : pool.Nodup)

include hheap

theorem lineRefs_linesOf : (linesOf heap pool).map lineRef = pool := by
  rw [linesOf, List.map_map]
  exact (List.map_congr_left fun ref _ => hheap ref).trans (List.map_id pool)

include hpool

/-- A line is in one unit at most. -/
theorem nodup_walkOrder : (walkOrder heap pool).Nodup := by
  have hrefs : ((linesOf heap pool).map lineRef).Nodup := by rwa [lineRefs_linesOf hheap]
  refine List.nodup_flatMap.mpr ⟨fun group hgroup => ?_, pairwise_disjoint_deriveHyphenGroups⟩
  obtain ⟨members, hsublist, rfl⟩ := exists_component hrefs hgroup
  exact (perm_groupOf _ _).nodup_iff.mpr (hrefs.sublist hsublist)

/-- Two lines one of which names the other are walked. -/
theorem mem_walkOrder {x y : LineRef} (hx : x ∈ pool) (hy : y ∈ pool) (hne : x ≠ y)
    (hpointer : y ∈ pointers (heap x) ∨ x ∈ pointers (heap y)) : x ∈ walkOrder heap pool := by
  have hrefs : (linesOf heap pool).map lineRef = pool := lineRefs_linesOf hheap
  have hpoints : ∀ {a b}, a ∈ pool → b ∈ pool → b ∈ pointers (heap a) →
      Points (linesOf heap pool) a b := fun {a b} ha hb h =>
    ⟨heap a, List.mem_map_of_mem ha, hheap a, h, hrefs.symm ▸ hb⟩
  have hconnected : Connected (linesOf heap pool) x y := by
    rcases hpointer with h | h
    · exact .rel _ _ (hpoints hx hy h)
    · exact .symm _ _ (.rel _ _ (hpoints hy hx h))
  obtain ⟨group, hgroup, hin, -⟩ := exists_group (hrefs.symm ▸ hpool)
    (hrefs.symm ▸ hx) (hrefs.symm ▸ hy) hne hconnected
  exact List.mem_flatMap.mpr ⟨group, hgroup, hin⟩

end Order

/-! ## Owners -/

section Owned

variable {document : DocumentManifest} {page : PageManifest} {heap start : Heap}
  {tail head : LineRef} {lines : List LineRef}

theorem mem_pointers_of_backward {lm : LineManifest} {ref : LineRef}
    (h : backwardPartnerRef lm = some ref) : ref ∈ pointers lm := by
  unfold backwardPartnerRef at h
  unfold pointers
  split at h
  · simp [h]
  · simp [h]
  · cases h

variable (hdoc : document.Identified) (hids : (document.pages.map PageManifest.pageId).Nodup)
  (hsym : LinkSymmetric document.lines) (hpage : page ∈ document.pages)
  (hcut : AllCut document.heap heap)
  (hlines : ∀ line ∈ lines, line ∈ page.refs) (hlink : Continues document document.heap tail head)

include hdoc hsym hpage hcut hlines hlink

/-- Only the owner's chunk claims the join, and only while its link stands. -/
theorem carried_of_owned {line : LineRef} (hline : line ∈ lines) {join : Join}
    (howned : join ∈ ownedJoins (workspaceOf document page start) heap line)
    (htail : join.tail = tail) : joinOwner tail head = line ∧ Carried heap tail head := by
  have hrefs : line ∈ page.refs := hlines line hline
  have hclaimed := @claimed_of_mem_ownedJoins (workspaceOf document page start) heap line
    join hrefs howned
  have hcontinues := hclaimed.continues hdoc hsym hpage hcut
  rw [htail] at hcontinues
  have hhead := continues_head_eq hlink hcontinues
  have hpageIds : ∀ ref, (heap ref).pageId = ref.pageId := fun ref =>
    congrArg LineRef.pageId (hcut.addressed ref)
  unfold joinOwner Carried
  rcases List.mem_append.mp howned with hout | hin
  · simp only [Option.mem_toList, outgoingJoin, Option.bind_eq_some_iff,
      Option.filter_eq_some_iff, Option.map_eq_some_iff, decide_eq_true_eq] at hout
    obtain ⟨ref, ⟨hforward, hpageId⟩, found, -, rfl⟩ := hout
    obtain rfl : line = tail := htail
    have hsame := (hcut line).forward_eq hforward
    obtain rfl : ref = head := Option.some.inj (hsame.symm.trans hlink.2.2)
    rw [hpageIds] at hpageId
    rw [if_pos hpageId.symm, if_pos hpageId.symm]
    exact ⟨rfl, hforward⟩
  · simp only [Option.mem_toList, incomingJoin, Option.bind_eq_some_iff,
      Option.filter_eq_some_iff, Option.map_eq_some_iff, decide_eq_true_eq] at hin
    obtain ⟨ref, ⟨hbackward, hpageId⟩, found, hlookup, rfl⟩ := hin
    obtain rfl : found = tail := htail
    obtain rfl : line = head := hhead
    have hfound : ref = found := by
      rw [lookupRef, if_neg hpageId] at hlookup
      split at hlookup
      · exact Option.some.inj hlookup
      · cases hlookup
    rw [hpageIds] at hpageId
    rw [if_neg (hfound ▸ hpageId), if_neg (hfound ▸ hpageId)]
    exact ⟨rfl, hfound ▸ hbackward⟩

include hids

/-- **A join is claimed by the chunk of its owner**, while the owner carries
the link. -/
theorem isSome_get?_claimsOf_iff (hstart : AllCut document.heap start)
    (hstarted : AllCut start heap) :
    ((claimsOf (workspaceOf document page start) heap lines).joins.get? tail).isSome ↔
      joinOwner tail head ∈ lines ∧ Carried heap tail head := by
  rw [isSome_get?_claimsOf]
  constructor
  · rintro ⟨line, hline, join, howned, htail⟩
    obtain ⟨howner, hcarried⟩ :=
      carried_of_owned hdoc hsym hpage hcut hlines hlink hline howned htail
    exact ⟨howner ▸ hline, hcarried⟩
  · rintro ⟨howner, hcarried⟩
    have hpageIds : ∀ ref, (heap ref).pageId = ref.pageId := fun ref =>
      congrArg LineRef.pageId (hcut.addressed ref)
    unfold joinOwner at howner
    unfold Carried at hcarried
    by_cases hsame : tail.pageId = head.pageId
    · rw [if_pos hsame] at howner hcarried
      have hrefs := hlines tail howner
      have hhead : head ∈ page.refs := mem_page_of_pageId hdoc hids hpage hlink.2.1
        (hsame.symm.trans (hdoc.pageId_of_mem_refs hpage hrefs))
      refine ⟨tail, howner, ⟨tail, head, (heap tail).hyphenRole = .both⟩,
        List.mem_append_left _ ?_, rfl⟩
      simp only [Option.mem_toList, outgoingJoin, Option.bind_eq_some_iff,
        Option.filter_eq_some_iff, Option.map_eq_some_iff, decide_eq_true_eq]
      refine ⟨head, ⟨hcarried, by rw [hpageIds, hsame]⟩, head, ?_, rfl⟩
      rw [lookupRef, hpageIds, if_pos hsame.symm]
      exact lineById_of_mem_refs hdoc hpage start hhead
    · rw [if_neg hsame] at howner hcarried
      have hrefs := hlines head howner
      refine ⟨head, howner, ⟨tail, head, (heap tail).hyphenRole = .both⟩,
        List.mem_append_right _ ?_, rfl⟩
      simp only [Option.mem_toList, incomingJoin, Option.bind_eq_some_iff,
        Option.filter_eq_some_iff, Option.map_eq_some_iff, decide_eq_true_eq]
      refine ⟨tail, ⟨hcarried, by rw [hpageIds]; exact hsame⟩, tail, ?_, rfl⟩
      rw [lookupRef, hpageIds, if_neg hsame]
      exact if_pos (mem_crossPagePartners hstart hrefs (hdoc.pageId_of_mem_refs hpage hrefs) hlink.1
        ((hstarted head).backward_eq hcarried) hsame)

omit hids in
/-- The tail of a claimed join is walked. -/
theorem mem_walkOrder_of_claimed (hne : tail ≠ head)
    (hclaimed : ((claimsOf (workspaceOf document page start) heap lines).joins.get? tail).isSome) :
    tail ∈ walkOrder heap (claimsOf (workspaceOf document page start) heap lines).pool := by
  obtain ⟨line, hline, join, howned, htail⟩ := isSome_get?_claimsOf.mp hclaimed
  obtain ⟨-, hcarried⟩ := carried_of_owned hdoc hsym hpage hcut hlines hlink hline howned htail
  have hrefs : line ∈ page.refs := hlines line hline
  have hcontinues := (@claimed_of_mem_ownedJoins (workspaceOf document page start) heap line join
    hrefs howned).continues hdoc hsym hpage hcut
  rw [htail] at hcontinues
  obtain ⟨hin, hin'⟩ := mem_pool_of_owned hline howned
  rw [htail] at hin
  rw [continues_head_eq hlink hcontinues] at hin'
  apply mem_walkOrder hcut.addressed nodup_pool hin hin' hne
  unfold Carried at hcarried
  split at hcarried
  · exact .inl (mem_pointers_of_forward hcarried)
  · exact .inr (mem_pointers_of_backward hcarried)

end Owned

/-! ## Answered and judged -/

section Answered

variable [Unicode] {pipeline : CorrectionPipeline} {document : DocumentManifest}
    {page : PageManifest}
  {start : Heap} {tail head : LineRef}

theorem judged_answered_eq (workspace : PageWorkspace) (chunk : ChunkRequest)
    (textById : Dict Str Str) (s : RunState) :
    (answered pipeline workspace chunk textById s).judged tail head =
      (walkedJoins pipeline workspace chunk textById s).2.judged tail head := by
  have hjoins : (answered pipeline workspace chunk textById s).joins =
      (walkedJoins pipeline workspace chunk textById s).2.joins :=
    joins_applyLineAcceptance workspace (targetLines workspace chunk) _
  rw [judged_eq, judged_eq, hjoins]

omit [Unicode] in
/-- A chunk's targets on its page are the lines it owns. -/
theorem mem_targetLines_iff_owns (hdoc : document.Identified)
    (hids : (document.pages.map PageManifest.pageId).Nodup) (hpage : page ∈ document.pages)
    {chunk : ChunkRequest} (htidy : chunk.Tidy page.pageId) {ref : LineRef}
    (href : ref ∈ document.refs) :
    ref ∈ targetLines (workspaceOf document page start) chunk ↔ chunk.owns ref = true := by
  rw [owns_iff, htidy.page]
  constructor
  · intro h
    have hin : ref ∈ page.refs := mem_refs_of_mem_targetLines h
    exact ⟨(hdoc.pageId_of_mem_refs hpage hin).symm,
      (mem_targetLines_iff (hdoc.nodup_lineIds hpage) hin).mp h⟩
  · rintro ⟨hpageId, hshown⟩
    have hin : ref ∈ page.refs := mem_page_of_pageId hdoc hids hpage href hpageId.symm
    exact (mem_targetLines_iff (hdoc.nodup_lineIds hpage) hin).mpr hshown

omit [Unicode] in
theorem AllCut.trans {h h' h'' : Heap} (hcut : AllCut h h')
    (hcut' : AllCut h' h'') : AllCut h h'' :=
  fun ref => (hcut ref).trans (hcut' ref)

/-- The join was judged so often as its owner was answered while it carried
the link; links are only cut. -/
structure Judged (document : DocumentManifest) (start : Heap) (tail head : LineRef)
    (s : RunState) : Prop where
  started : AllCut document.heap start
  paged : AllCut start s.heap
  le : s.judged tail head ≤ s.answersFor (joinOwner tail head)
  eq : Carried s.heap tail head → s.judged tail head = s.answersFor (joinOwner tail head)

omit [Unicode] in
theorem Judged.cut {s : RunState} (hs : Judged document start tail head s) :
    AllCut document.heap s.heap := hs.started.trans hs.paged

omit [Unicode] in
theorem Judged.kept {s s' : RunState} (hs : Judged document start tail head s)
    (hcut : AllCut s.heap s'.heap) (hjudged : s'.judged tail head = s.judged tail head)
    (hanswers : s'.answersFor (joinOwner tail head) = s.answersFor (joinOwner tail head)) :
    Judged document start tail head s' := by
  refine ⟨hs.started, hs.paged.trans hcut, ?_, fun hcarried => ?_⟩
  · rw [hjudged, hanswers]
    exact hs.le
  · rw [hjudged, hanswers]
    exact hs.eq (hcarried.of_cut hcut)

omit [Unicode] in
theorem Judged.between {s s' : RunState} (hs : Judged document start tail head s)
    (h : Between s s') : Judged document start tail head s' := by
  refine hs.kept (h.lines hs.cut.addressed).links ?_ (h.answersFor _)
  rw [judged_eq, judged_eq, h.joins]

variable (hdoc : document.Identified) (hids : (document.pages.map PageManifest.pageId).Nodup)
  (hsym : LinkSymmetric document.lines) (hpage : page ∈ document.pages)
  (hlink : Continues document document.heap tail head) (hne : tail ≠ head)

include hdoc hids hsym hpage hlink hne

/-- **An answer judges the join if its chunk owns the owner**, and the owner
carries the link. -/
theorem judged_answered {s : RunState} (hs : Judged document start tail head s)
    {chunk : ChunkRequest} (htidy : chunk.Tidy page.pageId)
    (textById : Dict Str Str) :
    (answered pipeline (workspaceOf document page start) chunk textById s).judged tail head =
      s.judged tail head +
        if chunk.owns (joinOwner tail head) = true ∧ Carried s.heap tail head then 1 else 0 := by
  let workspace := workspaceOf document page start
  let lines := targetLines workspace chunk
  have hlines : ∀ line ∈ lines, line ∈ page.refs := fun _ => mem_refs_of_mem_targetLines
  have howner : joinOwner tail head ∈ document.refs := by
    unfold joinOwner
    split
    · exact hlink.1
    · exact hlink.2.1
  have hclaimed := @isSome_get?_claimsOf_iff document page s.heap start tail head lines
    hdoc hids hsym hpage hs.cut hlines hlink hs.started hs.paged
  rw [mem_targetLines_iff_owns hdoc hids hpage htidy howner] at hclaimed
  have hone := @oneHead_claimsOf document page s.heap start tail head hdoc hsym hpage hs.cut lines
    hlines hlink
  have hnodup := @nodup_walkOrder s.heap (claimsOf workspace s.heap lines).pool
    hs.cut.addressed nodup_pool
  have hwalked := @judged_walkUnitsReconciling _ pipeline.guardConfig textById _ _ _
    hone _ hnodup [] s
  rw [judged_answered_eq]
  refine hwalked.trans (congrArg (s.judged tail head + ·) (if_congr ?_ rfl rfl))
  rw [← hclaimed]
  constructor
  · exact fun h => h.2.2
  · exact fun h => ⟨mem_walkOrder_of_claimed hdoc hsym hpage hs.cut hlines hlink hne h,
      List.not_mem_nil, h⟩

/-- What an answer and everything in between keep of a join. -/
theorem rounds_judged [Digest] :
    Rounds pipeline page (workspaceOf document page start) (Judged document start tail head) where
  addressed _ hs := hs.cut.addressed
  between _ _ hs h := hs.between h
  answered s chunk response hs _ htidy _ := by
    have hlines := @sameSkeleton_answered _ pipeline (workspaceOf document page start) chunk
      (textById response) s
    have hcut : AllCut s.heap _ := hlines.onlyCut
    have hjudged := @judged_answered _ pipeline document page start tail head hdoc hids
      hsym hpage hlink hne s hs chunk htidy (textById response)
    have hanswers := @answersFor_answered _ pipeline (workspaceOf document page start) chunk
      (textById response) s (joinOwner tail head)
    refine ⟨hs.started, hs.paged.trans hcut, ?_, fun hcarried => ?_⟩
    · rw [hjudged, hanswers]
      have hle := hs.le
      split_ifs <;> grind
    · have hbefore := hcarried.of_cut hcut
      rw [hjudged, hanswers, hs.eq hbefore]
      simp only [hbefore, and_true]

end Answered

/-! ## Over a run -/

section Run

variable [Unicode] [Digest] {pipeline : CorrectionPipeline} {document : DocumentManifest}

/-- **A join is judged once at most, and never passed over**: over a whole
run, whatever the producers answer and wherever it stops, a join is judged no
more often than its owner is answered, which is once at most; and just as
often if the owner still carries the link. -/
theorem judged_run (pipeline : CorrectionPipeline) (document : DocumentManifest)
    (hlines : ∀ page ∈ document.pages, ∀ lm ∈ page.lines, lm.pageId = page.pageId)
    (hlists : ∀ page ∈ document.pages, page.ListsOnce) (hsym : LinkSymmetric document.lines)
    {tail head : LineRef} (hlink : Continues document document.heap tail head) (hne : tail ≠ head) :
    (run pipeline document).2.judged tail head ≤
        (run pipeline document).2.answersFor (joinOwner tail head) ∧
      (run pipeline document).2.answersFor (joinOwner tail head) ≤ 1 ∧
      (Carried (run pipeline document).2.heap tail head →
        (run pipeline document).2.judged tail head =
          (run pipeline document).2.answersFor (joinOwner tail head)) := by
  -- the closing passes tell nothing and judge no join, so both counts are those of the page loop
  have hpassed := @passed_run _ pipeline document _
  rw [judged_eq, hpassed.joins, ← judged_eq, RunState.answersFor, hpassed.events]
  change _ ≤ RunState.answersFor _ _ ∧ RunState.answersFor _ _ ≤ 1 ∧
    (_ → _ = RunState.answersFor _ _)
  by_cases hdoor : ensureIdentities document = .ok ()
  · have hdoc : document.Identified := identified_of_door hlines hdoor
    have hids := nodup_pageIds hdoor
    -- an answer for the owner judges the join once, unless one of its ends was cut before
    have hpaged : Paged pipeline document fun start => Judged document start tail head :=
      ⟨⟨fun _ => .refl _, fun _ => .refl _, Nat.le_refl _, fun _ => rfl⟩,
        fun _ s hs => ⟨hs.cut, fun _ => .refl _, hs.le, hs.eq⟩, fun _ _ _ hs h => hs.between h,
        fun page hpage start s hs => rounds_judged hdoc hids hsym hpage hlink hne⟩
    obtain ⟨start, hs, hcount⟩ := hpaged.correctDocument hdoor hdoc hlists (joinOwner tail head)
    exact ⟨hs.le, hcount, fun hcarried => hs.eq (hcarried.of_cut hpassed.lines.onlyCut)⟩
  · rw [state_refused hdoor]
    exact ⟨Nat.le_refl _, Nat.zero_le _, fun _ => rfl⟩

end Run

/-- The one join of a word over two pages. -/
theorem judged_run_cleanFiles :
    (@run .ascii .plain (.plain (.answering []) .default)
        (builtDocument .default cleanFiles)).2.judged
        ⟨"p1".toList, "l1".toList⟩ ⟨"p2".toList, "l2".toList⟩ ≤
      (@run .ascii .plain (.plain (.answering []) .default)
        (builtDocument .default cleanFiles)).2.answersFor
          (joinOwner ⟨"p1".toList, "l1".toList⟩ ⟨"p2".toList, "l2".toList⟩) :=
  (@judged_run .ascii .plain (.plain (.answering []) .default) (builtDocument .default cleanFiles)
    (by decide +kernel) (by decide +kernel) (by decide +kernel) _ _
    ⟨by decide +kernel, by decide +kernel, by decide +kernel⟩ (by decide)).1

end Saknussemm
