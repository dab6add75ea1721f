import Saknussemm.Planning.Chains

/-! # The LINE plan turn by turn.

A turn of the loop follows a chain, makes a chunk of what lies between its
ends, and cuts the last line's link if it leads out of the chunk.  It loses
a link in two ways: the chain steps over a line whose own link leads past
its end, or the line looked up outside loses the only side it has.  A run
keeps the links exactly when no turn does either. -/

namespace Saknussemm

/-- Lines with the same refs have the same ref at each position. -/
theorem getElem?_of_refs {lines lines' : List LineManifest}
    (hrefs : lines'.map lineRef = lines.map lineRef) {i : Nat} {lm : LineManifest}
    (hlm : lines'[i]? = some lm) : ∃ x, lines[i]? = some x ∧ lineRef x = lineRef lm := by
  have hat : (lines'.map lineRef)[i]? = (lines.map lineRef)[i]? := by rw [hrefs]
  rw [List.getElem?_map, List.getElem?_map, hlm, Option.map_some, eq_comm,
    Option.map_eq_some_iff] at hat
  exact hat

/-- What a walk's end does to lines whose links were cut elsewhere: its own
cut, if it has one. -/
theorem severTail_of_partner {page : PageManifest} {lines' : List LineManifest}
    (hpage : ∀ lm ∈ page.lines, lm.pageId = page.pageId)
    (hids : (page.lines.map LineManifest.lineId).Nodup)
    (hrefs : lines'.map lineRef = page.lines.map lineRef) {start last : Nat}
    (hpartner : partnerAt lines' last = partnerAt page.lines last) :
    severTail lines' (sliceIds page.lines start (last + 1)) last =
      ((cutOf page.lines (start, last)).toList.foldl severAt lines',
        (cutOf page.lines (start, last)).toList.map (splitAt page)) := by
  -- both sides ask the tail for its partner; the planner by id, the cut by position
  cases hq : partnerAt page.lines last with
  | none =>
    have hcut : cutOf page.lines (start, last) = none := by rw [cutOf, hq, Option.bind_none]
    rw [severTail, hpartner, hq, hcut]
    simp
  | some partner =>
    rw [hq] at hpartner
    obtain ⟨tail, ref, htail, hforward, hpos⟩ := partnerAt_eq_some_iff.mp hpartner
    obtain ⟨head, hhead, hid⟩ := positionOf_some hpos
    obtain ⟨x, hx, hxref⟩ := getElem?_of_refs hrefs htail
    obtain ⟨y, hy, hyref⟩ := getElem?_of_refs hrefs hhead
    have hyid : y.lineId = ref.lineId := (congrArg LineRef.lineId hyref).trans hid
    have hchain : ref.lineId ∈ sliceIds page.lines start (last + 1) ↔
        start ≤ partner ∧ partner < last + 1 := by
      rw [← hyid]
      exact mem_sliceIds_iff hids hy
    have hid' : forwardPartnerId tail = some ref.lineId := by
      rw [forwardPartnerId, hforward]
      rfl
    rw [severTail, hpartner, htail, Option.bind_some, hid']
    dsimp only
    by_cases hout : partner < start ∨ last < partner
    · have hcut : cutOf page.lines (start, last) = some (last, partner) :=
        cutOf_eq_some.mpr ⟨rfl, hq, hout⟩
      have hsplit : splitAt page (last, partner) = (splitForwardLink tail head).2.2 := by
        show (⟨page.pageId, _, _⟩ : HyphenSplit) = ⟨tail.pageId, tail.lineId, head.lineId⟩
        have hpageId : page.pageId = tail.pageId := by
          rw [← hpage x (List.mem_of_getElem? hx)]
          exact congrArg LineRef.pageId hxref
        rw [hx, hy, hpageId]
        show (⟨_, x.lineId, y.lineId⟩ : HyphenSplit) = _
        rw [show x.lineId = tail.lineId from congrArg LineRef.lineId hxref,
          show y.lineId = head.lineId from congrArg LineRef.lineId hyref]
      rw [if_neg (by rw [hchain]; omega), hhead, hcut, Option.toList_some, List.foldl_cons,
        List.foldl_nil, severAt_eq htail hhead, List.map_singleton, hsplit]
    · have hcut : cutOf page.lines (start, last) = none := by
        rw [cutOf, hq, Option.bind_some, if_neg hout]
      rw [if_pos (by rw [hchain]; omega), hcut]
      simp

/-! ## The chain of a chunk -/

section Chain

variable {cap start : Nat} {lines : List LineManifest}

/-- The chain that starts at `start` goes on from one line to the next it
looks up, within the line cap. -/
def Follows (cap : Nat) (lines : List LineManifest) (start a b : Nat) : Prop :=
  partnerAt lines a = some b ∧ a < b ∧ b < start + cap

/-- The lines a chain comes to. -/
inductive Chained (cap : Nat) (lines : List LineManifest) (start : Nat) : Nat → Prop
  | first : Chained cap lines start start
  | follow {a b : Nat} : Chained cap lines start a → Follows cap lines start a b →
      Chained cap lines start b

theorem Chained.le {a : Nat} (h : Chained cap lines start a) : start ≤ a := by
  induction h with
  | first => exact Nat.le_refl _
  | follow _ hstep ih => exact ih.trans hstep.2.1.le

/-- One turn of the walk. -/
theorem followChain_succ (fuel : Nat) {a : Nat} (hle : start ≤ a) :
    (∃ b, Follows cap lines start a b ∧
        followChain cap lines start (fuel + 1) a = followChain cap lines start fuel b) ∨
      (∀ b, ¬ Follows cap lines start a b) ∧ followChain cap lines start (fuel + 1) a = a := by
  rw [followChain]
  cases hpartner : partnerAt lines a with
  | none => exact .inr ⟨fun b h => by simp [Follows, hpartner] at h, rfl⟩
  | some b =>
    dsimp only
    by_cases hstep : Follows cap lines start a b
    · obtain ⟨-, hlt, hcap⟩ := hstep
      refine .inl ⟨b, ⟨hpartner, hlt, hcap⟩, ?_⟩
      rw [if_neg (by omega), if_neg (by omega)]
    · refine .inr ⟨fun b' h => ?_, ?_⟩
      · obtain rfl : b = b' := by simpa [hpartner] using h.1
        exact hstep h
      · split_ifs with hback hfull
        · rfl
        · rfl
        · exact absurd ⟨hpartner, by omega, by omega⟩ hstep

/-- The walk comes through every line of the chain. -/
theorem Chained.followChain_eq {a : Nat} (h : Chained cap lines start a) :
    ∃ fuel, lines.length ≤ a + fuel ∧ followChain cap lines start lines.length start =
      followChain cap lines start fuel a := by
  induction h with
  | first => exact ⟨_, Nat.le_add_left _ _, rfl⟩
  | @follow a b ha hstep ih =>
    obtain ⟨fuel, hfuel, heq⟩ := ih
    have hlt := (partnerAt_lt hstep.1).1
    obtain ⟨fuel, rfl⟩ : ∃ fuel', fuel = fuel' + 1 := ⟨fuel - 1, by omega⟩
    rcases followChain_succ fuel ha.le with ⟨b', hstep', hnext⟩ | ⟨hstop, -⟩
    · obtain rfl : b = b' := by simpa using hstep.1.symm.trans hstep'.1
      have := hstep.2.1
      exact ⟨fuel, by omega, heq.trans hnext⟩
    · exact absurd hstep (hstop b)

/-- No line of the chain is behind the walk's last. -/
theorem Chained.le_followChain {a : Nat} (h : Chained cap lines start a)
    (hlt : start < lines.length) : a ≤ followChain cap lines start lines.length start := by
  obtain ⟨fuel, -, heq⟩ := h.followChain_eq
  rw [heq]
  have ha : a < lines.length := by
    cases h with
    | first => exact hlt
    | follow _ hstep => exact (partnerAt_lt hstep.1).2
  exact (followChain_bounds cap start fuel ha).1

theorem chained_followChain_from (fuel : Nat) {a : Nat} (h : Chained cap lines start a) :
    Chained cap lines start (followChain cap lines start fuel a) := by
  induction fuel generalizing a with
  | zero => exact h
  | succ fuel ih =>
    rcases followChain_succ fuel h.le with ⟨b, hstep, hnext⟩ | ⟨-, hstop⟩
    · rw [hnext]
      exact ih (h.follow hstep)
    · rwa [hstop]

theorem chained_followChain (fuel : Nat) :
    Chained cap lines start (followChain cap lines start fuel start) :=
  chained_followChain_from fuel .first

/-- The walk ends where the chain does. -/
theorem not_follows_followChain (hlt : start < lines.length) (b : Nat) :
    ¬ Follows cap lines start (followChain cap lines start lines.length start) b := by
  intro hstep
  have hend := (@chained_followChain cap start lines lines.length).follow hstep
  have := hend.le_followChain hlt
  have := hstep.2.1
  omega

theorem Chained.eq_followChain {a : Nat} (h : Chained cap lines start a)
    (hstop : ∀ b, ¬ Follows cap lines start a b) :
    followChain cap lines start lines.length start = a := by
  obtain ⟨fuel, -, heq⟩ := h.followChain_eq
  rw [heq]
  cases fuel with
  | zero => rfl
  | succ fuel =>
    rcases followChain_succ fuel h.le with ⟨b, hstep, -⟩ | ⟨-, hend⟩
    · exact absurd hstep (hstop b)
    · exact hend

/-- A line before the end of a chain is one the chain goes on from, or one
it steps over. -/
theorem Chained.follows_or_between {a i : Nat} (h : Chained cap lines start a) (hi : start ≤ i)
    (hlt : i < a) : (Chained cap lines start i ∧ ∃ b, Follows cap lines start i b) ∨
      ∃ b c, Chained cap lines start b ∧ Follows cap lines start b c ∧ b < i ∧ i < c := by
  induction h with
  | first => omega
  | @follow b c hb hstep ih =>
    rcases Nat.lt_trichotomy i b with hbefore | rfl | hafter
    · exact ih hbefore
    · exact .inl ⟨hb, c, hstep⟩
    · exact .inr ⟨b, c, hb, hstep, hafter, hlt⟩

end Chain

/-! ## One turn of the loop -/

/-- Lines of one page, with ids of their own, that continue onto later ones. -/
structure LinksForward (pageId : Str) (lines : List LineManifest) : Prop where
  line_page : ∀ lm ∈ lines, lm.pageId = pageId
  line_ids : (lines.map LineManifest.lineId).Nodup
  later : ∀ i k, LinkAt lines i k → i < k

section Turn

variable {pageId : Str} {lines : List LineManifest} {start last : Nat}

/-- Where a chain ends, its last link is cut if it leads out of the chunk. -/
theorem severTail_cases (start last : Nat) (h : LinksForward pageId lines) :
    (severTail lines (sliceIds lines start (last + 1)) last = (lines, []) ∧
        ∀ k, partnerAt lines last = some k → start ≤ k ∧ k ≤ last) ∨
      ∃ k x y, partnerAt lines last = some k ∧ (k < start ∨ last < k) ∧ lines[last]? = some x ∧
        lines[k]? = some y ∧ severTail lines (sliceIds lines start (last + 1)) last =
          (severAt lines (last, k), [⟨pageId, x.lineId, y.lineId⟩]) := by
  have heq := @severTail_of_partner ⟨pageId, [], 0, 0, [], lines⟩ lines h.line_page h.line_ids rfl
    start last rfl
  cases hcut : cutOf lines (start, last) with
  | none =>
    rw [hcut] at heq
    refine .inl ⟨heq, fun k hk => ?_⟩
    by_contra hout
    have hsome : cutOf lines (start, last) = some (last, k) :=
      cutOf_eq_some.mpr ⟨rfl, hk, by dsimp only; omega⟩
    rw [hcut] at hsome
    cases hsome
  | some cut =>
    obtain ⟨hfst, hpartner, hout⟩ := cutOf_eq_some.mp hcut
    obtain ⟨tail, head⟩ := cut
    obtain rfl : last = tail := hfst
    obtain ⟨hlast, hhead⟩ := partnerAt_lt hpartner
    refine .inr ⟨head, _, _, hpartner, hout, List.getElem?_eq_getElem hlast,
      List.getElem?_eq_getElem hhead, ?_⟩
    rw [hcut] at heq
    rw [heq]
    simp [splitAt, List.getElem?_eq_getElem hlast, List.getElem?_eq_getElem hhead]

/-- The line a chain looks its partner up at, outside the chunk. -/
def LooksOut (lines : List LineManifest) (start last k : Nat) : Prop :=
  partnerAt lines last = some k ∧ (k < start ∨ last < k)

/-- What a turn leaves of the lines: their refs, and of their links no
other than there were. -/
theorem getElem?_severTail (h : LinksForward pageId lines) (hle : start ≤ last) {i : Nat}
    {x : LineManifest} (hx : lines[i]? = some x) : ∃ x',
      (severTail lines (sliceIds lines start (last + 1)) last).1[i]? = some x' ∧
      lineRef x' = lineRef x ∧
      (forwardPartnerRef x' = none ∨ forwardPartnerRef x' = forwardPartnerRef x) ∧
      (∀ k, LooksOut lines start last k → i = last → forwardPartnerRef x' = none) ∧
      (LooksOut lines start last i →
        forwardPartnerRef x' = if x.hyphenRole = .part1 then none else forwardPartnerRef x) ∧
      (i ≠ last → ¬ LooksOut lines start last i → x' = x) := by
  rcases severTail_cases start last h with
    ⟨heq, hin⟩ | ⟨k, tail, head, hpartner, hout, htail, hhead, heq⟩
  -- no cut: the chain kept its tail's partner, so every line is as it was
  · have hnone : ∀ k, ¬ LooksOut lines start last k := by
      rintro k ⟨hk, hout⟩
      have := hin k hk
      omega
    rw [heq]
    exact ⟨x, hx, rfl, .inr rfl, fun k hk => absurd hk (hnone k), fun hi => absurd hi (hnone i),
      fun _ _ => rfl⟩
  -- a cut at the tail and its partner; the other lines are not touched
  · obtain ⟨hlast, hk⟩ := partnerAt_lt hpartner
    have hcuts : Cuts lines.length (last, k) := ⟨by dsimp only; omega, hlast, hk⟩
    have hsame : ∀ k', LooksOut lines start last k' → k' = k := fun k' hk' => by
      simpa using hk'.1.symm.trans hpartner
    obtain ⟨x', hx', hfst, hsnd, hother⟩ := getElem?_severAt hcuts hx
    have href : lineRef x' = lineRef x := by
      obtain ⟨w, hw, hwref⟩ := getElem?_of_refs (map_lineRef_severAt lines (last, k)) hx'
      obtain rfl : x = w := by simpa using hx.symm.trans hw
      exact hwref.symm
    rw [heq]
    refine ⟨x', hx', href, ?_, fun _ _ hi => hfst hi, fun hi => (hsnd (hsame i hi)).2,
      fun hne hin => hother hne fun hi => hin (hi ▸ ⟨hpartner, hout⟩)⟩
    by_cases hi : i = last
    · exact .inl (hfst hi)
    · by_cases hik : i = k
      · rw [(hsnd hik).2]
        split
        · exact .inl rfl
        · exact .inr rfl
      · rw [hother hi hik]
        exact .inr rfl

theorem lineRef_severTail (start last : Nat) (h : LinksForward pageId lines) :
    (severTail lines (sliceIds lines start (last + 1)) last).1.map lineRef = lines.map lineRef := by
  rcases severTail_cases start last h with ⟨heq, -⟩ | ⟨k, _, _, -, -, -, -, heq⟩
  · rw [heq]
  · rw [heq]
    exact map_lineRef_severAt _ _

/-- A link after a turn is one from before it. -/
theorem linkAt_of_severTail (h : LinksForward pageId lines) (hle : start ≤ last) {i k : Nat}
    (hlink : LinkAt (severTail lines (sliceIds lines start (last + 1)) last).1 i k) :
    LinkAt lines i k := by
  have hrefs := lineRef_severTail start last h
  obtain ⟨x', y', hx', hy', hxy⟩ := hlink
  obtain ⟨x, hx, -⟩ := getElem?_of_refs hrefs hx'
  obtain ⟨y, hy, hyref⟩ := getElem?_of_refs hrefs hy'
  obtain ⟨z, hz, -, hforward, -⟩ := getElem?_severTail h hle hx
  obtain rfl : x' = z := by simpa using hx'.symm.trans hz
  refine ⟨x, y, hx, hy, ?_⟩
  rcases hforward with hnone | hsame
  · rw [hnone] at hxy
    cases hxy
  · rw [← hsame, hxy, hyref]

/-- A cut leaves the links of a page forward. -/
theorem LinksForward.severTail (h : LinksForward pageId lines) (hle : start ≤ last) :
    LinksForward pageId (severTail lines (sliceIds lines start (last + 1)) last).1 := by
  have hrefs := lineRef_severTail start last h
  refine ⟨fun lm hlm => ?_, ?_, fun i k hlink => h.later i k (linkAt_of_severTail h hle hlink)⟩
  · obtain ⟨i, hi⟩ := List.mem_iff_getElem?.mp hlm
    obtain ⟨x, hx, href⟩ := getElem?_of_refs hrefs hi
    rw [← h.line_page x (List.mem_of_getElem? hx)]
    exact (congrArg LineRef.pageId href).symm
  · have hids := congrArg (List.map LineRef.lineId) hrefs
    rw [List.map_map, List.map_map] at hids
    show (List.map (LineRef.lineId ∘ lineRef) _).Nodup
    rw [hids]
    exact h.line_ids

/-- A link stands when its tail is neither the chain's last line nor one
that loses its only side. -/
theorem linkAt_severTail (h : LinksForward pageId lines) (hle : start ≤ last) {i k : Nat}
    (hlink : LinkAt lines i k) (hne : i ≠ last)
    (hstrike : LooksOut lines start last i → ∀ x, lines[i]? = some x → x.hyphenRole = .both) :
    LinkAt (Saknussemm.severTail lines (sliceIds lines start (last + 1)) last).1 i k := by
  obtain ⟨x, y, hx, hy, hxy⟩ := hlink
  obtain ⟨x', hx', -, -, -, hhit, hother⟩ := getElem?_severTail h hle hx
  obtain ⟨y', hy', hyref, -⟩ := getElem?_severTail h hle hy
  refine ⟨x', y', hx', hy', ?_⟩
  rw [hyref, ← hxy]
  by_cases hout : LooksOut lines start last i
  · rw [hhit hout, if_neg (by simp [hstrike hout x hx])]
  · rw [hother hne hout]

/-- A link is gone when its tail ends the chain or loses its only side. -/
theorem forward_severTail_eq_none (h : LinksForward pageId lines) (hle : start ≤ last) {i : Nat}
    {x : LineManifest} (hx : lines[i]? = some x)
    (hlost : (i = last ∧ ∃ k, LooksOut lines start last k) ∨
      LooksOut lines start last i ∧ x.hyphenRole = .part1) :
    ∃ x', (Saknussemm.severTail lines (sliceIds lines start (last + 1)) last).1[i]? = some x' ∧
      forwardPartnerRef x' = none := by
  obtain ⟨x', hx', -, -, htail, hhit, -⟩ := getElem?_severTail h hle hx
  refine ⟨x', hx', ?_⟩
  rcases hlost with ⟨rfl, k, hk⟩ | ⟨hout, hrole⟩
  · exact htail k hk rfl
  · rw [hhit hout, if_pos hrole]

end Turn

/-! ## A run of turns -/

section Run

variable {config : ChunkPlannerConfig} {pageId : Str} {lines : List LineManifest} {start : Nat}

/-- The last line of the chunk that starts at `start`. -/
def chainEnd (config : ChunkPlannerConfig) (lines : List LineManifest) (start : Nat) : Nat :=
  followChain config.maxLinesPerRequest lines start lines.length start

/-- The lines a turn leaves, and where the next one starts. -/
def nextTurn (config : ChunkPlannerConfig) (lines : List LineManifest) (start : Nat) :
    List LineManifest × Nat :=
  let last := chainEnd config lines start
  ((severTail lines (sliceIds lines start (last + 1)) last).1, last + 1)

theorem chainEnd_bounds (config : ChunkPlannerConfig) (hlt : start < lines.length) :
    start ≤ chainEnd config lines start ∧ chainEnd config lines start < lines.length :=
  followChain_bounds _ _ _ hlt

theorem LinksForward.nextTurn (h : LinksForward pageId lines) (hlt : start < lines.length) :
    LinksForward pageId (nextTurn config lines start).1 :=
  h.severTail (chainEnd_bounds config hlt).1

theorem lineRef_nextTurn (h : LinksForward pageId lines) :
    (nextTurn config lines start).1.map lineRef = lines.map lineRef :=
  lineRef_severTail _ _ h

/-- What the turns after this one come to. -/
def laterTurns (config : ChunkPlannerConfig) (pageId : Str) (fuel : Nat)
    (lines : List LineManifest) (start : Nat) :
    List ChunkRequest × List HyphenSplit × List LineManifest :=
  planLineFrom config pageId fuel (nextTurn config lines start).1 (nextTurn config lines start).2

theorem planLineFrom_turn (fuel : Nat) (hlt : start < lines.length) :
    planLineFrom config pageId (fuel + 1) lines start =
      (makeChunk pageId .line (sliceIds lines start (chainEnd config lines start + 1)) none none ::
          (laterTurns config pageId fuel lines start).1,
        (severTail lines (sliceIds lines start (chainEnd config lines start + 1))
            (chainEnd config lines start)).2 ++ (laterTurns config pageId fuel lines start).2.1,
        (laterTurns config pageId fuel lines start).2.2) := by
  rw [planLineFrom, if_pos hlt]
  rfl

/-- The chunks from a position on own lines from there on. -/
theorem targets_planLineFrom (fuel : Nat) (h : LinksForward pageId lines) :
    ∀ chunk ∈ (planLineFrom config pageId fuel lines start).1, ∀ lineId ∈ chunk.targets,
      ∃ i x, start ≤ i ∧ lines[i]? = some x ∧ x.lineId = lineId := by
  induction fuel generalizing lines start with
  | zero => exact fun _ h => nomatch h
  | succ fuel ih =>
    by_cases hlt : start < lines.length
    · rw [planLineFrom_turn fuel hlt]
      intro chunk hchunk lineId hid
      rcases List.mem_cons.mp hchunk with rfl | hchunk
      · obtain ⟨x, hx, rfl⟩ := List.mem_map.mp hid
        obtain ⟨j, hj⟩ := List.mem_iff_getElem?.mp (List.mem_of_mem_take hx)
        rw [List.getElem?_drop] at hj
        exact ⟨_, x, Nat.le_add_right _ _, hj, rfl⟩
      · obtain ⟨i, x', hi, hx', rfl⟩ := ih (h.nextTurn hlt) chunk hchunk lineId hid
        obtain ⟨x, hx, href⟩ := getElem?_of_refs (lineRef_nextTurn h) hx'
        have hle := (chainEnd_bounds config hlt).1
        exact ⟨i, x, by dsimp only [nextTurn] at hi; omega, hx, congrArg LineRef.lineId href⟩
    · rw [planLineFrom, if_neg hlt]
      exact fun _ h => nomatch h

/-- The splits from a position on name tails from there on, whose links
stand. -/
theorem tails_planLineFrom (fuel : Nat) (h : LinksForward pageId lines) :
    ∀ split ∈ (planLineFrom config pageId fuel lines start).2.1,
      ∃ i x, start ≤ i ∧ lines[i]? = some x ∧ forwardPartnerRef x ≠ none ∧
        split.tailLineId = x.lineId := by
  induction fuel generalizing lines start with
  | zero => exact fun _ h => nomatch h
  | succ fuel ih =>
    by_cases hlt : start < lines.length
    · obtain ⟨hle, -⟩ := chainEnd_bounds config hlt
      rw [planLineFrom_turn fuel hlt]
      intro split hsplit
      rcases List.mem_append.mp hsplit with hsplit | hsplit
      · rcases severTail_cases start (chainEnd config lines start) h with
          ⟨heq, -⟩ | ⟨k, x, y, hpartner, -, hx, -, heq⟩
        · rw [heq] at hsplit
          cases hsplit
        · rw [heq, List.mem_singleton] at hsplit
          obtain ⟨x', ref, hx', href, -⟩ := partnerAt_eq_some_iff.mp hpartner
          obtain rfl : x = x' := by simpa using hx.symm.trans hx'
          exact ⟨_, x, hle, hx, by simp [href], by rw [hsplit]⟩
      · obtain ⟨i, x', hi, hx', hforward, hid⟩ := ih (h.nextTurn hlt) split hsplit
        obtain ⟨x, hx, href⟩ := getElem?_of_refs (lineRef_nextTurn h) hx'
        obtain ⟨z, hz, -, hkept, -⟩ := getElem?_severTail h hle hx
        obtain rfl : x' = z := by simpa using hx'.symm.trans hz
        refine ⟨i, x, by dsimp only [nextTurn] at hi; omega, hx, ?_, ?_⟩
        · rw [← hkept.resolve_left hforward]
          exact hforward
        · rw [hid]
          exact (congrArg LineRef.lineId href).symm
    · rw [planLineFrom, if_neg hlt]
      exact fun _ h => nomatch h

/-- The links of a run's outcome are links of what it started from. -/
theorem linkAt_of_planLineFrom (fuel : Nat) (h : LinksForward pageId lines) {i k : Nat}
    (hlink : LinkAt (planLineFrom config pageId fuel lines start).2.2 i k) : LinkAt lines i k := by
  induction fuel generalizing lines start with
  | zero => exact hlink
  | succ fuel ih =>
    by_cases hlt : start < lines.length
    · rw [planLineFrom_turn fuel hlt] at hlink
      exact linkAt_of_severTail h (chainEnd_bounds config hlt).1 (ih (h.nextTurn hlt) hlink)
    · rw [planLineFrom, if_neg hlt] at hlink
      exact hlink

theorem lineRef_planLineFrom (fuel : Nat) (h : LinksForward pageId lines) :
    (planLineFrom config pageId fuel lines start).2.2.map lineRef = lines.map lineRef := by
  induction fuel generalizing lines start with
  | zero => rfl
  | succ fuel ih =>
    by_cases hlt : start < lines.length
    · rw [planLineFrom_turn fuel hlt]
      exact (ih (h.nextTurn hlt)).trans (lineRef_nextTurn h)
    · rw [planLineFrom, if_neg hlt]

/-! ## What goes wrong -/

/-- The chain steps over no line whose own link leads past the chain's end. -/
def StepsOverNone (cap : Nat) (lines : List LineManifest) (start : Nat) : Prop :=
  ∀ a b i k, Chained cap lines start a → Follows cap lines start a b → a < i → i < b →
    LinkAt lines i k → ∃ z, Chained cap lines start z ∧ k ≤ z

/-- The line at which the chain's last line looks up its partner, outside
the chain, loses a backward side.  If it continues onto another line it has
one to lose. -/
def StrikesNone (cap : Nat) (lines : List LineManifest) (start : Nat) : Prop :=
  ∀ last h k x, Chained cap lines start last → (∀ b, ¬ Follows cap lines start last b) →
    LooksOut lines start last h → LinkAt lines h k → lines[h]? = some x → x.hyphenRole = .both

/-- A run keeps a link of a line behind it standing, and one from `start` on
whole in a chunk or recorded once. -/
structure KeepsLink (pageId : Str) (start : Nat)
    (planned : List ChunkRequest × List HyphenSplit × List LineManifest) (i k : Nat)
    (x y : LineManifest) : Prop where
  behind : i < start → LinkAt planned.2.2 i k
  together : start ≤ i → LinkAt planned.2.2 i k →
    ∃ chunk ∈ planned.1, x.lineId ∈ chunk.targets ∧ y.lineId ∈ chunk.targets
  recorded : start ≤ i → ¬ LinkAt planned.2.2 i k →
    planned.2.1.count ⟨pageId, x.lineId, y.lineId⟩ = 1

/-- A run keeps the links of its lines. -/
def KeepsFrom (pageId : Str) (lines : List LineManifest) (start : Nat)
    (planned : List ChunkRequest × List HyphenSplit × List LineManifest) : Prop :=
  ∀ i k x y, lines[i]? = some x → lines[k]? = some y → forwardPartnerRef x = some (lineRef y) →
    KeepsLink pageId start planned i k x y

/-! ### The chunks and the records of a turn -/

/-- A line of an earlier chunk is in no later one. -/
theorem lt_of_mem_targets (h : LinksForward pageId lines) (hlt : start < lines.length)
    {fuel i : Nat} {x : LineManifest} (hx : lines[i]? = some x) {chunk : ChunkRequest}
    (hchunk : chunk ∈ (laterTurns config pageId fuel lines start).1)
    (hid : x.lineId ∈ chunk.targets) : chainEnd config lines start < i := by
  obtain ⟨j, z', hj, hz', hzid⟩ := targets_planLineFrom fuel (h.nextTurn hlt) chunk hchunk _ hid
  obtain ⟨z, hz, href⟩ := getElem?_of_refs (lineRef_nextTurn h) hz'
  obtain rfl := position_unique h.line_ids hz hx ((congrArg LineRef.lineId href).trans hzid)
  exact hj

/-- A link that stands no longer, or whose tail is behind, is not recorded. -/
theorem count_laterTurns_eq_zero (h : LinksForward pageId lines) (hlt : start < lines.length)
    {fuel i : Nat} {x : LineManifest} (hx : lines[i]? = some x) {headLineId : Str}
    (hgone : i ≤ chainEnd config lines start ∨
      ∃ x', (nextTurn config lines start).1[i]? = some x' ∧ forwardPartnerRef x' = none) :
    (laterTurns config pageId fuel lines start).2.1.count ⟨pageId, x.lineId, headLineId⟩ = 0 := by
  rw [List.count_eq_zero]
  intro hmem
  obtain ⟨j, z', hj, hz', hforward, hzid⟩ := tails_planLineFrom fuel (h.nextTurn hlt) _ hmem
  obtain ⟨z, hz, href⟩ := getElem?_of_refs (lineRef_nextTurn h) hz'
  obtain rfl := position_unique h.line_ids hz hx ((congrArg LineRef.lineId href).trans hzid.symm)
  rcases hgone with hbehind | ⟨x', hx', hnone⟩
  · exact absurd hj (Nat.not_le.mpr (Nat.lt_succ_of_le hbehind))
  · obtain rfl : z' = x' := by simpa using hz'.symm.trans hx'
    exact hforward hnone

/-- A link that does not outlive the turn does not stand at the end. -/
theorem not_linkAt_laterTurns (h : LinksForward pageId lines) (hlt : start < lines.length)
    {fuel i k : Nat} {x : LineManifest} (hx : (nextTurn config lines start).1[i]? = some x)
    (hnone : forwardPartnerRef x = none) :
    ¬ LinkAt (laterTurns config pageId fuel lines start).2.2 i k := by
  intro hlive
  obtain ⟨z, _, hz, -, hzy⟩ := linkAt_of_planLineFrom fuel (h.nextTurn hlt) hlive
  obtain rfl : x = z := by simpa using hx.symm.trans hz
  rw [hnone] at hzy
  cases hzy

/-- The split of a turn names the last line of its chunk. -/
theorem count_severTail_of_ne (h : LinksForward pageId lines) {last i : Nat} {x : LineManifest}
    (hx : lines[i]? = some x) (hne : i ≠ last) {headLineId : Str} :
    (severTail lines (sliceIds lines start (last + 1)) last).2.count
      ⟨pageId, x.lineId, headLineId⟩ = 0 := by
  rcases severTail_cases start last h with ⟨heq, -⟩ | ⟨k, z, y, -, -, hz, -, heq⟩
  · rw [heq]
    rfl
  · rw [heq, List.count_eq_zero, List.mem_singleton]
    intro hsplit
    exact hne (position_unique h.line_ids hx hz (congrArg HyphenSplit.tailLineId hsplit))

/-- A link that leaves from the end of a chunk is cut and recorded. -/
theorem count_severTail_of_link (start : Nat) (h : LinksForward pageId lines) {last k : Nat}
    {x y : LineManifest} (hx : lines[last]? = some x) (hy : lines[k]? = some y)
    (hxy : forwardPartnerRef x = some (lineRef y)) :
    LooksOut lines start last k ∧
      (severTail lines (sliceIds lines start (last + 1)) last).2.count
        ⟨pageId, x.lineId, y.lineId⟩ = 1 := by
  have hpartner : partnerAt lines last = some k := partnerAt_of_link h.line_ids hx hy hxy
  have hlater := h.later last k ⟨x, y, hx, hy, hxy⟩
  refine ⟨⟨hpartner, .inr hlater⟩, ?_⟩
  rcases severTail_cases start last h with
    ⟨-, hin⟩ | ⟨k', x', y', hpartner', -, hx', hy', heq⟩
  · have := hin k hpartner
    omega
  · obtain rfl : k = k' := by simpa using hpartner.symm.trans hpartner'
    obtain rfl : x = x' := by simpa using hx.symm.trans hx'
    obtain rfl : y = y' := by simpa using hy.symm.trans hy'
    rw [heq, List.count_singleton_self]

/-! ### One turn -/

variable {fuel i k : Nat} {x y : LineManifest}

/-- A turn after which all is well steps over no link. -/
theorem stepsOverNone_of_keepsFrom (h : LinksForward pageId lines) (hlt : start < lines.length)
    (hkeeps : KeepsFrom pageId lines start (planLineFrom config pageId (fuel + 1) lines start)) :
    StepsOverNone config.maxLinesPerRequest lines start := by
  rw [planLineFrom_turn fuel hlt] at hkeeps
  intro a b i k ha hstep hai hib hlink
  have hend : Chained config.maxLinesPerRequest lines start (chainEnd config lines start) :=
    chained_followChain _
  by_contra hpast
  push Not at hpast
  have hpast := hpast _ hend
  have hble : b ≤ chainEnd config lines start := (ha.follow hstep).le_followChain hlt
  have hai' := ha.le
  obtain ⟨x, y, hx, hy, hxy⟩ := hlink
  obtain ⟨-, htogether, hrecorded⟩ := hkeeps i k x y hx hy hxy
  by_cases hlive : LinkAt (laterTurns config pageId fuel lines start).2.2 i k
  · -- the tail is in this chunk, the head in none of its targets
    obtain ⟨chunk, hchunk, hxin, hyin⟩ := htogether (by omega) hlive
    rcases List.mem_cons.mp hchunk with rfl | hchunk
    · have := (mem_sliceIds_iff h.line_ids hy).mp hyin
      omega
    · have := lt_of_mem_targets h hlt hx hchunk hxin
      omega
  · -- nor does any split name a tail inside the chunk
    have hcount := hrecorded (by omega) hlive
    rw [List.count_append, count_severTail_of_ne h hx (by omega),
      count_laterTurns_eq_zero h hlt hx (.inl (by omega))] at hcount
    cases hcount

/-- Nor does it strike one. -/
theorem strikesNone_of_keepsFrom (h : LinksForward pageId lines) (hlt : start < lines.length)
    (hkeeps : KeepsFrom pageId lines start (planLineFrom config pageId (fuel + 1) lines start)) :
    StrikesNone config.maxLinesPerRequest lines start := by
  obtain ⟨hle, -⟩ := chainEnd_bounds config hlt
  rw [planLineFrom_turn fuel hlt] at hkeeps
  intro last i k x hlast hstop hout hlink hx
  obtain rfl : chainEnd config lines start = last := hlast.eq_followChain hstop
  by_contra hrole
  obtain ⟨x', y, hx', hy, hxy⟩ := hlink
  obtain rfl : x = x' := by simpa using hx.symm.trans hx'
  have hpart1 : x.hyphenRole = .part1 := (role_of_forward hxy).resolve_right hrole
  -- the line loses the only side it has, and no split says so
  obtain ⟨z, hz, hnone⟩ := forward_severTail_eq_none h hle hx (.inr ⟨hout, hpart1⟩)
  have hdead := @not_linkAt_laterTurns config pageId lines start h hlt fuel i k z hz hnone
  have hne : i ≠ chainEnd config lines start := by
    have := hout.2
    omega
  obtain ⟨hbehind, -, hrecorded⟩ := hkeeps i k x y hx hy hxy
  by_cases hearlier : i < start
  · exact hdead (hbehind hearlier)
  · have hcount := hrecorded (by omega) hdead
    rw [List.count_append, count_severTail_of_ne h hx hne,
      count_laterTurns_eq_zero h hlt hx (.inr ⟨z, hz, hnone⟩)] at hcount
    cases hcount

/-- What a turn and the later ones keep, the later ones keep. -/
theorem keepsFrom_laterTurns (h : LinksForward pageId lines) (hlt : start < lines.length)
    (hkeeps : KeepsFrom pageId lines start (planLineFrom config pageId (fuel + 1) lines start)) :
    KeepsFrom pageId (nextTurn config lines start).1 (nextTurn config lines start).2
      (laterTurns config pageId fuel lines start) := by
  obtain ⟨hle, -⟩ := chainEnd_bounds config hlt
  rw [planLineFrom_turn fuel hlt] at hkeeps
  intro i k x' y' hx' hy' hxy'
  -- what is linked after the turn was linked before it
  obtain ⟨x, hx, hxref⟩ := getElem?_of_refs (lineRef_nextTurn h) hx'
  obtain ⟨y, hy, hyref⟩ := getElem?_of_refs (lineRef_nextTurn h) hy'
  obtain ⟨z, w, hz, hw, hxy⟩ := linkAt_of_severTail h hle ⟨x', y', hx', hy', hxy'⟩
  obtain rfl : x = z := by simpa using hx.symm.trans hz
  obtain rfl : y = w := by simpa using hy.symm.trans hw
  have hxid : x.lineId = x'.lineId := congrArg LineRef.lineId hxref
  have hyid : y.lineId = y'.lineId := congrArg LineRef.lineId hyref
  obtain ⟨hbefore, htogether, hrecorded⟩ := hkeeps i k x y hx hy hxy
  refine ⟨fun hbehind => ?behind, fun hahead hlive => ?together, fun hahead hdead => ?recorded⟩
  case behind =>
    by_cases hearlier : i < start
    · exact hbefore hearlier
    · by_contra hdead
      have hcount := hrecorded (by omega) hdead
      rw [List.count_append, count_laterTurns_eq_zero h hlt hx (.inl (Nat.le_of_lt_succ hbehind))]
        at hcount
      by_cases hlast : i = chainEnd config lines start
      · -- a cut at the end of the chunk leaves no link there
        subst hlast
        obtain ⟨hout, -⟩ := count_severTail_of_link start h hx hy hxy
        obtain ⟨z, hz, hnone⟩ := forward_severTail_eq_none h hle hx (.inl ⟨rfl, k, hout⟩)
        obtain rfl : z = x' := by simpa using hz.symm.trans hx'
        rw [hnone] at hxy'
        cases hxy'
      · rw [count_severTail_of_ne h hx hlast] at hcount
        cases hcount
  case together =>
    have hpast : chainEnd config lines start < i := hahead
    obtain ⟨chunk, hchunk, hxin, hyin⟩ := htogether (by omega) hlive
    rcases List.mem_cons.mp hchunk with rfl | hchunk
    · have := (mem_sliceIds_iff h.line_ids hx).mp hxin
      omega
    · exact ⟨chunk, hchunk, hxid ▸ hxin, hyid ▸ hyin⟩
  case recorded =>
    have hpast : chainEnd config lines start < i := hahead
    have hcount := hrecorded (by omega) hdead
    rwa [List.count_append, count_severTail_of_ne h hx (by omega), Nat.zero_add, hxid, hyid]
      at hcount

/-- A link that leaves from another line than the last of the chunk outlives
a turn that strikes none, and is kept with the links of the later ones. -/
theorem keepsLink_laterTurns (h : LinksForward pageId lines) (hlt : start < lines.length)
    (hstrike : StrikesNone config.maxLinesPerRequest lines start)
    (hkeeps : KeepsFrom pageId (nextTurn config lines start).1 (nextTurn config lines start).2
      (laterTurns config pageId fuel lines start))
    (hx : lines[i]? = some x) (hy : lines[k]? = some y)
    (hxy : forwardPartnerRef x = some (lineRef y)) (hne : i ≠ chainEnd config lines start) :
    KeepsLink pageId (chainEnd config lines start + 1) (laterTurns config pageId fuel lines start)
      i k x y := by
  have hlink : LinkAt lines i k := ⟨x, y, hx, hy, hxy⟩
  have hend : Chained config.maxLinesPerRequest lines start (chainEnd config lines start) :=
    chained_followChain _
  obtain ⟨x', y', hx', hy', hxy'⟩ : LinkAt (nextTurn config lines start).1 i k :=
    linkAt_severTail h (chainEnd_bounds config hlt).1 hlink hne fun hout z hz =>
      hstrike _ i k z hend (not_follows_followChain hlt) hout hlink hz
  obtain ⟨z, hz, hxref⟩ := getElem?_of_refs (lineRef_nextTurn h) hx'
  obtain ⟨w, hw, hyref⟩ := getElem?_of_refs (lineRef_nextTurn h) hy'
  obtain rfl : x = z := by simpa using hx.symm.trans hz
  obtain rfl : y = w := by simpa using hy.symm.trans hw
  have hxid : x.lineId = x'.lineId := congrArg LineRef.lineId hxref
  have hyid : y.lineId = y'.lineId := congrArg LineRef.lineId hyref
  obtain ⟨hbehind, htogether, hrecorded⟩ := hkeeps i k x' y' hx' hy' hxy'
  rw [← hxid, ← hyid] at htogether hrecorded
  exact ⟨hbehind, htogether, hrecorded⟩

/-- In the chunk the partner is the next line of the chain, or stepped over
to: it is in the chunk too. -/
theorem le_chainEnd_of_inside (h : LinksForward pageId lines) (hlt : start < lines.length)
    (hover : StepsOverNone config.maxLinesPerRequest lines start) (hx : lines[i]? = some x)
    (hy : lines[k]? = some y) (hxy : forwardPartnerRef x = some (lineRef y)) (hahead : start ≤ i)
    (hinside : i < chainEnd config lines start) : k ≤ chainEnd config lines start := by
  have hend : Chained config.maxLinesPerRequest lines start (chainEnd config lines start) :=
    chained_followChain _
  rcases hend.follows_or_between hahead hinside with ⟨hi, b, hstep⟩ | ⟨a, b, ha, hstep, hai, hib⟩
  · have hpartner : partnerAt lines i = some k := partnerAt_of_link h.line_ids hx hy hxy
    obtain rfl : k = b := by simpa using hpartner.symm.trans hstep.1
    exact (hi.follow hstep).le_followChain hlt
  · obtain ⟨z, hz, hkz⟩ := hover a b i k ha hstep hai hib ⟨x, y, hx, hy, hxy⟩
    exact hkz.trans (hz.le_followChain hlt)

/-- A turn that steps over no link and strikes none keeps the links that the
later ones keep. -/
theorem keepsFrom_of_laterTurns (h : LinksForward pageId lines) (hlt : start < lines.length)
    (hover : StepsOverNone config.maxLinesPerRequest lines start)
    (hstrike : StrikesNone config.maxLinesPerRequest lines start)
    (hkeeps : KeepsFrom pageId (nextTurn config lines start).1 (nextTurn config lines start).2
      (laterTurns config pageId fuel lines start)) :
    KeepsFrom pageId lines start (planLineFrom config pageId (fuel + 1) lines start) := by
  obtain ⟨hle, -⟩ := chainEnd_bounds config hlt
  rw [planLineFrom_turn fuel hlt]
  intro i k x y hx hy hxy
  rcases Nat.lt_trichotomy i (chainEnd config lines start) with hinside | rfl | hpast
  · -- before the end of the chunk: both ends are in it, if the tail is
    have hstands := (keepsLink_laterTurns h hlt hstrike hkeeps hx hy hxy
      (by omega)).behind (by omega)
    refine ⟨fun _ => hstands, fun hahead _ => ⟨_, List.mem_cons_self, ?_, ?_⟩,
      fun _ hdead => absurd hstands hdead⟩
    · exact (mem_sliceIds_iff h.line_ids hx).mpr (by omega)
    · have := le_chainEnd_of_inside h hlt hover hx hy hxy hahead hinside
      have := h.later i k ⟨x, y, hx, hy, hxy⟩
      exact (mem_sliceIds_iff h.line_ids hy).mpr (by omega)
  · -- at the end of the chunk: the link is cut, and recorded
    obtain ⟨hout, hcount⟩ := count_severTail_of_link start h hx hy hxy
    obtain ⟨z, hz, hnone⟩ := forward_severTail_eq_none h hle hx (.inl ⟨rfl, k, hout⟩)
    refine ⟨fun hbehind => absurd hbehind (Nat.not_lt.mpr hle), fun _ hlive => ?_, fun _ _ => ?_⟩
    · exact absurd hlive (not_linkAt_laterTurns h hlt hz hnone)
    · rw [List.count_append, hcount, count_laterTurns_eq_zero h hlt hx (.inl (Nat.le_refl _))]
  · -- past it: a later turn's
    obtain ⟨-, htogether, hrecorded⟩ :=
      keepsLink_laterTurns h hlt hstrike hkeeps hx hy hxy (by omega)
    refine ⟨fun hbehind => absurd hbehind (by omega), fun _ hlive => ?_, fun _ hdead => ?_⟩
    · obtain ⟨chunk, hchunk, hin⟩ := htogether hpast hlive
      exact ⟨chunk, List.mem_cons_of_mem _ hchunk, hin⟩
    · rw [List.count_append, count_severTail_of_ne h hx (by omega), Nat.zero_add]
      exact hrecorded hpast hdead

/-- **One turn keeps the links**, and the rest of the run does, exactly when
it steps over none and strikes none. -/
theorem keepsFrom_succ_iff (h : LinksForward pageId lines) (hlt : start < lines.length) :
    KeepsFrom pageId lines start (planLineFrom config pageId (fuel + 1) lines start) ↔
      (StepsOverNone config.maxLinesPerRequest lines start ∧
        StrikesNone config.maxLinesPerRequest lines start) ∧
      KeepsFrom pageId (nextTurn config lines start).1 (nextTurn config lines start).2
        (laterTurns config pageId fuel lines start) := by
  constructor
  · intro hkeeps
    exact ⟨⟨stepsOverNone_of_keepsFrom h hlt hkeeps, strikesNone_of_keepsFrom h hlt hkeeps⟩,
      keepsFrom_laterTurns h hlt hkeeps⟩
  · rintro ⟨⟨hover, hstrike⟩, hkeeps⟩
    exact keepsFrom_of_laterTurns h hlt hover hstrike hkeeps

/-! ### The whole loop -/

/-- What the LINE loop comes to from some lines and a start: the lines as
they then are, and where the next chunk starts. -/
inductive LineTurn (config : ChunkPlannerConfig) :
    List LineManifest → Nat → List LineManifest → Nat → Prop
  | here {lines : List LineManifest} {start : Nat} : LineTurn config lines start lines start
  | later {lines lines' : List LineManifest} {start start' : Nat} : start < lines.length →
      LineTurn config (nextTurn config lines start).1 (nextTurn config lines start).2
        lines' start' →
      LineTurn config lines start lines' start'

/-- No turn of the loop steps over a link that leads past its chunk, or
strikes one off. -/
def TurnsKeep (config : ChunkPlannerConfig) (lines : List LineManifest) (start : Nat) : Prop :=
  ∀ lines' start', LineTurn config lines start lines' start' → start' < lines'.length →
    StepsOverNone config.maxLinesPerRequest lines' start' ∧
      StrikesNone config.maxLinesPerRequest lines' start'

theorem turnsKeep_iff (hlt : start < lines.length) : TurnsKeep config lines start ↔
    (StepsOverNone config.maxLinesPerRequest lines start ∧
      StrikesNone config.maxLinesPerRequest lines start) ∧
    TurnsKeep config (nextTurn config lines start).1 (nextTurn config lines start).2 := by
  constructor
  · exact fun h => ⟨h _ _ .here hlt, fun lines' start' hturn => h lines' start' (.later hlt hturn)⟩
  · rintro ⟨hhere, hlater⟩ lines' start' hturn hlt'
    cases hturn with
    | here => exact hhere
    | later _ hturn => exact hlater lines' start' hturn hlt'

/-- Past the last line there is no turn, and every link stands. -/
theorem keepsFrom_done (hdone : lines.length ≤ start) :
    KeepsFrom pageId lines start ([], [], lines) := by
  intro i k x y hx hy hxy
  have hlt := (List.getElem?_eq_some_iff.mp hx).1
  exact ⟨fun _ => ⟨x, y, hx, hy, hxy⟩, fun hle => by omega, fun hle => by omega⟩

theorem turnsKeep_done (hdone : lines.length ≤ start) : TurnsKeep config lines start := by
  intro lines' start' hturn hlt'
  cases hturn with
  | here => omega
  | later hlt _ => omega

/-- **A run keeps the links exactly when each of its turns does.** -/
theorem keepsFrom_iff (fuel : Nat) (h : LinksForward pageId lines)
    (hfuel : lines.length ≤ start + fuel) :
    KeepsFrom pageId lines start (planLineFrom config pageId fuel lines start) ↔
      TurnsKeep config lines start := by
  induction fuel generalizing lines start with
  | zero => exact iff_of_true (keepsFrom_done (by omega)) (turnsKeep_done (by omega))
  | succ fuel ih =>
    by_cases hlt : start < lines.length
    · rw [keepsFrom_succ_iff h hlt, turnsKeep_iff hlt]
      refine and_congr_right fun _ => ih (h.nextTurn hlt) ?_
      have hlen := congrArg List.length (@lineRef_nextTurn config pageId lines start h)
      have hle := (chainEnd_bounds config hlt).1
      rw [List.length_map, List.length_map] at hlen
      rw [hlen]
      dsimp only [nextTurn]
      omega
    · rw [planLineFrom, if_neg hlt]
      exact iff_of_true (keepsFrom_done (by omega)) (turnsKeep_done (by omega))

end Run

/-! ## Links that keep apart -/

/-- No line steps over the tail of a link that leads past its partner, and a
line that continues onto another is looked up by one line at most, and has a
backward side to lose. -/
structure LinksApart (lines : List LineManifest) : Prop where
  nested : ∀ a b i k, partnerAt lines a = some b → LinkAt lines i k → a < i → i < b → k ≤ b
  both : ∀ a h k x, partnerAt lines a = some h → LinkAt lines h k → lines[h]? = some x →
    x.hyphenRole = .both
  once : ∀ a a' h k, partnerAt lines a = some h → partnerAt lines a' = some h → LinkAt lines h k →
    a = a'

/-- The lines after some turns: a line that still has a forward link has its
role, or was looked up by an earlier line. -/
structure Turned (pageId : Str) (lines lines' : List LineManifest) (start : Nat) : Prop where
  refs : lines'.map lineRef = lines.map lineRef
  ahead : LinksForward pageId lines'
  forward : ∀ (i : Nat) (x x' : LineManifest), lines[i]? = some x → lines'[i]? = some x' →
    forwardPartnerRef x' = none ∨ forwardPartnerRef x' = forwardPartnerRef x ∧
      (x'.hyphenRole = x.hyphenRole ∨ ∃ a < start, partnerAt lines a = some i)

namespace Turned

variable {config : ChunkPlannerConfig} {pageId : Str}
    {lines lines' : List LineManifest} {start : Nat}

theorem partnerAt (h : Turned pageId lines lines' start) {a b : Nat}
    (hpartner : Saknussemm.partnerAt lines' a = some b) :
    Saknussemm.partnerAt lines a = some b := by
  obtain ⟨x', ref, hx', href, hpos⟩ := partnerAt_eq_some_iff.mp hpartner
  obtain ⟨x, hx, -⟩ := getElem?_of_refs h.refs hx'
  refine partnerAt_eq_some_iff.mpr ⟨x, ref, hx, ?_, (positionOf_congr h.refs _).symm.trans hpos⟩
  rcases h.forward a x x' hx hx' with hnone | ⟨hsame, -⟩
  · rw [hnone] at href
    cases href
  · exact hsame.symm.trans href

theorem linkAt (h : Turned pageId lines lines' start) {i k : Nat} (hlink : LinkAt lines' i k) :
    LinkAt lines i k := by
  obtain ⟨x', y', hx', hy', hxy⟩ := hlink
  obtain ⟨x, hx, -⟩ := getElem?_of_refs h.refs hx'
  obtain ⟨y, hy, hyref⟩ := getElem?_of_refs h.refs hy'
  refine ⟨x, y, hx, hy, ?_⟩
  rcases h.forward i x x' hx hx' with hnone | ⟨hsame, -⟩
  · rw [hnone] at hxy
    cases hxy
  · rw [← hsame, hxy, hyref]

/-- One more turn changes the role of a line it cuts off or looks up. -/
theorem next (h : Turned pageId lines lines' start) (hlt : start < lines'.length) :
    Turned pageId lines (nextTurn config lines' start).1 (nextTurn config lines' start).2 := by
  obtain ⟨hle, -⟩ := chainEnd_bounds config hlt
  refine ⟨(lineRef_nextTurn h.ahead).trans h.refs, h.ahead.nextTurn hlt, fun i x x'' hx hx'' => ?_⟩
  obtain ⟨x', hx', -⟩ := getElem?_of_refs (lineRef_nextTurn h.ahead) hx''
  obtain ⟨z, hz, -, hkept, htail, -, hother⟩ := getElem?_severTail h.ahead hle hx'
  obtain rfl : x'' = z := by simpa using hx''.symm.trans hz
  rcases hkept with hnone | hsame
  · exact .inl hnone
  rcases h.forward i x x' hx hx' with hnone | ⟨hforward, hrole⟩
  · exact .inl (hsame.trans hnone)
  refine (em (forwardPartnerRef x'' = none)).imp_right fun hstands => ⟨hsame.trans hforward, ?_⟩
  have hearlier : (∃ a < start, Saknussemm.partnerAt lines a = some i) →
      ∃ a < (nextTurn config lines' start).2, Saknussemm.partnerAt lines a = some i := by
    rintro ⟨a, ha, hpartner⟩
    exact ⟨a, by dsimp only [nextTurn]; omega, hpartner⟩
  by_cases hout : LooksOut lines' start (chainEnd config lines' start) i
  · exact .inr ⟨_, Nat.lt_succ_self _, h.partnerAt hout.1⟩
  · have hsameLine : x'' = x' := by
      by_cases hlast : i = chainEnd config lines' start
      · rcases severTail_cases start (chainEnd config lines' start) h.ahead with
          ⟨heq, -⟩ | ⟨k, _, _, hpartner, hk, -⟩
        · rw [heq] at hz
          simpa using hz.symm.trans hx'
        · exact absurd (htail k ⟨hpartner, hk⟩ hlast) hstands
      · exact hother hlast hout
    rw [hsameLine]
    exact hrole.imp_right hearlier

/-- Links that keep apart are kept by every turn. -/
theorem safe (h : Turned pageId lines lines' start) (hapart : LinksApart lines) (cap : Nat) :
    StepsOverNone cap lines' start ∧ StrikesNone cap lines' start := by
  constructor
  · intro a b i k ha hstep hai hib hlink
    exact ⟨b, ha.follow hstep, hapart.nested a b i k (h.partnerAt hstep.1) (h.linkAt hlink) hai hib⟩
  · intro last i k x' hlast _ hout hlink hx'
    obtain ⟨x, hx, -⟩ := getElem?_of_refs h.refs hx'
    have hpartner := h.partnerAt hout.1
    rcases h.forward i x x' hx hx' with hnone | ⟨-, hsame | ⟨a, ha, hearlier⟩⟩
    · obtain ⟨z, _, hz, -, hforward⟩ := hlink
      obtain rfl : x' = z := by simpa using hx'.symm.trans hz
      rw [hnone] at hforward
      cases hforward
    · rw [hsame]
      exact hapart.both last i k x hpartner (h.linkAt hlink) hx
    · obtain rfl := hapart.once a last i k hearlier hpartner (h.linkAt hlink)
      have := hlast.le
      omega

theorem turnsKeep (h : Turned pageId lines lines' start) (hapart : LinksApart lines) :
    TurnsKeep config lines' start := by
  intro lines'' start'' hturn
  induction hturn with
  | here => exact fun _ => h.safe hapart _
  | later hlt _ ih => exact ih (h.next hlt)

end Turned

end Saknussemm
