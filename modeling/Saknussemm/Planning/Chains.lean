import Saknussemm.Planning.Links

/-! # What a LINE plan severs.

A LINE plan walks the page chain by chain.  Each walk that stops short of
its last line's partner severs that one link, and takes the backward side
off the line it finds at the partner's position. -/

namespace Saknussemm

/-! ## One cut -/

section Split

variable {tail head : LineManifest}

@[simp] theorem splitForwardLink_tail_ref :
    lineRef (splitForwardLink tail head).1 = lineRef tail := by
  simp only [splitForwardLink]
  split <;> rfl

@[simp] theorem splitForwardLink_head_ref :
    lineRef (splitForwardLink tail head).2.1 = lineRef head := by
  simp only [splitForwardLink]
  split <;> rfl

/-- The tail's forward link is gone. -/
@[simp] theorem splitForwardLink_tail_forward :
    forwardPartnerRef (splitForwardLink tail head).1 = none := by
  simp only [splitForwardLink]
  split <;> rfl

/-- The head keeps its own forward link, unless it is taken for a `part2`
line and is a `part1`. -/
theorem splitForwardLink_head_forward :
    forwardPartnerRef (splitForwardLink tail head).2.1 =
      if head.hyphenRole = .part1 then none else forwardPartnerRef head := by
  simp only [splitForwardLink, forwardPartnerRef]
  cases hr : head.hyphenRole <;> simp [pairRef, forwardRef]

/-- The head loses its backward side. -/
theorem splitForwardLink_head_role :
    (splitForwardLink tail head).2.1.hyphenRole =
      if head.hyphenRole = .both then .part1 else .none := by
  simp only [splitForwardLink]
  split <;> rfl

end Split

/-- Sever the link from one position to another. -/
def severAt (lines : List LineManifest) (cut : Nat × Nat) : List LineManifest :=
  match lines[cut.1]?, lines[cut.2]? with
  | some tail, some head =>
    (lines.set cut.1 (splitForwardLink tail head).1).set cut.2 (splitForwardLink tail head).2.1
  | _, _ => lines

theorem severAt_eq {lines : List LineManifest} {cut : Nat × Nat} {tail head : LineManifest}
    (htail : lines[cut.1]? = some tail) (hhead : lines[cut.2]? = some head) :
    severAt lines cut = (lines.set cut.1 (splitForwardLink tail head).1).set cut.2
      (splitForwardLink tail head).2.1 := by
  rw [severAt, htail, hhead]

/-- A cut changes no reference. -/
theorem map_lineRef_severAt (lines : List LineManifest) (cut : Nat × Nat) :
    (severAt lines cut).map lineRef = lines.map lineRef := by
  have hset : ∀ (l : List LineManifest) (i : Nat) (a b : LineManifest), l[i]? = some a →
      lineRef b = lineRef a → (l.set i b).map lineRef = l.map lineRef := by
    intro l i a b ha hab
    obtain ⟨hi, rfl⟩ := List.getElem?_eq_some_iff.mp ha
    rw [List.map_set, hab, ← List.map_set, List.set_getElem_self]
  rw [severAt]
  split
  · next tail head htail hhead =>
    obtain ⟨hlt, -⟩ := List.getElem?_eq_some_iff.mp hhead
    have hfirst := hset lines cut.1 tail (splitForwardLink tail head).1 htail
      splitForwardLink_tail_ref
    -- where the head stands now, its ref is still the head's
    obtain ⟨mid, hmid⟩ : ∃ mid,
        (lines.set cut.1 (splitForwardLink tail head).1)[cut.2]? = some mid :=
      ⟨_, List.getElem?_eq_getElem (by rw [List.length_set]; exact hlt)⟩
    have hmidref : lineRef mid = lineRef head := by
      have hat : (List.map lineRef (lines.set cut.1 (splitForwardLink tail head).1))[cut.2]?
          = (lines.map lineRef)[cut.2]? := by rw [hfirst]
      rwa [List.getElem?_map, hmid, List.getElem?_map, hhead, Option.map_some, Option.map_some,
        Option.some_inj] at hat
    rw [hset _ cut.2 mid _ hmid (splitForwardLink_head_ref.trans hmidref.symm), hfirst]
  · rfl

/-- A cut between two positions of an `n`-line page. -/
def Cuts (n : Nat) (cut : Nat × Nat) : Prop := cut.1 ≠ cut.2 ∧ cut.1 < n ∧ cut.2 < n

/-- What one cut leaves at each position. -/
theorem getElem?_severAt {lines : List LineManifest} {cut : Nat × Nat}
    (hcut : Cuts lines.length cut) {i : Nat} {lm : LineManifest} (hlm : lines[i]? = some lm) :
    ∃ lm', (severAt lines cut)[i]? = some lm' ∧
      (i = cut.1 → forwardPartnerRef lm' = none) ∧
      (i = cut.2 → lm'.hyphenRole = (if lm.hyphenRole = .both then .part1 else .none) ∧
        forwardPartnerRef lm' = if lm.hyphenRole = .part1 then none else forwardPartnerRef lm) ∧
      (i ≠ cut.1 → i ≠ cut.2 → lm' = lm) := by
  obtain ⟨hne, htail, hhead⟩ := hcut
  have htail' := List.getElem?_eq_getElem htail
  have hhead' := List.getElem?_eq_getElem hhead
  rw [severAt_eq htail' hhead']
  by_cases htaili : i = cut.1
  · subst htaili
    refine ⟨(splitForwardLink lines[cut.1] lines[cut.2]).1, ?_,
      fun _ => splitForwardLink_tail_forward, fun h => absurd h hne, fun h => absurd rfl h⟩
    rw [List.getElem?_set_ne hne.symm, List.getElem?_set_self htail]
  · by_cases hheadi : i = cut.2
    · subst hheadi
      obtain rfl : lm = lines[cut.2] := by simpa [hhead'] using hlm.symm
      refine ⟨(splitForwardLink lines[cut.1] lines[cut.2]).2.1, ?_, fun h => absurd h htaili,
        fun _ => ⟨splitForwardLink_head_role, splitForwardLink_head_forward⟩,
        fun _ h => absurd rfl h⟩
      rw [List.getElem?_set_self (by rw [List.length_set]; exact hhead)]
    · refine ⟨lm, ?_, fun h => absurd h htaili, fun h => absurd h hheadi, fun _ _ => rfl⟩
      rw [List.getElem?_set_ne (Ne.symm hheadi), List.getElem?_set_ne (Ne.symm htaili), hlm]

/-! ## The chain walks of a page -/

/-- First and last position of each LINE chunk, read off the lines as they
come. -/
def chainSpansFrom (config : ChunkPlannerConfig) (lines : List LineManifest) :
    Nat → Nat → List (Nat × Nat)
  | 0, _ => []
  | fuel + 1, start =>
    if start < lines.length then
      let last := followChain config.maxLinesPerRequest lines start lines.length start
      (start, last) :: chainSpansFrom config lines fuel (last + 1)
    else []

/-- The LINE chunks of a page as positions. -/
def chainSpans (config : ChunkPlannerConfig) (lines : List LineManifest) : List (Nat × Nat) :=
  chainSpansFrom config lines lines.length 0

/-- The cut a chain walk ends with: its last line's partner is on the page
but not in the chunk. -/
def cutOf (lines : List LineManifest) (span : Nat × Nat) : Option (Nat × Nat) :=
  (partnerAt lines span.2).bind fun partner =>
    if partner < span.1 ∨ span.2 < partner then some (span.2, partner) else none

/-- A chain is cut where its last line points outside it. -/
theorem cutOf_eq_some {lines : List LineManifest} {span cut : Nat × Nat} :
    cutOf lines span = some cut ↔ span.2 = cut.1 ∧ partnerAt lines span.2 = some cut.2 ∧
      (cut.2 < span.1 ∨ span.2 < cut.2) := by
  rw [cutOf, Option.bind_eq_some_iff]
  constructor
  · rintro ⟨partner, hpartner, hcut⟩
    split at hcut
    · next hout =>
      cases hcut
      exact ⟨rfl, hpartner, hout⟩
    · cases hcut
  · rintro ⟨hspan, hpartner, hout⟩
    refine ⟨cut.2, hpartner, ?_⟩
    rw [if_pos hout, hspan]

/-- A chain walk goes forward and stays on the page. -/
theorem followChain_bounds (cap start fuel : Nat) {last : Nat} {lines : List LineManifest}
    (hlast : last < lines.length) :
    last ≤ followChain cap lines start fuel last ∧
      followChain cap lines start fuel last < lines.length := by
  induction fuel generalizing last with
  | zero => exact ⟨Nat.le_refl _, hlast⟩
  | succ fuel ih =>
    rw [followChain]
    split
    · exact ⟨Nat.le_refl _, hlast⟩
    · next partner hpartner =>
      obtain ⟨_, _, _, _, hpos⟩ := partnerAt_eq_some_iff.mp hpartner
      obtain ⟨_, hlm, -⟩ := positionOf_some hpos
      have hlt := (List.getElem?_eq_some_iff.mp hlm).1
      split
      · exact ⟨Nat.le_refl _, hlast⟩
      · split
        · exact ⟨Nat.le_refl _, hlast⟩
        · have := ih hlt
          omega

/-- A chain walk reads forward links from its start on. -/
theorem followChain_congr {cap start fuel last : Nat} {lines lines' : List LineManifest}
    (hpartner : ∀ position, last ≤ position →
      partnerAt lines' position = partnerAt lines position) :
    followChain cap lines' start fuel last = followChain cap lines start fuel last := by
  induction fuel generalizing last with
  | zero => rfl
  | succ fuel ih =>
    rw [followChain, followChain, hpartner last (Nat.le_refl _)]
    split
    · rfl
    · next partner _ =>
      split
      · rfl
      · split
        · rfl
        · exact ih fun position hle => hpartner position (by omega)

/-- The spans of a page lie on it, in order. -/
theorem mem_chainSpansFrom {config : ChunkPlannerConfig} {lines : List LineManifest}
    {fuel start : Nat} {span : Nat × Nat} (h : span ∈ chainSpansFrom config lines fuel start) :
    start ≤ span.1 ∧ span.1 ≤ span.2 ∧ span.2 < lines.length := by
  induction fuel generalizing start with
  | zero => cases h
  | succ fuel ih =>
    rw [chainSpansFrom] at h
    split at h
    · next hlt =>
      have hb := followChain_bounds config.maxLinesPerRequest start lines.length hlt
      rcases List.mem_cons.mp h with rfl | htail
      · exact ⟨Nat.le_refl _, hb⟩
      · have := ih htail
        omega
    · cases h

/-- Walks end at different lines. -/
theorem nodup_ends_chainSpansFrom (config : ChunkPlannerConfig) (lines : List LineManifest)
    (fuel start : Nat) : ((chainSpansFrom config lines fuel start).map Prod.snd).Nodup := by
  induction fuel generalizing start with
  | zero => exact List.nodup_nil
  | succ fuel ih =>
    rw [chainSpansFrom]
    split
    · refine List.nodup_cons.mpr ⟨fun hmem => ?_, ih _⟩
      obtain ⟨span, hspan, heq⟩ := List.mem_map.mp hmem
      have := mem_chainSpansFrom hspan
      omega
    · exact List.nodup_nil

/-- The links a LINE plan severs, by position. -/
def lineCuts (config : ChunkPlannerConfig) (lines : List LineManifest) : List (Nat × Nat) :=
  (chainSpans config lines).filterMap (cutOf lines)

/-- The record of a cut. -/
def splitAt (page : PageManifest) (cut : Nat × Nat) : HyphenSplit :=
  ⟨page.pageId, ((page.lines[cut.1]?).map LineManifest.lineId).getD [],
    ((page.lines[cut.2]?).map LineManifest.lineId).getD []⟩

/-- The LINE chunk of a walk. -/
def chainChunk (page : PageManifest) (span : Nat × Nat) : ChunkRequest :=
  makeChunk page.pageId .line (sliceIds page.lines span.1 (span.2 + 1)) none none

/-! ## What a strike can hit -/

/-- The line at `i` continues onto another page, onto a line whose bare id
is the one of position `k` here. -/
def PhantomAt (lines : List LineManifest) (i k : Nat) : Prop :=
  ∃ x ref, lines[i]? = some x ∧ forwardPartnerRef x = some ref ∧ ref ∉ lines.map lineRef ∧
    positionOf lines ref.lineId = some k

/-- Looking a position up reads the ids alone. -/
theorem positionOf_congr {lines lines' : List LineManifest}
    (hrefs : lines'.map lineRef = lines.map lineRef) (lineId : Str) :
    positionOf lines' lineId = positionOf lines lineId := by
  have heq : ∀ l : List LineManifest,
      positionOf l lineId = (l.map lineRef).findIdx? (·.lineId = lineId) := by
    intro l
    rw [List.findIdx?_map]
    rfl
  rw [heq, heq, hrefs]

theorem sliceIds_congr {lines lines' : List LineManifest}
    (hrefs : lines'.map lineRef = lines.map lineRef) (start stop : Nat) :
    sliceIds lines' start stop = sliceIds lines start stop := by
  have heq : ∀ l : List LineManifest, sliceIds l start stop =
      (((l.map lineRef).drop start).take (stop - start)).map LineRef.lineId := by
    intro l
    rw [← List.map_drop, ← List.map_take, List.map_map]
    rfl
  rw [heq, heq, hrefs]

end Saknussemm
