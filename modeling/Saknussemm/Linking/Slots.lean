import Saknussemm.Document

/-! # What one link writes.

The linker's only write is `linkPair`: it sets the forward link of a line
and the backward link of its candidate, after giving the candidate a role
with a backward side.  Everything the passes need to know about it is one
lemma per slot: the forward link of the line, the backward link of the
candidate, and what the promotion does to the links each of them already
had. -/

namespace Saknussemm

open Sweep

/-! ## Slots -/

@[simp] theorem slotRef_none (own : Str) (p : Option Str) : slotRef own p none = none := rfl

theorem slotRef_some {own : Str} {p : Option Str} {s : Str} (hs : s ≠ []) :
    slotRef own p (some s) = some ⟨orElseStr p own, s⟩ := by
  cases s with
  | nil => exact absurd rfl hs
  | cons c cs => rfl

theorem slotRef_eq_none {own : Str} {p l : Option Str} : slotRef own p l = none ↔
    truthy l = false := by
  rcases l with _ | _ | ⟨c, cs⟩ <;> simp [slotRef, truthy]

@[simp] theorem orElseStr_self (s : Str) : orElseStr (some s) s = s := by
  cases s <;> rfl

@[simp] theorem orElseStr_none (s : Str) : orElseStr none s = s := rfl

/-- Reading a slot's page id gives `s` unless `s` is empty and the line
lives elsewhere. -/
theorem orElseStr_eq_iff {s own : Str} (h : own ≠ s) : orElseStr (some s) own = s ↔ s ≠ [] := by
  cases s with
  | nil => simpa [orElseStr] using h
  | cons c cs => simp [orElseStr]

/-- A line's links, both ways, are mutual with its neighbour's. -/
abbrev JoinedLines : LineManifest → LineManifest → Prop :=
  Joined lineRef forwardPartnerRef backwardPartnerRef

/-- Link symmetry of a list of lines. -/
abbrev LinkSymmetric : List LineManifest → Prop :=
  Symmetric lineRef forwardPartnerRef backwardPartnerRef

/-! ## What one link writes -/

section LinkPair

variable {policy : PairingPolicy} {x y : LineManifest}

/-- The link is made: the line breaks a word and the policy accepts. -/
def links (policy : PairingPolicy) (x y : LineManifest) : Bool :=
  opensForward x && policy.canPair x y

theorem linkPair_of_not_links (h : links policy x y = false) : linkPair policy x y = (x, y) := by
  simp only [links] at h
  simp [linkPair, h]

theorem linkPair_of_links (h : links policy x y = true) :
    linkPair policy x y = joinPair x (claimCandidate x y) := by
  simp only [links] at h
  simp [linkPair, h]

@[simp] theorem claimCandidate_lineId : (claimCandidate x y).lineId = y.lineId := by
  unfold claimCandidate
  split <;> rfl

@[simp] theorem claimCandidate_pageId : (claimCandidate x y).pageId = y.pageId := by
  unfold claimCandidate
  split <;> rfl

@[simp] theorem claimCandidate_ocrText : (claimCandidate x y).ocrText = y.ocrText := by
  unfold claimCandidate
  split <;> rfl

/-- The candidate ends up with a backward side, and keeps its forward one. -/
theorem claimCandidate_hyphenRole : (claimCandidate x y).hyphenRole =
    if opensForward y then .both else .part2 := by
  unfold claimCandidate opensForward
  cases h : y.hyphenRole <;> simp [h]

@[simp] theorem claimCandidate_forwardPairId :
    (claimCandidate x y).hyphenForwardPairId = y.hyphenForwardPairId := by
  unfold claimCandidate
  split <;> rfl

@[simp] theorem claimCandidate_forwardPairPageId :
    (claimCandidate x y).hyphenForwardPairPageId = y.hyphenForwardPairPageId := by
  unfold claimCandidate
  split <;> rfl

@[simp] theorem joinPair_fst_ref : lineRef (joinPair x y).1 = lineRef x := by
  unfold joinPair
  split <;> rfl

@[simp] theorem joinPair_snd_ref : lineRef (joinPair x y).2 = lineRef y := by
  unfold joinPair
  split <;> rfl

@[simp] theorem joinPair_fst_hyphenRole : (joinPair x y).1.hyphenRole = x.hyphenRole := by
  unfold joinPair
  split <;> rfl

@[simp] theorem joinPair_snd_hyphenRole : (joinPair x y).2.hyphenRole = y.hyphenRole := by
  unfold joinPair
  split <;> rfl

@[simp] theorem joinPair_snd_forwardRef : forwardRef (joinPair x y).2 = forwardRef y := by
  unfold joinPair
  split <;> rfl

/-- The PAIR slot of the candidate names the line. -/
theorem joinPair_snd_pairRef :
    pairRef (joinPair x y).2 = slotRef y.pageId (some x.pageId) (some x.lineId) := by
  unfold joinPair
  split <;> rfl

/-- The slot that is the line's forward one names the candidate. -/
theorem joinPair_fst_forward (h : opensForward x = true) :
    forwardPartnerRef (joinPair x y).1 = slotRef x.pageId (some y.pageId) (some y.lineId) := by
  unfold joinPair forwardPartnerRef
  cases hr : x.hyphenRole <;> simp [opensForward, hr] at h <;> simp [pairRef, forwardRef]

/-- Writing its forward link leaves a line's backward one alone. -/
theorem joinPair_fst_backward (h : opensForward x = true) :
    backwardPartnerRef (joinPair x y).1 = backwardPartnerRef x := by
  unfold joinPair backwardPartnerRef
  cases hr : x.hyphenRole <;> simp [opensForward, hr] at h <;> simp [pairRef]

@[simp] theorem linkPair_fst_ref : lineRef (linkPair policy x y).1 = lineRef x := by
  unfold linkPair
  split <;> simp

@[simp] theorem linkPair_snd_ref : lineRef (linkPair policy x y).2 = lineRef y := by
  unfold linkPair
  split
  · rw [joinPair_snd_ref]
    simp [lineRef]
  · rfl

/-- A link never touches the text, so blank lines stay blank. -/
@[simp] theorem linkPair_fst_ocrText : (linkPair policy x y).1.ocrText = x.ocrText := by
  unfold linkPair joinPair
  split <;> [split; skip] <;> rfl

@[simp] theorem linkPair_snd_ocrText : (linkPair policy x y).2.ocrText = y.ocrText := by
  unfold linkPair joinPair
  split <;> [split; skip] <;> simp

@[simp] theorem linkPair_fst_hyphenRole : (linkPair policy x y).1.hyphenRole = x.hyphenRole := by
  unfold linkPair
  split <;> simp

/-- The line's backward link survives whatever becomes of its forward one. -/
@[simp] theorem linkPair_fst_backward :
    backwardPartnerRef (linkPair policy x y).1 = backwardPartnerRef x := by
  unfold linkPair
  split
  · next h => exact joinPair_fst_backward (by simp only [Bool.and_eq_true] at h; exact h.1)
  · rfl

theorem linkPair_fst_forward (h : links policy x y = true) :
    forwardPartnerRef (linkPair policy x y).1
      = slotRef x.pageId (some y.pageId) (some y.lineId) := by
  have hopen : opensForward x = true := by
    simp only [links, Bool.and_eq_true] at h
    exact h.1
  rw [linkPair_of_links h, joinPair_fst_forward hopen]
  simp

theorem linkPair_snd_hyphenRole (h : links policy x y = true) :
    (linkPair policy x y).2.hyphenRole = if opensForward y then .both else .part2 := by
  rw [linkPair_of_links h, joinPair_snd_hyphenRole, claimCandidate_hyphenRole]

theorem linkPair_snd_backward (h : links policy x y = true) :
    backwardPartnerRef (linkPair policy x y).2
      = slotRef y.pageId (some x.pageId) (some x.lineId) := by
  rw [linkPair_of_links h]
  unfold backwardPartnerRef
  rw [joinPair_snd_hyphenRole, claimCandidate_hyphenRole, joinPair_snd_pairRef]
  cases opensForward y <;> simp

/-- **What the promotion does to the candidate's own forward link**: a
`part1` candidate becomes `both` and from then on reads its FORWARD slot,
which the promotion does not fill; every other candidate keeps its link. -/
theorem linkPair_snd_forward (h : links policy x y = true) :
    forwardPartnerRef (linkPair policy x y).2
      = if y.hyphenRole = .part1 then forwardRef y else forwardPartnerRef y := by
  rw [linkPair_of_links h]
  unfold forwardPartnerRef
  rw [joinPair_snd_hyphenRole, claimCandidate_hyphenRole, joinPair_snd_forwardRef]
  have hslot : forwardRef (claimCandidate x y) = forwardRef y := by simp [forwardRef]
  rw [hslot]
  cases hr : y.hyphenRole <;> simp [opensForward, hr]

end LinkPair

end Saknussemm
