import Saknussemm.Linking.InPage

/-! # The cross-page pass.

The last line of a page and the first line of the next page with text are
a seam.  Sewing keeps the document's links mutual exactly when every seam
it sews is sound: a seam is **unsound** when its head is a `part1` line
already linked in its own page (promoting it to `both` moves the flags but
not the pointer, so the in-page link is lost), or when one of the two page
ids is empty (an empty id in a slot reads as "my own page"). -/

namespace Saknussemm

open Sweep

/-! ## Sewing the seams -/

/-- A seam is sound when, if it is sewn at all, both pages have an id and
its head is not a `part1` line that already continues on its own page. -/
def SeamSound (policy : PairingPolicy) (x y : LineManifest) : Prop :=
  needsForwardLink x = true → policy.canPair x y = true →
    x.pageId ≠ [] ∧ y.pageId ≠ [] ∧ ¬ (y.hyphenRole = .part1 ∧ forwardPartnerRef y ≠ none)

/-- The two lines of a seam as the earlier passes leave them. -/
structure SeamReady (x y : LineManifest) : Prop where
  tail_free : forwardPartnerRef x = none
  head_free : backwardPartnerRef y = none
  pages : x.pageId ≠ y.pageId
  tail_id : x.lineId ≠ []
  head_id : y.lineId ≠ []
  fit : SlotsFit y

/-- A line that breaks a word needs a link exactly when it has none. -/
theorem needsForwardLink_eq (x : LineManifest) :
    needsForwardLink x = (opensForward x && (forwardPartnerRef x).isNone) := by
  have hslot : ∀ own p l, (slotRef own p l).isNone = !truthy l := by
    intro own p l
    rcases l with _ | _ | ⟨c, cs⟩ <;> rfl
  cases hr : x.hyphenRole <;>
    simp [needsForwardLink, opensForward, forwardPartnerRef, hr, pairRef, forwardRef, hslot]

section Sew

variable {policy : PairingPolicy} {x y z : LineManifest}

/-- The seam is sewn: the tail needs a partner and the policy accepts. -/
def sews (policy : PairingPolicy) (x y : LineManifest) : Bool :=
  needsForwardLink x && policy.canPair x y

theorem links_of_sews (h : sews policy x y = true) : links policy x y = true := by
  simp only [sews, Bool.and_eq_true, needsForwardLink_eq] at h
  simp [links, h.1.1, h.2]

theorem sewSeam_of_sews (h : sews policy x y = true) :
    sewSeam policy x y = linkPair policy x y := by
  simp only [sews, Bool.and_eq_true] at h
  simp [sewSeam, h.1]

theorem sewSeam_of_not_sews (h : sews policy x y = false) :
    sewSeam policy x y = (x, y) := by
  unfold sewSeam
  split
  · next hn =>
    simp only [sews, hn, Bool.true_and] at h
    exact linkPair_of_not_links (by simp [links, h])
  · rfl

@[simp] theorem sewSeam_fst_ref : lineRef (sewSeam policy x y).1 = lineRef x := by
  unfold sewSeam
  split <;> simp

@[simp] theorem sewSeam_snd_ref : lineRef (sewSeam policy x y).2 = lineRef y := by
  unfold sewSeam
  split <;> simp

@[simp] theorem sewSeam_fst_ocrText : (sewSeam policy x y).1.ocrText = x.ocrText := by
  unfold sewSeam
  split <;> simp

@[simp] theorem sewSeam_snd_ocrText : (sewSeam policy x y).2.ocrText = y.ocrText := by
  unfold sewSeam
  split <;> simp

@[simp] theorem sewSeam_fst_backward :
    backwardPartnerRef (sewSeam policy x y).1 = backwardPartnerRef x := by
  unfold sewSeam
  split <;> simp

/-- Whether a line breaks a word is not for a link to change. -/
@[simp] theorem linkPair_snd_opensForward :
    opensForward (linkPair policy x y).2 = opensForward y := by
  cases h : links policy x y with
  | false => rw [linkPair_of_not_links h]
  | true =>
    have hrole := linkPair_snd_hyphenRole h
    unfold opensForward at hrole ⊢
    rw [hrole]
    split <;> grind

@[simp] theorem linkPair_fst_opensForward :
    opensForward (linkPair policy x y).1 = opensForward x := by
  unfold opensForward
  rw [linkPair_fst_hyphenRole]

@[simp] theorem sewSeam_snd_opensForward :
    opensForward (sewSeam policy x y).2 = opensForward y := by
  unfold sewSeam
  split <;> simp

namespace SeamReady

/-- A sewn seam names the right head exactly when the head's page has an id. -/
theorem forward_iff (h : SeamReady x y) (hs : sews policy x y = true) :
    forwardPartnerRef (sewSeam policy x y).1 = some (lineRef (sewSeam policy x y).2)
      ↔ y.pageId ≠ [] := by
  rw [sewSeam_of_sews hs, linkPair_fst_forward (links_of_sews hs), linkPair_snd_ref,
    slotRef_some h.head_id, ← orElseStr_eq_iff h.pages]
  simp [lineRef]

/-- … and the right tail exactly when the tail's page has one. -/
theorem backward_iff (h : SeamReady x y) (hs : sews policy x y = true) :
    backwardPartnerRef (sewSeam policy x y).2 = some (lineRef (sewSeam policy x y).1)
      ↔ x.pageId ≠ [] := by
  rw [sewSeam_of_sews hs, linkPair_snd_backward (links_of_sews hs), linkPair_fst_ref,
    slotRef_some h.tail_id, ← orElseStr_eq_iff h.pages.symm]
  simp [lineRef]

/-- A sound seam is left joined, sewn or not. -/
theorem joined (h : SeamReady x y) (hsound : SeamSound policy x y) :
    JoinedLines (sewSeam policy x y).1 (sewSeam policy x y).2 := by
  cases hs : sews policy x y with
  | false =>
    rw [sewSeam_of_not_sews hs]
    exact .inr ⟨h.tail_free, h.head_free⟩
  | true =>
    have hs' := hs
    simp only [sews, Bool.and_eq_true] at hs'
    obtain ⟨hxp, hyp, -⟩ := hsound hs'.1 hs'.2
    exact .inl ⟨(h.forward_iff hs).mpr hyp, (h.backward_iff hs).mpr hxp⟩

/-- What sewing does to the head's own forward link: promoting a `part1`
head hides its in-page link, and nothing else is touched. -/
theorem head_forward (h : SeamReady x y) (hs : sews policy x y = true) :
    forwardPartnerRef (sewSeam policy x y).2
      = if y.hyphenRole = .part1 then none else forwardPartnerRef y := by
  rw [sewSeam_of_sews hs, linkPair_snd_forward (links_of_sews hs)]
  split
  · next hr =>
    have hf : y.hyphenForwardPairId = none := h.fit.forward_both (by simp [hr])
    simp [forwardRef, hf]
  · rfl

/-- A head with no in-page link has none after sewing either. -/
theorem head_forward_none (h : SeamReady x y) (hy : forwardPartnerRef y = none) :
    forwardPartnerRef (sewSeam policy x y).2 = none := by
  cases hs : sews policy x y with
  | false => rw [sewSeam_of_not_sews hs, hy]
  | true =>
    rw [h.head_forward hs, hy]
    exact ite_self none

/-- Across a sound seam the head keeps whatever forward link it had. -/
theorem head_forward_of_sound (h : SeamReady x y) (hsound : SeamSound policy x y) :
    forwardPartnerRef (sewSeam policy x y).2 = forwardPartnerRef y := by
  cases hs : sews policy x y with
  | false => rw [sewSeam_of_not_sews hs]
  | true =>
    have hs' := hs
    simp only [sews, Bool.and_eq_true] at hs'
    obtain ⟨-, -, hclobber⟩ := hsound hs'.1 hs'.2
    rw [h.head_forward hs]
    split
    · next hr =>
      by_contra hne
      exact hclobber ⟨hr, fun hn => hne hn.symm⟩
    · rfl

end SeamReady

end Sew

/-! ### The walk over the whole document -/

/-- Neighbours before the walk: a seam ready to be sewn, or two lines of
one page, already joined. -/
def Adjacent (x y : SeamLine) : Prop :=
  if y.opensPage then SeamReady x.line y.line else JoinedLines x.line y.line

/-- If the pair is a seam, it is a sound one. -/
def SoundPair (policy : PairingPolicy) (x y : SeamLine) : Prop :=
  y.opensPage = true → SeamSound policy x.line y.line

section Walk

variable {policy : PairingPolicy} {x y z : SeamLine} {ys : List SeamLine}

theorem sewStep_inPage (h : y.opensPage = false) : sewStep policy x y = (x, y) := by
  simp [sewStep, h]

theorem sewStep_seam (h : y.opensPage = true) : sewStep policy x y =
    (⟨x.opensPage, (sewSeam policy x.line y.line).1⟩,
      ⟨y.opensPage, (sewSeam policy x.line y.line).2⟩) := by
  simp [sewStep, h]

@[simp] theorem sewStep_fst_ref : lineRef (sewStep policy x y).1.line = lineRef x.line := by
  unfold sewStep
  split <;> simp

@[simp] theorem sewStep_snd_ref : lineRef (sewStep policy x y).2.line = lineRef y.line := by
  unfold sewStep
  split <;> simp

@[simp] theorem sewStep_fst_backward :
    backwardPartnerRef (sewStep policy x y).1.line = backwardPartnerRef x.line := by
  unfold sewStep
  split <;> simp

@[simp] theorem sewStep_fst_ocrText : (sewStep policy x y).1.line.ocrText = x.line.ocrText := by
  unfold sewStep
  split <;> simp

@[simp] theorem sewStep_snd_ocrText : (sewStep policy x y).2.line.ocrText = y.line.ocrText := by
  unfold sewStep
  split <;> simp

/-- A later step leaves the pair joined, or apart, as it is. -/
theorem JoinedLines.sewStep_fst {w : LineManifest} (h : JoinedLines w x.line) :
    JoinedLines w (sewStep policy x y).1.line := by
  rcases h with ⟨hf, hb⟩ | ⟨hf, hb⟩
  · exact .inl ⟨by rw [hf, sewStep_fst_ref], by rw [sewStep_fst_backward, hb]⟩
  · exact .inr ⟨hf, by rw [sewStep_fst_backward, hb]⟩

/-- A step on a sound pair leaves the pair joined. -/
theorem Adjacent.joined (h : Adjacent x y) (hsound : SoundPair policy x y) :
    JoinedLines (sewStep policy x y).1.line (sewStep policy x y).2.line := by
  unfold Adjacent at h
  by_cases hy : y.opensPage = true
  · rw [if_pos hy] at h
    rw [sewStep_seam hy]
    exact h.joined (hsound hy)
  · rw [if_neg hy] at h
    rw [sewStep_inPage (by simpa using hy)]
    exact h

/-- **A step on a sound pair keeps the next pair ready**, and as sound as
it was. -/
theorem Adjacent.step (hxy : Adjacent x y) (hsound : SoundPair policy x y) (hyz : Adjacent y z) :
    Adjacent (sewStep policy x y).2 z ∧
      (SoundPair policy (sewStep policy x y).2 z ↔ SoundPair policy y z) := by
  by_cases hy : y.opensPage = true
  · unfold Adjacent at hxy
    rw [if_pos hy] at hxy
    have hfwd := hxy.head_forward_of_sound (hsound hy)
    have href : lineRef (sewSeam policy x.line y.line).2 = lineRef y.line := sewSeam_snd_ref
    have hids := href
    simp only [lineRef, LineRef.mk.injEq] at hids
    rw [sewStep_seam hy]
    unfold Adjacent SoundPair at *
    by_cases hz : z.opensPage = true
    · simp only [hz, if_true, forall_const] at hyz ⊢
      refine ⟨⟨hfwd.trans hyz.tail_free, hyz.head_free, ?_, ?_, hyz.head_id, hyz.fit⟩, ?_⟩
      · rw [hids.1]
        exact hyz.pages
      · rw [hids.2]
        exact hyz.tail_id
      · -- Both sides of a seam are read through its page ids alone.
        unfold SeamSound
        rw [needsForwardLink_eq, needsForwardLink_eq, sewSeam_snd_opensForward, hfwd,
          PairingPolicy.canPair_of_pageId_ne hyz.pages,
          PairingPolicy.canPair_of_pageId_ne (by rw [hids.1]; exact hyz.pages), hids.1]
    · simp only [hz, if_false, Bool.false_eq_true, false_implies, iff_self, and_true] at hyz ⊢
      rcases hyz with ⟨hf, hb⟩ | ⟨hf, hb⟩
      · exact .inl ⟨hfwd.trans hf, by rw [hb, href]⟩
      · exact .inr ⟨hfwd.trans hf, hb⟩
  · rw [sewStep_inPage (by simpa using hy)]
    exact ⟨hyz, Iff.rfl⟩

/-- The pairs after a step, as the next round of the walk finds them. -/
theorem isChain_step (hadj : (x :: y :: ys).IsChain Adjacent) (hsound : SoundPair policy x y) :
    ((sewStep policy x y).2 :: ys).IsChain Adjacent ∧
      (((sewStep policy x y).2 :: ys).IsChain (SoundPair policy) ↔
        (y :: ys).IsChain (SoundPair policy)) := by
  obtain ⟨hxy, hys⟩ := List.isChain_cons_cons.mp hadj
  cases ys with
  | nil => simp
  | cons z zs =>
    obtain ⟨hyz, hzs⟩ := List.isChain_cons_cons.mp hys
    obtain ⟨hadj', hsound'⟩ := hxy.step hsound hyz
    exact ⟨List.isChain_cons_cons.mpr ⟨hadj', hzs⟩, by simp [List.isChain_cons_cons, hsound']⟩

/-- **Sound seams leave the whole document joined.** -/
theorem isChain_joined_of_sound (hadj : (x :: ys).IsChain Adjacent)
    (hsound : (x :: ys).IsChain (SoundPair policy)) :
    (sweep (sewStep policy) x ys).IsChain fun u v => JoinedLines u.line v.line := by
  induction ys generalizing x with
  | nil => exact List.isChain_singleton _
  | cons y ys ih =>
    obtain ⟨hxy, hrest⟩ := List.isChain_cons_cons.mp hsound
    obtain ⟨hadj', hsound'⟩ := isChain_step hadj hxy
    have hjoined := (List.isChain_cons_cons.mp hadj).1.joined hxy
    have hchain := ih hadj' (hsound'.mpr hrest)
    obtain ⟨tail, htail⟩ := sweep_eq_cons (sewStep policy) (sewStep policy x y).2 ys
    rw [sweep]
    rw [htail] at hchain ⊢
    refine List.isChain_cons_cons.mpr ⟨?_, hchain⟩
    cases ys with
    | nil => exact hjoined
    | cons z zs => exact hjoined.sewStep_fst

/-- Neighbours agree on whether they are linked. -/
def Agree (x y : LineManifest) : Prop :=
  forwardPartnerRef x = some (lineRef y) ↔ backwardPartnerRef y = some (lineRef x)

/-- Agreement reads the right half through its ref and its backward link. -/
theorem agree_sweepHead {w : LineManifest} :
    Agree w (sweepHead (sewStep policy) x ys).line ↔ Agree w x.line := by
  have href : lineRef (sweepHead (sewStep policy) x ys).line = lineRef x.line :=
    map_sweepHead (g := fun u => lineRef u.line) (fun _ _ => sewStep_fst_ref) x ys
  have hback : backwardPartnerRef (sweepHead (sewStep policy) x ys).line
      = backwardPartnerRef x.line :=
    map_sweepHead (g := fun u => backwardPartnerRef u.line) (fun _ _ => sewStep_fst_backward) x ys
  unfold Agree
  rw [href, hback]

/-- A walk whose neighbours agree, opened at its first pair. -/
theorem agree_of_isChain
    (h : (sweep (sewStep policy) x (y :: ys)).IsChain fun u v => Agree u.line v.line) :
    Agree (sewStep policy x y).1.line (sewStep policy x y).2.line ∧
      (sweep (sewStep policy) (sewStep policy x y).2 ys).IsChain
        fun u v => Agree u.line v.line := by
  rw [sweep] at h
  refine ⟨?_, h.tail⟩
  obtain ⟨tail, htail⟩ := sweep_eq_cons (sewStep policy) (sewStep policy x y).2 ys
  rw [htail] at h
  exact agree_sweepHead.mp (List.isChain_cons_cons.mp h).1

/-- **An unsound seam shows**: if all neighbours agree after the walk, the
pair it started with was sound. -/
theorem soundPair_of_agree (hadj : (x :: y :: ys).IsChain Adjacent)
    (hlast : ∀ u ∈ (x :: y :: ys).getLast?, forwardPartnerRef u.line = none)
    (h : (sweep (sewStep policy) x (y :: ys)).IsChain fun u v => Agree u.line v.line) :
    SoundPair policy x y := by
  intro hy hneeds hcan
  obtain ⟨hxy, hys⟩ := List.isChain_cons_cons.mp hadj
  unfold Adjacent at hxy
  rw [if_pos hy] at hxy
  have hs : sews policy x.line y.line = true := by simp [sews, hneeds, hcan]
  obtain ⟨hagree, hrest⟩ := agree_of_isChain h
  rw [sewStep_seam hy] at hagree hrest
  have hids : y.line.pageId ≠ [] ↔ x.line.pageId ≠ [] :=
    (hxy.forward_iff hs).symm.trans (hagree.trans (hxy.backward_iff hs))
  have hyp : y.line.pageId ≠ [] := by
    intro hn
    have hxn : x.line.pageId = [] := by
      by_contra hx
      exact hids.mpr hx hn
    exact hxy.pages (hxn.trans hn.symm)
  refine ⟨hids.mp hyp, hyp, ?_⟩
  rintro ⟨hrole, hfwd⟩
  -- The head was linked to the next line of its page, which still points back.
  have hlost : forwardPartnerRef (sewSeam policy x.line y.line).2 = none := by
    rw [hxy.head_forward hs, if_pos hrole]
  cases ys with
  | nil => exact hfwd (hlast y (by simp))
  | cons z zs =>
    have hyz := (List.isChain_cons_cons.mp hys).1
    unfold Adjacent at hyz
    by_cases hz : z.opensPage = true
    · rw [if_pos hz] at hyz
      exact hfwd hyz.tail_free
    · rw [if_neg hz] at hyz
      obtain ⟨-, hb⟩ := hyz.resolve_right fun hap => hfwd hap.1
      obtain ⟨hagree', -⟩ := agree_of_isChain hrest
      rw [sewStep_inPage (by simpa using hz)] at hagree'
      simp [Agree, hlost, hb] at hagree'

/-- The last line's forward side stays free through the step before it. -/
theorem free_last_step (hxy : Adjacent x y)
    (hlast : ∀ u ∈ (x :: y :: ys).getLast?, forwardPartnerRef u.line = none) :
    ∀ u ∈ ((sewStep policy x y).2 :: ys).getLast?, forwardPartnerRef u.line = none := by
  cases ys with
  | cons z zs => simpa using hlast
  | nil =>
    have hy : forwardPartnerRef y.line = none := hlast y (by simp)
    by_cases hopens : y.opensPage = true
    · unfold Adjacent at hxy
      rw [if_pos hopens] at hxy
      rw [sewStep_seam hopens]
      simpa using hxy.head_forward_none hy
    · rw [sewStep_inPage (by simpa using hopens)]
      simpa using hy

/-- Across sound seams the last line's forward side stays free. -/
theorem free_last_of_sound (hadj : (x :: ys).IsChain Adjacent)
    (hsound : (x :: ys).IsChain (SoundPair policy))
    (hlast : ∀ u ∈ (x :: ys).getLast?, forwardPartnerRef u.line = none) :
    ∀ u ∈ (sweep (sewStep policy) x ys).getLast?, forwardPartnerRef u.line = none := by
  induction ys generalizing x with
  | nil => exact hlast
  | cons y ys ih =>
    obtain ⟨hxy, hrest⟩ := List.isChain_cons_cons.mp hsound
    obtain ⟨hadj', hsound'⟩ := isChain_step hadj hxy
    have hih := ih hadj' (hsound'.mpr hrest)
      (free_last_step (List.isChain_cons_cons.mp hadj).1 hlast)
    obtain ⟨tail, htail⟩ := sweep_eq_cons (sewStep policy) (sewStep policy x y).2 ys
    rw [sweep]
    rw [htail] at hih ⊢
    simpa using hih

/-- **Agreement everywhere means every seam was sound.** -/
theorem sound_of_isChain_agree (hadj : (x :: ys).IsChain Adjacent)
    (hlast : ∀ u ∈ (x :: ys).getLast?, forwardPartnerRef u.line = none)
    (h : (sweep (sewStep policy) x ys).IsChain fun u v => Agree u.line v.line) :
    (x :: ys).IsChain (SoundPair policy) := by
  induction ys generalizing x with
  | nil => exact List.isChain_singleton _
  | cons y ys ih =>
    have hxy := soundPair_of_agree hadj hlast h
    obtain ⟨hadj', hsound'⟩ := isChain_step hadj hxy
    refine List.isChain_cons_cons.mpr ⟨hxy, hsound'.mp (ih hadj' ?_ (agree_of_isChain h).2)⟩
    exact free_last_step (List.isChain_cons_cons.mp hadj).1 hlast

/-- The line is still there, with the forward link it had. -/
def Kept (x y : LineManifest) : Prop :=
  lineRef y = lineRef x ∧ (forwardPartnerRef x ≠ none → forwardPartnerRef y = forwardPartnerRef x)

theorem Kept.refl (x : LineManifest) : Kept x x := ⟨rfl, fun _ => rfl⟩

theorem Kept.trans {x y z : LineManifest} (hxy : Kept x y) (hyz : Kept y z) : Kept x z := by
  refine ⟨hyz.1.trans hxy.1, fun h => ?_⟩
  rw [← hxy.2 h]
  exact hyz.2 fun hy => h ((hxy.2 h).symm.trans hy)

/-- A step on a sound pair keeps the forward links both members had. -/
theorem Adjacent.kept (h : Adjacent x y) (hsound : SoundPair policy x y) :
    Kept x.line (sewStep policy x y).1.line ∧ Kept y.line (sewStep policy x y).2.line := by
  unfold Adjacent at h
  by_cases hy : y.opensPage = true
  · rw [if_pos hy] at h
    rw [sewStep_seam hy]
    exact ⟨⟨sewSeam_fst_ref, fun hx => absurd h.tail_free hx⟩,
      ⟨sewSeam_snd_ref, fun _ => h.head_forward_of_sound (hsound hy)⟩⟩
  · rw [sewStep_inPage (by simpa using hy)]
    exact ⟨Kept.refl _, Kept.refl _⟩

/-- **Across sound seams no forward link is lost.** -/
theorem forall₂_kept_of_sound (hadj : (x :: ys).IsChain Adjacent)
    (hsound : (x :: ys).IsChain (SoundPair policy)) :
    List.Forall₂ (fun u v => Kept u.line v.line) (x :: ys) (sweep (sewStep policy) x ys) := by
  induction ys generalizing x with
  | nil => exact .cons (Kept.refl _) .nil
  | cons y ys ih =>
    obtain ⟨hxy, hrest⟩ := List.isChain_cons_cons.mp hsound
    obtain ⟨hadj', hsound'⟩ := isChain_step hadj hxy
    obtain ⟨hx, hy⟩ := (List.isChain_cons_cons.mp hadj).1.kept hxy
    have hih := ih hadj' (hsound'.mpr hrest)
    rw [sweep]
    refine .cons hx ?_
    generalize hl : sweep (sewStep policy) (sewStep policy x y).2 ys = l at hih
    cases hih with
    | cons hhead htail => exact .cons (hy.trans hhead) htail

end Walk

end Saknussemm
