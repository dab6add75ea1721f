import Saknussemm.EditParity
import Saknussemm.Library.EditDistance

/-! # What a line's spans come to.

The spans kept are substituted together, each character outside them
staying where it was, and the budget they are judged by bounds the edit
distance between the two texts. -/

namespace Saknussemm

open EditDistance

/-! ## Changed characters and edit distance -/

theorem commonPrefix_le (a b : Str) :
    commonPrefix a b ≤ a.length ∧ commonPrefix a b ≤ b.length := by
  induction a generalizing b with
  | nil => simp [commonPrefix]
  | cons c a ih =>
    cases b with
    | nil => simp [commonPrefix]
    | cons d b =>
      have := ih b
      rw [commonPrefix]
      split <;> simp only [List.length_cons] <;> omega

theorem take_commonPrefix (a b : Str) : a.take (commonPrefix a b) = b.take (commonPrefix a b) := by
  induction a generalizing b with
  | nil => simp [commonPrefix]
  | cons c a ih =>
    cases b with
    | nil => simp [commonPrefix]
    | cons d b =>
      rw [commonPrefix]
      split
      · next heq => rw [heq, List.take_succ_cons, List.take_succ_cons, ih b]
      · simp

/-- **The changed characters are enough edits.** -/
theorem edits_changedChars (original replacement : Str) :
    Edits (changedChars original replacement) original replacement := by
  let p := commonPrefix original replacement
  let a := original.drop p
  let b := replacement.drop p
  let s := commonPrefix a.reverse b.reverse
  have hp := commonPrefix_le original replacement
  have hs := commonPrefix_le a.reverse b.reverse
  have hsplit : ∀ t : Str, t = t.take (t.length - s) ++ (t.reverse.take s).reverse := by
    intro t
    rw [List.reverse_take, List.length_reverse, List.reverse_reverse, List.take_append_drop]
  have hmid : Edits (max (a.length - s) (b.length - s)) (a.take (a.length - s))
      (b.take (b.length - s)) := by
    have h := Edits.of_lengths (a.take (a.length - s)) (b.take (b.length - s))
    rwa [List.length_take, List.length_take, Nat.min_eq_left (Nat.sub_le _ _),
      Nat.min_eq_left (Nat.sub_le _ _)] at h
  have hwhole := hmid.between (original.take p) (a.reverse.take s).reverse
  have hcount : changedChars original replacement = max (a.length - s) (b.length - s) := by
    simp only [List.length_reverse] at hs
    simp only [changedChars, a, b, p, s, List.length_drop] at hs ⊢
    omega
  have hfront : original.take p = replacement.take p := take_commonPrefix original replacement
  have hback : a.reverse.take s = b.reverse.take s := take_commonPrefix a.reverse b.reverse
  rw [List.append_assoc, List.append_assoc, ← hsplit, List.take_append_drop, hfront, hback,
    ← hsplit, List.take_append_drop] at hwhole
  rwa [hcount]

variable {canonical : Str} {length pos : Nat} {ranges : List (Span × Str)}

/-- The characters a list of spans changes, one by one. -/
def changedByRanges (canonical : Str) (ranges : List (Span × Str)) : Nat :=
  (ranges.map fun (span, text) =>
    changedChars ((canonical.take span.stop).drop span.start) text).sum

/-- Spans spliced in cost no more edits than they change one by one. -/
theorem edits_spliceFrom (h : Disjoint canonical.length pos ranges) :
    Edits (changedByRanges canonical ranges) (canonical.drop pos)
        (spliceFrom canonical pos ranges) := by
  induction h with
  | nil => exact Edits.refl _
  | @cons pos span text rest hpos hspan _ hrest ih =>
    have hle := hrest.le_length
    -- what lies before the span, the span, and what lies behind it
    have hsplit : canonical.drop pos = (canonical.drop pos).take (span.start - pos) ++
        (canonical.take span.stop).drop span.start ++ canonical.drop span.stop := by
      have hthrough : (canonical.drop pos).take (span.start - pos) ++
          (canonical.take span.stop).drop span.start = (canonical.take span.stop).drop pos := by
        have htake : (canonical.drop pos).take (span.start - pos) =
            ((canonical.take span.stop).drop pos).take (span.start - pos) := by
          rw [List.drop_take, List.take_take]
          congr 1
          omega
        have hdrop : (canonical.take span.stop).drop span.start =
            ((canonical.take span.stop).drop pos).drop (span.start - pos) := by
          rw [List.drop_drop]
          congr 1
          omega
        rw [htake, hdrop, List.take_append_drop]
      rw [hthrough, ← List.drop_append_of_le_length (by simp; omega), List.take_append_drop]
    have hspanEdits := edits_changedChars ((canonical.take span.stop).drop span.start) text
    have h := ((Edits.refl ((canonical.drop pos).take (span.start - pos))).append
      hspanEdits).append ih
    rw [← hsplit, Nat.zero_add] at h
    exact h

/-! ## Substituting together -/

/-- The replacements that start at an offset. -/
def replacementsAt (accepted : List (Span × Str)) (i : Nat) : Str :=
  (accepted.filter (·.1.start = i)).flatMap (·.2)

/-- Is the character at an offset replaced? -/
def isReplaced (accepted : List (Span × Str)) (i : Nat) : Bool :=
  accepted.any fun range => range.1.start ≤ i && i < range.1.stop

/-- What stands at an offset after the spans are substituted: the
replacement starting there, then the character itself unless it is
replaced. -/
def substitutedAt (canonical : Str) (accepted : List (Span × Str)) (i : Nat) : Str :=
  replacementsAt accepted i ++ if isReplaced accepted i then [] else canonical[i]?.toList

/-- The spans substituted all at once, offset by offset. -/
def substituted (canonical : Str) (accepted : List (Span × Str)) : Str :=
  (List.range (canonical.length + 1)).flatMap (substitutedAt canonical accepted)

theorem Disjoint.pos_le (h : Disjoint length pos ranges) :
    ∀ range ∈ ranges, pos ≤ range.1.start := by
  induction h with
  | nil => simp
  | cons hpos hspan hfresh _ _ =>
    intro range hrange
    rcases List.mem_cons.mp hrange with rfl | hrange
    · exact hpos
    · exact (hpos.trans (hfresh range hrange).le)

/-- Before every span the text is as it was. -/
theorem substitutedAt_of_lt {i : Nat} (h : ∀ range ∈ ranges, i < range.1.start) :
    substitutedAt canonical ranges i = canonical[i]?.toList := by
  have hnone : ranges.filter (·.1.start = i) = [] := by
    rw [List.filter_eq_nil_iff]
    intro range hrange
    have := h range hrange
    simp only [decide_eq_true_eq]
    omega
  have hkept : isReplaced ranges i = false := by
    rw [isReplaced, List.any_eq_false]
    intro range hrange
    have := h range hrange
    simp only [Bool.and_eq_true, decide_eq_true_eq]
    omega
  simp [substitutedAt, replacementsAt, hnone, hkept]

/-- A stretch no span starts before or in stands as it was. -/
theorem flatMap_substitutedAt_of_lt {n : Nat} (h : ∀ range ∈ ranges, pos + n ≤ range.1.start) :
    (List.range' pos n).flatMap (substitutedAt canonical ranges) = (canonical.drop pos).take n := by
  induction n generalizing pos with
  | zero => simp
  | succ n ih =>
    have hat : substitutedAt canonical ranges pos = canonical[pos]?.toList :=
      substitutedAt_of_lt fun range hrange => by
        have := h range hrange
        omega
    rw [List.range'_succ, List.flatMap_cons, hat,
      ih fun range hrange => by have := h range hrange; omega]
    by_cases hpos : pos < canonical.length
    · rw [List.drop_eq_getElem_cons hpos, List.take_succ_cons, List.getElem?_eq_getElem hpos]
      rfl
    · rw [List.getElem?_eq_none (by omega), List.drop_eq_nil_of_le (by omega),
        List.drop_eq_nil_of_le (by omega)]
      simp

/-- From a span's end on only the spans behind it count, and its own
replacement where it starts there. -/
theorem substitutedAt_cons_of_le {span : Span} {text : Str} {i : Nat} (hi : span.stop ≤ i) :
    substitutedAt canonical ((span, text) :: ranges) i =
      (if span.start = i then text else []) ++ substitutedAt canonical ranges i := by
  have hkept : isReplaced ((span, text) :: ranges) i = isReplaced ranges i := by
    simp [isReplaced, Nat.not_lt.mpr hi]
  rw [substitutedAt, substitutedAt, hkept, replacementsAt, replacementsAt, List.filter_cons]
  by_cases hstart : span.start = i <;> simp [hstart]

/-- Inside a span nothing stands but its replacement. -/
theorem substitutedAt_cons_of_lt {span : Span} {text : Str} {i : Nat} (hstart : span.start ≤ i)
    (hi : i < span.stop) (hrest : ∀ range ∈ ranges, span.stop ≤ range.1.start) :
    substitutedAt canonical ((span, text) :: ranges) i = if span.start = i then text else [] := by
  have hreplaced : isReplaced ((span, text) :: ranges) i = true := by
    simp [isReplaced, hstart, hi]
  have hnone : ranges.filter (·.1.start = i) = [] := by
    rw [List.filter_eq_nil_iff]
    intro range hrange
    have := hrest range hrange
    simp only [decide_eq_true_eq]
    omega
  rw [substitutedAt, hreplaced, replacementsAt, List.filter_cons, hnone]
  by_cases hat : span.start = i <;> simp [hat]

/-- **Splicing disjoint spans in is substituting them all at once.** -/
theorem flatMap_substitutedAt (h : Disjoint canonical.length pos ranges) :
    (List.range' pos (canonical.length + 1 - pos)).flatMap (substitutedAt canonical ranges) =
      spliceFrom canonical pos ranges := by
  induction h with
  | @nil pos h =>
    have hempty := @flatMap_substitutedAt_of_lt canonical pos []
      (canonical.length + 1 - pos) (by simp)
    rw [hempty, spliceFrom, List.take_of_length_le (by simp; omega)]
  | @cons pos span text rest hpos hspan hfresh hrest ih =>
    have hle := hrest.le_length
    have hbehind := hrest.pos_le
    have hranges : List.range' pos (canonical.length + 1 - pos) =
        List.range' pos (span.start - pos) ++ (List.range' span.start (span.stop - span.start) ++
          List.range' span.stop (canonical.length + 1 - span.stop)) := by
      have hfirst := @List.range'_append_1 pos (span.start - pos)
        (canonical.length + 1 - span.start)
      have hsecond := @List.range'_append_1 span.start (span.stop - span.start)
        (canonical.length + 1 - span.stop)
      rw [Nat.add_sub_cancel' hpos] at hfirst
      rw [Nat.add_sub_cancel' hspan] at hsecond
      rw [show span.stop - span.start + (canonical.length + 1 - span.stop) =
        canonical.length + 1 - span.start by omega] at hsecond
      rw [hsecond, hfirst]
      congr 1
      omega
    have hbefore : ∀ range ∈ (span, text) :: rest, pos + (span.start - pos) ≤ range.1.start := by
      intro range hrange
      rcases List.mem_cons.mp hrange with rfl | hrange
      · dsimp only
        omega
      · have := hfresh range hrange
        omega
    rw [hranges, List.flatMap_append, flatMap_substitutedAt_of_lt hbefore, spliceFrom,
      List.append_assoc, ← ih]
    congr 1
    rw [List.flatMap_append]
    rcases hspan.eq_or_lt with hempty | hspan
    · -- an insertion: its text, then the character it stands before
      have hcons : List.range' span.stop (canonical.length + 1 - span.stop) =
          span.stop :: List.range' (span.stop + 1) (canonical.length - span.stop) := by
        rw [show canonical.length + 1 - span.stop = canonical.length - span.stop + 1 by omega,
          List.range'_succ]
      have hafter : ∀ i ∈ List.range' (span.stop + 1) (canonical.length - span.stop),
          substitutedAt canonical ((span, text) :: rest) i = substitutedAt canonical rest i := by
        intro i hi
        have := (List.mem_range'_1.mp hi).1
        rw [substitutedAt_cons_of_le (by omega), if_neg (by omega), List.nil_append]
      rw [hempty, Nat.sub_self, List.range'_zero, List.flatMap_nil, List.nil_append, hcons,
        List.flatMap_cons, List.flatMap_cons, substitutedAt_cons_of_le
          (Nat.le_refl _), if_pos hempty,
        List.flatMap_congr hafter, List.append_assoc]
    · -- a replacement: its text, then nothing up to its end
      have hcons : List.range' span.start (span.stop - span.start) =
          span.start :: List.range' (span.start + 1) (span.stop - (span.start + 1)) := by
        rw [show span.stop - span.start = span.stop - (span.start + 1) + 1 by omega,
          List.range'_succ]
      have hinside : (List.range' (span.start + 1) (span.stop - (span.start + 1))).flatMap
          (substitutedAt canonical ((span, text) :: rest)) = [] := by
        rw [List.flatMap_eq_nil_iff]
        intro i hi
        have := List.mem_range'_1.mp hi
        rw [substitutedAt_cons_of_lt (by omega) (by omega) hbehind, if_neg (by omega)]
      have hafter : ∀ i ∈ List.range' span.stop (canonical.length + 1 - span.stop),
          substitutedAt canonical ((span, text) :: rest) i = substitutedAt canonical rest i := by
        intro i hi
        have := (List.mem_range'_1.mp hi).1
        rw [substitutedAt_cons_of_le this, if_neg (by omega), List.nil_append]
      rw [hcons, List.flatMap_cons, substitutedAt_cons_of_lt (Nat.le_refl _) hspan hbehind,
        if_pos rfl, hinside, List.append_nil, List.flatMap_congr hafter]

/-- Applying disjoint spans substitutes them. -/
theorem applySpans_eq_substituted (h : Disjoint canonical.length 0 ranges) :
    applySpans canonical ranges = substituted canonical ranges := by
  rw [applySpans_of_disjoint h, ← flatMap_substitutedAt h, substituted, List.range_eq_range']
  rfl

/-! ## The operations behind the spans -/

variable {guard : GuardConfig} {ops : List (Anchor × Str)}

/-- The spans kept of a line's operations. -/
def acceptedSpans (canonical : Str) (guard : GuardConfig) (ops : List (Anchor × Str)) :
    List (Span × Str) :=
  (withoutOverlaps none (orderedRanges (normalizeSpans canonical guard ops).1)).1

/-- Every operation normalises or is refused. -/
theorem normalizeSpans_kept (canonical : Str) (guard : GuardConfig) (ops : List (Anchor × Str)) :
    ∃ kept, kept.Sublist ops ∧
      List.Forall₂ (Normalizes canonical guard) kept (normalizeSpans canonical guard ops).1 ∧
      (∀ op ∈ kept, hasLineSeparator op.2 = false) ∧
      kept.length + (normalizeSpans canonical guard ops).2.length = ops.length := by
  induction ops with
  | nil => exact ⟨[], .slnil, .nil, by simp, rfl⟩
  | cons op ops ih =>
    obtain ⟨anchor, text⟩ := op
    obtain ⟨kept, hsub, hforall, hsep, hlen⟩ := ih
    -- each refusal costs the operation and leaves one reason
    have hskip : ∀ reason : EditReason, ∃ kept, kept.Sublist ((anchor, text) :: ops) ∧
        List.Forall₂ (Normalizes canonical guard) kept (normalizeSpans canonical guard ops).1 ∧
        (∀ op ∈ kept, hasLineSeparator op.2 = false) ∧
        kept.length + (reason :: (normalizeSpans canonical guard ops).2).length =
          ((anchor, text) :: ops).length :=
      fun _ => ⟨kept, hsub.cons _, hforall, hsep, by simp only [List.length_cons]; omega⟩
    rw [normalizeSpans]
    dsimp only
    by_cases hnewline : hasLineSeparator text = true
    · rw [if_pos hnewline]
      exact hskip .newline
    · rw [if_neg hnewline]
      cases hanchor : normalizeAnchor anchor canonical with
      | error reason => exact hskip reason
      | ok span =>
        dsimp only
        by_cases hgrowth : guard.editSpanMaxGrowthRatio * (max 1 (span.stop - span.start) : Nat) <
            text.length
        · rw [if_pos hgrowth]
          exact hskip .driftRatio
        · rw [if_neg hgrowth]
          refine ⟨(anchor, text) :: kept, hsub.cons_cons _, .cons ⟨hanchor, rfl, hgrowth⟩ hforall,
            ?_, by simp only [List.length_cons]; omega⟩
          intro op hop
          rcases List.mem_cons.mp hop with rfl | hop
          · simpa using hnewline
          · exact hsep op hop

/-- Ranges that lie apart are all kept. -/
theorem Disjoint.withoutOverlaps_eq (h : Disjoint length pos ranges) {prev : Option Span}
    (hprev : ∀ p ∈ prev, p.stop ≤ pos ∧ ∀ range ∈ ranges, p.start < range.1.start) :
    withoutOverlaps prev ranges = (ranges, []) := by
  induction h generalizing prev with
  | nil => rfl
  | @cons pos span text rest hpos hspan hfresh _ ih =>
    have hkept : ¬ (prev.any fun p => span.start < p.stop || span.start = p.start) = true := by
      cases prev with
      | none => simp
      | some p =>
        obtain ⟨hstop, hstart⟩ := hprev p rfl
        have := hstart (span, text) (by simp)
        simp only [Option.any_some, Bool.or_eq_true, decide_eq_true_eq, not_or]
        dsimp only at this
        omega
    rw [withoutOverlaps, if_neg hkept, @ih (some span) fun p hp => by
      cases hp
      exact ⟨Nat.le_refl _, hfresh⟩]

theorem Disjoint.pairwise (h : Disjoint length pos ranges) :
    ranges.Pairwise fun a b => a.1.start < b.1.start ∧ a.1.stop ≤ b.1.start := by
  induction h with
  | nil => exact .nil
  | cons _ _ hfresh hrest ih =>
    exact .cons (fun range hrange => ⟨hfresh range hrange, hrest.pos_le range hrange⟩) ih

/-- The spans kept stand for operations that are accepted whole on their
own. -/
theorem exists_wellFormed (canonical : Str) (guard : GuardConfig) (ops : List (Anchor × Str)) :
    ∃ kept ranges, kept.Sublist ops ∧ WellFormed canonical guard kept ranges ∧
      orderedRanges ranges = acceptedSpans canonical guard ops ∧
      ∀ op ∈ kept, hasLineSeparator op.2 = false := by
  obtain ⟨normalizing, hnormalizing, hforall, hsep, -⟩ := normalizeSpans_kept canonical guard ops
  have hdisjoint : Disjoint canonical.length 0 (acceptedSpans canonical guard ops) :=
    disjoint_acceptedRanges hforall
  have hordered := withoutOverlaps_sublist none
    (orderedRanges (normalizeSpans canonical guard ops).1)
  have hsubperm : (acceptedSpans canonical guard ops).Subperm
      (normalizeSpans canonical guard ops).1 :=
    hordered.subperm.trans (List.perm_insertionSort _ _).subperm
  obtain ⟨ranges, hperm, hranges⟩ := hsubperm
  obtain ⟨kept, hkept, hkeptForall⟩ := Pointwise.sublist_right hforall hranges
  have hsame : orderedRanges ranges = acceptedSpans canonical guard ops := by
    apply List.Perm.eq_of_pairwise (fun a b ha hb hab hba => ?_) (pairwise_orderedRanges ranges)
      ((pairwise_orderedRanges _).sublist hordered) ((List.perm_insertionSort _ _).trans hperm)
    -- two kept spans that start together are one
    have hstarts : ((acceptedSpans canonical guard ops).map fun range => range.1.start).Nodup :=
      List.pairwise_map.mpr (hdisjoint.pairwise.imp fun h => Nat.ne_of_lt h.1)
    have ha' : a ∈ acceptedSpans canonical guard ops :=
      hperm.mem_iff.mp ((List.mem_insertionSort _).mp ha)
    exact List.inj_on_of_nodup_map hstarts ha' hb (by omega)
  refine ⟨kept, ranges, hkept.trans hnormalizing, ⟨hkeptForall, ?_⟩, hsame, fun op hop =>
    hsep op (hkept.subset hop)⟩
  rw [hsame, hdisjoint.withoutOverlaps_eq (by simp)]

/-! ## The text a line's spans give -/

/-- What a line's operations came to: the spans kept, and the operations
refused. -/
structure SpansApplied (lineId canonical : Str) (role : HyphenRole) (guard : GuardConfig)
    (ops : List EditOp) (text : Str) (refused : List EditRejection) (accepted : List (Span × Str)) :
    Prop where
  /-- The spans kept lie in the text. -/
  inside : ∀ range ∈ accepted, range.1.start ≤ range.1.stop ∧ range.1.stop ≤ canonical.length
  /-- No two of them overlap, and no two start together. -/
  apart : accepted.Pairwise fun a b => a.1.start < b.1.start ∧ a.1.stop ≤ b.1.start
  /-- The text is the old one with all of them substituted. -/
  exact : text = substituted canonical accepted
  nonblank : strip text ≠ []
  single : hasLineSeparator text = false
  near : distance canonical text ≤ guard.editLineMaxChangedChars
  /-- The operations that are not refused give the text without the others. -/
  kept : ∃ kept : List EditOp, kept.Sublist ops ∧ kept.length = accepted.length ∧
    kept.length + refused.length = ops.length ∧
    applyLineOps lineId kept canonical role guard = (some text, [])

theorem length_spans {ops : List EditOp} (h : wholeLines ops = []) :
    (spans ops).length = ops.length := by
  induction ops with
  | nil => rfl
  | cons op ops ih =>
    cases op with
    | replaceLine id text page => simp [wholeLines] at h
    | replaceSpan id anchor text page =>
      have hops : wholeLines ops = [] := by simpa [wholeLines] using h
      have := ih hops
      simp only [spans, List.filterMap_cons, List.length_cons] at this ⊢
      omega

/-- Spans that give a text stood within the budget. -/
theorem spansVerdict_eq_ok {role : HyphenRole} {accepted : List (Span × Str)} {text : Str}
    (h : spansVerdict role canonical accepted guard = .ok text) :
    applySpans canonical accepted = text ∧ strip text ≠ [] ∧
      changedByRanges canonical accepted ≤ guard.editLineMaxChangedChars := by
  unfold spansVerdict at h
  dsimp only at h
  split at h
  · cases h
  · next hbudget =>
    split at h
    · cases h
    · next hblank =>
      split at h
      · cases h
      · cases h
        exact ⟨rfl, hblank, Nat.le_of_not_lt hbudget⟩

/-- Nothing outside the spans of a single-line text is a separator. -/
theorem hasLineSeparator_outsideFrom (h : hasLineSeparator canonical = false) (pos : Nat)
    (ranges : List (Span × Str)) : hasLineSeparator (outsideFrom canonical pos ranges) = false := by
  have hdrop : ∀ n, hasLineSeparator (canonical.drop n) = false := by
    intro n
    rw [hasLineSeparator, List.any_eq_false] at h ⊢
    exact fun c hc => h c (List.mem_of_mem_drop hc)
  have htake : ∀ m n, hasLineSeparator ((canonical.drop n).take m) = false := by
    intro m n
    have := hdrop n
    rw [hasLineSeparator, List.any_eq_false] at this ⊢
    exact fun c hc => this c (List.mem_of_mem_take hc)
  induction ranges generalizing pos with
  | nil => exact hdrop pos
  | cons range ranges ih =>
    have htail := ih range.1.stop
    have hhead := htake (range.1.start - pos) pos
    rw [hasLineSeparator] at htail hhead ⊢
    rw [outsideFrom, List.any_append, hhead, htail]
    rfl

/-- Spans that give a text were accepted together, and gave it. -/
theorem applySpanOps_eq_some {role : HyphenRole} {ops : List (Anchor × Str)} {text : Str}
    (h : (applySpanOps canonical role guard ops).1 = some text) :
    applySpanOps canonical role guard ops = (some text, (normalizeSpans canonical guard ops).2 ++
        (withoutOverlaps none (orderedRanges (normalizeSpans canonical guard ops).1)).2) ∧
      acceptedSpans canonical guard ops ≠ [] ∧
      spansVerdict role canonical (acceptedSpans canonical guard ops) guard = .ok text := by
  unfold applySpanOps at h ⊢
  dsimp only at h ⊢
  split at h
  · cases h
  · next hne =>
    rw [if_neg hne]
    split at h
    · cases h
    · next result hverdict =>
      cases h
      exact ⟨rfl, hne, hverdict⟩

/-- Every span is accepted, is no span of the line, or overlaps another. -/
theorem length_acceptedSpans (ops : List (Anchor × Str)) :
    (acceptedSpans canonical guard ops).length + (normalizeSpans canonical guard ops).2.length +
      (withoutOverlaps none (orderedRanges (normalizeSpans canonical guard ops).1)).2.length =
        ops.length := by
  obtain ⟨normalizing, -, hforall, -, hnormalized⟩ := normalizeSpans_kept canonical guard ops
  have hoverlap :=
    length_withoutOverlaps none (orderedRanges (normalizeSpans canonical guard ops).1)
  rw [orderedRanges, List.length_insertionSort, ← hforall.length_eq] at hoverlap
  simp only [acceptedSpans, orderedRanges] at hoverlap ⊢
  omega

/-- **Span application is exact and bounded.** -/
theorem spansApplied_applyLineOps {lineId canonical text : Str} {role : HyphenRole}
    {guard : GuardConfig} {ops : List EditOp} {refused : List EditRejection}
    (hcanonical : hasLineSeparator canonical = false) (hops : wholeLines ops = [])
    (h : applyLineOps lineId ops canonical role guard = (some text, refused)) :
    SpansApplied lineId canonical role guard ops text refused
      (acceptedSpans canonical guard (spans ops)) := by
  obtain ⟨kept, ranges, hkept, hwell, hsame, hsep⟩ := exists_wellFormed canonical guard (spans ops)
  have hdisjoint := hwell.disjoint.2
  rw [hsame] at hdisjoint
  -- the verdict was on the spans kept
  rw [applyLineOps, if_neg (by simp [hops])] at h
  obtain ⟨happly, hne, hverdict⟩ := applySpanOps_eq_some (congrArg Prod.fst h)
  rw [happly] at h
  obtain ⟨hresult, hblank, hbudget⟩ := spansVerdict_eq_ok hverdict
  have htext : text = spliceFrom canonical 0 (acceptedSpans canonical guard (spans ops)) := by
    rw [← hresult, applySpans_of_disjoint hdisjoint]
  have hop : ∀ range ∈ acceptedSpans canonical guard (spans ops),
      ∃ op ∈ kept, Normalizes canonical guard op range := by
    intro range hrange
    rw [← hsame, orderedRanges, List.mem_insertionSort] at hrange
    exact Pointwise.exists_of_mem_right hwell.normalizes hrange
  refine ⟨?inside, hdisjoint.pairwise, ?exact, hblank, ?single, ?near, ?kept⟩
  case inside =>
    intro range hrange
    obtain ⟨op, -, hanchor, -⟩ := hop range hrange
    exact span_of_normalizeAnchor hanchor
  case exact => rw [← hresult, applySpans_eq_substituted hdisjoint]
  case single =>
    rw [htext, hasLineSeparator_spliceFrom hdisjoint, hasLineSeparator_outsideFrom hcanonical,
      Bool.or_false, List.any_eq_false]
    intro range hrange
    obtain ⟨op, hin, -, hreplaced, -⟩ := hop range hrange
    rw [hreplaced, hsep op hin]
    exact Bool.false_ne_true
  case near =>
    rw [htext]
    apply (distance_le (edits_spliceFrom hdisjoint)).trans
    exact hbudget
  case kept =>
    -- the operations of the spans kept, as they stand among all of them
    obtain ⟨keptOps, hsub, rfl⟩ := List.sublist_filterMap_iff.mp hkept
    have hwhole : wholeLines keptOps = [] :=
      List.sublist_nil.mp (hops ▸ hsub.filterMap _)
    have hlength : (spans keptOps).length = (acceptedSpans canonical guard (spans ops)).length := by
      rw [← hsame, orderedRanges, List.length_insertionSort, ← hwell.normalizes.length_eq]
      rfl
    have hspans : spans keptOps ≠ [] := by
      intro hnil
      rw [hnil] at hlength
      exact hne (List.eq_nil_of_length_eq_zero hlength.symm)
    have hcount : keptOps.length = (acceptedSpans canonical guard (spans ops)).length :=
      (length_spans hwhole).symm.trans hlength
    refine ⟨keptOps, hsub, hcount, ?_, ?_⟩
    · have hrefused := congrArg (List.length ∘ Prod.snd) h
      simp only [Function.comp_apply, List.length_map, List.length_append] at hrefused
      have hall := @length_acceptedSpans canonical guard (spans ops)
      rw [length_spans hops] at hall
      omega
    · rw [applyLineOps, if_neg (by simp [hwhole]), (applySpanOps_eq_iff hspans).mpr
        ⟨ranges, hwell, hsep, by rw [hsame]; exact hverdict⟩]
      rfl

/-- Two spans of a line are kept, and the one that overlaps is refused. -/
theorem spansApplied_twoWords : SpansApplied "a".toList "le chat noir".toList .none .default
    [.replaceSpan "a".toList (.text "noir".toList none) "vert".toList none,
      .replaceSpan "a".toList (.range 5 9) "x".toList none,
      .replaceSpan "a".toList (.range 3 7) "chien".toList none]
    "le chien vert".toList [⟨"a".toList, .replaceSpan, .overlap, none⟩]
    (acceptedSpans "le chat noir".toList .default
      [(.text "noir".toList none, "vert".toList), (.range 5 9, "x".toList),
        (.range 3 7, "chien".toList)]) :=
  spansApplied_applyLineOps (by decide +kernel) rfl (by decide +kernel)

end Saknussemm
