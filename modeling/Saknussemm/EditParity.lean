import Saknussemm.Editing
import Saknussemm.Library.Pointwise

/-! # Two vocabularies for one edit.

A line can be edited by spans or by its whole new text.  The two paths
face the same budget and the same hyphen check, but the spans are measured
one by one and the whole line at once, and each path checks something the
other does not. -/

namespace Saknussemm

/-! ## What a list of spans composes to -/

/-- The order in which the spans of a line are examined. -/
def orderedRanges (ranges : List (Span × Str)) : List (Span × Str) :=
  ranges.insertionSort fun a b =>
    a.1.start < b.1.start ∨ (a.1.start = b.1.start ∧ a.1.stop ≤ b.1.stop)

/-- Spans in order, none starting where another does or inside it, from
`pos` on. -/
inductive Disjoint (length : Nat) : Nat → List (Span × Str) → Prop
  | nil {pos : Nat} (h : pos ≤ length) : Disjoint length pos []
  | cons {pos : Nat} {span : Span} {text : Str} {rest : List (Span × Str)}
      (hpos : pos ≤ span.start) (hspan : span.start ≤ span.stop)
      (hfresh : ∀ range ∈ rest, span.start < range.1.start)
        (hrest : Disjoint length span.stop rest) :
      Disjoint length pos ((span, text) :: rest)

/-- The text with its spans replaced, read from `pos` on. -/
def spliceFrom (canonical : Str) : Nat → List (Span × Str) → Str
  | pos, [] => canonical.drop pos
  | pos, (span, text) :: rest =>
    (canonical.drop pos).take (span.start - pos) ++ text ++ spliceFrom canonical span.stop rest

/-- What of the text lies outside every span, from `pos` on. -/
def outsideFrom (canonical : Str) : Nat → List (Span × Str) → Str
  | pos, [] => canonical.drop pos
  | pos, (span, _) :: rest =>
    (canonical.drop pos).take (span.start - pos) ++ outsideFrom canonical span.stop rest

variable {canonical : Str} {length pos : Nat} {ranges : List (Span × Str)}

theorem Disjoint.le_length (h : Disjoint length pos ranges) : pos ≤ length := by
  induction h with
  | nil h => exact h
  | cons hpos hspan _ _ ih => omega

/-- Ascending starts come out reversed when the last goes first. -/
theorem insertionSort_of_disjoint (h : Disjoint length pos ranges) :
    ranges.insertionSort (fun a b => b.1.start ≤ a.1.start) = ranges.reverse := by
  induction h with
  | nil => rfl
  | @cons pos span text rest _ _ hfresh _ ih =>
    rw [List.insertionSort_cons, ih, List.reverse_cons]
    have hall : ∀ l : List (Span × Str), (∀ range ∈ l, span.start < range.1.start) →
        List.orderedInsert (fun a b : Span × Str => b.1.start ≤ a.1.start) (span, text) l =
          l ++ [(span, text)] := by
      intro l hl
      induction l with
      | nil => rfl
      | cons range l ihl =>
        have hlt := hl range (by simp)
        rw [List.orderedInsert_cons, if_neg (by simpa using hlt),
          ihl fun r hr => hl r (by simp [hr])]
        rfl
    exact hall _ fun range hrange => hfresh range (List.mem_reverse.mp hrange)

/-- **Applying disjoint spans splices them in.** -/
theorem applySpans_of_disjoint (h : Disjoint canonical.length 0 ranges) :
    applySpans canonical ranges = spliceFrom canonical 0 ranges := by
  have hfold : ∀ {pos : Nat} {ranges : List (Span × Str)}, Disjoint canonical.length pos ranges →
      ranges.foldr (fun (range : Span × Str) text =>
          text.take range.1.start ++ range.2 ++ text.drop range.1.stop) canonical =
        canonical.take pos ++ spliceFrom canonical pos ranges := by
    intro pos ranges hdisjoint
    induction hdisjoint with
    | nil => simp [spliceFrom]
    | @cons pos span text rest hpos hspan _ hrest ih =>
      have hle := hrest.le_length
      rw [List.foldr_cons, ih, spliceFrom]
      have htake : (canonical.take span.stop ++ spliceFrom canonical span.stop rest).take
          span.start = canonical.take pos ++ (canonical.drop pos).take (span.start - pos) := by
        rw [List.take_append_of_le_length (by simp; omega), List.take_take, Nat.min_eq_left hspan,
          ← List.take_add, Nat.add_sub_cancel' hpos]
      have hdrop : (canonical.take span.stop ++ spliceFrom canonical span.stop rest).drop
          span.stop = spliceFrom canonical span.stop rest := by
        rw [List.drop_append_of_le_length (by simp; omega)]
        simp
      rw [htake, hdrop]
      simp
  rw [applySpans, insertionSort_of_disjoint h, List.foldl_reverse]
  simpa using hfold h

/-- A line separator in the new text was in a span or outside all of them. -/
theorem hasLineSeparator_spliceFrom (h : Disjoint length pos ranges) :
    hasLineSeparator (spliceFrom canonical pos ranges) =
      (ranges.any (fun range => hasLineSeparator range.2) ||
        hasLineSeparator (outsideFrom canonical pos ranges)) := by
  induction h with
  | nil => simp [spliceFrom, outsideFrom]
  | cons _ _ _ _ ih =>
    simp only [hasLineSeparator] at ih
    simp only [spliceFrom, outsideFrom, hasLineSeparator, List.any_append, List.any_cons, ih]
    grind

/-! ## The spans a script's operations stand for -/

variable {guard : GuardConfig} {ops : List (Anchor × Str)}

/-- A span operation names its range and does not grow it too much. -/
def Normalizes (canonical : Str) (guard : GuardConfig) (op : Anchor × Str) (range : Span × Str) :
    Prop :=
  normalizeAnchor op.1 canonical = .ok range.1 ∧ range.2 = op.2 ∧
    ¬ guard.editSpanMaxGrowthRatio * (max 1 (range.1.stop - range.1.start) : Nat) < range.2.length

/-- Each operation passes on its own, and none overlaps another. -/
structure WellFormed (canonical : Str) (guard : GuardConfig) (ops : List (Anchor × Str))
    (ranges : List (Span × Str)) : Prop where
  normalizes : List.Forall₂ (Normalizes canonical guard) ops ranges
  no_overlap : (withoutOverlaps none (orderedRanges ranges)).2 = []

/-- An occurrence ends inside the text. -/
theorem le_of_mem_occurrencesFrom {needle text : Str} {i offset : Nat}
    (h : i ∈ occurrencesFrom needle offset text) : i + needle.length ≤ offset + text.length := by
  induction text generalizing offset with
  | nil =>
    rw [occurrencesFrom] at h
    split at h
    · next hneedle => grind
    · cases h
  | cons c rest ih =>
    have hrest : i ∈ occurrencesFrom needle (offset + 1) rest →
        i + needle.length ≤ offset + (c :: rest).length := by
      intro hi
      have := ih hi
      simp only [List.length_cons]
      omega
    rw [occurrencesFrom] at h
    split at h
    · next hprefix =>
      rcases List.mem_cons.mp h with rfl | hi
      · have := (List.isPrefixOf_iff_prefix.mp hprefix).length_le
        omega
      · exact hrest hi
    · exact hrest h

/-- An anchor's range lies in the text. -/
theorem span_of_normalizeAnchor {anchor : Anchor} {span : Span}
    (h : normalizeAnchor anchor canonical = .ok span) :
    span.start ≤ span.stop ∧ span.stop ≤ canonical.length := by
  cases anchor with
  | range start stop =>
    rw [normalizeAnchor] at h
    split at h
    · next hrange =>
      cases h
      exact ⟨by dsimp only; omega, by dsimp only; omega⟩
    · cases h
  -- an occurrence of the needle fits in the text, whichever of them is named
  | text needle occurrence =>
    have hat : ∀ i ∈ occurrencesFrom needle 0 canonical, i + needle.length ≤ canonical.length := by
      intro i hi
      simpa using le_of_mem_occurrencesFrom hi
    unfold normalizeAnchor at h
    dsimp only at h
    split at h
    · cases h
    · cases hstarts : occurrencesFrom needle 0 canonical with
      | nil =>
        rw [hstarts] at h
        cases h
      | cons start rest =>
        rw [hstarts] at h hat
        cases occurrence with
        | none =>
          cases rest with
          | nil =>
            cases h
            exact ⟨Nat.le_add_right _ _, hat start (by simp)⟩
          | cons other rest => cases h
        | some n =>
          have hnamed : ∀ i ∈ (if n < 0 then none else (start :: rest)[n.toNat]?),
              i + needle.length ≤ canonical.length := by
            intro i hi
            split at hi
            · cases hi
            · exact hat i (List.mem_of_getElem? hi)
          cases hat' : (if n < 0 then none else (start :: rest)[n.toNat]?) with
          | none =>
            simp only [hat', reduceCtorEq] at h
          | some i =>
            simp only [hat', Except.ok.injEq] at h
            subst h
            exact ⟨Nat.le_add_right _ _, hnamed i hat'⟩

/-- The spans are all kept exactly when each passes on its own. -/
theorem normalizeSpans_eq_iff : normalizeSpans canonical guard ops = (ranges, []) ↔
    List.Forall₂ (Normalizes canonical guard) ops ranges ∧
      ∀ op ∈ ops, hasLineSeparator op.2 = false := by
  -- induction on the operations: each of the three refusals leaves a reason in the second list
  induction ops generalizing ranges with
  | nil =>
    rw [normalizeSpans, List.forall₂_nil_left_iff, Prod.mk.injEq]
    exact ⟨fun h => ⟨h.1.symm, by simp⟩, fun h => ⟨h.1.symm, rfl⟩⟩
  | cons op ops ih =>
    obtain ⟨anchor, text⟩ := op
    rw [normalizeSpans]
    cases hrest : normalizeSpans canonical guard ops with
    | mk normalized refused =>
      rw [hrest] at ih
      dsimp only
      by_cases hsep : hasLineSeparator text = true
      · simp [hsep]
      · cases hanchor : normalizeAnchor anchor canonical with
        | error reason =>
          have hno : ∀ range : Span × Str, ¬ Normalizes canonical guard (anchor, text) range := by
            intro range hrange
            rw [Normalizes, hanchor] at hrange
            cases hrange.1
          simp only [hsep, Bool.false_eq_true, if_false, Prod.mk.injEq, reduceCtorEq, and_false,
            false_iff, not_and]
          intro hforall
          cases hforall with
          | cons hnorm _ => exact absurd hnorm (hno _)
        | ok span =>
          simp only [hsep, Bool.false_eq_true, if_false]
          -- the growth bound is the last of the three tests
          by_cases hgrowth : guard.editSpanMaxGrowthRatio *
              (max 1 (span.stop - span.start) : Nat) < text.length
          · have hno : ∀ range : Span × Str, ¬ Normalizes canonical guard (anchor, text) range := by
              rintro ⟨span', text'⟩ ⟨hspan, htext, hratio⟩
              dsimp only at hspan htext hratio
              rw [hanchor, Except.ok.injEq] at hspan
              subst hspan htext
              exact hratio hgrowth
            rw [if_pos hgrowth]
            simp only [Prod.mk.injEq, reduceCtorEq, and_false, false_iff, not_and]
            intro hforall
            cases hforall with
            | cons hnorm _ => exact absurd hnorm (hno _)
          · rw [if_neg hgrowth, Prod.mk.injEq]
            constructor
            · rintro ⟨rfl, rfl⟩
              obtain ⟨hforall, hall⟩ := ih.mp rfl
              exact ⟨.cons ⟨hanchor, rfl, hgrowth⟩ hforall, by simpa [hsep] using hall⟩
            · rintro ⟨hforall, hall⟩
              cases hforall with
              | @cons _ range _ ranges hnorm hforall =>
                obtain ⟨hspan, htext, -⟩ := hnorm
                rw [hanchor, Except.ok.injEq] at hspan
                have hranges := ih.mpr ⟨hforall, fun op hop => hall op (by simp [hop])⟩
                rw [Prod.mk.injEq] at hranges
                obtain ⟨span', text'⟩ := range
                dsimp only at hspan htext
                rw [hranges.1, hranges.2, hspan, htext]
                exact ⟨rfl, rfl⟩

/-- The spans kept are some of the spans, in their order. -/
theorem withoutOverlaps_sublist (prev : Option Span) (ranges : List (Span × Str)) :
    (withoutOverlaps prev ranges).1.Sublist ranges := by
  induction ranges generalizing prev with
  | nil => exact .slnil
  | cons range ranges ih =>
    obtain ⟨span, text⟩ := range
    rw [withoutOverlaps]
    split
    · exact (ih prev).cons _
    · exact (ih (some span)).cons_cons _

/-- Every span is kept or refused. -/
theorem length_withoutOverlaps (prev : Option Span) (ranges : List (Span × Str)) :
    (withoutOverlaps prev ranges).1.length + (withoutOverlaps prev ranges).2.length =
      ranges.length := by
  induction ranges generalizing prev with
  | nil => rfl
  | cons range ranges ih =>
    obtain ⟨span, text⟩ := range
    rw [withoutOverlaps]
    split
    · have := ih prev
      simp only [List.length_cons]
      omega
    · have := ih (some span)
      simp only [List.length_cons]
      omega

/-- **The spans kept are disjoint**, and none starts where the one before
them does. -/
theorem disjoint_withoutOverlaps {prev : Option Span}
    (hprev : ∀ p ∈ prev, p.stop ≤ canonical.length)
    (hsorted : ranges.Pairwise fun a b => a.1.start ≤ b.1.start)
    (hspans : ∀ range ∈ ranges, range.1.start ≤ range.1.stop ∧ range.1.stop ≤ canonical.length) :
    Disjoint canonical.length ((prev.map Span.stop).getD 0) (withoutOverlaps prev ranges).1 ∧
      ∀ p ∈ prev, (∀ range ∈ ranges, p.start ≤ range.1.start) →
        ∀ range ∈ (withoutOverlaps prev ranges).1, p.start < range.1.start := by
  -- induction on the sorted ranges, `prev` being the last range that was kept
  induction ranges generalizing prev with
  | nil =>
    refine ⟨.nil ?_, by simp [withoutOverlaps]⟩
    cases prev with
    | none => exact Nat.zero_le _
    | some p => exact hprev p rfl
  | cons range ranges ih =>
    obtain ⟨span, text⟩ := range
    obtain ⟨hfirst, hsorted⟩ := List.pairwise_cons.mp hsorted
    obtain ⟨hspan, hstop⟩ := hspans (span, text) (by simp)
    have hspans' : ∀ range ∈ ranges,
        range.1.start ≤ range.1.stop ∧ range.1.stop ≤ canonical.length :=
      fun range hrange => hspans range (by simp [hrange])
    rw [withoutOverlaps]
    split
    · obtain ⟨hdisjoint, hfresh⟩ := ih hprev hsorted hspans'
      exact ⟨hdisjoint, fun p hp hle => hfresh p hp fun range hrange => hle range
        (by simp [hrange])⟩
    -- a kept range starts at or after the end of the one before, and strictly after its start
    · next hkept =>
      obtain ⟨hdisjoint, hfresh⟩ := @ih (some span) (by simpa using hstop) hsorted hspans'
      have hstrict := hfresh span rfl hfirst
      refine ⟨.cons ?_ hspan hstrict hdisjoint, ?_⟩
      · cases prev with
        | none => exact Nat.zero_le _
        | some p =>
          simp only [Option.any_some, Bool.or_eq_true, decide_eq_true_eq, not_or] at hkept
          simpa using hkept.1
      · rintro p rfl hle range hrange
        simp only [Option.any_some, Bool.or_eq_true, decide_eq_true_eq, not_or] at hkept
        have hp := hle (span, text) (by simp)
        have hlt : p.start < span.start := by
          have := hkept.2
          dsimp only at hp
          omega
        rcases List.mem_cons.mp hrange with rfl | hrange
        · exact hlt
        · exact hlt.trans (hstrict range hrange)

/-- What the order of the spans compares. -/
theorem pairwise_orderedRanges (ranges : List (Span × Str)) :
    (orderedRanges ranges).Pairwise fun a b =>
      a.1.start < b.1.start ∨ (a.1.start = b.1.start ∧ a.1.stop ≤ b.1.stop) := by
  let before : Span × Str → Span × Str → Prop := fun a b =>
    a.1.start < b.1.start ∨ (a.1.start = b.1.start ∧ a.1.stop ≤ b.1.stop)
  have htotal : Std.Total before := ⟨fun a b => by dsimp only [before]; omega⟩
  have htrans : IsTrans _ before := ⟨fun a b c => by dsimp only [before]; omega⟩
  exact List.pairwise_insertionSort before ranges

/-- The spans kept of those that normalise are disjoint, in order. -/
theorem disjoint_acceptedRanges
    (hforall : List.Forall₂ (Normalizes canonical guard) ops ranges) :
    Disjoint canonical.length 0 (withoutOverlaps none (orderedRanges ranges)).1 := by
  have hsorted : (orderedRanges ranges).Pairwise fun a b => a.1.start ≤ b.1.start :=
    (pairwise_orderedRanges ranges).imp fun hbefore => by omega
  have hspans : ∀ range ∈ orderedRanges ranges,
      range.1.start ≤ range.1.stop ∧ range.1.stop ≤ canonical.length := by
    intro range hrange
    rw [orderedRanges, List.mem_insertionSort] at hrange
    obtain ⟨op, -, hop⟩ := Pointwise.exists_of_mem_right hforall hrange
    exact span_of_normalizeAnchor hop.1
  exact (@disjoint_withoutOverlaps _ _ none (by simp) hsorted hspans).1

/-- The spans a line's verdict is about are disjoint and in order. -/
theorem WellFormed.disjoint (h : WellFormed canonical guard ops ranges) :
    (withoutOverlaps none (orderedRanges ranges)).1 = orderedRanges ranges ∧
      Disjoint canonical.length 0 (orderedRanges ranges) := by
  have hsame : (withoutOverlaps none (orderedRanges ranges)).1 = orderedRanges ranges := by
    apply (withoutOverlaps_sublist none (orderedRanges ranges)).eq_of_length
    have hlen := length_withoutOverlaps none (orderedRanges ranges)
    rwa [h.no_overlap] at hlen
  have hdisjoint := disjoint_acceptedRanges h.normalizes
  rw [hsame] at hdisjoint
  exact ⟨hsame, hdisjoint⟩

theorem WellFormed.ne_nil (h : WellFormed canonical guard ops ranges) (hops : ops ≠ []) :
    orderedRanges ranges ≠ [] := by
  intro hnil
  have hlen : (orderedRanges ranges).length = ops.length := by
    rw [orderedRanges, List.length_insertionSort, ← h.normalizes.length_eq]
  rw [hnil] at hlen
  exact hops (List.eq_nil_of_length_eq_zero hlen.symm)

/-- Spans give the line a text when they are well formed, single-line, and
the verdict on them together is good. -/
theorem applySpanOps_eq_iff {role : HyphenRole} {r : Str} (hops : ops ≠ []) :
    applySpanOps canonical role guard ops = (some r, []) ↔
      ∃ ranges, WellFormed canonical guard ops ranges ∧
        (∀ op ∈ ops, hasLineSeparator op.2 = false) ∧
        spansVerdict role canonical (orderedRanges ranges) guard = .ok r := by
  unfold applySpanOps
  cases hnormalized : normalizeSpans canonical guard ops with
  | mk normalized malformed =>
    have hordered : normalized.insertionSort (fun a b => a.1.start < b.1.start ∨
        (a.1.start = b.1.start ∧ a.1.stop ≤ b.1.stop)) = orderedRanges normalized := rfl
    simp only [hordered]
    cases haccepted : withoutOverlaps none (orderedRanges normalized) with
    | mk accepted overlapping =>
      dsimp only
      constructor
      -- an empty second list means no refusal and no overlap, hence ranges kept as they stand
      · intro h
        split at h
        · cases h
        · split at h
          · cases h
          · next result hverdict =>
            rw [Prod.mk.injEq, Option.some_inj, List.append_eq_nil_iff] at h
            obtain ⟨rfl, rfl, rfl⟩ := h
            obtain ⟨hforall, hsep⟩ := normalizeSpans_eq_iff.mp hnormalized
            have hwell : WellFormed canonical guard ops normalized := ⟨hforall, by rw [haccepted]⟩
            have hsame := hwell.disjoint.1
            rw [haccepted] at hsame
            exact ⟨normalized, hwell, hsep, by rw [← hsame]; exact hverdict⟩
      · rintro ⟨ranges, hwell, hsep, hverdict⟩
        have hranges := normalizeSpans_eq_iff.mpr ⟨hwell.normalizes, hsep⟩
        rw [hnormalized, Prod.mk.injEq] at hranges
        obtain ⟨rfl, rfl⟩ := hranges
        have hsame := hwell.disjoint.1
        have hnone := hwell.no_overlap
        rw [haccepted] at hsame hnone
        dsimp only at hsame hnone
        subst hsame hnone
        rw [if_neg (hwell.ne_nil hops), hverdict]
        rfl

/-! ## The two verdicts -/

/-- A line a script may edit. -/
structure EditSite where
  canonicalById : Dict Str Str
  chunkLineIds : Option (List Str)
  guard : GuardConfig
  roleOf : Str → HyphenRole
  lineId : Str
  canonical : Str
  known : canonicalById.get? lineId = some canonical
  target : ∀ ids ∈ chunkLineIds, lineId ∈ ids

namespace EditSite

variable [Digest] (site : EditSite)

/-- The line's hyphen role. -/
def role : HyphenRole := site.roleOf site.lineId

/-- A script of these operations is accepted whole and gives the line `r`. -/
def Accepts (ops : List EditOp) (r : Str) : Prop :=
  applyEditScript (.ofOps ops) site.canonicalById site.chunkLineIds site.guard site.roleOf none =
    .ok ⟨[(site.lineId, r)], []⟩

/-- The whole line's new text. -/
def lineOp (r : Str) : EditOp := .replaceLine site.lineId r none

/-- Spans of the line. -/
def spanOps (ops : List (Anchor × Str)) : List EditOp :=
  ops.map fun (anchor, text) => .replaceSpan site.lineId anchor text none

/-- The spans compose to `r`. -/
def ComposesTo (ops : List (Anchor × Str)) (r : Str) : Prop :=
  ∃ ranges, WellFormed site.canonical site.guard ops ranges ∧
    applySpans site.canonical (orderedRanges ranges) = r

/-- The same result gets the same verdict: accepted spans may be proposed as
a whole line, and an accepted whole line as the spans that compose to it. -/
def SameVerdict (ops : List (Anchor × Str)) : Prop :=
  ∀ r, (site.Accepts (site.spanOps ops) r → site.Accepts [site.lineOp r] r) ∧
    (site.Accepts [site.lineOp r] r → site.ComposesTo ops r → site.Accepts (site.spanOps ops) r)

/-- The characters the spans change, one by one. -/
def changedBySpans (ranges : List (Span × Str)) : Nat :=
  (ranges.map fun (span, text) =>
    changedChars ((site.canonical.take span.stop).drop span.start) text).sum

/-- The spans are within the budget and erase no boundary word. -/
def SpansFit (ranges : List (Span × Str)) : Prop :=
  site.changedBySpans ranges ≤ site.guard.editLineMaxChangedChars ∧
    e5bBoundaryWordKept site.role site.canonical ranges = true

/-- The window from the first change to the last is within the budget, and
the source keeps no line separator outside the spans. -/
def LineFits (ranges : List (Span × Str)) : Prop :=
  changedChars site.canonical (spliceFrom site.canonical 0 ranges) ≤
      site.guard.editLineMaxChangedChars ∧
    hasLineSeparator (outsideFrom site.canonical 0 ranges) = false

/-- Where the two measures agree: on single-line spans whose result is not
blank and keeps its break mark, the spans fit exactly when the line does. -/
def MeasuresAgree (ops : List (Anchor × Str)) : Prop :=
  ∀ ranges, WellFormed site.canonical site.guard ops ranges →
    (∀ op ∈ ops, hasLineSeparator op.2 = false) →
    strip (spliceFrom site.canonical 0 (orderedRanges ranges)) ≠ [] →
    e5HyphenOk site.role (spliceFrom site.canonical 0 (orderedRanges ranges))
      site.canonical = true →
    (site.SpansFit (orderedRanges ranges) ↔ site.LineFits (orderedRanges ranges))

/-! ## Reading the verdicts off the script -/

omit [Digest] in
/-- Operations on one line are one group. -/
theorem opsByLine_of_line {ops : List EditOp} {lineId : Str} (hops : ops ≠ [])
    (hline : ∀ op ∈ ops, op.lineId = lineId) : opsByLine ops = [(lineId, ops)] := by
  have hall : ops.filter (·.lineId = lineId) = ops := by
    rw [List.filter_eq_self]
    exact fun op hop => decide_eq_true (hline op hop)
  have hids : (ops.map EditOp.lineId).eraseDups = [lineId] := by
    cases ops with
    | nil => exact absurd rfl hops
    | cons op ops =>
      have hrest : (ops.map EditOp.lineId).filter (fun id => !id == op.lineId) = [] := by
        rw [List.filter_eq_nil_iff]
        intro id hid
        obtain ⟨other, hother, rfl⟩ := List.mem_map.mp hid
        simp [hline op (by simp), hline other (by simp [hother])]
      rw [List.map_cons, List.eraseDups_cons, hrest, hline op (by simp)]
      rfl
  rw [opsByLine, hids, List.map_singleton, hall]

/-- A script about the line alone is the verdict on its operations. -/
theorem accepts_iff {ops : List EditOp} (hops : ops ≠ [])
    (hline : ∀ op ∈ ops, op.lineId = site.lineId) (r : Str) : site.Accepts ops r ↔
      applyLineOps site.lineId ops site.canonical site.role site.guard = (some r, []) := by
  have hscope : ops.filter (fun op => inScope none op.pageId) = ops := by
    rw [List.filter_eq_self]
    exact fun op _ => rfl
  have he1 : e1Refusal site.lineId site.canonicalById site.chunkLineIds = none := by
    have htarget : site.chunkLineIds.any (site.lineId ∉ ·) = false := by
      cases hids : site.chunkLineIds with
      | none => rfl
      | some ids => simpa using site.target ids hids
    rw [e1Refusal, site.known, htarget]
    rfl
  have hline' : applyLine site.canonicalById site.chunkLineIds site.guard site.roleOf [] site.lineId
      ops = applyLineOps site.lineId ops site.canonical site.role site.guard := by
    rw [applyLine, he1, site.known]
    rfl
  have hscript : applyEditScript (.ofOps ops) site.canonicalById site.chunkLineIds site.guard
      site.roleOf none = .ok {
        textById := [(site.lineId, applyLine site.canonicalById site.chunkLineIds site.guard
          site.roleOf [] site.lineId ops)].filterMap fun line => line.2.1.map (line.1, ·)
        rejected := [(site.lineId, applyLine site.canonicalById site.chunkLineIds site.guard
          site.roleOf [] site.lineId ops)].flatMap fun line => line.2.2 } := by
    simp only [applyEditScript, EditScript.ofOps, hscope, opsByLine_of_line hops hline]
    rfl
  rw [Accepts, hscript, hline']
  obtain ⟨text, rejected⟩ := applyLineOps site.lineId ops site.canonical site.role site.guard
  cases text <;> simp

/-- The whole line is accepted when it passes its own checks. -/
theorem accepts_lineOp_iff (r : Str) : site.Accepts [site.lineOp r] r ↔
    hasLineSeparator r = false ∧ strip r ≠ [] ∧
      changedChars site.canonical r ≤ site.guard.editLineMaxChangedChars ∧
      e5HyphenOk site.role r site.canonical = true := by
  rw [site.accepts_iff (by simp) (by simp [lineOp, EditOp.lineId])]
  have hwhole : wholeLines [site.lineOp r] = [r] := rfl
  have hspans : spans [site.lineOp r] = [] := rfl
  rw [applyLineOps, hwhole, hspans, if_pos (by simp), wholeLineVerdict, if_neg (by simp),
    wholeLineDriftRefusal]
  by_cases hsep : hasLineSeparator r = true
  · simp [hsep]
  · by_cases hblank : strip r = []
    · simp [hsep, hblank]
    · by_cases hbudget : site.guard.editLineMaxChangedChars < changedChars site.canonical r
      · simp [hsep, hblank, hbudget]
      · cases hmark : e5HyphenOk site.role r site.canonical <;>
          simp [hsep, hblank, hbudget, Nat.le_of_not_lt hbudget]

omit [Digest] in
/-- The verdict on accepted spans. -/
theorem spansVerdict_eq_ok_iff {accepted : List (Span × Str)} {r : Str} :
    spansVerdict site.role site.canonical accepted site.guard = .ok r ↔
      applySpans site.canonical accepted = r ∧ strip r ≠ [] ∧ site.SpansFit accepted ∧
        e5HyphenOk site.role r site.canonical = true := by
  unfold spansVerdict SpansFit changedBySpans e5Refusal
  dsimp only
  by_cases hbudget : site.guard.editLineMaxChangedChars < (accepted.map fun (range : Span × Str) =>
      changedChars ((site.canonical.take range.1.stop).drop range.1.start) range.2).sum
  · rw [if_pos hbudget]
    simp only [reduceCtorEq, false_iff, not_and]
    rintro - - ⟨hle, -⟩
    exact absurd hbudget (Nat.not_lt.mpr hle)
  · have hle := Nat.le_of_not_lt hbudget
    rw [if_neg hbudget]
    by_cases hresult : applySpans site.canonical accepted = r
    · subst hresult
      by_cases hblank : strip (applySpans site.canonical accepted) = []
      · simp [hblank]
      · cases hmark : e5HyphenOk site.role (applySpans site.canonical accepted) site.canonical <;>
          cases hkept : e5bBoundaryWordKept site.role site.canonical accepted <;>
            simp [hblank, hle]
    · simp only [hresult, false_and, iff_false]
      split
      · simp
      · split <;> simp [hresult]

/-- The spans are accepted when they are well formed, single-line, and pass
the checks on the line they give. -/
theorem accepts_spanOps_iff {ops : List (Anchor × Str)} (hops : ops ≠ []) (r : Str) :
    site.Accepts (site.spanOps ops) r ↔ ∃ ranges, WellFormed site.canonical site.guard ops ranges ∧
      (∀ op ∈ ops, hasLineSeparator op.2 = false) ∧
      applySpans site.canonical (orderedRanges ranges) = r ∧ strip r ≠ [] ∧
      site.SpansFit (orderedRanges ranges) ∧ e5HyphenOk site.role r site.canonical = true := by
  have hwhole : wholeLines (site.spanOps ops) = [] := by
    simp [wholeLines, spanOps, List.filterMap_map]
  have hspans : spans (site.spanOps ops) = ops := by
    simp [spans, spanOps, List.filterMap_map]
  have hline : ∀ op ∈ site.spanOps ops, op.lineId = site.lineId := by
    intro op hop
    obtain ⟨span, -, rfl⟩ := List.mem_map.mp hop
    rfl
  rw [site.accepts_iff (by simpa [spanOps] using hops) hline, applyLineOps, hwhole, hspans,
    if_neg (by simp)]
  have hsome : (∃ refused : List EditReason, applySpanOps site.canonical site.role site.guard ops =
      (some r, refused) ∧ refused = []) ↔
        ∃ ranges, WellFormed site.canonical site.guard ops ranges ∧
        (∀ op ∈ ops, hasLineSeparator op.2 = false) ∧
        spansVerdict site.role site.canonical (orderedRanges ranges) site.guard = .ok r := by
    simp only [exists_eq_right, applySpanOps_eq_iff hops]
  simp only [spansVerdict_eq_ok_iff] at hsome
  rw [← hsome]
  obtain ⟨text, refused⟩ := applySpanOps site.canonical site.role site.guard ops
  simp

omit [Digest] in
/-- The line the spans give is single-line where they and the text outside
them are. -/
theorem hasLineSeparator_splice {ops : List (Anchor × Str)} {ranges : List (Span × Str)}
    (hwell : WellFormed site.canonical site.guard ops ranges) :
    hasLineSeparator (spliceFrom site.canonical 0 (orderedRanges ranges)) = false ↔
      (∀ op ∈ ops, hasLineSeparator op.2 = false) ∧
        hasLineSeparator (outsideFrom site.canonical 0 (orderedRanges ranges)) = false := by
  have htexts : (orderedRanges ranges).any (fun range => hasLineSeparator range.2) = false ↔
      ∀ op ∈ ops, hasLineSeparator op.2 = false := by
    simp only [List.any_eq_false, Bool.not_eq_true, orderedRanges, List.mem_insertionSort]
    constructor
    · intro hall op hop
      obtain ⟨range, hrange, -, htext, -⟩ := Pointwise.exists_of_mem_left hwell.normalizes hop
      rw [← htext]
      exact hall range hrange
    · intro hall range hrange
      obtain ⟨op, hop, -, htext, -⟩ := Pointwise.exists_of_mem_right hwell.normalizes hrange
      rw [htext]
      exact hall op hop
  rw [hasLineSeparator_spliceFrom hwell.disjoint.2, Bool.or_eq_false_iff, htexts]

/-- **A result gets one verdict exactly where the two measures agree.** -/
theorem sameVerdict_iff (op : Anchor × Str) (ops : List (Anchor × Str)) :
    site.SameVerdict (op :: ops) ↔ site.MeasuresAgree (op :: ops) := by
  have hsplice : ∀ ranges, WellFormed site.canonical site.guard (op :: ops) ranges →
      applySpans site.canonical (orderedRanges ranges) =
        spliceFrom site.canonical 0 (orderedRanges ranges) :=
    fun ranges hwell => applySpans_of_disjoint hwell.disjoint.2
  have hspans := fun r => site.accepts_spanOps_iff (List.cons_ne_nil op ops) r
  have hline := fun r => site.accepts_lineOp_iff r
  constructor
  -- edit by edit: where the operations are well formed, the spans and the whole line make one text
  · intro hsame ranges hwell hsep hblank hmark
    obtain ⟨hto, hfrom⟩ := hsame (spliceFrom site.canonical 0 (orderedRanges ranges))
    constructor
    · intro hfit
      obtain ⟨hsingle, -, hbudget, -⟩ :=
        (hline _).mp (hto ((hspans _).mpr ⟨ranges, hwell, hsep, hsplice ranges hwell,
          hblank, hfit, hmark⟩))
      exact ⟨hbudget, ((site.hasLineSeparator_splice hwell).mp hsingle).2⟩
    · rintro ⟨hbudget, houtside⟩
      have hsingle := (site.hasLineSeparator_splice hwell).mpr ⟨hsep, houtside⟩
      obtain ⟨ranges', hwell', -, -, -, hfit, -⟩ := (hspans _).mp
        (hfrom ((hline _).mpr ⟨hsingle, hblank, hbudget, hmark⟩)
          ⟨ranges, hwell, hsplice ranges hwell⟩)
      -- the accepted ranges are those the operations normalise to, hence unique
      obtain rfl : ranges' = ranges := by
        have heq := normalizeSpans_eq_iff.mpr ⟨hwell.normalizes, hsep⟩
        rw [normalizeSpans_eq_iff.mpr ⟨hwell'.normalizes, hsep⟩] at heq
        exact congrArg Prod.fst heq
      exact hfit
  · intro hagree r
    constructor
    · intro haccepts
      obtain ⟨ranges, hwell, hsep, rfl, hblank, hfit, hmark⟩ := (hspans r).mp haccepts
      rw [hsplice ranges hwell] at hblank hmark ⊢
      obtain ⟨hbudget, houtside⟩ := (hagree ranges hwell hsep hblank hmark).mp hfit
      exact (hline _).mpr
        ⟨(site.hasLineSeparator_splice hwell).mpr ⟨hsep, houtside⟩, hblank, hbudget, hmark⟩
    -- a text the line path accepts need not come from well-formed spans; then nothing is asked
    · rintro haccepts ⟨ranges, hwell, rfl⟩
      obtain ⟨hsingle, hblank, hbudget, hmark⟩ := (hline _).mp haccepts
      refine (hspans _).mpr ⟨ranges, hwell, ?_, rfl, hblank, ?_, hmark⟩ <;>
        rw [hsplice ranges hwell] at hsingle hblank hbudget hmark <;>
        obtain ⟨hsep, houtside⟩ := (site.hasLineSeparator_splice hwell).mp hsingle
      · exact hsep
      · exact (hagree ranges hwell hsep hblank hmark).mpr ⟨hbudget, houtside⟩

end EditSite

/-- The second half of a broken word, and a word after it. -/
def continuationSite : EditSite where
  canonicalById := [("a".toList, "ment dit".toList)]
  chunkLineIds := none
  guard := .default
  roleOf := fun _ => .part2
  lineId := "a".toList
  canonical := "ment dit".toList
  known := rfl
  target := by simp

/-- **Erasing the boundary word is refused as a span and accepted as a whole
line.** -/
theorem continuationSite_two_verdicts :
    ¬ @EditSite.SameVerdict ⟨id⟩ continuationSite [(.range 0 4, [])] := by
  let : Digest := ⟨id⟩
  intro hsame
  have hline : continuationSite.Accepts [continuationSite.lineOp " dit".toList] " dit".toList :=
    (continuationSite.accepts_iff (by simp) (by simp [EditSite.lineOp, EditOp.lineId]) _).mpr
      (by decide +kernel)
  have hspans := (hsame " dit".toList).2 hline ⟨[(⟨0, 4⟩, [])],
    ⟨.cons ⟨rfl, rfl, by norm_num [continuationSite, GuardConfig.default]⟩ .nil, rfl⟩, rfl⟩
  have hverdict := (continuationSite.accepts_iff (by simp [EditSite.spanOps])
    (by simp [EditSite.spanOps, EditOp.lineId]) _).mp hspans
  exact absurd hverdict (by decide +kernel)

end Saknussemm
