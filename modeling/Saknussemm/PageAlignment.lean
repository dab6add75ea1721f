import Saknussemm.Alignment
import Saknussemm.Run.State

/-! # Asking for a whole page at once.

The answer is a list of lines with no identities on them, and the
alignment says which returned line answers which source line.  It must
never put a line's text on a different line: it does not cross, and it
refuses a match without evidence. -/

namespace Saknussemm

/-! ## Recovering which line is which -/

/-- How many tokens a line may gain or lose and still be the same line. -/
def mergeSlackTokens : Nat := 2

/-- How far two numbers of tokens are apart. -/
def tokenGap (left right : List Str) : Nat :=
  (left.length - right.length) + (right.length - left.length)

/-- How much two lines look like the same line: the overlap of their token
sets, and nothing at all when one gained too many tokens. -/
def lineSimilarity (left right : Str) : ℚ :=
  let leftTokens := split left
  let rightTokens := split right
  if mergeSlackTokens < tokenGap leftTokens rightTokens then 0
  else if leftTokens = [] ∧ rightTokens = [] then 1
  else if leftTokens = [] ∨ rightTokens = [] then 0
  else
    let shared := leftTokens.eraseDups.filter (· ∈ rightTokens)
    let all := (leftTokens ++ rightTokens).eraseDups
    (shared.length : ℚ) / all.length

/-- Which returned line answers which source line. -/
structure PageLineAlignment where
  matched : List (Option Nat)
  /-- Returned lines no source line claimed. -/
  unclaimed : List Nat
  bandExhausted : Bool

/-- Write one correspondence down, when it is a match. -/
def recordMatch (matched : List (Option Nat)) (pair : AlignedPair) : List (Option Nat) :=
  match pair.sourceIndex, pair.targetIndex with
  | some i, some j => matched.set i (some j)
  | _, _ => matched

/-- The returned line a correspondence claims. -/
def claimedLine (pair : AlignedPair) : Option Nat :=
  if pair.sourceIndex.isSome then pair.targetIndex else none

/-- Map each source line onto the returned line that answers it. -/
def alignPageLines (sourceLines returnedLines : List Str) (band : Nat) : PageLineAlignment :=
  let alignment := alignTokens (some band) lineSimilarity sourceLines returnedLines
  let claimed := alignment.pairs.filterMap claimedLine
  { matched := alignment.pairs.foldl recordMatch (List.replicate sourceLines.length none)
    unclaimed := (List.range returnedLines.length).filter (· ∉ claimed)
    bandExhausted := alignment.bandExhausted }

/-! ## The producer -/

/-- The provider a page producer calls: the lines, the ones that end on half
a word, and the temperature.  Its answer is the returned lines, or `none`
where it is not `{'lines': [str, …]}`. -/
abbrev PageProvider := List Str → List Nat → ℚ → Except ProducerError (Option (List Str))

/-- The lines that end on half a word. -/
def breakIndices (lines : List LineContext) : List Nat :=
  lines.zipIdx.filterMap fun (line, index) =>
    if line.hyphenationRole = .part1 ∨ line.hyphenationRole = .both then some index else none

/-- The operation for one line: none where no line answers it, or where the
answer is the text it has. -/
def answerLine (returned : List Str) (line : LineContext) (target : Option Nat) : Option EditOp :=
  match target.bind (returned[·]?) with
  | none => none
  | some text => if text = line.ocrText then none else some (.replaceLine line.lineId text none)

/-- Ask for the page, and edit the lines the alignment vouches for. -/
def pageLlmProduce (provider : PageProvider) (band : Nat) (payload : CorrectionRequest)
    (temperature : ℚ) : Except ProducerError (List EditOp) := do
  let sourceLines := payload.lines.map LineContext.ocrText
  let answer ← provider sourceLines (breakIndices payload.lines) temperature
  match answer with
  | none => .error (.malformed
      ("page response is not \x7b'lines': [str, …]\x7d — with position as " ++
      "the only identity channel, a salvaged partial list would shift every line " ++
      "after the gap").toList)
  | some returned =>
    let alignment := alignPageLines sourceLines returned band
    if alignment.bandExhausted then
      .error (.malformed ("the returned page could not be aligned within its band: the model " ++
        "reordered or dropped enough that position no longer identifies a line. Refused rather " ++
        "than approximated.").toList)
    else .ok ((payload.lines.zip alignment.matched).filterMap fun (line, target) =>
      answerLine returned line target)

/-! ## The alignment as a matching -/

/-- Two lines that may answer each other: no more than the slack apart in
tokens, with a token in common unless both are blank. -/
def Alike (x y : Str) : Prop :=
  tokenGap (split x) (split y) ≤ mergeSlackTokens ∧
    ((∃ token ∈ split x, token ∈ split y) ∨ split x = [] ∧ split y = [])

/-- **Evidence is a shared token.** -/
theorem alike_of_lineSimilarity {x y : Str} (h : 0 < lineSimilarity x y) : Alike x y := by
  unfold lineSimilarity at h
  dsimp only at h
  split at h
  · exact absurd h (lt_irrefl _)
  · next hgap =>
    refine ⟨Nat.le_of_not_lt hgap, ?_⟩
    split at h
    · next hblank => exact .inr hblank
    · split at h
      · exact absurd h (lt_irrefl _)
      · left
        by_contra hnone
        have hshared : (split x).eraseDups.filter (· ∈ split y) = [] := by
          rw [List.filter_eq_nil_iff]
          intro token htoken hmem
          exact hnone ⟨token, List.mem_eraseDups.mp htoken, of_decide_eq_true hmem⟩
        rw [hshared] at h
        simp at h

section Pairs

variable {band : Option Nat} {similarity : Str → Str → ℚ} {source target : List Str}

/-- A correspondence of an alignment, read off the two sequences. -/
structure AlignedPair.Sound (source target : List Str) (similarity : Str → Str → ℚ)
    (pair : AlignedPair) : Prop where
  target_lt : ∀ j ∈ pair.targetIndex, j < target.length
  evident : ∀ i ∈ pair.sourceIndex, ∀ j ∈ pair.targetIndex, ∃ x y,
    source[i]? = some x ∧ target[j]? = some y ∧ 0 < similarity x y

/-- The indices of one correspondence are smaller than those of another. -/
def AlignedPair.Before (a b : AlignedPair) : Prop :=
  (∀ i ∈ a.sourceIndex, ∀ i' ∈ b.sourceIndex, i < i') ∧
    ∀ j ∈ a.targetIndex, ∀ j' ∈ b.targetIndex, j < j'

/-- **An alignment goes forward in both sequences**, and matches only what
has something in common. -/
theorem alignTokens_sound :
    (∀ pair ∈ (alignTokens band similarity source target).pairs,
      pair.Sound source target similarity) ∧
      (alignTokens band similarity source target).pairs.Pairwise AlignedPair.Before := by
  let problem := alignmentProblem band similarity source target
  have htrace : problem.steps = some (problem.steps.get problem.steps_isSome) :=
    (Option.some_get _).symm
  obtain ⟨hsound, hpairwise⟩ := problem.trace_sound htrace
  constructor
  · intro pair hpair
    rw [alignTokens, List.mem_reverse] at hpair
    obtain ⟨step, hstep, rfl⟩ := List.mem_map.mp hpair
    refine ⟨(hsound step hstep).target_lt, fun i hi j hj => ?_⟩
    have hevident := ((hsound step hstep).evident i hi j hj).2
    rw [Corridor.Problem.evidence, Nat.add_sub_cancel, Nat.add_sub_cancel] at hevident
    split at hevident
    · next x y hx hy => exact ⟨x, y, hx, hy, hevident⟩
    · exact absurd hevident (lt_irrefl _)
  · rw [alignTokens, List.pairwise_reverse, List.pairwise_map]
    exact hpairwise.imp fun hafter => hafter

end Pairs

/-- Correspondences with source lines of their own are all written down. -/
theorem getElem?_foldl_recordMatch {pairs : List AlignedPair}
    (h : pairs.Pairwise AlignedPair.Before) (matched : List (Option Nat)) {i j : Nat} :
    (pairs.foldl recordMatch matched)[i]? = some (some j) ↔
      (i < matched.length ∧ ∃ pair ∈ pairs, pair.sourceIndex = some i ∧ pair.targetIndex = some j) ∨
        matched[i]? = some (some j) ∧
          ∀ pair ∈ pairs, pair.sourceIndex = some i → pair.targetIndex = none := by
  induction pairs generalizing matched with
  | nil => simp
  | cons pair pairs ih =>
    obtain ⟨hbefore, hpairs⟩ := List.pairwise_cons.mp h
    rw [List.foldl_cons, ih hpairs]
    simp only [List.exists_mem_cons_iff, List.forall_mem_cons]
    cases hsource : pair.sourceIndex with
    | none => simp [recordMatch, hsource]
    | some i' =>
      cases htarget : pair.targetIndex with
      | none => simp [recordMatch, hsource, htarget]
      | some j' =>
        have hrecord : recordMatch matched pair = matched.set i' (some j') := by
          simp [recordMatch, hsource, htarget]
        rw [hrecord, List.length_set, List.getElem?_set]
        by_cases hi : i' = i
        · subst hi
          -- the pairs are ordered, so a source line is matched by one pair only
          have hother : ∀ other ∈ pairs, other.sourceIndex ≠ some i' := by
            intro other hmem heq
            have := (hbefore other hmem).1 i' hsource i' heq
            omega
          have hnone : ¬ ∃ other ∈ pairs, other.sourceIndex = some i' ∧
              other.targetIndex = some j :=
            fun ⟨other, hmem, heq, _⟩ => hother other hmem heq
          by_cases hlt : i' < matched.length
          · simp only [hlt, hnone, if_true, Option.some_inj, true_and, or_false, false_or]
            constructor
            · exact fun hj => .inl hj.1
            · rintro (hj | ⟨-, hfalse, -⟩)
              · exact ⟨hj, fun other hmem heq => absurd heq (hother other hmem)⟩
              · exact absurd (hfalse trivial) (by simp)
          · simp [hlt]
        · simp [hi]

/-- A matching of source lines with returned lines that never puts a text on
the wrong line: in order on both sides, with every returned line either
matched once or unclaimed, and matched lines alike. -/
structure PageLineAlignment.Safe (alignment : PageLineAlignment)
    (sourceLines returnedLines : List Str) : Prop where
  length : alignment.matched.length = sourceLines.length
  increasing : ∀ i i' j j' : Nat, i < i' → alignment.matched[i]? = some (some j) →
    alignment.matched[i']? = some (some j') → j < j'
  partition : ∀ j : Nat, j < returnedLines.length ↔
    (j ∈ alignment.unclaimed ∨ ∃ i : Nat, alignment.matched[i]? = some (some j))
  disjoint : ∀ j ∈ alignment.unclaimed, ∀ i : Nat, alignment.matched[i]? ≠ some (some j)
  alike : ∀ i j : Nat, alignment.matched[i]? = some (some j) → ∃ x y, sourceLines[i]? = some x ∧
    returnedLines[j]? = some y ∧ Alike x y

/-- A match of the page alignment is a correspondence of its lines. -/
theorem matched_alignPageLines {sourceLines returnedLines : List Str} {band i j : Nat} :
    (alignPageLines sourceLines returnedLines band).matched[i]? = some (some j) ↔
      ∃ pair ∈ (alignTokens (some band) lineSimilarity sourceLines returnedLines).pairs,
        pair.sourceIndex = some i ∧ pair.targetIndex = some j := by
  obtain ⟨hsound, hpairwise⟩ :=
    @alignTokens_sound (some band) lineSimilarity sourceLines returnedLines
  rw [alignPageLines, getElem?_foldl_recordMatch hpairwise]
  constructor
  · rintro (⟨-, hpair⟩ | ⟨hnone, -⟩)
    · exact hpair
    · rw [List.getElem?_replicate] at hnone
      split at hnone <;> simp at hnone
  · rintro ⟨pair, hpair, hi, hj⟩
    obtain ⟨x, -, hx, -⟩ := (hsound pair hpair).evident i hi j hj
    rw [List.length_replicate]
    exact .inl ⟨(List.getElem?_eq_some_iff.mp hx).1, pair, hpair, hi, hj⟩

/-- The alignment of two lists of lines is safe: one match at most for each
line, in order, none of them without evidence. -/
theorem safe_alignPageLines (sourceLines returnedLines : List Str) (band : Nat) :
    (alignPageLines sourceLines returnedLines band).Safe sourceLines returnedLines := by
  -- the alignment's pairs are sound one by one and ordered among themselves; every field reads them
  obtain ⟨hsound, hpairwise⟩ :=
    @alignTokens_sound (some band) lineSimilarity sourceLines returnedLines
  -- a returned line counts as claimed exactly when some source line was matched with it
  have hclaimed : ∀ j : Nat,
      (∃ i : Nat, (alignPageLines sourceLines returnedLines band).matched[i]? =
      some (some j)) ↔ j ∈ (alignTokens (some band) lineSimilarity sourceLines
        returnedLines).pairs.filterMap claimedLine := by
    intro j
    simp only [matched_alignPageLines, List.mem_filterMap]
    constructor
    · rintro ⟨i, pair, hpair, hi, hj⟩
      exact ⟨pair, hpair, by simp [claimedLine, hi, hj]⟩
    · rintro ⟨pair, hpair, hj⟩
      rw [claimedLine] at hj
      split at hj
      · next hi =>
        obtain ⟨i, hi⟩ := Option.isSome_iff_exists.mp hi
        exact ⟨i, pair, hpair, hi, hj⟩
      · cases hj
  refine ⟨?_, ?_, ?_, ?_, ?_⟩
  -- one entry for each source line: recording a match only overwrites an entry
  · have hfold : ∀ (pairs : List AlignedPair) (matched : List (Option Nat)),
        (pairs.foldl recordMatch matched).length = matched.length := by
      intro pairs
      induction pairs with
      | nil => exact fun _ => rfl
      | cons pair pairs ih =>
        intro matched
        rw [List.foldl_cons, ih, recordMatch]
        split <;> simp
    rw [alignPageLines, hfold, List.length_replicate]
  -- no crossing: two matches out of order would contradict the order of the pairs
  · intro i i' j j' hlt hj hj'
    obtain ⟨a, ha, hai, haj⟩ := matched_alignPageLines.mp hj
    obtain ⟨b, hb, hbi, hbj⟩ := matched_alignPageLines.mp hj'
    obtain ⟨k, hk, rfl⟩ := List.getElem_of_mem ha
    obtain ⟨k', hk', rfl⟩ := List.getElem_of_mem hb
    have hordered := List.pairwise_iff_getElem.mp hpairwise
    rcases Nat.lt_trichotomy k k' with hkk | rfl | hkk
    · exact (hordered k k' hk hk' hkk).2 j haj j' hbj
    · rw [hai, Option.some_inj] at hbi
      omega
    · have := (hordered k' k hk' hk hkk).1 i' hbi i hai
      omega
  -- every returned line is claimed or left over, and nothing else is listed
  · intro j
    rw [hclaimed, alignPageLines, List.mem_filter, List.mem_range, decide_eq_true_eq]
    constructor
    · intro hj
      by_cases hmem : j ∈ (alignTokens (some band) lineSimilarity sourceLines
          returnedLines).pairs.filterMap claimedLine
      · exact .inr hmem
      · exact .inl ⟨hj, hmem⟩
    · rintro (⟨hj, -⟩ | hmem)
      · exact hj
      · obtain ⟨pair, hpair, hclaim⟩ := List.mem_filterMap.mp hmem
        rw [claimedLine] at hclaim
        split at hclaim
        · exact (hsound pair hpair).target_lt j hclaim
        · cases hclaim
  · intro j hj i hij
    rw [alignPageLines, List.mem_filter, decide_eq_true_eq] at hj
    exact hj.2 ((hclaimed j).mp ⟨i, hij⟩)
  · intro i j hij
    obtain ⟨pair, hpair, hi, hj⟩ := matched_alignPageLines.mp hij
    obtain ⟨x, y, hx, hy, hevident⟩ := (hsound pair hpair).evident i hi j hj
    exact ⟨x, y, hx, hy, alike_of_lineSimilarity hevident⟩

/-- Every operation of a page producer gives a line the text of the returned
line it is matched with. -/
def EmitsMatchedLines (provider : PageProvider) (band : Nat) (payload : CorrectionRequest)
    (temperature : ℚ) : Prop :=
  ∀ returned ops, provider (payload.lines.map LineContext.ocrText) (breakIndices payload.lines)
      temperature = .ok (some returned) →
    pageLlmProduce provider band payload temperature = .ok ops →
    ∀ op ∈ ops, ∃ (i j : Nat) (line : LineContext) (text : Str), payload.lines[i]? = some line ∧
      returned[j]? = some text ∧ op = .replaceLine line.lineId text none ∧
      (alignPageLines (payload.lines.map LineContext.ocrText) returned band).matched[i]? =
        some (some j)

/-- Whatever the provider returns, the producer emits an operation for matched
lines only. -/
theorem emitsMatchedLines (provider : PageProvider) (band : Nat) (payload : CorrectionRequest)
    (temperature : ℚ) : EmitsMatchedLines provider band payload temperature := by
  intro returned ops hanswer hproduce op hop
  simp only [pageLlmProduce, hanswer, bind, Except.bind] at hproduce
  split at hproduce
  · cases hproduce
  · cases hproduce
    obtain ⟨⟨line, target⟩, hzip, hanswerLine⟩ := List.mem_filterMap.mp hop
    obtain ⟨i, hi⟩ := List.mem_iff_getElem?.mp hzip
    obtain ⟨hline, hmatched⟩ := List.getElem?_zip_eq_some.mp hi
    rw [answerLine] at hanswerLine
    cases target with
    | none => cases hanswerLine
    | some j =>
      rw [Option.bind_some] at hanswerLine
      cases htext : returned[j]? with
      | none =>
        rw [htext] at hanswerLine
        cases hanswerLine
      | some text =>
        rw [htext] at hanswerLine
        dsimp only at hanswerLine
        split at hanswerLine
        · cases hanswerLine
        · cases hanswerLine
          exact ⟨i, j, line, text, hline, htext, rfl, hmatched⟩

/-- **Page-aligned mode never puts text on the wrong line.**  The alignment
ends, its matching is safe, and the producer edits a line only with the
text of its match. -/
theorem alignPageLines_safe (sourceLines returnedLines : List Str) (band : Nat)
    (provider : PageProvider) (payload : CorrectionRequest) (temperature : ℚ) :
    (alignmentProblem (some band) lineSimilarity sourceLines returnedLines).steps.isSome ∧
      (alignPageLines sourceLines returnedLines band).Safe sourceLines returnedLines ∧
      EmitsMatchedLines provider band payload temperature :=
  ⟨Corridor.Problem.steps_isSome _, safe_alignPageLines sourceLines returnedLines band,
    emitsMatchedLines provider band payload temperature⟩

end Saknussemm
