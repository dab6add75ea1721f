import Mathlib.Data.List.SplitBy
import Mathlib.Algebra.BigOperators.Group.List.Basic
import Mathlib.Algebra.Order.Field.Rat
import Mathlib.Tactic.NormNum
import Saknussemm.Library.Repayment
import Saknussemm.Text

/-! # Tokens of an ALTO line and where they stand.

A corrected text is cut into words and the whitespace between them.  A
rebuilt line shares its width out among these tokens by their weight, each
boundary being rounded on its own, so that the shares sum to the width. -/

namespace Saknussemm.Alto

/-- Spaces a line may not break at: they stay inside their word. -/
def noBreakSpaces : List Char := ['\u00A0', '\u202F', '\u2007']

/-- Whitespace ALTO renders as an `SP`. -/
def isBreakingSpace (c : Char) : Bool := isSpace c && !noBreakSpaces.contains c

/-- Cut a text into words and the whitespace between them. -/
def tokenize (text : Str) : List Str :=
  text.splitBy fun a b => isBreakingSpace a == isBreakingSpace b

/-- Is the token the whitespace between two words? -/
def isSpaceToken (token : Str) : Bool := token ≠ [] && token.all isBreakingSpace

/-- The words of a text. -/
def wordTokens (text : Str) : List Str := (tokenize text).filter fun token => !isSpaceToken token

/-- `round(q)`: the nearest integer, ties to the even one. -/
def pyRound (q : ℚ) : Int :=
  let down := q.floor
  let rest := q - down
  if rest < 1 / 2 then down
  else if 1 / 2 < rest then down + 1
  else if down % 2 = 0 then down
  else down + 1

/-- Spaces render narrower than glyphs. -/
def weight (token : Str) : ℚ :=
  if isSpaceToken token then token.length * (3 / 5) else token.length

/-- The shares of weights, `unit` wide for each, every boundary rounded. -/
def roundedShares (unit : ℚ) : ℚ → Int → List ℚ → List Int
  | _, _, [] => []
  | cumulative, previous, weight :: weights =>
    let cumulative := cumulative + weight * unit
    let rounded := pyRound cumulative
    (rounded - previous) :: roundedShares unit cumulative rounded weights

/-- Tokens side by side from `cursor` on. -/
def place : Int → List Str → List Int → List (Str × Int × Int)
  | cursor, token :: tokens, width :: widths =>
    (token, cursor, width) :: place (cursor + width) tokens widths
  | _, _, _ => []

/-- Every token with its position and its width. -/
def computeGeometry (hpos width : Int) (tokens : List Str) : List (Str × Int × Int) :=
  if tokens = [] then []
  else
    let weights := tokens.map weight
    if weights.sum = 0 then
      let per := width / tokens.length
      tokens.zipIdx.map fun (token, i) => (token, hpos + i * per, per)
    else
      place hpos tokens (Repayment.settle (roundedShares (width / weights.sum) 0 0 weights))

/-! ## Tokens -/

theorem ne_nil_of_mem_tokenize {text token : Str} (h : token ∈ tokenize text) : token ≠ [] :=
  List.ne_nil_of_mem_splitBy h

/-- The characters of a token break the line, or none does. -/
theorem isSpaceToken_eq {text token : Str} (h : token ∈ tokenize text) {c : Char} (hc : c ∈ token) :
    isSpaceToken token = isBreakingSpace c := by
  have hsame : ∀ d ∈ token, isBreakingSpace d = isBreakingSpace c := by
    have hchain : (token.map isBreakingSpace).IsChain (· = ·) :=
      (List.isChain_map _).mpr
        ((List.isChain_of_mem_splitBy h).imp fun _ _ hsame => eq_of_beq hsame)
    have hall := (List.isChain_iff_pairwise.mp hchain).forall_of_forall fun _ _ => rfl
    exact fun d hd => hall (List.mem_map_of_mem hd) (List.mem_map_of_mem hc)
  have hne : token ≠ [] := ne_nil_of_mem_tokenize h
  rw [isSpaceToken, decide_eq_true hne, Bool.true_and]
  cases hbreak : isBreakingSpace c with
  | true => exact List.all_eq_true.mpr fun d hd => (hsame d hd).trans hbreak
  | false =>
    rw [Bool.eq_false_iff]
    exact fun hall => absurd (List.all_eq_true.mp hall c hc) (by simp [hbreak])

/-- The last token of a stripped text is a word. -/
theorem exists_tokenize_strip {text : Str} (h : strip text ≠ []) :
    ∃ before word, tokenize (strip text) = before ++ [word] ∧ isSpaceToken word = false := by
  have hne : tokenize (strip text) ≠ [] := List.splitBy_ne_nil.mpr h
  have hmem : (tokenize (strip text)).getLast hne ∈ tokenize (strip text) := List.getLast_mem hne
  have hkept : isSpace ((strip text).getLast h) = false := by
    have hnot := List.rdropWhile_eq_self_iff.mp (rstrip_strip text) h
    rwa [Bool.not_eq_true] at hnot
  refine ⟨(tokenize (strip text)).dropLast, (tokenize (strip text)).getLast hne,
    (List.dropLast_append_getLast hne).symm, ?_⟩
  rw [isSpaceToken_eq hmem (List.getLast_mem (ne_nil_of_mem_tokenize hmem))]
  have hlast : ((tokenize (strip text)).getLast hne).getLast (ne_nil_of_mem_tokenize hmem) =
      (strip text).getLast h := List.getLast_getLast_splitBy _ h
  rw [hlast, isBreakingSpace, hkept, Bool.false_and]

/-! ## Widths -/

theorem pyRound_intCast (n : Int) : pyRound n = n := by
  simp [pyRound, Rat.floor_intCast]

theorem length_roundedShares (unit cumulative : ℚ) (previous : Int) (weights : List ℚ) :
    (roundedShares unit cumulative previous weights).length = weights.length := by
  induction weights generalizing cumulative previous with
  | nil => rfl
  | cons weight weights ih => simp [roundedShares, ih]

/-- Boundaries rounded one by one leave the last one where it is. -/
theorem sum_roundedShares (unit cumulative : ℚ) (weights : List ℚ) :
    (roundedShares unit cumulative (pyRound cumulative) weights).sum =
      pyRound (cumulative + weights.sum * unit) - pyRound cumulative := by
  induction weights generalizing cumulative with
  | nil => simp [roundedShares]
  | cons weight weights ih =>
    rw [roundedShares, List.sum_cons, ih, List.sum_cons, add_mul, ← add_assoc]
    omega

theorem weight_pos {token : Str} (h : token ≠ []) : 0 < weight token := by
  have hlength : (0 : ℚ) < token.length := by
    exact_mod_cast List.length_pos_iff.mpr h
  unfold weight
  split
  · exact mul_pos hlength (by norm_num)
  · exact hlength

/-- Widths shared out among tokens: at least one each, in all the width
there is, or one each where there are more tokens than that. -/
structure SharesOut (width : Int) (tokens : List Str) (widths : List Int) : Prop where
  length : widths.length = tokens.length
  least : ∀ w ∈ widths, 1 ≤ w
  sum : (tokens.length : Int) ≤ width → widths.sum = width
  short : width < tokens.length → ∀ w ∈ widths, w = 1

/-- **The tokens of a line stand side by side** in widths that share out the
line's. -/
theorem exists_computeGeometry (hpos width : Int) {tokens : List Str} (hne : tokens ≠ [])
    (htokens : ∀ token ∈ tokens, token ≠ []) :
    ∃ widths, computeGeometry hpos width tokens = place hpos tokens widths ∧
      SharesOut width tokens widths := by
  have hweights : 0 < (tokens.map weight).sum := by
    refine List.sum_pos _ (fun w hw => ?_) (by simpa using hne)
    obtain ⟨token, htoken, rfl⟩ := List.mem_map.mp hw
    exact weight_pos (htokens token htoken)
  refine ⟨Repayment.settle (roundedShares (width / (tokens.map weight).sum) 0 0
    (tokens.map weight)), ?_, ?_⟩
  · rw [computeGeometry, if_neg hne]
    exact if_neg hweights.ne'
  · have hsum := sum_roundedShares (width / (tokens.map weight).sum) 0 (tokens.map weight)
    have hzero : pyRound 0 = 0 := by exact_mod_cast pyRound_intCast 0
    rw [hzero, zero_add, mul_div_cancel₀ _ hweights.ne', pyRound_intCast, Int.sub_zero] at hsum
    obtain ⟨hlength, hleast, hfull, hshort⟩ := Repayment.settled_settle
      (roundedShares (width / (tokens.map weight).sum) 0 0 (tokens.map weight))
    rw [length_roundedShares, List.length_map] at hlength hfull hshort
    rw [hsum] at hfull hshort
    exact ⟨hlength, hleast, hfull, hshort⟩

end Saknussemm.Alto
