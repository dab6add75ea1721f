import Saknussemm.Alignment
import Saknussemm.Library.CorridorCosts

/-! # What the alignment of two token lists owes.

It lists every token of both once, in order, matches nothing without
evidence, and costs the last cell of its table, rounding aside.  Without a
band that cell is the least any alignment costs. -/

namespace Saknussemm

open Corridor

/-- What a correspondence costs: a gap 1, a match twice the dissimilarity. -/
def AlignedPair.cost (pair : AlignedPair) : ℚ :=
  if pair.sourceIndex.isSome && pair.targetIndex.isSome then 2 * (1 - pair.similarity) else 1

/-- What all the correspondences cost. -/
def TokenAlignment.cost (alignment : TokenAlignment) : ℚ :=
  (alignment.pairs.map AlignedPair.cost).sum

/-- The costs of the monotone alignments of a problem's sequences. -/
def alignmentCosts (problem : Corridor.Problem Str) : Set ℚ :=
  {c | ∃ pairs, Problem.Aligns problem.source.length problem.target.length pairs ∧
    problem.totalCost pairs = c}

/-- A correct monotone alignment of a problem's sequences. -/
structure TokenAlignment.Correct (alignment : TokenAlignment)
    (problem : Corridor.Problem Str) : Prop where
  /-- Every source index, once and in order. -/
  sources : alignment.pairs.filterMap AlignedPair.sourceIndex = List.range problem.source.length
  /-- Every target index, once and in order. -/
  targets : alignment.pairs.filterMap AlignedPair.targetIndex = List.range problem.target.length
  /-- A match is of two tokens with something in common. -/
  evident : ∀ pair ∈ alignment.pairs, ∀ i ∈ pair.sourceIndex, ∀ j ∈ pair.targetIndex, ∃ x y,
    problem.source[i]? = some x ∧ problem.target[j]? = some y ∧
      pair.similarity = problem.similarity x y ∧ 0 < pair.similarity
  /-- The last cell of the table, less than a tolerance for each pair below
  what the pairs cost, and just that where the comparisons tell the costs
  apart. -/
  final : ∃ final, problem.cost problem.source.length problem.target.length = some final ∧
    (final ≤ alignment.cost ∧ alignment.cost ≤ final + alignment.pairs.length * Problem.tolerance) ∧
    (problem.Distinguishes → alignment.cost = final)

theorem isLeast_alignmentCosts {problem : Corridor.Problem Str} {final : ℚ}
    (hwide : problem.target.length ≤ problem.width)
    (hfinal : problem.cost problem.source.length problem.target.length = some final) :
    IsLeast (alignmentCosts problem) final := by
  constructor
  · exact Problem.exists_aligns hfinal
  · rintro c ⟨pairs, haligns, rfl⟩
    exact Problem.cost_le_totalCost haligns (Nat.le_refl _)
      (fun _ _ hi hj => Problem.inside_of_wide hwide hi hj) hfinal

/-- A step of the trace, as the correspondence it stands for, costs the
same. -/
theorem cost_alignedPair {problem : Corridor.Problem Str} {step : Problem.Step} {i j : Nat}
    (h : step.Sound problem i j) :
    (⟨step.sourceIndex, step.targetIndex, step.similarity⟩ : AlignedPair).cost =
      problem.pairCost step.pair := by
  unfold AlignedPair.cost Problem.pairCost Problem.Step.pair
  cases hsource : step.sourceIndex with
  | none => rfl
  | some k =>
    cases htarget : step.targetIndex with
    | none => rfl
    | some l =>
      have := (h.evident k hsource l htarget).1
      simp [this]

/-- Without a band, or with one no narrower than either list, everything is
searched. -/
theorem target_le_width {band : Option Nat} {similarity : Str → Str → ℚ} {source target : List Str}
    (h : ∀ b ∈ band, max source.length target.length ≤ b) :
    target.length ≤ (alignmentProblem band similarity source target).width := by
  cases band with
  | none => exact Nat.le_max_right _ _
  | some b =>
    have := h b rfl
    simp only [alignmentProblem]
    omega

/-- The trace of an alignment, from the last cell of its table. -/
theorem exists_traced (band : Option Nat) (similarity : Str → Str → ℚ) (source target : List Str) :
    let problem := alignmentProblem band similarity source target
    ∃ final, problem.cost source.length target.length = some final ∧
      problem.Traced source.length target.length final
          (problem.steps.get problem.steps_isSome) := by
  let problem := alignmentProblem band similarity source target
  obtain ⟨final, hfinal⟩ := Option.isSome_iff_exists.mp
    (problem.cost_isSome (Nat.le_refl _) problem.inside_corner)
  exact ⟨final, hfinal, Problem.traced_of_trace (Nat.le_refl _) hfinal (Option.some_get _).symm⟩

/-- An alignment lists every source token once, in order. -/
theorem sources_alignTokens (band : Option Nat) (similarity : Str → Str → ℚ)
    (source target : List Str) :
    (alignTokens band similarity source target).pairs.filterMap AlignedPair.sourceIndex =
      List.range source.length := by
  obtain ⟨final, -, htraced⟩ := exists_traced band similarity source target
  have := htraced.aligns.source
  rw [← List.map_reverse, List.filterMap_map] at this
  rw [alignTokens, ← List.map_reverse, List.filterMap_map]
  exact this

/-- And every target token. -/
theorem targets_alignTokens (band : Option Nat) (similarity : Str → Str → ℚ)
    (source target : List Str) :
    (alignTokens band similarity source target).pairs.filterMap AlignedPair.targetIndex =
      List.range target.length := by
  obtain ⟨final, -, htraced⟩ := exists_traced band similarity source target
  have := htraced.aligns.target
  rw [← List.map_reverse, List.filterMap_map] at this
  rw [alignTokens, ← List.map_reverse, List.filterMap_map]
  exact this

/-- Asking for the source of every target token reads the correspondences
back. -/
theorem map_sourceForTarget_alignTokens (band : Option Nat) (similarity : Str → Str → ℚ)
    (source target : List Str) :
    (List.range target.length).map (alignTokens band similarity source target).sourceForTarget =
      ((alignTokens band similarity source target).pairs.filter (·.targetIndex.isSome)).map
        AlignedPair.sourceIndex := by
  have htargets := targets_alignTokens band similarity source target
  generalize alignTokens band similarity source target = alignment at htargets
  let byTarget : Dict Nat (Option Nat) := alignment.pairs.filterMap fun pair =>
    pair.targetIndex.map (·, pair.sourceIndex)
  have hkeys : Dict.keys byTarget = List.range target.length := by
    rw [← htargets, Dict.keys, List.map_filterMap]
    refine List.filterMap_congr fun pair _ => ?_
    cases pair.targetIndex <;> rfl
  have hnodup : (Dict.keys byTarget).Nodup := by
    rw [hkeys]
    exact List.nodup_range
  have hread : alignment.sourceForTarget = fun j => (Dict.get? byTarget j).join := by
    funext j
    rw [TokenAlignment.sourceForTarget, Dict.ofList_of_nodup hnodup]
  have hvalues : byTarget.map Prod.snd =
      (alignment.pairs.filter (·.targetIndex.isSome)).map AlignedPair.sourceIndex := by
    rw [List.map_filterMap, ← List.filterMap_eq_map, List.filterMap_filter]
    refine List.filterMap_congr fun pair _ => ?_
    cases pair.targetIndex <;> rfl
  have hmap : (Dict.keys byTarget).map (fun j => (Dict.get? byTarget j).join) =
      byTarget.map Prod.snd := by
    have := congrArg (List.map Option.join) (Dict.map_get?_keys hnodup)
    rw [List.map_map, List.map_map] at this
    exact this
  rw [hread, ← hvalues, ← hmap, hkeys]

/-- **The alignment is correct**: its search ends inside the corridor, and its
correspondences are a correct monotone alignment.  Where everything is
searched, the last cell of the table is the least any alignment costs. -/
theorem alignTokens_correct (band : Option Nat) (similarity : Str → Str → ℚ)
    (source target : List Str) :
    (∃ steps, (alignmentProblem band similarity source target).steps = some steps ∧
      ∀ step ∈ steps,
        (alignmentProblem band similarity source target).inside step.row step.column = true) ∧
    (alignTokens band similarity source target).Correct
      (alignmentProblem band similarity source target) ∧
    ((∀ b ∈ band, max source.length target.length ≤ b) → ∃ final,
      (alignmentProblem band similarity source target).cost source.length
        target.length = some final ∧
        IsLeast (alignmentCosts (alignmentProblem band similarity source target)) final) := by
  -- the trace is the problem's own steps; its cost and length pass to the pairs unchanged
  let problem := alignmentProblem band similarity source target
  have htrace : problem.steps = some (problem.steps.get problem.steps_isSome) :=
    (Option.some_get _).symm
  obtain ⟨final, hfinal, htraced⟩ := exists_traced band similarity source target
  obtain ⟨hsound, -⟩ := problem.trace_sound htrace
  have hcost : (alignTokens band similarity source target).cost =
      problem.stepsCost (problem.steps.get problem.steps_isSome) := by
    rw [TokenAlignment.cost, alignTokens, Problem.stepsCost, List.map_reverse, List.sum_reverse,
      List.map_map]
    exact congrArg List.sum (List.map_congr_left fun step hstep => cost_alignedPair
      (hsound step hstep))
  have hlength : (alignTokens band similarity source target).pairs.length =
      (problem.steps.get problem.steps_isSome).length := by
    rw [alignTokens, List.length_reverse, List.length_map]
  refine ⟨⟨_, htrace, htraced.inside⟩, ⟨sources_alignTokens _ _ _ _, targets_alignTokens _ _ _ _,
      ?evident, final, hfinal, ?near, ?exact⟩,
    fun hwide => ⟨final, hfinal, isLeast_alignmentCosts (target_le_width hwide) hfinal⟩⟩
  case evident =>
    intro pair hpair i hi j hj
    rw [alignTokens, List.mem_reverse] at hpair
    obtain ⟨step, hstep, rfl⟩ := List.mem_map.mp hpair
    obtain ⟨hsimilarity, hevident⟩ := (hsound step hstep).evident i hi j hj
    dsimp only
    rw [hsimilarity]
    rw [Problem.evidence, Nat.add_sub_cancel, Nat.add_sub_cancel] at hevident ⊢
    split at hevident
    · next x y hx hy => exact ⟨x, y, hx, hy, rfl, hevident⟩
    · exact absurd hevident (lt_irrefl _)
  case near =>
    rw [hcost, hlength]
    exact ⟨htraced.le, htraced.near⟩
  case exact =>
    intro hdistinct
    rw [hcost]
    exact htraced.exact hdistinct

/-- A likeness that barely prefers one token. -/
def barelyPrefers (x _y : Str) : ℚ := if x = "x".toList then 1 / 2 + 1 / 10000000000 else 1 / 2

/-- **The pairs may cost more than the last cell**, by less than what the
comparisons tell apart. -/
theorem barelyPrefers_costs_more :
    (alignmentProblem none barelyPrefers ["x".toList, "y".toList] ["z".toList]).cost 2 1 ≠
      some (alignTokens none barelyPrefers ["x".toList, "y".toList] ["z".toList]).cost := by
  decide +kernel

end Saknussemm
