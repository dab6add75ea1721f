import Saknussemm.Planner

/-! # Where the windows start and what they hold.

The window starts depend on the text lengths alone; a window ends where no
forward link leaves it, or at its line cap.  Every position has a last
window starting at or before it, and the core of that window holds it. -/

namespace Saknussemm

variable {config : ChunkPlannerConfig} {lines : List LineManifest}

/-! ## The core window -/

theorem fillWindow_le (budget : Nat) : ∀ (chars : Nat) (rest : List LineManifest) (slots : Nat),
    fillWindow budget chars rest slots ≤ min slots rest.length
  | _, [], _ => by simp [fillWindow]
  | _, _ :: _, 0 => by simp [fillWindow]
  | chars, lm :: rest, slots + 1 => by
    have ih := fillWindow_le budget (chars + lm.ocrText.length) rest slots
    rw [fillWindow, List.length_cons]
    split <;> omega

theorem coreEnd_eq {start : Nat} (h : start < lines.length) :
    coreEnd config lines start = start + 1 + fillWindow config.maxInputCharsPerRequest
      lines[start].ocrText.length (lines.drop (start + 1)) (config.lineWindowSize - 1) := by
  rw [coreEnd, List.drop_eq_getElem_cons h]

variable (config) in
theorem coreEnd_bounds {start : Nat} (h : start < lines.length) :
    start < coreEnd config lines start ∧
      coreEnd config lines start ≤ min (start + config.lineWindowSize) lines.length := by
  have hfill := fillWindow_le config.maxInputCharsPerRequest lines[start].ocrText.length
    (lines.drop (start + 1)) (config.lineWindowSize - 1)
  have hpos := config.window_pos
  rw [List.length_drop] at hfill
  rw [coreEnd_eq h]
  omega

theorem coreEnd_le_extensionLimit {start : Nat} (h : start < lines.length) :
    coreEnd config lines start ≤ extensionLimit config lines start := by
  have hb := coreEnd_bounds config h
  unfold extensionLimit
  omega

/-! ## The extension -/

/-- No forward link leaves `lines[start:stop]`. -/
def Closed (lines : List LineManifest) (start stop : Nat) : Prop :=
  ∀ position partner, start ≤ position → position < stop →
    partnerAt lines position = some partner → partner < stop

/-- The reach of a window is no shorter than the window, and one that it does
not exceed is closed. -/
theorem unitReach_spec (lines : List LineManifest) (start stop : Nat) :
    stop ≤ unitReach lines start stop ∧
      (unitReach lines start stop ≤ stop → Closed lines start stop) := by
  let step := fun (reach position : Nat) =>
    (partnerAt lines position).elim reach fun partner =>
      if partner < stop then reach else max reach (partner + 1)
  -- a step never moves the reach back, and takes in the partner it looks at
  have hstep : ∀ reach position, reach ≤ step reach position ∧
      ∀ partner, partnerAt lines position = some partner →
        partner < stop ∨ partner < step reach position := by
    intro reach position
    simp only [step]
    cases hp : partnerAt lines position with
    | none => simp
    | some partner =>
      rw [Option.elim_some]
      split
      · next h => exact ⟨Nat.le_refl _, fun _ he => .inl (by cases he; exact h)⟩
      · refine ⟨Nat.le_max_left _ _, fun _ he => .inr ?_⟩
        cases he
        exact Nat.le_max_right _ _
  -- so the fold ends past every partner of the window it walks
  have hfold : ∀ (positions : List Nat) (reach : Nat), reach ≤ positions.foldl step reach ∧
      ∀ position ∈ positions, ∀ partner, partnerAt lines position = some partner →
        partner < stop ∨ partner < positions.foldl step reach := by
    intro positions
    induction positions with
    | nil => simp
    | cons p positions ih =>
      intro reach
      obtain ⟨hle, hmem⟩ := ih (step reach p)
      obtain ⟨hle', hp⟩ := hstep reach p
      refine ⟨Nat.le_trans hle' hle, ?_⟩
      intro position hposition partner hpartner
      rcases List.mem_cons.mp hposition with rfl | htail
      · rcases hp partner hpartner with hlt | hlt
        · exact .inl hlt
        · exact .inr (Nat.lt_of_lt_of_le hlt hle)
      · exact hmem position htail partner hpartner
  have hreach : unitReach lines start stop =
      (List.range' start (stop - start)).foldl step stop := by
    refine List.foldl_ext _ _ _ fun reach position _ => ?_
    show _ = (partnerAt lines position).elim reach _
    cases partnerAt lines position <;> rfl
  obtain ⟨hle, hmem⟩ := hfold (List.range' start (stop - start)) stop
  rw [← hreach] at hle hmem
  refine ⟨hle, fun hreach position partner hstart hstop hpartner => ?_⟩
  have hposition : position ∈ List.range' start (stop - start) := by
    rw [List.mem_range'_1]
    omega
  rcases hmem position hposition partner hpartner with hlt | hlt
  · exact hlt
  · exact Nat.lt_of_lt_of_le hlt hreach

/-- What a reach holds beyond the window is no further than some partner. -/
theorem exists_partner_of_lt_unitReach {start stop position : Nat} (hstop : stop ≤ position)
    (hlt : position < unitReach lines start stop) :
    ∃ i k, start ≤ i ∧ i < stop ∧ partnerAt lines i = some k ∧ position ≤ k := by
  -- the reach passes a position only by a partner that stands there or further on
  have hfold : ∀ (step : Nat → Nat → Nat), (∀ reach p, position < step reach p →
        position < reach ∨ ∃ k, partnerAt lines p = some k ∧ position ≤ k) →
      ∀ (positions : List Nat) (reach : Nat), position < positions.foldl step reach →
        position < reach ∨ ∃ i ∈ positions, ∃ k, partnerAt lines i = some k ∧ position ≤ k := by
    intro step hstep positions
    induction positions with
    | nil => exact fun reach h => .inl h
    | cons p positions ih =>
      intro reach hreach
      rcases ih _ hreach with hin | ⟨i, hi, k, hk⟩
      · exact (hstep reach p hin).imp_right fun hk => ⟨p, List.mem_cons_self, hk⟩
      · exact .inr ⟨i, List.mem_cons_of_mem _ hi, k, hk⟩
  unfold unitReach at hlt
  apply (hfold _ _ _ _ hlt).elim
  · omega
  · rintro ⟨i, hi, k, hpartner, hk⟩
    rw [List.mem_range'_1] at hi
    exact ⟨i, k, hi.1, by omega, hpartner, hk⟩
  · intro reach p hin
    cases hp : partnerAt lines p with
    | none =>
      rw [hp] at hin
      exact .inl hin
    | some partner =>
      rw [hp] at hin
      dsimp only at hin
      split at hin
      · exact .inl hin
      · refine (lt_max_iff.mp hin).imp_right fun hin => ?_
        exact ⟨partner, rfl, Nat.le_of_lt_succ hin⟩

/-- An extension stops at the limit, or where nothing leaves the window. -/
theorem extendWindow_spec {limit : Nat} (start : Nat) : ∀ (fuel : Nat) {stop : Nat}, stop ≤ limit →
    limit - stop ≤ fuel →
    stop ≤ extendWindow lines start limit fuel stop ∧
      extendWindow lines start limit fuel stop ≤ limit ∧
      (extendWindow lines start limit fuel stop = limit ∨
        Closed lines start (extendWindow lines start limit fuel stop))
  | 0, stop, hle, hfuel => by
    rw [extendWindow]
    exact ⟨Nat.le_refl _, hle, .inl (by omega)⟩
  | fuel + 1, stop, hle, hfuel => by
    obtain ⟨hreach, hclosed⟩ := unitReach_spec lines start stop
    rw [extendWindow]
    split
    · next hlt =>
      dsimp only
      split
      · next h => exact ⟨Nat.le_refl _, hle, .inr (hclosed h)⟩
      · next h =>
        obtain ⟨hstop, hlimit, hend⟩ := extendWindow_spec start fuel
          (Nat.min_le_right (unitReach lines start stop) limit) (by omega)
        exact ⟨by omega, hlimit, hend⟩
    · exact ⟨Nat.le_refl _, hle, .inl (by omega)⟩

variable (config) in
/-- **What a window holds**: its core, at most its line cap, and every
forward link that leaves it unless it is full. -/
theorem windowEnd_spec {start : Nat} (h : start < lines.length) :
    coreEnd config lines start ≤ windowEnd config lines start ∧
      windowEnd config lines start ≤ extensionLimit config lines start ∧
      (windowEnd config lines start = extensionLimit config lines start ∨
        Closed lines start (windowEnd config lines start)) := by
  apply extendWindow_spec _ _ (coreEnd_le_extensionLimit h)
  have : extensionLimit config lines start ≤ lines.length := Nat.min_le_left _ _
  omega

/-! ## The starts -/

variable (config) in
theorem nextStart_bounds {start : Nat} (h : start < lines.length) :
    start < nextStart config lines start ∧
      (nextStart config lines start ≤ coreEnd config lines start ∨
        coreEnd config lines start = lines.length) := by
  have hb := coreEnd_bounds config h
  have hov := config.window_pos
  unfold nextStart
  dsimp only
  split <;> split <;> omega

/-- A window starts on the page. -/
theorem mem_windowStartsFrom {fuel start s : Nat}
    (h : s ∈ windowStartsFrom config lines fuel start) : start ≤ s ∧ s < lines.length := by
  induction fuel generalizing start with
  | zero => simp [windowStartsFrom] at h
  | succ fuel ih =>
    rw [windowStartsFrom] at h
    split at h
    · next hlt =>
      have hnext := (nextStart_bounds config hlt).1
      rcases List.mem_cons.mp h with rfl | htail
      · exact ⟨Nat.le_refl _, hlt⟩
      · have := ih htail
        omega
    · cases h

/-- Windows start in order. -/
theorem pairwise_windowStartsFrom (fuel start : Nat) :
    (windowStartsFrom config lines fuel start).Pairwise (· < ·) := by
  induction fuel generalizing start with
  | zero => simp [windowStartsFrom]
  | succ fuel ih =>
    rw [windowStartsFrom]
    split
    · next hlt =>
      have hnext := (nextStart_bounds config hlt).1
      refine List.pairwise_cons.mpr ⟨fun s hs => ?_, ih _⟩
      have := mem_windowStartsFrom hs
      omega
    · exact List.Pairwise.nil

/-- The last window that starts at or before a position. -/
structure LastStart (config : ChunkPlannerConfig) (lines : List LineManifest)
    (position start : Nat) : Prop where
  mem : start ∈ windowStarts config lines
  le : start ≤ position
  last : ∀ s ∈ windowStarts config lines, s ≤ position → s ≤ start
  inCore : position < coreEnd config lines start

variable (config) in
/-- Windows from `start` on leave no position uncovered. -/
theorem exists_lastStart_from {fuel start position : Nat} (hle : start ≤ position)
    (hlt : position < lines.length) (hfuel : lines.length - start ≤ fuel) :
    ∃ s ∈ windowStartsFrom config lines fuel start, s ≤ position ∧
      (∀ s' ∈ windowStartsFrom config lines fuel start, s' ≤ position → s' ≤ s) ∧
      position < coreEnd config lines s := by
  induction fuel generalizing start with
  | zero => omega
  | succ fuel ih =>
    have hstart : start < lines.length := by omega
    obtain ⟨hnext, hcore⟩ := nextStart_bounds config hstart
    rw [windowStartsFrom, if_pos hstart]
    by_cases hreach : nextStart config lines start ≤ position
    · obtain ⟨s, hs, hsp, hlast, hin⟩ := ih hreach (by omega)
      refine ⟨s, List.mem_cons_of_mem _ hs, hsp, fun s' hs' hs'p => ?_, hin⟩
      rcases List.mem_cons.mp hs' with rfl | htail
      · have := (mem_windowStartsFrom hs).1
        omega
      · exact hlast s' htail hs'p
    · refine ⟨start, List.mem_cons_self, hle, fun s' hs' hs'p => ?_, by omega⟩
      rcases List.mem_cons.mp hs' with rfl | htail
      · exact Nat.le_refl _
      · have := (mem_windowStartsFrom htail).1
        omega

variable (config) in
/-- **Every line is in the core of a window, the last one that starts
before it.** -/
theorem exists_lastStart {position : Nat} (h : position < lines.length) :
    ∃ start, LastStart config lines position start := by
  obtain ⟨s, hs, hsp, hlast, hin⟩ := exists_lastStart_from config
    (Nat.zero_le position) h (Nat.le_of_eq (Nat.sub_zero _))
  exact ⟨s, hs, hsp, hlast, hin⟩

theorem mem_windowStarts_lt {s : Nat} (h : s ∈ windowStarts config lines) : s < lines.length :=
  (mem_windowStartsFrom h).2

theorem LastStart.lt_windowEnd {position start : Nat} (h : LastStart config lines position start) :
    position < windowEnd config lines start :=
  Nat.lt_of_lt_of_le h.inCore (windowEnd_spec _ (mem_windowStarts_lt h.mem)).1

end Saknussemm
