import Mathlib.Data.List.Induction
import Mathlib.Data.List.Nodup
import Mathlib.Tactic.Tauto

/-! # Dictionaries in insertion order.

A Python `dict` keeps its keys in the order of their first assignment, and
assigning an existing key changes the value in place.  Built from entries
with distinct keys it is that list of entries. -/

/-- A dictionary: its entries in insertion order. -/
abbrev Dict (κ ν : Type*) := List (κ × ν)

namespace Dict

variable {κ ν : Type*} [DecidableEq κ]

/-- The keys in insertion order. -/
def keys (d : Dict κ ν) : List κ := d.map Prod.fst

/-- `d[k]`, when present. -/
def get? (d : Dict κ ν) (k : κ) : Option ν := (d.find? fun e => e.1 = k).map Prod.snd

/-- `d[k] = v`. -/
def set (d : Dict κ ν) (k : κ) (v : ν) : Dict κ ν :=
  if k ∈ keys d then d.map fun e => if e.1 = k then (k, v) else e else d ++ [(k, v)]

/-- `{k: v for k, v in entries}`. -/
def ofList (entries : List (κ × ν)) : Dict κ ν := entries.foldl (fun d e => set d e.1 e.2) []

/-- Setting entries with new keys appends them. -/
theorem foldl_set_of_nodup (entries : List (κ × ν)) (d : Dict κ ν)
    (h : (keys d ++ entries.map Prod.fst).Nodup) :
    entries.foldl (fun d e => set d e.1 e.2) d = d ++ entries := by
  induction entries generalizing d with
  | nil => simp
  | cons e entries ih =>
    have hnew : e.1 ∉ keys d := by
      intro hmem
      rw [List.map_cons] at h
      exact (List.nodup_append.mp h).2.2 e.1 hmem e.1 (by simp) rfl
    have hset : set d e.1 e.2 = d ++ [e] := by simp [set, hnew]
    rw [List.foldl_cons, hset, ih]
    · simp
    · simpa [keys] using h

/-- **Distinct keys make a dictionary of its entries.** -/
theorem ofList_of_nodup {entries : List (κ × ν)} (h : (entries.map Prod.fst).Nodup) :
    ofList entries = entries := by
  simpa [ofList] using foldl_set_of_nodup entries [] (by simpa [keys] using h)

theorem isSome_get? {d : Dict κ ν} {k : κ} : (get? d k).isSome ↔ k ∈ keys d := by
  rw [get?, Option.isSome_map, List.find?_isSome]
  simp [keys, eq_comm]

/-- With distinct keys an entry is found under its key. -/
theorem get?_of_mem {d : Dict κ ν} (h : (keys d).Nodup) {k : κ} {v : ν} (hkv : (k, v) ∈ d) :
    get? d k = some v := by
  induction d with
  | nil => cases hkv
  | cons e d ih =>
    simp only [keys, List.map_cons, List.nodup_cons] at h
    rcases List.mem_cons.mp hkv with rfl | hmem
    · simp [get?]
    · have hne : e.1 ≠ k := by
        rintro rfl
        exact h.1 (List.mem_map.mpr ⟨_, hmem, rfl⟩)
      have := ih h.2 hmem
      simpa [get?, hne] using this

theorem get?_cons (e : κ × ν) (d : Dict κ ν) (k : κ) :
    get? (e :: d) k = if e.1 = k then some e.2 else get? d k := by
  by_cases h : e.1 = k <;> simp [get?, h]

/-- A dictionary tabulating a function. -/
theorem get?_map_pair (keys : List κ) (f : κ → ν) (k : κ) :
    get? (keys.map fun k => (k, f k)) k = if k ∈ keys then some (f k) else none := by
  induction keys with
  | nil => rfl
  | cons k' keys ih =>
    rw [List.map_cons, get?_cons, ih]
    by_cases h : k' = k
    · simp [h]
    · simp [h, Ne.symm h]

/-- Entries of other keys do not matter. -/
theorem get?_filter (d : Dict κ ν) {keep : κ → Bool} {k : κ} (h : keep k = true) :
    get? (d.filter fun e => keep e.1) k = get? d k := by
  rw [get?, get?, List.find?_filter]
  refine congrArg (Option.map Prod.snd) (congrFun (congrArg List.find? (funext fun e => ?_)) d)
  by_cases hkey : e.1 = k
  · simp [hkey, h]
  · simp [hkey]

theorem set_cons (e : κ × ν) (d : Dict κ ν) (k : κ) (v : ν) : set (e :: d) k v =
    if e.1 = k then (k, v) :: d.map fun e => if e.1 = k then (k, v) else e
    else e :: set d k v := by
  by_cases h : e.1 = k
  · simp [set, keys, h]
  · have hmem : k ∈ keys (e :: d) ↔ k ∈ keys d := by simp [keys, Ne.symm h]
    simp only [set, hmem, h, if_false, List.map_cons]
    split <;> simp

/-- Assigning a key changes what it reads, and nothing else. -/
theorem get?_set (d : Dict κ ν) (k k' : κ) (v : ν) :
    get? (set d k v) k' = if k' = k then some v else get? d k' := by
  induction d with
  | nil => simp [set, keys, get?, eq_comm]
  | cons e d ih =>
    rw [set_cons, get?_cons]
    by_cases he : e.1 = k
    · rw [if_pos he, get?_cons]
      by_cases hk : k' = k
      · simp [hk]
      · have hne : e.1 ≠ k' := fun h => hk (h ▸ he)
        rw [if_neg (Ne.symm hk), if_neg hk, if_neg hne]
        clear ih
        induction d with
        | nil => rfl
        | cons e' d ih =>
          rw [List.map_cons, get?_cons, get?_cons, ih]
          by_cases he' : e'.1 = k <;> simp [he', Ne.symm hk]
    · rw [if_neg he, get?_cons, ih]
      by_cases hk : k' = k
      · subst hk
        simp [he]
      · simp [hk]

/-- Every entry of such a dictionary was there or comes from the list. -/
theorem mem_of_get?_foldl_set {γ : Type*} (key : γ → κ) (value : γ → ν) (l : List γ) (d : Dict κ ν)
    {k : κ} {v : ν} (h : get? (l.foldl (fun d b => set d (key b) (value b)) d) k = some v) :
    get? d k = some v ∨ ∃ a ∈ l, key a = k ∧ value a = v := by
  induction l generalizing d with
  | nil => exact .inl h
  | cons b l ih =>
    rw [List.foldl_cons] at h
    rcases ih _ h with hset | ⟨a, ha, hkv⟩
    · rw [get?_set] at hset
      split at hset
      case isTrue heq => exact .inr ⟨b, by simp, heq.symm, Option.some.inj hset⟩
      case isFalse => exact .inl hset
    · exact .inr ⟨a, List.mem_cons_of_mem _ ha, hkv⟩

/-- The keys after setting one entry. -/
theorem mem_keys_set {d : Dict κ ν} {k k' : κ} {v : ν} :
    k' ∈ keys (set d k v) ↔ k' = k ∨ k' ∈ keys d := by
  induction d with
  | nil => simp [set, keys]
  | cons e d ih =>
    rw [set_cons]
    split
    · next he =>
      have hkeys : (d.map fun e => if e.1 = k then (k, v) else e).map Prod.fst =
          d.map Prod.fst := by
        rw [List.map_map]
        apply List.map_congr_left
        intro e' _
        by_cases he' : e'.1 = k <;> simp [he']
      simp only [keys, List.map_cons, List.mem_cons, hkeys, he]
      grind
    · simp only [keys, List.map_cons, List.mem_cons] at ih ⊢
      rw [ih]
      grind

/-- The keys after setting several. -/
theorem mem_keys_foldl_set {γ : Type*} {key : γ → κ} {value : γ → ν} {l : List γ}
    {d : Dict κ ν} {k : κ} :
    k ∈ keys (l.foldl (fun d b => set d (key b) (value b)) d) ↔
        k ∈ keys d ∨ ∃ b ∈ l, key b = k := by
  induction l generalizing d with
  | nil => simp
  | cons b l ih =>
    rw [List.foldl_cons, ih, mem_keys_set]
    constructor
    · rintro ((rfl | hd) | ⟨c, hc, rfl⟩)
      · exact .inr ⟨b, List.mem_cons_self, rfl⟩
      · exact .inl hd
      · exact .inr ⟨c, List.mem_cons_of_mem _ hc, rfl⟩
    · rintro (hd | ⟨c, hc, rfl⟩)
      · exact .inl (.inr hd)
      · rcases List.mem_cons.mp hc with rfl | hc
        · exact .inl (.inl rfl)
        · exact .inr ⟨c, hc, rfl⟩

theorem mem_of_mem_set {d : Dict κ ν} {k : κ} {v : ν} {e : κ × ν} (he : e ∈ set d k v) :
    e = (k, v) ∨ e ∈ d := by
  unfold set at he
  split at he
  · obtain ⟨e', he', heq⟩ := List.mem_map.mp he
    split at heq
    · exact .inl heq.symm
    · exact .inr (heq ▸ he')
  · rcases List.mem_append.mp he with hd | hnew
    · exact .inr hd
    · exact .inl (List.mem_singleton.mp hnew)

theorem mem_keys_ofList {entries : List (κ × ν)} {k : κ} :
    k ∈ keys (ofList entries) ↔ k ∈ entries.map Prod.fst := by
  have hfold : ∀ (d : Dict κ ν), k ∈ keys (entries.foldl (fun d e => set d e.1 e.2) d) ↔
      k ∈ keys d ∨ k ∈ entries.map Prod.fst := by
    induction entries with
    | nil => simp
    | cons e entries ih =>
      intro d
      rw [List.foldl_cons, ih, mem_keys_set, List.map_cons, List.mem_cons]
      grind
  simpa [ofList, keys] using hfold []

/-- Nothing but an entry of the list is an entry of the dictionary. -/
theorem mem_of_mem_ofList {entries : List (κ × ν)} {e : κ × ν} (he : e ∈ ofList entries) :
    e ∈ entries := by
  have hfold : ∀ (d : Dict κ ν), e ∈ entries.foldl (fun d e => set d e.1 e.2) d →
      e ∈ d ∨ e ∈ entries := by
    clear he
    induction entries with
    | nil => exact fun d hd => .inl hd
    | cons e' entries ih =>
      intro d hd
      rcases ih _ hd with hset | hmem
      · rcases mem_of_mem_set hset with rfl | hd
        · exact .inr List.mem_cons_self
        · exact .inl hd
      · exact .inr (List.mem_cons_of_mem _ hmem)
  exact (hfold [] he).resolve_left (by simp)

theorem mem_of_get? {d : Dict κ ν} {k : κ} {v : ν} (h : get? d k = some v) : (k, v) ∈ d := by
  simp only [get?, Option.map_eq_some_iff] at h
  obtain ⟨e, he, rfl⟩ := h
  have hk : e.1 = k := by simpa using List.find?_some he
  rw [← hk]
  exact List.mem_of_find?_eq_some he

/-- **A key reads the last value assigned to it.** -/
theorem get?_ofList (entries : List (κ × ν)) (k : κ) :
    get? (ofList entries) k = ((entries.filter (·.1 = k)).map Prod.snd).getLast? := by
  have hfold : ∀ d : Dict κ ν, get? (entries.foldl (fun d e => set d e.1 e.2) d) k =
      (((entries.filter (·.1 = k)).map Prod.snd).getLast?).or (get? d k) := by
    induction entries with
    | nil => simp
    | cons e entries ih =>
      intro d
      rw [List.foldl_cons, ih, get?_set, List.filter_cons]
      by_cases he : e.1 = k
      · simp only [he, decide_true, if_true, List.map_cons, List.getLast?_cons]
        cases ((entries.filter (·.1 = k)).map Prod.snd).getLast? <;> rfl
      · simp [he, Ne.symm he]
  rw [ofList, hfold]
  simp [get?]

/-- Keys in order of first mention are distinct. -/
theorem nodup_eraseDups {α : Type*} [BEq α] [LawfulBEq α] (l : List α) : l.eraseDups.Nodup := by
  induction h : l.length using Nat.strongRecOn generalizing l with
  | _ n ih =>
    cases l with
    | nil => simp
    | cons a l =>
      rw [List.eraseDups_cons]
      refine List.nodup_cons.mpr ⟨by simp, ih _ ?_ _ rfl⟩
      have := List.length_filter_le (fun b => !b == a) l
      simp only [List.length_cons] at h
      omega

/-- Reading every key of a dictionary reads its values in order. -/
theorem map_get?_keys {d : Dict κ ν} (h : (keys d).Nodup) :
    (keys d).map (get? d) = d.map (some ·.2) := by
  rw [keys, List.map_map]
  exact List.map_congr_left fun entry hentry => get?_of_mem h hentry

/-- The entries of some of a dictionary's keys. -/
theorem keys_filterMap_get? (d : Dict κ ν) (ks : List κ) :
    keys (ks.filterMap fun k => (get? d k).map (k, ·)) = ks.filter (· ∈ keys d) := by
  rw [keys, List.map_filterMap, ← List.filterMap_eq_filter]
  refine List.filterMap_congr fun k _ => ?_
  cases hk : get? d k with
  | none =>
    have hnot : k ∉ keys d := fun hmem => by simp [← isSome_get?, hk] at hmem
    simp [Option.guard, hnot]
  | some v =>
    have hmem : k ∈ keys d := isSome_get?.mp (by rw [hk, Option.isSome_some])
    simp [Option.guard, hmem]

/-- Setting a key to what it holds. -/
theorem set_eq_self {d : Dict κ ν} (h : (keys d).Nodup) {k : κ} {v : ν} (hget : get? d k = some v) :
    set d k v = d := by
  rw [set, if_pos (isSome_get?.mp (by rw [hget]; rfl))]
  refine (List.map_congr_left fun e he => ?_).trans (List.map_id d)
  by_cases hkey : e.1 = k
  · have hvalue : v = e.2 := Option.some.inj (hget.symm.trans (get?_of_mem h (hkey ▸ he)))
    rw [if_pos hkey, hvalue, ← hkey]
    rfl
  · rw [if_neg hkey]
    rfl

theorem set_of_notMem {d : Dict κ ν} {k : κ} (h : k ∉ keys d) (v : ν) :
    set d k v = d ++ [(k, v)] := by
  rw [set, if_neg h]

theorem keys_set (d : Dict κ ν) (k : κ) (v : ν) :
    keys (set d k v) = if k ∈ keys d then keys d else keys d ++ [k] := by
  unfold set
  split
  · rw [keys, List.map_map]
    apply List.map_congr_left
    intro e _
    by_cases he : e.1 = k <;> simp [he]
  · simp [keys]

theorem nodup_keys_set {d : Dict κ ν} (h : (keys d).Nodup) (k : κ) (v : ν) :
    (keys (set d k v)).Nodup := by
  rw [keys_set]
  split
  · exact h
  · next hk =>
    exact List.nodup_append.mpr ⟨h, List.nodup_singleton _, by
      rintro a ha b hb rfl
      rw [List.mem_singleton.mp hb] at ha
      exact hk ha⟩

theorem nodup_keys_ofList (entries : List (κ × ν)) : (keys (ofList entries)).Nodup := by
  have hfold : ∀ d : Dict κ ν, (keys d).Nodup →
      (keys (entries.foldl (fun d e => set d e.1 e.2) d)).Nodup := by
    induction entries with
    | nil => exact fun d hd => hd
    | cons e entries ih => exact fun d hd => ih _ (nodup_keys_set hd e.1 e.2)
  exact hfold [] List.nodup_nil

/-- **Keys stand in the order of their first assignment.** -/
theorem pairwise_idxOf_keys_ofList [BEq κ] [LawfulBEq κ] (entries : List (κ × ν)) :
    (keys (ofList entries)).Pairwise fun k k' =>
      (entries.map Prod.fst).idxOf k < (entries.map Prod.fst).idxOf k' := by
  induction entries using List.reverseRecOn with
  | nil => exact .nil
  | append_singleton entries e ih =>
    have hofList : ofList (entries ++ [e]) = set (ofList entries) e.1 e.2 := by
      simp [ofList, List.foldl_append]
    have hkept : ∀ k ∈ entries.map Prod.fst,
        ((entries ++ [e]).map Prod.fst).idxOf k = (entries.map Prod.fst).idxOf k := by
      intro k hk
      rw [List.map_append, List.idxOf_append, if_pos hk]
    have hold : (keys (ofList entries)).Pairwise fun k k' =>
        ((entries ++ [e]).map Prod.fst).idxOf k < ((entries ++ [e]).map Prod.fst).idxOf k' := by
      apply ih.imp_of_mem
      intro k k' hk hk' hlt
      rwa [hkept k (mem_keys_ofList.mp hk), hkept k' (mem_keys_ofList.mp hk')]
    rw [hofList, keys_set]
    split
    · exact hold
    · next hnew =>
      have hfresh : e.1 ∉ entries.map Prod.fst := fun h => hnew (mem_keys_ofList.mpr h)
      refine List.pairwise_append.mpr ⟨hold, List.pairwise_singleton _ _, fun k hk k' hk' => ?_⟩
      have hkmem := mem_keys_ofList.mp hk
      rw [List.mem_singleton.mp hk', hkept k hkmem, List.map_append, List.idxOf_append,
        if_neg hfresh]
      exact Nat.lt_of_lt_of_le (List.idxOf_lt_length_of_mem hkmem) (Nat.le_add_left _ _)

end Dict
