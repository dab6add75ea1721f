import Saknussemm.Alto.Rewriter
import Saknussemm.TokenAlignment

/-! # The attributes of a rewritten ALTO line.

A `String` may carry attributes that mean something: its SUBS, its style,
or whatever its producer put there.  Setting SUBS and writing words change
how many of each a line carries; rebuilt words carry the style of the words
they were. -/

namespace Saknussemm.Alto

/-! ## Attributes that mean something -/

section Attributes

variable [Casing]

/-- The counter an attribute belongs to. -/
def keyOf (attr : Str) : Str := lossKey (localName attr)

/-- Does the report owe a count of the attribute: is it neither structural
nor a confidence? -/
def isOwed (attr : Str) : Bool :=
  let name := Casing.upper (localName attr)
  (fateOf name).1 = .semantic && !isInvalidated name

/-- The counters of an element's attributes. -/
def owedKeys (attrib : Attributes) : List Str := ((Dict.keys attrib).filter isOwed).map keyOf

/-- How many attributes of a counter elements carry. -/
def occurrences (strings : List Attributes) (key : Str) : Nat :=
    (strings.flatMap owedKeys).count key

theorem occurrences_eq_sum (strings : List Attributes) (key : Str) :
    occurrences strings key = (strings.map fun attrib => (owedKeys attrib).count key).sum := by
  rw [occurrences, List.count_flatMap]
  rfl

/-- The table's names are ASCII, in upper case, in no namespace. -/
theorem upper_localName {name : Str} (h : name ∈ Dict.keys altoStringAttributes) :
    localName name = name ∧ Casing.upper name = name := by
  have hnames : ∀ name ∈ Dict.keys altoStringAttributes,
      localName name = name ∧ name.all (·.toNat < 128) = true ∧ name.map Char.toUpper = name := by
    decide
  obtain ⟨hlocal, hascii, hupper⟩ := hnames name h
  rw [List.all_eq_true] at hascii
  exact ⟨hlocal, (Casing.upper_ascii name fun c hc => of_decide_eq_true (hascii c hc)).trans hupper⟩

theorem fateOf_known {name : Str} (h : name ∈ Dict.keys altoStringAttributes) :
    fateOf name = ((Dict.get? altoStringAttributes name).getD (.semantic, .dropped)) := by
  rw [fateOf, (upper_localName h).1, (upper_localName h).2]

theorem isOwed_known {name : Str} (h : name ∈ Dict.keys altoStringAttributes) :
    isOwed name = decide (name ∈ subsAttributes ∨ name ∈ alignmentScoped) := by
  have htable : ∀ name ∈ Dict.keys altoStringAttributes,
      (let fate := (Dict.get? altoStringAttributes name).getD (.semantic, .dropped)
      decide (fate.1 = .semantic) && !decide (fate.2 = .invalidated)) =
        decide (name ∈ subsAttributes ∨ name ∈ alignmentScoped) := by
    decide
  rw [← htable name h, isOwed, (upper_localName h).1, (upper_localName h).2, isInvalidated,
    fateOf_known h]

theorem keyOf_known {name : Str} (h : name ∈ Dict.keys altoStringAttributes) :
    keyOf name = lossKey name := by
  rw [keyOf, (upper_localName h).1]

omit [Casing] in
theorem keys_removeAttribute (attrib : Attributes) (name : Str) :
    Dict.keys (removeAttribute attrib name) = (Dict.keys attrib).filter (· ≠ name) := by
  rw [removeAttribute, Dict.keys, Dict.keys, List.filter_map]
  rfl

theorem owedKeys_set_of_not_isOwed (attrib : Attributes) {name : Str} (value : Str)
    (h : isOwed name = false) : owedKeys (Dict.set attrib name value) = owedKeys attrib := by
  rw [owedKeys, owedKeys, Dict.keys_set]
  split
  · rfl
  · simp [h]

theorem owedKeys_removeAttribute_of_not_isOwed (attrib : Attributes) {name : Str}
    (h : isOwed name = false) : owedKeys (removeAttribute attrib name) = owedKeys attrib := by
  rw [owedKeys, owedKeys, keys_removeAttribute, List.filter_filter]
  congr 1
  refine List.filter_congr fun attr _ => ?_
  by_cases heq : attr = name
  · simp [heq, h]
  · simp [heq]

theorem count_owedKeys_set (attrib : Attributes) {name : Str} (value key : Str)
    (h : isOwed name = true) :
    (owedKeys (Dict.set attrib name value)).count key =
      (owedKeys attrib).count key +
        if name ∉ Dict.keys attrib ∧ keyOf name = key then 1 else 0 := by
  rw [owedKeys, owedKeys, Dict.keys_set]
  by_cases hmem : name ∈ Dict.keys attrib
  · simp [hmem]
  · simp [hmem, h, List.count_singleton]

/-- Removing an owed attribute takes one occurrence of its key away. -/
theorem count_owedKeys_removeAttribute {attrib : Attributes} (hnodup : (Dict.keys attrib).Nodup)
    {name : Str} (key : Str) (h : isOwed name = true) :
    (owedKeys (removeAttribute attrib name)).count key +
        (if name ∈ Dict.keys attrib ∧ keyOf name = key then 1 else 0) =
      (owedKeys attrib).count key := by
  rw [owedKeys, owedKeys, keys_removeAttribute]
  by_cases hmem : name ∈ Dict.keys attrib
  · have hperm : (Dict.keys attrib).Perm (name :: (Dict.keys attrib).filter (· ≠ name)) := by
      have herase : (Dict.keys attrib).erase name = (Dict.keys attrib).filter (· ≠ name) :=
        (hnodup.erase_eq_filter name).trans (List.filter_congr fun attr _ => by
          by_cases heq : attr = name <;> simp [heq])
      rw [← herase]
      exact List.perm_cons_erase hmem
    rw [((hperm.filter isOwed).map keyOf).count_eq, List.filter_cons_of_pos h, List.map_cons,
      List.count_cons]
    simp [hmem]
  · have hsame : (Dict.keys attrib).filter (· ≠ name) = Dict.keys attrib := by
      rw [List.filter_eq_self]
      intro attr hattr
      exact decide_eq_true fun heq => hmem (heq ▸ hattr)
    rw [hsame]
    simp [hmem]

/-! ## SUBS -/

/-- The counters of the SUBS attributes an element carries. -/
def subsKeys (attrib : Attributes) : List Str :=
  (subsAttributes.filter (· ∈ Dict.keys attrib)).map lossKey

theorem isOwed_subs {name : Str} (h : name ∈ subsAttributes) :
    isOwed name = true ∧ keyOf name = lossKey name := by
  have hknown : ∀ name ∈ subsAttributes, name ∈ Dict.keys altoStringAttributes := by decide
  rw [isOwed_known (hknown name h), keyOf_known (hknown name h)]
  exact ⟨decide_eq_true (.inl h), rfl⟩

/-- Of two names, those an element carries. -/
theorem count_carried (attrib : Attributes) (a b key : Str) :
    (([a, b].filter (· ∈ Dict.keys attrib)).map lossKey).count key =
      (if a ∈ Dict.keys attrib ∧ lossKey a = key then 1 else 0) +
        if b ∈ Dict.keys attrib ∧ lossKey b = key then 1 else 0 := by
  by_cases ha : a ∈ Dict.keys attrib <;> by_cases hb : b ∈ Dict.keys attrib <;>
    simp [ha, hb, List.count_cons, Nat.add_comm]

/-- Two owed attributes that are set are there. -/
theorem count_owedKeys_set_set (attrib : Attributes) {a b : Str}
    (ha : isOwed a = true ∧ keyOf a = lossKey a)
    (hb : isOwed b = true ∧ keyOf b = lossKey b) (hne : b ≠ a) (x y key : Str) :
    (owedKeys (Dict.set (Dict.set attrib a x) b y)).count key +
        (([a, b].filter (· ∈ Dict.keys attrib)).map lossKey).count key =
      (owedKeys attrib).count key + ([a, b].map lossKey).count key := by
  have hmem : b ∈ Dict.keys (Dict.set attrib a x) ↔ b ∈ Dict.keys attrib := by
    rw [Dict.mem_keys_set]
    exact or_iff_right hne
  rw [count_owedKeys_set _ _ _ hb.1, count_owedKeys_set _ _ _ ha.1, ha.2, hb.2, count_carried,
    List.map_cons, List.map_singleton, List.count_cons, List.count_singleton]
  simp only [hmem]
  by_cases hina : a ∈ Dict.keys attrib <;> by_cases hinb : b ∈ Dict.keys attrib <;>
    simp only [hina, hinb, not_true_eq_false, not_false_eq_true, true_and, false_and, if_false,
      beq_iff_eq] <;>
    omega

/-- Two owed attributes that are removed are gone. -/
theorem count_owedKeys_remove_remove {attrib : Attributes} (hnodup : (Dict.keys attrib).Nodup)
    {a b : Str} (ha : isOwed a = true ∧ keyOf a = lossKey a)
    (hb : isOwed b = true ∧ keyOf b = lossKey b) (hne : b ≠ a) (key : Str) :
    (owedKeys (removeAttribute (removeAttribute attrib a) b)).count key +
        (([a, b].filter (· ∈ Dict.keys attrib)).map lossKey).count key =
      (owedKeys attrib).count key := by
  have hmem : b ∈ Dict.keys (removeAttribute attrib a) ↔ b ∈ Dict.keys attrib := by
    rw [keys_removeAttribute, List.mem_filter, decide_eq_true_eq]
    exact and_iff_left hne
  have hnodup' : (Dict.keys (removeAttribute attrib a)).Nodup := by
    rw [keys_removeAttribute]
    exact hnodup.filter _
  have hfirst := count_owedKeys_removeAttribute hnodup key ha.1
  have hsecond := count_owedKeys_removeAttribute hnodup' key hb.1
  rw [ha.2] at hfirst
  rw [hb.2] at hsecond
  simp only [hmem] at hsecond
  rw [count_carried]
  omega

/-- The SUBS an element had go, and those it should have come. -/
theorem count_owedKeys_setSubsOnElement {attrib : Attributes} (hnodup : (Dict.keys attrib).Nodup)
    (want : Option (Str × Str)) (key : Str) :
    (owedKeys (setSubsOnElement want attrib)).count key + (subsKeys attrib).count key =
      (owedKeys attrib).count key + if want.isSome then (subsAttributes.map lossKey).count
          key else 0 := by
  have htype := isOwed_subs (show "SUBS_TYPE".toList ∈ subsAttributes by decide)
  have hcontent := isOwed_subs (show "SUBS_CONTENT".toList ∈ subsAttributes by decide)
  have hne : "SUBS_CONTENT".toList ≠ "SUBS_TYPE".toList := by decide
  cases want with
  | none => exact count_owedKeys_remove_remove hnodup htype hcontent hne key
  | some want => exact count_owedKeys_set_set attrib htype hcontent hne want.1 want.2 key

omit [Casing] in
/-- Changing one `String` changes one of the elements. -/
theorem stringChildren_modifyString (f : Attributes → Attributes) (i : Nat)
    (children : List Child) :
    stringChildren (modifyString f i children) = (stringChildren children).modify i f := by
  induction children generalizing i with
  | nil => simp [modifyString, stringChildren]
  | cons child children ih =>
    cases child with
    | string attrib =>
      cases i with
      | zero => simp [modifyString, stringChildren, Child.string?]
      | succ i => simpa [modifyString, stringChildren, Child.string?] using ih i
    | sp attrib | hyp attrib | other tag attrib | comment text =>
      cases i <;> exact ih _

/-- Changing one String changes the count by what is owed on it before and
after. -/
theorem occurrences_modify {strings : List Attributes} {i : Nat} (hi : i < strings.length)
    (f : Attributes → Attributes) (key : Str) :
    occurrences (strings.modify i f) key + (owedKeys (strings.getD i [])).count key =
      occurrences strings key + (owedKeys (f (strings.getD i []))).count key := by
  induction strings generalizing i with
  | nil => simp at hi
  | cons attrib strings ih =>
    cases i with
    | zero =>
      simp only [occurrences, List.modify_zero_cons, List.flatMap_cons, List.count_append,
        List.getD_cons_zero]
      omega
    | succ i =>
      have htail := ih (by simpa using hi)
      simp only [occurrences, List.modify_succ_cons, List.flatMap_cons, List.count_append,
        List.getD_cons_succ] at htail ⊢
      omega

/-- The `String` elements whose SUBS a rewrite sets, and to what. -/
def subsWrites (lm : LineManifest) (strings : Nat) : List (Nat × Option (Str × Str)) :=
  ((subsTarget lm strings).map (·, desiredSubs lm)).toList ++
    ((forwardSubsTarget lm strings).map (·, desiredForwardSubs lm)).toList

/-- How many SUBS attributes of a counter a rewrite finds where it sets them. -/
def subsFound (lm : LineManifest) (strings : List Attributes) (key : Str) : Nat :=
  ((subsWrites lm strings.length).map fun write =>
    (subsKeys (strings.getD write.1 [])).count key).sum

/-- How many it writes back. -/
def subsWritten (lm : LineManifest) (strings : Nat) (key : Str) : Nat :=
  ((subsWrites lm strings).map fun write =>
    if write.2.isSome then (subsAttributes.map lossKey).count key else 0).sum

omit [Casing] in
theorem subsTarget_lt {lm : LineManifest} {strings i : Nat} (h : subsTarget lm strings = some i) :
    i < strings := by
  unfold subsTarget at h
  split at h
  · cases h
  · split at h <;> cases h <;> omega

omit [Casing] in
/-- The forward target is a String other than the one that carries the word. -/
theorem forwardSubsTarget_spec {lm : LineManifest} {strings i : Nat}
    (h : forwardSubsTarget lm strings = some i) :
    i < strings ∧ subsTarget lm strings ≠ some i := by
  unfold forwardSubsTarget at h
  split at h
  · cases h
  next hboth =>
  split at h
  · cases h
  next hother =>
  cases h
  refine ⟨?_, hother⟩
  simp only [Bool.or_eq_true, decide_eq_true_eq, not_or] at hboth
  omega

/-- A line whose elements have no attribute twice, as XML has it. -/
def WellFormed (strings : List Attributes) : Prop := ∀ attrib ∈ strings, (Dict.keys attrib).Nodup

omit [Casing] in
theorem stringChildren_applySubs (children : List Child) (lm : LineManifest) :
    stringChildren (applySubs children lm) =
      (subsWrites lm (stringChildren children).length).foldl
        (fun strings write => strings.modify write.1 (setSubsOnElement write.2))
        (stringChildren children) := by
  unfold subsWrites
  cases htarget : subsTarget lm (stringChildren children).length <;>
    cases hforward : forwardSubsTarget lm (stringChildren children).length <;>
      simp [applySubs, htarget, hforward, stringChildren_modifyString]

theorem occurrences_setSubs {strings : List Attributes} (want : Option (Str × Str)) {i : Nat}
    (hi : i < strings.length) (h : WellFormed strings) (key : Str) :
    occurrences (strings.modify i (setSubsOnElement want)) key +
        (subsKeys (strings.getD i [])).count key =
      occurrences strings key +
        if want.isSome then (subsAttributes.map lossKey).count key else 0 := by
  have hmodify := occurrences_modify hi (setSubsOnElement want) key
  have hnodup : (Dict.keys (strings.getD i [])).Nodup := by
    rw [List.getD_eq_getElem?_getD, List.getElem?_eq_getElem hi]
    exact h _ (List.getElem_mem hi)
  have helement := count_owedKeys_setSubsOnElement hnodup want key
  omega

omit [Casing] in
/-- Setting `SUBS` on one String keeps the attributes distinct. -/
theorem wellFormed_setSubs {strings : List Attributes} (h : WellFormed strings)
    (want : Option (Str × Str)) (i : Nat) :
    WellFormed (strings.modify i (setSubsOnElement want)) := by
  intro attrib hattrib
  obtain ⟨j, hj, rfl⟩ := List.mem_iff_getElem.mp hattrib
  rw [List.getElem_modify]
  have hnodup := h _ (List.getElem_mem (by simpa using hj))
  split
  · cases want with
    | none =>
      simp only [setSubsOnElement, keys_removeAttribute]
      exact (hnodup.filter _).filter _
    | some want => exact Dict.nodup_keys_set (Dict.nodup_keys_set hnodup _ _) _ _
  · exact hnodup

/-- **Setting the SUBS of a line** takes away those found and adds those
written. -/
theorem occurrences_applySubs {children : List Child} (lm : LineManifest)
    (h : WellFormed (stringChildren children)) (key : Str) :
    occurrences (stringChildren (applySubs children lm)) key +
        subsFound lm (stringChildren children) key =
      occurrences (stringChildren children) key +
        subsWritten lm (stringChildren children).length key := by
  rw [stringChildren_applySubs]
  unfold subsFound subsWritten subsWrites
  generalize stringChildren children = strings at h
  cases htarget : subsTarget lm strings.length with
  | none =>
    cases hforward : forwardSubsTarget lm strings.length with
    | none => rfl
    | some j =>
      simpa using
        occurrences_setSubs (desiredForwardSubs lm) (forwardSubsTarget_spec hforward).1 h key
  | some i =>
    have hfirst := occurrences_setSubs (desiredSubs lm) (subsTarget_lt htarget) h key
    cases hforward : forwardSubsTarget lm strings.length with
    | none => simpa using hfirst
    | some j =>
      obtain ⟨hj, hne⟩ := forwardSubsTarget_spec hforward
      -- the forward SUBS go on another element, which the first did not touch
      have hother : (strings.modify i (setSubsOnElement (desiredSubs lm))).getD j [] =
          strings.getD j [] := by
        have hij : i ≠ j := fun heq => hne (heq ▸ htarget)
        simp [List.getD_eq_getElem?_getD, hij]
      have hsecond := occurrences_setSubs (desiredForwardSubs lm) (i := j)
        (by simpa using hj) (wellFormed_setSubs h (desiredSubs lm) i) key
      rw [hother] at hsecond
      simp only [Option.map_some, Option.toList_some, List.singleton_append, List.map_cons,
        List.map_nil, List.sum_cons, List.sum_nil, List.foldl_cons, List.foldl_nil]
      omega

/-! ## Words written in place -/

section InPlace

variable [Unicode]

/-- The attributes that are a token's own: what it says, its name, its place
and its confidences. -/
def tokenAttributes : List Str :=
  ["CONTENT".toList, "WC".toList, "CC".toList, "ID".toList] ++ geometryAttributes

omit [Unicode] in
theorem isOwed_tokenAttributes {name : Str} (h : name ∈ tokenAttributes) : isOwed name = false := by
  have hknown : ∀ name ∈ tokenAttributes,
      name ∈ Dict.keys altoStringAttributes ∧
          ¬ (name ∈ subsAttributes ∨ name ∈ alignmentScoped) := by
    decide
  rw [isOwed_known (hknown name h).1]
  exact decide_eq_false (hknown name h).2

theorem owedKeys_writeContent (word : Str) (attrib : Attributes) :
    owedKeys (writeContent word attrib) = owedKeys attrib := by
  unfold writeContent
  dsimp only
  split
  · rw [owedKeys_removeAttribute_of_not_isOwed _ (isOwed_tokenAttributes (by decide)),
      owedKeys_removeAttribute_of_not_isOwed _ (isOwed_tokenAttributes (by decide)),
      owedKeys_set_of_not_isOwed _ _ (isOwed_tokenAttributes (by decide))]
  · rw [owedKeys_set_of_not_isOwed _ _ (isOwed_tokenAttributes (by decide))]

omit [Casing] in
/-- A word leaves every attribute but three where it was. -/
theorem mem_keys_writeContent (word : Str) (attrib : Attributes) {name : Str}
    (h : name ∉ ["CONTENT".toList, "WC".toList, "CC".toList]) :
    name ∈ Dict.keys (writeContent word attrib) ↔ name ∈ Dict.keys attrib := by
  simp only [List.mem_cons, List.not_mem_nil, or_false, not_or] at h
  unfold writeContent
  dsimp only
  split
  · rw [keys_removeAttribute, List.mem_filter, keys_removeAttribute, List.mem_filter,
      Dict.mem_keys_set, decide_eq_true_eq, decide_eq_true_eq]
    grind
  · rw [Dict.mem_keys_set]
    grind

theorem subsKeys_writeContent (word : Str) (attrib : Attributes) :
    subsKeys (writeContent word attrib) = subsKeys attrib := by
  have hsubs : ∀ name ∈ subsAttributes, name ∉ ["CONTENT".toList, "WC".toList, "CC".toList] := by
    decide
  unfold subsKeys
  congr 1
  refine List.filter_congr fun name hname => ?_
  rw [decide_eq_decide]
  exact mem_keys_writeContent word attrib (hsubs name hname)

omit [Casing] in
theorem nodup_keys_writeContent (word : Str) {attrib : Attributes} (h : (Dict.keys attrib).Nodup) :
    (Dict.keys (writeContent word attrib)).Nodup := by
  unfold writeContent
  dsimp only
  split
  · rw [keys_removeAttribute, keys_removeAttribute]
    exact ((Dict.nodup_keys_set h _ _).filter _).filter _
  · exact Dict.nodup_keys_set h _ _

omit [Casing] in
/-- What a word does not change, writing words into a line does not. -/
theorem map_stringChildren_writeContents {α : Type*} (f : Attributes → α)
    (hf : ∀ word attrib, f (writeContent word attrib) = f attrib) (children : List Child)
    (words : List Str) :
    (stringChildren (writeContents children words)).map f = (stringChildren children).map f := by
  induction children generalizing words with
  | nil => rfl
  | cons child children ih =>
    cases child with
    | string attrib =>
      cases words with
      | nil => exact congrArg (f attrib :: ·) (ih [])
      | cons word words => exact congrArg₂ List.cons (hf word attrib) (ih words)
    | sp attrib | hyp attrib | other tag attrib | comment text =>
      cases words <;> exact ih _

omit [Casing] in
/-- Writing the words keeps the attributes distinct. -/
theorem wellFormed_writeContents {children : List Child} (h : WellFormed (stringChildren children))
    (words : List Str) : WellFormed (stringChildren (writeContents children words)) := by
  induction children generalizing words with
  | nil => exact h
  | cons child children ih =>
    cases child with
    | string attrib =>
      obtain ⟨hattrib, hchildren⟩ := List.forall_mem_cons.mp h
      cases words with
      | nil => exact List.forall_mem_cons.mpr ⟨hattrib, ih hchildren []⟩
      | cons word words =>
        exact List.forall_mem_cons.mpr ⟨nodup_keys_writeContent word hattrib, ih hchildren words⟩
    | sp attrib | hyp attrib | other tag attrib | comment text =>
      cases words <;> exact ih h _

omit [Unicode] in
theorem occurrences_of_map_eq {strings strings' : List Attributes}
    (h : strings'.map owedKeys = strings.map owedKeys) (key : Str) :
    occurrences strings' key = occurrences strings key := by
  rw [occurrences, occurrences, List.flatMap_def, List.flatMap_def, h]

omit [Unicode] in
theorem subsFound_of_map_eq {strings strings' : List Attributes} (lm : LineManifest)
    (h : strings'.map subsKeys = strings.map subsKeys) (key : Str) :
    subsFound lm strings' key = subsFound lm strings key := by
  have hread : ∀ strings : List Attributes, ∀ i,
      subsKeys (strings.getD i []) = (strings.map subsKeys).getD i [] := by
    intro strings i
    rw [List.getD_eq_getElem?_getD, List.getD_eq_getElem?_getD, List.getElem?_map]
    cases strings[i]? <;> rfl
  have hlength : strings'.length = strings.length := by
    simpa using congrArg List.length h
  simp only [subsFound, hread, h, hlength]

/-- **Rewritten in place**, a line loses the SUBS found less those written. -/
theorem occurrences_inPlace {children : List Child} (lm : LineManifest)
    (h : WellFormed (stringChildren children)) (words : List Str) (key : Str) :
    occurrences (stringChildren (applySubs (writeContents children words) lm)) key +
        subsFound lm (stringChildren children) key =
      occurrences (stringChildren children) key +
        subsWritten lm (stringChildren children).length key := by
  have howed := map_stringChildren_writeContents owedKeys owedKeys_writeContent children words
  have hsubs := map_stringChildren_writeContents subsKeys subsKeys_writeContent children words
  have hlength : (stringChildren (writeContents children words)).length =
      (stringChildren children).length := by
    simpa using congrArg List.length howed
  have happly := occurrences_applySubs lm (wellFormed_writeContents h words) key
  rwa [occurrences_of_map_eq howed, subsFound_of_map_eq lm hsubs, hlength] at happly

end InPlace

/-! ## Style -/

/-- The counters of the style an element carries. -/
def styleKeys (attrib : Attributes) : List Str :=
  (alignmentScoped.filter (· ∈ Dict.keys attrib)).map lossKey

theorem isOwed_style {name : Str} (h : name ∈ alignmentScoped) :
    isOwed name = true ∧ keyOf name = lossKey name := by
  have hknown : ∀ name ∈ alignmentScoped, name ∈ Dict.keys altoStringAttributes := by decide
  rw [isOwed_known (hknown name h), keyOf_known (hknown name h)]
  exact ⟨decide_eq_true (.inr h), rfl⟩

/-- The counters of what is owed besides the style. -/
def unstyledKeys (attrib : Attributes) : List Str :=
  ((Dict.keys attrib).filter fun attr => isOwed attr && attr ∉ alignmentScoped).map keyOf

/-- An owed attribute is a style or not. -/
theorem count_owedKeys {attrib : Attributes} (hnodup : (Dict.keys attrib).Nodup) (key : Str) :
    (owedKeys attrib).count key =
      (styleKeys attrib).count key + (unstyledKeys attrib).count key := by
  have hstyle : styleKeys attrib = (alignmentScoped.filter (· ∈ Dict.keys attrib)).map keyOf := by
    refine List.map_congr_left fun name hname => ?_
    exact (isOwed_style (List.mem_of_mem_filter hname)).2.symm
  have hperm : (alignmentScoped.filter (· ∈ Dict.keys attrib)).Perm
      ((Dict.keys attrib).filter (· ∈ alignmentScoped)) := by
    rw [List.perm_ext_iff_of_nodup ((show alignmentScoped.Nodup by decide).filter _)
      (hnodup.filter _)]
    intro name
    simp [and_comm]
  have hsplit : ((Dict.keys attrib).filter isOwed).Perm
      ((Dict.keys attrib).filter (· ∈ alignmentScoped) ++
        (Dict.keys attrib).filter fun attr => isOwed attr && attr ∉ alignmentScoped) := by
    apply (List.filter_append_perm (· ∈ alignmentScoped) _).symm.trans
    rw [List.filter_filter, List.filter_filter]
    apply List.Perm.append
    · refine List.Perm.of_eq (List.filter_congr fun name _ => ?_)
      by_cases hname : name ∈ alignmentScoped
      · simp [hname, (isOwed_style hname).1]
      · simp [hname]
    · refine List.Perm.of_eq (List.filter_congr fun name _ => ?_)
      simp [Bool.and_comm]
  rw [hstyle, owedKeys, unstyledKeys, (hsplit.map keyOf).count_eq, List.map_append,
    List.count_append, (hperm.map keyOf).count_eq]

/-! ## Words rebuilt -/

/-- What a rebuilt element is named and styled by. -/
def recycledNames : List Str := ["ID".toList, "STYLEREFS".toList, "STYLE".toList]

omit [Casing] in
theorem keys_recycledAttributes (recycled : Option Attributes) :
    Dict.keys (recycledAttributes recycled) =
      recycledNames.filter (· ∈ Dict.keys (recycled.getD [])) := by
  have hentries := Dict.keys_filterMap_get? (recycled.getD []) recycledNames
  refine Eq.trans ?_ (hentries.trans (List.filter_congr fun _ _ => decide_eq_decide.mpr Iff.rfl))
  cases recycled with
  | none => rfl
  | some attrib => rfl

/-- A rebuilt element keeps the style of the one it was. -/
theorem count_owedKeys_recycledAttributes (recycled : Option Attributes) (key : Str) :
    (owedKeys (recycledAttributes recycled)).count key =
      (styleKeys (recycled.getD [])).count key := by
  have hstyle : (owedKeys (recycledAttributes recycled)) =
      (["STYLEREFS".toList, "STYLE".toList].filter
          (· ∈ Dict.keys (recycled.getD []))).map lossKey := by
    have howed : recycledNames.filter isOwed = ["STYLEREFS".toList, "STYLE".toList] := by
      have hid : isOwed "ID".toList = false := isOwed_tokenAttributes (by decide)
      have hrefs := (isOwed_style (show "STYLEREFS".toList ∈ alignmentScoped by decide)).1
      have hstyle := (isOwed_style (show "STYLE".toList ∈ alignmentScoped by decide)).1
      rw [recycledNames, List.filter_cons_of_neg (by rw [hid]; decide),
        List.filter_cons_of_pos hrefs, List.filter_cons_of_pos hstyle, List.filter_nil]
    rw [owedKeys, keys_recycledAttributes, List.filter_comm, howed]
    refine List.map_congr_left fun name hname => ?_
    have hscoped : ∀ name ∈ ["STYLEREFS".toList, "STYLE".toList], name ∈ alignmentScoped :=
      by decide
    exact (isOwed_style (hscoped name (List.mem_of_mem_filter hname))).2
  rw [hstyle, styleKeys, alignmentScoped, count_carried, count_carried, Nat.add_comm]

section Rebuilt

variable [Unicode]

omit [Casing] in
/-- A String is written with its token's attributes and recycled ones. -/
theorem mem_keys_emitString {recycled : Option Attributes} {n : Nat} {lineId token : Str}
    {hpos width vpos height : Int} {usedIds : List Str} {name : Str}
    (h : name ∈ Dict.keys (emitString recycled n lineId token hpos width vpos height usedIds).1) :
    name ∈ tokenAttributes ∨ name ∈ recycledNames := by
  simp only [emitString, placedAt, Dict.mem_keys_set] at h
  rw [keys_recycledAttributes, List.mem_filter] at h
  rcases h with rfl | rfl | rfl | rfl | rfl | rfl | h
  · exact .inl (by decide)
  · exact .inl (by decide)
  · exact .inl (by decide)
  · exact .inl (by decide)
  · exact .inl (by decide)
  · exact .inl (by decide)
  · exact .inr h.1

omit [Casing] in
theorem nodup_keys_emitString (recycled : Option Attributes) (n : Nat) (lineId token : Str)
    (hpos width vpos height : Int) (usedIds : List Str) :
    (Dict.keys (emitString recycled n lineId token hpos width vpos height usedIds).1).Nodup := by
  have hrecycled : (Dict.keys (recycledAttributes recycled)).Nodup := by
    rw [keys_recycledAttributes]
    exact (show recycledNames.Nodup by decide).filter _
  simp only [emitString, placedAt]
  iterate 6 apply Dict.nodup_keys_set
  exact hrecycled

theorem owedKeys_emitString (recycled : Option Attributes) (n : Nat) (lineId token : Str)
    (hpos width vpos height : Int) (usedIds : List Str) :
    owedKeys (emitString recycled n lineId token hpos width vpos height usedIds).1 =
      owedKeys (recycledAttributes recycled) := by
  simp only [emitString, placedAt]
  rw [owedKeys_set_of_not_isOwed _ _ (isOwed_tokenAttributes (by decide)),
    owedKeys_set_of_not_isOwed _ _ (isOwed_tokenAttributes (by decide)),
    owedKeys_set_of_not_isOwed _ _ (isOwed_tokenAttributes (by decide)),
    owedKeys_set_of_not_isOwed _ _ (isOwed_tokenAttributes (by decide)),
    owedKeys_set_of_not_isOwed _ _ (isOwed_tokenAttributes (by decide)),
    owedKeys_set_of_not_isOwed _ _ (isOwed_tokenAttributes (by decide))]

theorem subsKeys_emitString (recycled : Option Attributes) (n : Nat) (lineId token : Str)
    (hpos width vpos height : Int) (usedIds : List Str) :
    subsKeys (emitString recycled n lineId token hpos width vpos height usedIds).1 = [] := by
  have hsubs : ∀ name ∈ subsAttributes, name ∉ tokenAttributes ∧ name ∉ recycledNames := by decide
  rw [subsKeys, List.map_eq_nil_iff, List.filter_eq_nil_iff]
  intro name hname hmem
  rcases mem_keys_emitString (of_decide_eq_true hmem) with htoken | hrecycled
  · exact (hsubs name hname).1 htoken
  · exact (hsubs name hname).2 hrecycled

/-- The element a token is rebuilt from. -/
def recycledFor (context : EmissionContext) (j : Nat) : Option Attributes :=
  (context.alignment.sourceForTarget j).map (context.origStringAttribs.getD · [])

/-- Elements written for tokens, the first of which has number `start`: they
carry no SUBS, and the style of what they were. -/
structure Emitted (context : EmissionContext) (start : Nat) (strings : List Attributes) : Prop where
  wellFormed : WellFormed strings
  noSubs : ∀ attrib ∈ strings, subsKeys attrib = []
  style : ∀ key, strings.map (fun attrib => (owedKeys attrib).count key) =
    (List.range' start strings.length).map fun j =>
      (styleKeys ((recycledFor context j).getD [])).count key

theorem Emitted.cons {context : EmissionContext} {start : Nat} {strings : List Attributes}
    (h : Emitted context (start + 1) strings) (n : Nat) (lineId token : Str)
    (hpos width vpos height : Int) (usedIds : List Str) :
    Emitted context start ((emitString (recycledFor context start) n lineId token hpos width vpos
      height usedIds).1 :: strings) where
  wellFormed := List.forall_mem_cons.mpr ⟨nodup_keys_emitString _ _ _ _ _ _ _ _ _, h.wellFormed⟩
  noSubs := List.forall_mem_cons.mpr ⟨subsKeys_emitString _ _ _ _ _ _ _ _ _, h.noSubs⟩
  style := by
    intro key
    rw [List.map_cons, h.style key, owedKeys_emitString, count_owedKeys_recycledAttributes,
      List.length_cons, List.range'_succ, List.map_cons]

omit [Casing] [Unicode] in
theorem stringChildren_append (children children' : List Child) :
    stringChildren (children ++ children') = stringChildren children ++ stringChildren children' :=
  List.filterMap_append ..

/-- Writing tokens adds an element for each word. -/
theorem emitted_foldl_emitToken (context : EmissionContext) (placed : List (Str × Int × Int))
    (emission : Emission) :
    ∃ strings, stringChildren (placed.foldl (emitToken context) emission).children =
        stringChildren emission.children ++ strings ∧
      strings.length = (placed.filter fun entry => !isSpaceToken entry.1).length ∧
      Emitted context emission.strings strings := by
  induction placed generalizing emission with
  | nil => exact ⟨[], (List.append_nil _).symm, rfl, by simp [WellFormed], by simp, by simp⟩
  | cons entry placed ih =>
    obtain ⟨token, hpos, width⟩ := entry
    obtain ⟨strings, hstrings, hlength, hemitted⟩ :=
      ih (emitToken context emission (token, hpos, width))
    rw [List.foldl_cons, hstrings]
    unfold emitToken at hemitted ⊢
    dsimp only at hemitted ⊢
    cases hspace : isSpaceToken token with
    | true =>
      rw [hspace, if_pos rfl] at hemitted
      refine ⟨strings, ?_, by simp [hspace, hlength], hemitted⟩
      rw [if_pos rfl, stringChildren_append]
      exact congrArg (· ++ strings) (List.append_nil _)
    | false =>
      rw [hspace, if_neg Bool.false_ne_true] at hemitted
      have hword := hemitted.cons emission.strings context.lineId token hpos width context.vpos
        context.height emission.usedIds
      refine ⟨_, ?_, by simp [hspace, hlength], hword⟩
      rw [if_neg Bool.false_ne_true, stringChildren_append, List.append_assoc]
      rfl

omit [Casing] [Unicode] in
theorem map_fst_place (hpos : Int) {tokens : List Str} {widths : List Int}
    (h : widths.length = tokens.length) : (place hpos tokens widths).map Prod.fst = tokens := by
  induction tokens generalizing hpos widths with
  | nil => cases widths <;> rfl
  | cons token tokens ih =>
    cases widths with
    | nil => simp at h
    | cons width widths => exact congrArg (token :: ·) (ih (hpos + width) (by simpa using h))

omit [Casing] [Unicode] in
/-- The correspondences that match a source token, read target by target. -/
theorem sum_sourceForTarget (source target : List Str) (f : Nat → Nat) :
    ((List.range target.length).map fun j =>
        (((alignTokens none charSimilarity source target).sourceForTarget j).map f).getD 0).sum =
      ((matchedSources (alignTokens none charSimilarity source target)).map f).sum := by
  have hmap := congrArg (List.map fun i : Option Nat => (i.map f).getD 0)
    (map_sourceForTarget_alignTokens none charSimilarity source target)
  rw [List.map_map] at hmap
  apply (congrArg List.sum hmap).trans
  generalize alignTokens none charSimilarity source target = alignment
  rw [matchedSources]
  induction alignment.pairs with
  | nil => rfl
  | cons pair pairs ih =>
    cases htarget : pair.targetIndex with
    | none => simpa [htarget] using ih
    | some j =>
      cases hsource : pair.sourceIndex with
      | none => simpa [htarget, hsource] using ih
      | some i => simpa [htarget, hsource] using ih

/-- **The words of a rebuilt line** carry no SUBS, and the style of the words
they were matched with. -/
theorem emitTokens_strings (line : TextLine) (lm : LineManifest) (box : LineBox) (slot : Int × Int)
    {tokens : List Str} (hne : tokens ≠ []) (htokens : ∀ token ∈ tokens, token ≠ []) :
    let strings := stringChildren (emitTokens line lm box slot tokens).children
    strings.length = (tokens.filter fun token => !isSpaceToken token).length ∧
      WellFormed strings ∧ (∀ attrib ∈ strings, subsKeys attrib = []) ∧
      ∀ key, occurrences strings key = ((matchedSources (lineAlignment line tokens)).map fun i =>
        (styleKeys ((stringChildren line.children).getD i [])).count key).sum := by
  obtain ⟨widths, hgeometry, hshares⟩ := exists_computeGeometry box.hpos slot.2 hne htokens
  unfold emitTokens
  rw [hgeometry]
  dsimp only
  -- the geometry is placed first; what is emitted for it is read off the fold
  obtain ⟨strings, hstrings, hlength, hemitted⟩ := emitted_foldl_emitToken
    ⟨stringChildren line.children, spChildren line.children, lineAlignment line tokens, lm.lineId,
      box.vpos, box.height⟩ (place box.hpos tokens widths) ⟨[], 0, 0, _, box.hpos, slot.1⟩
  have hwords : ((place box.hpos tokens widths).filter fun entry => !isSpaceToken entry.1).length =
      (tokens.filter fun token => !isSpaceToken token).length := by
    have hfst := map_fst_place box.hpos hshares.length
    rw [← List.countP_eq_length_filter, ← List.countP_eq_length_filter]
    conv_rhs => rw [← hfst, List.countP_map]
    rfl
  rw [hstrings]
  refine ⟨hlength.trans hwords, hemitted.wellFormed, hemitted.noSubs, fun key => ?_⟩
  show occurrences strings key = _
  rw [occurrences_eq_sum, hemitted.style key, hlength, hwords, ← List.range_eq_range']
  refine Eq.trans (congrArg List.sum (List.map_congr_left fun j _ => ?_))
    (sum_sourceForTarget _ _ _)
  rw [recycledFor]
  dsimp only
  rw [lineAlignment]
  cases TokenAlignment.sourceForTarget _ j with
  | none => rfl
  | some i => rfl

end Rebuilt

end Attributes

end Saknussemm.Alto
