import Saknussemm.Alto.Occurrences
import Saknussemm.Document

/-! # What an ALTO rewrite says was lost.

Of each attribute that means something a rewritten line has fewer, or not,
and the report says how many fewer.  It is right just when the SUBS of the
line are those the rewriter accounts for. -/

namespace Saknussemm.Alto

open Page (Numerals)

/-! ## Counters -/

/-- What a table of losses says of a counter. -/
def lossCount (losses : Dict Str Nat) (key : Str) : Nat := (losses.get? key).getD 0

/-- A counter that is reported has counted something. -/
def Reported (losses : Dict Str Nat) : Prop := ∀ key n, losses.get? key = some n → 0 < n

theorem lossCount_countLoss (losses : Dict Str Nat) (key key' : Str) :
    lossCount (countLoss losses key) key' =
      lossCount losses key' + if key' = key then 1 else 0 := by
  unfold countLoss lossCount
  rw [Dict.get?_set]
  split
  · next heq => rw [heq, Option.getD_some]
  · rw [Nat.add_zero]

/-- Counting keys counts how often each occurs. -/
theorem lossCount_foldl (losses : Dict Str Nat) (keys : List Str) (key : Str) :
    lossCount (keys.foldl countLoss losses) key = lossCount losses key + keys.count key := by
  induction keys generalizing losses with
  | nil => rfl
  | cons key' keys ih =>
    rw [List.foldl_cons, ih, lossCount_countLoss, List.count_cons]
    by_cases heq : key = key'
    · simp [heq]
      omega
    · simp [heq, Ne.symm heq]

theorem Reported.foldl {losses : Dict Str Nat} (h : Reported losses) (keys : List Str) :
    Reported (keys.foldl countLoss losses) := by
  induction keys generalizing losses with
  | nil => exact h
  | cons key keys ih =>
    refine ih fun key' n hn => ?_
    rw [countLoss, Dict.get?_set] at hn
    split at hn
    · cases hn
      exact Nat.succ_pos _
    · exact h key' n hn

/-- What is reported of a counter is what it counted. -/
theorem get?_of_reported {losses : Dict Str Nat} (h : Reported losses) (key : Str) :
    losses.get? key = if lossCount losses key = 0 then none else some (lossCount losses key) := by
  unfold lossCount
  cases hkey : losses.get? key with
  | none => rfl
  | some n => exact (if_neg (h key n hkey).ne').symm

/-- A loop that counts some of its items counts their keys. -/
theorem foldl_countLoss_if {α : Type*} (items : List α) (p : α → Prop) [DecidablePred p]
    (key : α → Str) (losses : Dict Str Nat) :
    items.foldl (fun losses item => if p item then countLoss losses (key item) else losses) losses =
      ((items.filter p).map key).foldl countLoss losses := by
  rw [List.foldl_map, List.foldl_filter]
  simp only [decide_eq_true_eq]

/-- A loop of loops that count counts all their keys. -/
theorem foldl_foldl_countLoss {α : Type*} (items : List α) (keys : α → List Str)
    (count : Dict Str Nat → α → Dict Str Nat)
    (hcount : ∀ losses item, count losses item = (keys item).foldl countLoss losses)
    (losses : Dict Str Nat) :
    items.foldl count losses = (items.flatMap keys).foldl countLoss losses := by
  induction items generalizing losses with
  | nil => rfl
  | cons item items ih => rw [List.foldl_cons, ih, hcount, List.flatMap_cons, List.foldl_append]

section Attributes

variable [Casing]

/-! ## What a rebuild counts -/

/-- Does a rebuild lose the attribute whatever the alignment says? -/
def isForeseen (attr : Str) : Bool :=
  Casing.upper (localName attr) ∉ subsAttributes && isUnconditionalLoss (localName attr)

/-- The counters of those attributes. -/
def foreseenKeys (attrib : Attributes) : List Str :=
    ((Dict.keys attrib).filter isForeseen).map keyOf

/-- The counters of the SUBS of an element the line wants none of. -/
def unwantedKeys (lm : LineManifest) (attrib : Attributes) : List Str :=
  if hasUnwantedSubs lm attrib then
    (subsAttributes.filter (· ∈ Dict.keys (byLocal attrib))).map lossKey
  else []

/-- The counters of what is owed besides: SUBS, and style under another
name than the table's. -/
def uncertainKeys (attrib : Attributes) : List Str :=
  ((Dict.keys attrib).filter fun attr =>
    isOwed attr && attr ∉ alignmentScoped && !isForeseen attr).map keyOf

omit [Casing] in
theorem localName_localName (attr : Str) : localName (localName attr) = localName attr :=
  List.rtakeWhile_idempotent _ _

/-- What is dropped means something. -/
theorem semantic_of_dropped {attr : Str} (h : (fateOf attr).2 = .dropped) :
    (fateOf attr).1 = .semantic := by
  have htable : ∀ entry ∈ altoStringAttributes, entry.2.2 = .dropped → entry.2.1 = .semantic := by
    decide
  rw [fateOf] at h ⊢
  cases hget : Dict.get? altoStringAttributes (Casing.upper (localName attr)) with
  | none => rfl
  | some fate =>
    rw [hget] at h
    exact htable _ (Dict.mem_of_get? hget) h

/-- A foreseen attribute is owed, and is not one the alignment accounts for. -/
theorem isOwed_of_isForeseen {attr : Str} (h : isForeseen attr = true) :
    isOwed attr = true ∧ attr ∉ alignmentScoped := by
  rw [isForeseen, Bool.and_eq_true, isUnconditionalLoss, localName_localName] at h
  have hloss := h.2
  split at hloss
  · cases hloss
  next hkept =>
  rw [Bool.or_eq_true, decide_eq_true_eq, not_or, Bool.not_eq_true] at hkept
  constructor
  · have hdropped : (fateOf (Casing.upper (localName attr))).2 = .dropped := by
      have hfate := hkept.2
      rw [isInvalidated, decide_eq_false_iff_not] at hfate
      rw [isCountableLoss] at hloss
      cases h : (fateOf (Casing.upper (localName attr))).2 <;> grind
    rw [isOwed, semantic_of_dropped hdropped, hkept.2]
    rfl
  · intro hstyle
    have hknown : ∀ name ∈ alignmentScoped, name ∈ Dict.keys altoStringAttributes := by decide
    obtain ⟨hlocal, hupper⟩ := upper_localName (hknown attr hstyle)
    rw [hlocal, hupper] at hkept
    exact hkept.1 hstyle

/-- An unstyled attribute is foreseen or uncertain. -/
theorem count_unstyledKeys (attrib : Attributes) (key : Str) :
    (unstyledKeys attrib).count key =
      (foreseenKeys attrib).count key + (uncertainKeys attrib).count key := by
  have hsplit : ((Dict.keys attrib).filter fun attr => isOwed attr && attr ∉ alignmentScoped).Perm
      ((Dict.keys attrib).filter isForeseen ++ (Dict.keys attrib).filter fun attr =>
        isOwed attr && attr ∉ alignmentScoped && !isForeseen attr) := by
    apply (List.filter_append_perm isForeseen _).symm.trans
    rw [List.filter_filter, List.filter_filter]
    apply List.Perm.append
    · refine List.Perm.of_eq (List.filter_congr fun attr _ => ?_)
      cases hforeseen : isForeseen attr with
      | false => rfl
      | true => simp [isOwed_of_isForeseen hforeseen]
    · refine List.Perm.of_eq (List.filter_congr fun attr _ => ?_)
      exact Bool.and_comm ..
  rw [unstyledKeys, foreseenKeys, uncertainKeys, (hsplit.map keyOf).count_eq, List.map_append,
    List.count_append]

/-- A rebuild counts what it foresees and the SUBS nobody wants. -/
theorem semanticAttrLosses_eq (strings : List Attributes) (lm : LineManifest) :
    semanticAttrLosses strings lm =
      (strings.flatMap fun attrib => unwantedKeys lm attrib ++ foreseenKeys attrib).foldl countLoss
        [] := by
  unfold semanticAttrLosses
  apply foldl_foldl_countLoss
  intro losses attrib
  have hforeseen : foreseenKeys attrib =
      (attrib.filter fun entry => isForeseen entry.1).map fun entry => keyOf entry.1 := by
    rw [foreseenKeys, Dict.keys, List.filter_map, List.map_map]
    rfl
  have hkept : (fun losses (entry : Str × Str) =>
      let name := localName entry.1
      if Casing.upper name ∈ subsAttributes || !isUnconditionalLoss name then losses
      else countLoss losses (lossKey name)) =
      fun losses entry => if isForeseen entry.1 = true then countLoss losses (keyOf entry.1)
          else losses := by
    funext losses entry
    simp only [isForeseen, keyOf]
    by_cases hsubs : Casing.upper (localName entry.1) ∈ subsAttributes <;>
      by_cases hloss : isUnconditionalLoss (localName entry.1) = true <;> simp [hsubs, hloss]
  rw [List.foldl_append, unwantedKeys, hforeseen, hkept, foldl_countLoss_if]
  simp only [Bool.decide_eq_true]
  split
  · rw [foldl_countLoss_if]
  · rfl

/-- And the style of every word that was not matched. -/
theorem addAlignmentScopedLosses_eq (losses : Dict Str Nat) (strings : List Attributes)
    (matched : List Nat) :
    addAlignmentScopedLosses losses strings matched =
      (strings.zipIdx.flatMap fun entry =>
        if entry.2 ∈ matched then [] else styleKeys entry.1).foldl countLoss losses := by
  unfold addAlignmentScopedLosses
  apply foldl_foldl_countLoss
  intro losses entry
  dsimp only
  split
  · rfl
  · exact foldl_countLoss_if _ _ _ _

omit [Casing] in
/-- A sum over a list, split at one of its sublists. -/
theorem sum_sublist {L l : List Nat} (h : l.Sublist L) (hL : L.Nodup) (f : Nat → Nat) :
    (l.map f).sum + (L.map fun i => if i ∈ l then 0 else f i).sum = (L.map f).sum := by
  induction h with
  | slnil => rfl
  | cons i hsub ih =>
    obtain ⟨hnew, hL⟩ := List.nodup_cons.mp hL
    have htail := ih hL
    rw [List.map_cons, List.sum_cons, if_neg fun hmem => hnew (hsub.subset hmem), List.map_cons,
      List.sum_cons]
    omega
  | @cons_cons l L i hsub ih =>
    obtain ⟨hnew, hL⟩ := List.nodup_cons.mp hL
    have htail := ih hL
    have hothers : L.map (fun j => if j ∈ i :: l then 0 else f j) =
        L.map fun j => if j ∈ l then 0 else f j := by
      refine List.map_congr_left fun j hj => ?_
      have hne : j ≠ i := fun heq => hnew (heq ▸ hj)
      simp [hne]
    rw [List.map_cons, List.sum_cons, List.map_cons, List.sum_cons, hothers, List.map_cons,
      List.sum_cons, if_pos List.mem_cons_self]
    omega

omit [Casing] in
theorem map_getD_range {α β : Type*} (items : List α) (default : α) (f : α × Nat → β) :
    items.zipIdx.map f = (List.range items.length).map fun i => f (items.getD i default, i) := by
  apply List.ext_getElem
  · simp
  · intro i h h'
    simp at h
    simp [List.getD_eq_getElem?_getD, h]

/-- The style of the words matched and of those that were not. -/
theorem count_style_unmatched (strings : List Attributes) {matched : List Nat}
    (h : matched.Sublist (List.range strings.length)) (key : Str) :
    (matched.map fun i => (styleKeys (strings.getD i [])).count key).sum +
        (strings.zipIdx.flatMap fun entry =>
          if entry.2 ∈ matched then [] else styleKeys entry.1).count key =
      (strings.map fun attrib => (styleKeys attrib).count key).sum := by
  have hall : strings.map (fun attrib => (styleKeys attrib).count key) =
      (List.range strings.length).map fun i => (styleKeys (strings.getD i [])).count key := by
    rw [← map_getD_range strings [] fun entry => (styleKeys entry.1).count key]
    conv_lhs => rw [← List.zipIdx_map_fst 0 strings, List.map_map]
    rfl
  rw [hall, ← sum_sublist h List.nodup_range, List.count_flatMap]
  congr 2
  rw [map_getD_range strings []]
  refine List.map_congr_left fun i _ => ?_
  dsimp only [Function.comp]
  split <;> rfl

/-! ## The losses of a rebuilt line -/

/-- A counter of an attribute's own. -/
theorem lossKey_ne {key : Str} (h : ¬ "_dropped".toList <:+ key)
    (name : Str) : lossKey name ≠ key :=
  fun heq => h (heq ▸ List.suffix_append _ _)

/-- SUBS and style have counters of their own. -/
theorem count_subs_eq_zero {name : Str} (h : name ∈ alignmentScoped) :
    (subsAttributes.map lossKey).count (lossKey name) = 0 := by
  have hlower : ∀ name ∈ subsAttributes ++ alignmentScoped, Casing.lower name =
      name.map Char.toLower := by
    have hascii : ∀ name ∈ subsAttributes ++ alignmentScoped, name.all (·.toNat < 128) = true := by
      decide
    intro name hname
    have hall := List.all_eq_true.mp (hascii name hname)
    exact Casing.lower_ascii name fun c hc => of_decide_eq_true (hall c hc)
  have hne : ∀ a ∈ subsAttributes, ∀ b ∈ alignmentScoped, a.map Char.toLower ≠
      b.map Char.toLower := by
    decide
  rw [List.count_eq_zero]
  intro hmem
  obtain ⟨a, ha, heq⟩ := List.mem_map.mp hmem
  rw [lossKey, lossKey, List.append_cancel_right_eq, hlower a (List.mem_append_left _ ha),
    hlower name (List.mem_append_right _ h)] at heq
  exact hne a ha name h heq

/-- A key is written with the `SUBS` or counted as a style, never both. -/
theorem subsWritten_eq_zero_or (lm : LineManifest) (n : Nat)
    (strings : List Attributes) (key : Str) :
    subsWritten lm n key = 0 ∨
        (strings.map fun attrib => (styleKeys attrib).count key).sum = 0 := by
  by_cases hsubs : (subsAttributes.map lossKey).count key = 0
  · left
    rw [subsWritten, List.sum_eq_zero_iff]
    intro m hm
    obtain ⟨write, -, rfl⟩ := List.mem_map.mp hm
    rw [hsubs, ite_self]
  · right
    rw [List.sum_eq_zero_iff]
    intro m hm
    obtain ⟨attrib, -, rfl⟩ := List.mem_map.mp hm
    rw [List.count_eq_zero]
    intro hmem
    obtain ⟨name, hname, rfl⟩ := List.mem_map.mp hmem
    exact hsubs (count_subs_eq_zero (List.mem_of_mem_filter hname))

omit [Casing] in
theorem Reported.set {losses : Dict Str Nat} (h : Reported losses) (key : Str) {n : Nat}
    (hn : 0 < n) : Reported (Dict.set losses key n) := by
  intro key' m hm
  rw [Dict.get?_set] at hm
  split at hm
  · cases hm
    exact hn
  · exact h key' m hm

theorem reported_confidenceLoss (before : Nat) (children : List Child) :
    Reported (confidenceLoss before children) := by
  unfold confidenceLoss
  split
  · exact fun key n hn => nomatch hn
  · intro key n hn
    rw [Dict.get?_cons] at hn
    split at hn
    · cases hn
      exact Nat.one_pos
    · cases hn

/-- A confidence is no attribute's counter. -/
theorem get?_confidenceLoss (before : Nat) (children : List Child) (name : Str) :
    (confidenceLoss before children).get? (lossKey name) = none := by
  unfold confidenceLoss
  split
  · rfl
  · rw [Dict.get?_cons, if_neg (lossKey_ne (by decide) name).symm]
    rfl

theorem get?_mergeLosses_confidenceLoss (losses : Dict Str Nat) (before : Nat)
    (children : List Child) (name : Str) :
    (mergeLosses losses (confidenceLoss before children)).get? (lossKey name) =
      losses.get? (lossKey name) := by
  unfold confidenceLoss
  split
  · rfl
  · show (Dict.set losses _ 1).get? _ = _
    rw [Dict.get?_set, if_neg (lossKey_ne (by decide) name)]

section RebuiltLosses

variable [Unicode]

omit [Unicode] [Casing] in
theorem stringChildren_clearLine (children : List Child) :
    stringChildren (clearLine children) = [] := by
  induction children with
  | nil => rfl
  | cons child children ih => cases child <;> exact ih

omit [Unicode] [Casing] in
theorem stringChildren_savedHyps (line : TextLine) (lm : LineManifest) :
    stringChildren (savedHyps line lm) = [] := by
  unfold savedHyps
  split
  · generalize hypChildren line.children = hyps
    induction hyps with
    | nil => rfl
    | cons hyp hyps ih => exact ih
  · rfl

omit [Unicode] [Casing] in
theorem stringChildren_lineTail (line : TextLine) (lm : LineManifest) (box : LineBox)
    (slot : Int × Int) (emission : Emission) (spaceBeforeBreak : Bool) :
    stringChildren (lineTail line lm box slot emission spaceBeforeBreak) = [] := by
  unfold lineTail
  split
  · unfold reserveBreakSpace
    dsimp only
    split <;> rfl
  · exact stringChildren_savedHyps line lm

omit [Unicode] [Casing] in
theorem stringChildren_blankTail (line : TextLine) (lm : LineManifest) (box : LineBox)
    (slot : Int × Int) : stringChildren (blankTail line lm box slot) = [] := by
  unfold blankTail
  split
  · rfl
  · exact stringChildren_savedHyps line lm

omit [Unicode] in
/-- What a rebuild loses whatever the alignment says. -/
theorem lossCount_rebuildLosses (line : TextLine) (lm : LineManifest) (name : Str) :
    lossCount (rebuildLosses line lm) (lossKey name) =
      ((stringChildren line.children).flatMap (unwantedKeys lm)).count (lossKey name) +
        ((stringChildren line.children).flatMap foreseenKeys).count (lossKey name) := by
  have hsemantic : lossCount (semanticAttrLosses (stringChildren line.children) lm) (lossKey name) =
      ((stringChildren line.children).flatMap fun attrib =>
        unwantedKeys lm attrib ++ foreseenKeys attrib).count (lossKey name) := by
    rw [semanticAttrLosses_eq, lossCount_foldl]
    exact Nat.zero_add _
  have hset : lossCount (rebuildLosses line lm) (lossKey name) =
      lossCount (semanticAttrLosses (stringChildren line.children) lm) (lossKey name) := by
    unfold rebuildLosses
    dsimp only
    split
    · rw [lossCount, Dict.get?_set, if_neg (lossKey_ne (by decide) name)]
      rfl
    · rfl
  rw [hset, hsemantic]
  induction stringChildren line.children with
  | nil => rfl
  | cons attrib strings ih =>
    simp only [List.flatMap_cons, List.count_append] at ih ⊢
    omega

omit [Unicode] in
/-- A counter a rebuild reports has counted something. -/
theorem reported_rebuildLosses (line : TextLine) (lm : LineManifest) :
    Reported (rebuildLosses line lm) := by
  have hsemantic : Reported (semanticAttrLosses (stringChildren line.children) lm) := by
    rw [semanticAttrLosses_eq]
    refine Reported.foldl (fun key n hn => ?_) _
    cases hn
  unfold rebuildLosses
  dsimp only
  split
  · next hhyps =>
    rw [Bool.and_eq_true, decide_eq_true_eq] at hhyps
    exact hsemantic.set _ (List.length_pos_iff.mpr hhyps.2)
  · exact hsemantic

/-- What becomes of a line that is rebuilt. -/
structure Rebuilt (line : TextLine) (lm : LineManifest) (words : Nat) (children : List Child)
    (losses : Dict Str Nat) : Prop where
  wellFormed : WellFormed (stringChildren children)
  noSubs : ∀ attrib ∈ stringChildren children, subsKeys attrib = []
  words : (stringChildren children).length = words
  reported : Reported losses
  /-- It keeps the style of some of its words, and the others' is counted. -/
  counted : ∀ name, ∃ unmatched,
    occurrences (stringChildren children) (lossKey name) + unmatched =
      ((stringChildren line.children).map fun attrib => (styleKeys attrib).count
        (lossKey name)).sum ∧
    lossCount losses (lossKey name) =
      ((stringChildren line.children).flatMap (unwantedKeys lm)).count (lossKey name) +
        ((stringChildren line.children).flatMap foreseenKeys).count (lossKey name) + unmatched

omit [Unicode] [Casing] in
theorem matchedSources_sublist (source target : List Str) :
    (matchedSources (alignTokens none charSimilarity source target)).Sublist
      (List.range source.length) := by
  rw [← sources_alignTokens none charSimilarity source target]
  generalize alignTokens none charSimilarity source target = alignment
  have hfilter : matchedSources alignment =
      (alignment.pairs.filter (·.targetIndex.isSome)).filterMap AlignedPair.sourceIndex := by
    rw [matchedSources, List.filterMap_filter]
  rw [hfilter]
  exact List.filter_sublist.filterMap _

omit [Unicode] in
/-- What a rebuild counts, knowing which words were matched. -/
theorem counted_addAlignmentScopedLosses (line : TextLine) (lm : LineManifest) {matched : List Nat}
    (hmatched : matched.Sublist (List.range (stringChildren line.children).length)) :
    Reported (addAlignmentScopedLosses (rebuildLosses line lm)
      (stringChildren line.children) matched) ∧ ∀ name, ∃ unmatched,
        (matched.map fun i =>
          (styleKeys ((stringChildren line.children).getD i [])).count
            (lossKey name)).sum + unmatched =
        ((stringChildren line.children).map fun attrib => (styleKeys attrib).count
          (lossKey name)).sum ∧
      lossCount (addAlignmentScopedLosses (rebuildLosses line lm)
          (stringChildren line.children) matched) (lossKey name) =
        ((stringChildren line.children).flatMap (unwantedKeys lm)).count (lossKey name) +
          ((stringChildren line.children).flatMap foreseenKeys).count (lossKey name) +
          unmatched := by
  rw [addAlignmentScopedLosses_eq]
  refine ⟨(reported_rebuildLosses line lm).foldl _, fun name =>
    ⟨_, count_style_unmatched _ hmatched (lossKey name), ?_⟩⟩
  rw [lossCount_foldl, lossCount_rebuildLosses]

variable [Numerals]

/-- **A rebuilt line** counts what it was to lose, and keeps the style of the
words it matched. -/
theorem rebuilt_rebuildLine {line : TextLine} {corrected : Str} {lm : LineManifest}
    {spaceBeforeBreak : Bool} {children : List Child} {losses : Dict Str Nat} {moved : Bool}
    (h : rebuildLine line corrected lm spaceBeforeBreak = .ok (children, losses, moved)) :
    Rebuilt line lm (wordTokens (strip corrected)).length children losses := by
  unfold rebuildLine at h
  obtain ⟨box, hbox, h⟩ := Fallible.bind_eq_ok.mp h
  dsimp only at h
  -- an empty text emits no String: every old identity is a dropped one
  split at h
  · next hnone =>
    cases h
    have hstrings : stringChildren (clearLine line.children ++ blankTail line lm box
        (breakSlot line lm box.width spaceBeforeBreak)) = [] := by
      rw [stringChildren_append, stringChildren_clearLine, stringChildren_blankTail,
        List.append_nil]
    obtain ⟨hreported, hcounted⟩ := counted_addAlignmentScopedLosses line lm (List.nil_sublist _)
    refine ⟨?_, ?_, ?_, hreported, fun name => ?_⟩
    · simp [hstrings, WellFormed]
    · simp [hstrings]
    · rw [hstrings, wordTokens, hnone]
      rfl
    · rw [hstrings]
      exact hcounted name
  -- otherwise the Strings are those emitted for the words, and the tail adds none
  · next hsome =>
    cases h
    have htokens : ∀ token ∈ tokenize (strip corrected), token ≠ [] :=
      fun _ => ne_nil_of_mem_tokenize
    obtain ⟨hwords, hwell, hsubs, hstyle⟩ := emitTokens_strings line lm box
      (breakSlot line lm box.width spaceBeforeBreak) hsome htokens
    have hstrings : ∀ emission : Emission,
        stringChildren (clearLine line.children ++ emission.children ++
        lineTail line lm box (breakSlot line lm box.width spaceBeforeBreak) emission
          spaceBeforeBreak) =
        stringChildren emission.children := by
      intro emission
      rw [stringChildren_append, stringChildren_append, stringChildren_clearLine,
        stringChildren_lineTail, List.append_nil, List.nil_append]
    have hmatched : (matchedSources (lineAlignment line (tokenize (strip corrected)))).Sublist
        (List.range (stringChildren line.children).length) := by
      have hsublist := matchedSources_sublist
        ((stringChildren line.children).map (·.getD "CONTENT".toList []))
        ((tokenize (strip corrected)).filter fun token => !isSpaceToken token)
      rwa [List.length_map] at hsublist
    obtain ⟨hreported, hcounted⟩ := counted_addAlignmentScopedLosses line lm hmatched
    refine ⟨?_, ?_, ?_, hreported, fun name => ?_⟩
    · rw [hstrings]
      exact hwell
    · rw [hstrings]
      exact hsubs
    · rw [hstrings]
      exact hwords
    · rw [hstrings, hstyle]
      exact hcounted name

/-! ## The account of a line -/

omit [Unicode] [Numerals] in
/-- The losses of a line are exact: of every attribute they say how many fewer
the line has, and nothing of one it has as often. -/
def ExactLosses (source written : List Child) (losses : Dict Str Nat) : Prop :=
  ∀ name, losses.get? (lossKey name) =
    if occurrences (stringChildren source) (lossKey name) ≤
        occurrences (stringChildren written) (lossKey name) then none
    else some (occurrences (stringChildren source) (lossKey name) -
      occurrences (stringChildren written) (lossKey name))

/-- Where the rewrite sets SUBS, it finds no more than it writes. -/
def ForeseenInPlace (lm : LineManifest) (strings : List Attributes) : Prop :=
  ∀ name, subsFound lm strings (lossKey name) ≤ subsWritten lm strings.length (lossKey name)

/-- The line's SUBS are those written back and those of words whose SUBS are
unwanted; or nothing of theirs is counted, and there are no more than are
written. -/
def ForeseenRebuilt (lm : LineManifest) (strings : List Attributes) (words : Nat) : Prop :=
  ∀ name,
    let uncertain := (strings.flatMap uncertainKeys).count (lossKey name)
    let unwanted := (strings.flatMap (unwantedKeys lm)).count (lossKey name)
    let foreseen := (strings.flatMap foreseenKeys).count (lossKey name)
    let written := subsWritten lm words (lossKey name)
    uncertain = written + unwanted ∨ foreseen = 0 ∧ unwanted = 0 ∧ uncertain ≤ written

/-- Are the losses of a line those the rewriter accounts for? -/
def LossesForeseen (line : TextLine) (lm : LineManifest) : Prop :=
  let corrected := lm.correctedText.getD lm.ocrText
  let writeText := (writeTextFor lm corrected).1
  let strings := stringChildren line.children
  if lineTextUnchanged line.children corrected then
    subsNeedUpdate line.children lm = true → ForeseenInPlace lm strings
  else if (updateContentInPlace line.children writeText).isSome then ForeseenInPlace lm strings
  else ForeseenRebuilt lm strings (wordTokens (strip writeText)).length

omit [Unicode] [Numerals] in
theorem exactLosses_of_reported {source written : List Child} {losses : Dict Str Nat}
    (h : Reported losses) :
    ExactLosses source written losses ↔ ∀ name, lossCount losses (lossKey name) =
      occurrences (stringChildren source) (lossKey name) -
        occurrences (stringChildren written) (lossKey name) := by
  refine forall_congr' fun name => ?_
  rw [get?_of_reported h]
  split <;> split <;> simp <;> omega

omit [Numerals] in
/-- Words written in place: nothing is counted. -/
theorem exactLosses_inPlace {children : List Child} {lm : LineManifest}
    (hwell : WellFormed (stringChildren children)) (words : List Str) (before : Nat)
    {written : List Child} (hwritten : written = applySubs (writeContents children words) lm) :
    ExactLosses children written (confidenceLoss before written) ↔
      ForeseenInPlace lm (stringChildren children) := by
  rw [exactLosses_of_reported (reported_confidenceLoss _ _)]
  refine forall_congr' fun name => ?_
  have hcount := occurrences_inPlace lm hwell words (lossKey name)
  rw [← hwritten] at hcount
  rw [lossCount, get?_confidenceLoss, Option.getD_none]
  omega

omit [Unicode] [Numerals] in
/-- Strings without `SUBS` have none to be found. -/
theorem subsFound_eq_zero (lm : LineManifest) {strings : List Attributes}
    (h : ∀ attrib ∈ strings, subsKeys attrib = []) (key : Str) : subsFound lm strings key = 0 := by
  have hread : ∀ i, subsKeys (strings.getD i []) = [] := by
    intro i
    rw [List.getD_eq_getElem?_getD]
    cases hget : strings[i]? with
    | none => rfl
    | some attrib => exact h attrib (List.mem_of_getElem? hget)
  rw [subsFound, List.sum_eq_zero_iff]
  intro n hn
  obtain ⟨write, -, rfl⟩ := List.mem_map.mp hn
  rw [hread, List.count_nil]

omit [Unicode] [Numerals] in
/-- What a line's words carry: style, what a rebuild foresees losing, and the
rest. -/
theorem occurrences_eq_add {strings : List Attributes} (h : WellFormed strings) (key : Str) :
    occurrences strings key =
      (strings.map fun attrib => (styleKeys attrib).count key).sum +
        (strings.flatMap foreseenKeys).count key + (strings.flatMap uncertainKeys).count key := by
  induction strings with
  | nil => rfl
  | cons attrib strings ih =>
    obtain ⟨hattrib, hstrings⟩ := List.forall_mem_cons.mp h
    have htail := ih hstrings
    have hhead := count_owedKeys hattrib key
    rw [count_unstyledKeys] at hhead
    simp only [occurrences, List.flatMap_cons, List.count_append, List.map_cons,
      List.sum_cons] at htail ⊢
    omega

omit [Unicode] [Numerals] in
/-- Words rebuilt, then given the line's SUBS. -/
theorem exactLosses_rebuilt {line : TextLine} {lm : LineManifest} {words : Nat}
    {children : List Child}
    {losses : Dict Str Nat} (hwell : WellFormed (stringChildren line.children))
    (h : Rebuilt line lm words children losses) (before : Nat) (counted : List Child) :
    ExactLosses line.children (applySubs children lm)
        (mergeLosses losses (confidenceLoss before counted)) ↔
      ForeseenRebuilt lm (stringChildren line.children) words := by
  have hexact : ExactLosses line.children (applySubs children lm)
        (mergeLosses losses (confidenceLoss before counted)) ↔
      ExactLosses line.children (applySubs children lm) losses :=
    forall_congr' fun name => by rw [get?_mergeLosses_confidenceLoss]
  rw [hexact, exactLosses_of_reported h.reported]
  refine forall_congr' fun name => ?_
  obtain ⟨unmatched, hstyle, hlosses⟩ := h.counted name
  have hwritten := occurrences_applySubs lm h.wellFormed (lossKey name)
  have hnone := subsFound_eq_zero lm h.noSubs (lossKey name)
  have hsource := occurrences_eq_add hwell (lossKey name)
  have hapart := subsWritten_eq_zero_or lm words (stringChildren line.children) (lossKey name)
  rw [h.words, hnone] at hwritten
  dsimp only
  omega

omit [Unicode] [Casing] [Numerals] in
theorem writeContents_nil [Unicode] (children : List Child) : writeContents children
    [] = children := by
  induction children with
  | nil => rfl
  | cons child children ih => cases child <;> exact congrArg _ ih

omit [Unicode] [Casing] [Numerals] in
theorem setAttributes_eq_ok {rewritten rewritten' : RewrittenLine}
    (h : setAttributes rewritten = .ok rewritten') : rewritten' = rewritten := by
  unfold setAttributes at h
  split at h
  · cases h
  · cases h
    rfl

omit [Casing] [Numerals] in
theorem exists_writeContents {children written : List Child} {corrected : Str}
    (h : updateContentInPlace children corrected = some written) :
    ∃ words, written = writeContents children words := by
  unfold updateContentInPlace at h
  dsimp only at h
  split at h
  · cases h
  · split at h
    · cases h
    · cases h
      exact ⟨_, rfl⟩

/-- **The losses of a line are exact** just when the rewriter accounts for
them. -/
theorem exactLosses_iff {line : TextLine} {lm : LineManifest} {rewritten : RewrittenLine}
    (hwell : WellFormed (stringChildren line.children))
    (h : rewriteTextline line lm = .ok rewritten) :
    ExactLosses line.children rewritten.children rewritten.losses ↔ LossesForeseen line lm := by
  unfold LossesForeseen
  unfold rewriteTextline at h
  dsimp only at h ⊢
  -- the four ways a line is written; the first three drop no String
  cases hunchanged : lineTextUnchanged line.children (lm.correctedText.getD lm.ocrText) with
  | true =>
    cases hsubs : subsNeedUpdate line.children lm with
    | false =>
      simp only [hunchanged, hsubs, Bool.not_true, Bool.not_false, Bool.and_self, if_true] at h
      cases h
      simp only [if_true, Bool.false_eq_true, false_implies, iff_true]
      exact fun name => (if_pos (Nat.le_refl _)).symm
    | true =>
      simp only [hunchanged, hsubs, Bool.not_true, Bool.and_false, Bool.false_eq_true, if_false,
        Bool.not_false, if_true] at h
      cases setAttributes_eq_ok h
      rw [exactLosses_inPlace hwell [] _ (by rw [writeContents_nil])]
      simp
  | false =>
    simp only [hunchanged, Bool.not_false, Bool.not_true, Bool.false_eq_true, Bool.false_and,
      if_false] at h ⊢
    split at h
    · next children hplace =>
      cases setAttributes_eq_ok h
      obtain ⟨words, rfl⟩ := exists_writeContents hplace
      rw [hplace, if_pos (by rfl)]
      exact exactLosses_inPlace hwell words _ rfl
    -- laid out again, the losses are counted against the Strings kept by the alignment
    · next hplace =>
      obtain ⟨⟨children, losses, moved⟩, hrebuild, h⟩ := Fallible.bind_eq_ok.mp h
      cases setAttributes_eq_ok h
      rw [hplace, if_neg (by simp)]
      exact exactLosses_rebuilt hwell (rebuilt_rebuildLine hrebuild) _ _

end RebuiltLosses

end Attributes

/-! ## Two lines -/

/-- A line of two words; the first abbreviates another, and both are styled. -/
def abbreviatedLine : TextLine where
  attrib := [("HPOS".toList, ['0']), ("VPOS".toList, ['0']), ("WIDTH".toList, "40".toList),
    ("HEIGHT".toList, ['1'])]
  children := [
    .string [("CONTENT".toList, "Dr".toList), ("SUBS_TYPE".toList, "Abbreviation".toList),
      ("SUBS_CONTENT".toList, "Docteur".toList), ("STYLE".toList, "bold".toList)],
    .sp [],
    .string [("CONTENT".toList, "Dupont".toList), ("STYLE".toList, "bold".toList)]]

/-- What is known of that line, decided so. -/
def abbreviatedManifest (role : HyphenRole) (decided : String) : LineManifest :=
  { plainLine "p".toList 0 "a" "Dr Dupont" role with correctedText := some decided.toList }

/-- The abbreviated line loses exactly what it reports. -/
theorem exactLosses_abbreviatedLine : ∃ rewritten,
    @rewriteTextline .ascii .ascii .digits abbreviatedLine (abbreviatedManifest .none "Dupont") =
      .ok rewritten ∧
    @ExactLosses .ascii abbreviatedLine.children rewritten.children rewritten.losses := by
  let _ := Unicode.ascii
  let _ := Casing.ascii
  let _ := Page.Numerals.digits
  have hok : (rewriteTextline abbreviatedLine
      (abbreviatedManifest .none "Dupont")).isOk = true := by
    decide +kernel
  have hunchanged : lineTextUnchanged abbreviatedLine.children "Dupont".toList = false := by
    decide +kernel
  have hplace : (updateContentInPlace abbreviatedLine.children "Dupont".toList).isSome = false := by
    decide +kernel
  -- the SUBS the line carries are all on the word that loses them
  have hsubs : (stringChildren abbreviatedLine.children).flatMap uncertainKeys =
      (stringChildren abbreviatedLine.children).flatMap
        (unwantedKeys (abbreviatedManifest .none "Dupont")) := by
    decide +kernel
  cases hrewrite : rewriteTextline abbreviatedLine (abbreviatedManifest .none "Dupont") with
  | error error =>
    rw [hrewrite] at hok
    cases hok
  | ok rewritten =>
    have hwell : WellFormed (stringChildren abbreviatedLine.children) := by
      unfold WellFormed
      decide
    refine ⟨rewritten, rfl, (exactLosses_iff hwell hrewrite).mpr ?_⟩
    have hwrite : (writeTextFor (abbreviatedManifest .none "Dupont") "Dupont".toList).1 =
        "Dupont".toList := rfl
    have hdecided : (abbreviatedManifest .none "Dupont").correctedText.getD
        (abbreviatedManifest .none "Dupont").ocrText = "Dupont".toList := rfl
    unfold LossesForeseen
    dsimp only
    rw [hdecided, hwrite, hunchanged, hplace, if_neg Bool.false_ne_true, if_neg Bool.false_ne_true]
    intro name
    dsimp only
    rw [hsubs]
    exact .inl (Nat.zero_add _).symm

/-- **Losses nobody counts**: the line continues a word by its text alone, so
its SUBS go. -/
theorem abbreviation_unreported : ∃ rewritten,
    @rewriteTextline .ascii .ascii .digits abbreviatedLine
      (abbreviatedManifest .part2 "Dr Dupont") = .ok rewritten ∧
    ¬ @ExactLosses .ascii abbreviatedLine.children rewritten.children rewritten.losses := by
  let _ := Unicode.ascii
  let _ := Casing.ascii
  let _ := Page.Numerals.digits
  have hok : (rewriteTextline abbreviatedLine (abbreviatedManifest .part2 "Dr Dupont")).toOption.map
      (fun rewritten => (rewritten.path, rewritten.losses,
        occurrences (stringChildren rewritten.children) (lossKey "SUBS_TYPE".toList))) =
      some (.subsOnly, [], 0) := by
    decide +kernel
  have hsource : occurrences (stringChildren abbreviatedLine.children)
      (lossKey "SUBS_TYPE".toList) = 1 := by
    decide +kernel
  cases hrewrite : rewriteTextline abbreviatedLine (abbreviatedManifest .part2 "Dr Dupont") with
  | error error =>
    rw [hrewrite] at hok
    cases hok
  | ok rewritten =>
    simp only [hrewrite, Except.toOption, Option.map_some, Option.some.injEq, Prod.mk.injEq] at hok
    refine ⟨rewritten, rfl, fun hexact => ?_⟩
    have hname := hexact "SUBS_TYPE".toList
    rw [hok.2.1, hok.2.2, hsource] at hname
    cases hname

end Saknussemm.Alto
