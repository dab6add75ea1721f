import Saknussemm.Alto.Losses
import Saknussemm.Library.FreshNames

/-! # The IDs of a rewritten ALTO line.

A rebuilt word keeps the ID of the word it was matched with; any other word
is named after its line and its place in it, by the first such name that no
word of the line keeps.  The spaces, the marks and the other elements that
stay keep theirs, whatever the words are named. -/

namespace Saknussemm.Alto

open FreshNames (FirstFree padded)
open Page (Numerals)

/-- The IDs of the children of a line. -/
def childIds (children : List Child) : List Str :=
    children.filterMap fun child => idOf child.attributes

/-! ## The names of new words -/

/-- The names a word may get, by its line and its place. -/
def stringId (lineId : Str) (n : Nat) : Nat → Str
  | 0 => lineId ++ "_STR_".toList ++ padded 4 n
  | k + 1 => lineId ++ "_STR_".toList ++ padded 4 n ++ ['_'] ++ (toString (k + 2)).toList

theorem stringId_zero (lineId : Str) (n : Nat) :
    stringId lineId n 0 = (lineId ++ "_STR".toList) ++ '_' :: padded 4 n := by
  rw [stringId, show "_STR_".toList = "_STR".toList ++ ['_'] by rfl]
  simp only [List.append_assoc, List.singleton_append]

theorem stringId_succ (lineId : Str) (n k : Nat) :
    stringId lineId n (k + 1) = stringId lineId n 0 ++ '_' :: padded 0 (k + 2) := by
  rw [stringId, stringId, FreshNames.padded_zero]
  simp only [List.append_assoc, List.singleton_append]

/-- A name with no number of its own is not one that has one. -/
theorem stringId_zero_ne (lineId lineId' : Str) (n n' k : Nat) :
    stringId lineId n 0 ≠ stringId lineId' n' (k + 1) := by
  intro h
  rw [stringId_zero, stringId_succ] at h
  have hfront := (FreshNames.append_cons_inj h (by decide) (by decide)
    (fun _ => FreshNames.isDigit_of_mem_padded) (fun _ => FreshNames.isDigit_of_mem_padded)).1
  -- a letter cannot stand where the place of the word does
  rw [stringId_zero, show "_STR".toList = "_ST".toList ++ ['R'] by rfl,
    ← List.append_assoc] at hfront
  have hempty := (FreshNames.append_cons_inj hfront (by decide) (by decide) (by simp)
    (fun _ => FreshNames.isDigit_of_mem_padded)).2.2
  have hlength := congrArg List.length hempty
  rw [padded, List.length_leftpad, List.length_nil] at hlength
  omega

theorem stringId_zero_inj {lineId lineId' : Str} {n n' : Nat}
    (h : stringId lineId n 0 = stringId lineId' n' 0) : lineId = lineId' ∧ n = n' := by
  rw [stringId_zero, stringId_zero] at h
  obtain ⟨hfront, -, hback⟩ := FreshNames.append_cons_inj h (by decide) (by decide)
    (fun _ => FreshNames.isDigit_of_mem_padded) (fun _ => FreshNames.isDigit_of_mem_padded)
  exact ⟨List.append_cancel_right hfront, FreshNames.padded_injective 4 hback⟩

/-- **A name tells its line, its place and its number.** -/
theorem stringId_inj {lineId lineId' : Str} {n n' k k' : Nat}
    (h : stringId lineId n k = stringId lineId' n' k') : lineId = lineId' ∧ n = n' ∧ k = k' := by
  cases k with
  | zero =>
    cases k' with
    | zero =>
      obtain ⟨hline, hplace⟩ := stringId_zero_inj h
      exact ⟨hline, hplace, rfl⟩
    | succ k' => exact absurd h (stringId_zero_ne _ _ _ _ _)
  | succ k =>
    cases k' with
    | zero => exact absurd h.symm (stringId_zero_ne _ _ _ _ _)
    | succ k' =>
      rw [stringId_succ, stringId_succ] at h
      obtain ⟨hfront, -, hback⟩ := FreshNames.append_cons_inj h (by decide) (by decide)
        (fun _ => FreshNames.isDigit_of_mem_padded) (fun _ => FreshNames.isDigit_of_mem_padded)
      obtain ⟨hline, hplace⟩ := stringId_zero_inj hfront
      have hnumber := FreshNames.padded_injective 0 hback
      exact ⟨hline, hplace, by omega⟩

theorem stringId_injective (lineId : Str) (n : Nat) : Function.Injective (stringId lineId n) :=
  fun _ _ h => (stringId_inj h).2.2

/-- **The search for a name ends** at the first one no word has. -/
theorem firstFree_generatedId (lineId : Str) (n : Nat) (usedIds : List Str) :
    FirstFree (stringId lineId n) usedIds (generatedId lineId n usedIds) := by
  unfold generatedId
  dsimp only
  split
  · next hfree => exact ⟨0, rfl, hfree, fun j hj => absurd hj (Nat.not_lt_zero j)⟩
  · next hused =>
    apply FirstFree.of_succ _ (Classical.not_not.mp hused)
    have hcandidates : ((List.range' 2 (usedIds.length + 1)).map fun suffix =>
        lineId ++ "_STR_".toList ++ (toString n).toList.leftpad 4 '0' ++ ['_'] ++
          (toString suffix).toList) =
        (List.range (usedIds.length + 1)).map fun k => stringId lineId n (k + 1) := by
      rw [List.range'_eq_map_range, List.map_map]
      refine List.map_congr_left fun k _ => ?_
      rw [Function.comp_apply, Nat.add_comm 2 k]
      rfl
    rw [hcandidates]
    apply FreshNames.firstFree_find? (fun k k' h => ?_)
    exact Nat.succ_injective (stringId_injective lineId n h)

/-- Only the names the word may get matter. -/
theorem generatedId_congr {lineId : Str} {n : Nat} {usedIds usedIds' : List Str}
    (h : ∀ k, stringId lineId n k ∈ usedIds ↔ stringId lineId n k ∈ usedIds') :
    generatedId lineId n usedIds = generatedId lineId n usedIds' :=
  ((firstFree_generatedId lineId n usedIds).congr h).unique
    (firstFree_generatedId lineId n usedIds')

/-! ## IDs that stay -/

theorem childIds_append (children children' : List Child) :
    childIds (children ++ children') = childIds children ++ childIds children' :=
  List.filterMap_append ..

theorem idOf_set {attrib : Attributes} {name value : Str} (hname : "ID".toList ≠ name) :
    idOf (Dict.set attrib name value) = idOf attrib := by
  rw [idOf, Dict.get?_set, if_neg hname]
  rfl

theorem idOf_placedAt (attrib : Attributes) (hpos vpos width height : Int) :
    idOf (placedAt attrib hpos vpos width height) = idOf attrib := by
  rw [placedAt, idOf_set (by decide), idOf_set (by decide), idOf_set (by decide),
    idOf_set (by decide)]

theorem idOf_withoutGeometry (attrib : Attributes) :
    idOf (attrib.filter fun entry => entry.1 ∉ geometryAttributes) = idOf attrib :=
  @Dict.get?_filter _ _ _ attrib (· ∉ geometryAttributes) _ (by decide)

theorem idOf_emitSp (origSpAttribs : List Attributes) (n : Nat) (hpos width vpos : Int) :
    idOf (emitSp origSpAttribs n hpos width vpos).attributes = idOf (origSpAttribs.getD n []) := by
  rw [emitSp]
  dsimp only [Child.attributes]
  rw [idOf_set (by decide), idOf_set (by decide), idOf_set (by decide), idOf_withoutGeometry]

theorem idOf_trailingHyp (origHypAttribs : Attributes) (hpos vpos width height : Int) :
    idOf (trailingHyp origHypAttribs hpos vpos width height).attributes = idOf origHypAttribs := by
  rw [trailingHyp]
  dsimp only [Child.attributes]
  rw [idOf_placedAt]
  split
  · exact idOf_withoutGeometry _
  · rw [idOf_set (by decide), idOf_withoutGeometry]

theorem get?_removeAttribute {attrib : Attributes} {name other : Str} (hname : other ≠ name) :
    Dict.get? (removeAttribute attrib name) other = Dict.get? attrib other :=
  @Dict.get?_filter _ _ _ attrib (· ≠ name) _ (decide_eq_true hname)

theorem idOf_removeAttribute {attrib : Attributes} {name : Str} (hname : "ID".toList ≠ name) :
    idOf (removeAttribute attrib name) = idOf attrib := get?_removeAttribute hname

theorem idOf_setSubsOnElement (want : Option (Str × Str)) (attrib : Attributes) :
    idOf (setSubsOnElement want attrib) = idOf attrib := by
  unfold setSubsOnElement
  split
  · rw [idOf_set (by decide), idOf_set (by decide)]
  · rw [idOf_removeAttribute (by decide), idOf_removeAttribute (by decide)]

theorem childIds_cons (child : Child) (children : List Child) :
    childIds (child :: children) = (idOf child.attributes).toList ++ childIds children := by
  rw [childIds, List.filterMap_cons]
  cases idOf child.attributes <;> rfl

/-- Changing a `String` does not change what its change does not. -/
theorem filterMap_modifyString {β : Type*} {read : Child → Option β} {f : Attributes → Attributes}
    (hf : ∀ attrib, read (.string (f attrib)) = read (.string attrib)) (i : Nat)
    (children : List Child) : (modifyString f i children).filterMap read =
        children.filterMap read := by
  induction children generalizing i with
  | nil => rfl
  | cons child children ih =>
    cases child with
    | string attrib =>
      cases i with
      | zero => rw [modifyString, List.filterMap_cons, List.filterMap_cons, hf]
      | succ i => rw [modifyString, List.filterMap_cons, List.filterMap_cons, ih]
    | sp attrib | hyp attrib | other tag attrib | comment text =>
      cases i <;> simp only [modifyString, List.filterMap_cons, ih]

theorem childIds_modifyString {f : Attributes → Attributes}
    (hf : ∀ attrib, idOf (f attrib) = idOf attrib)
    (i : Nat) (children : List Child) : childIds (modifyString f i children) = childIds children :=
  filterMap_modifyString hf i children

theorem map_idOf_modify {f : Attributes → Attributes} (hf : ∀ attrib, idOf (f attrib) = idOf attrib)
    (i : Nat) (strings : List Attributes) : (strings.modify i f).map idOf = strings.map idOf := by
  induction strings generalizing i with
  | nil => simp
  | cons attrib strings ih =>
    cases i with
    | zero => simp [hf]
    | succ i => simp [ih]

/-- SUBS are no identity. -/
theorem ids_applySubs (children : List Child) (lm : LineManifest) :
    childIds (applySubs children lm) = childIds children ∧
      (stringChildren (applySubs children lm)).map idOf = (stringChildren children).map idOf := by
  have hsubs : ∀ want i (children : List Child),
      childIds (modifyString (setSubsOnElement want) i children) = childIds children ∧
        (stringChildren (modifyString (setSubsOnElement want) i children)).map idOf =
          (stringChildren children).map idOf := by
    intro want i children
    rw [stringChildren_modifyString]
    exact ⟨childIds_modifyString (idOf_setSubsOnElement want) i children,
      map_idOf_modify (idOf_setSubsOnElement want) i _⟩
  unfold applySubs
  dsimp only
  cases subsTarget lm (stringChildren children).length with
  | none =>
    cases forwardSubsTarget lm (stringChildren children).length with
    | none => exact ⟨rfl, rfl⟩
    | some j => exact hsubs _ _ _
  | some i =>
    cases forwardSubsTarget lm (stringChildren children).length with
    | none => exact hsubs _ _ _
    | some j =>
      exact ⟨(hsubs _ _ _).1.trans (hsubs _ _ _).1, (hsubs _ _ _).2.trans (hsubs _ _ _).2⟩

section Line

variable [Unicode]

theorem idOf_writeContent (word : Str) (attrib : Attributes) :
    idOf (writeContent word attrib) = idOf attrib := by
  unfold writeContent
  dsimp only
  split
  · rw [idOf_removeAttribute (by decide), idOf_removeAttribute (by decide), idOf_set (by decide)]
  · rw [idOf_set (by decide)]

/-- Nor does writing words. -/
theorem filterMap_writeContents {β : Type*} {read : Child → Option β}
    (hread : ∀ word attrib, read (.string (writeContent word attrib)) = read (.string attrib))
    (children : List Child) (words : List Str) :
    (writeContents children words).filterMap read = children.filterMap read := by
  induction children generalizing words with
  | nil => rfl
  | cons child children ih =>
    cases child with
    | string attrib =>
      cases words with
      | nil => rw [writeContents_nil]
      | cons word words => rw [writeContents, List.filterMap_cons, List.filterMap_cons, hread, ih]
    | sp attrib | hyp attrib | other tag attrib | comment text =>
      cases words <;> simp only [writeContents, List.filterMap_cons, ih]

theorem childIds_writeContents (children : List Child) (words : List Str) :
    childIds (writeContents children words) = childIds children :=
  filterMap_writeContents idOf_writeContent children words

/-! ## A rebuilt line -/

/-- Is the line rebuilt? -/
def rebuilds (line : TextLine) (lm : LineManifest) : Bool :=
  let corrected := lm.correctedText.getD lm.ocrText
  !lineTextUnchanged line.children corrected &&
    (updateContentInPlace line.children (writeTextFor lm corrected).1).isNone

/-- The tokens it is rebuilt with. -/
def rebuiltTokens (lm : LineManifest) : List Str :=
  tokenize (strip (writeTextFor lm (lm.correctedText.getD lm.ocrText)).1)

/-- The words among them. -/
def rebuiltWords (lm : LineManifest) : List Str :=
  (rebuiltTokens lm).filter fun token => !isSpaceToken token

/-- The word a new one was matched with. -/
def sourceOf (line : TextLine) (lm : LineManifest) (n : Nat) : Option Attributes :=
  ((lineAlignment line (rebuiltTokens lm)).sourceForTarget n).map
    ((stringChildren line.children).getD · [])

/-- The IDs words keep. -/
def keptStringIds (line : TextLine) (lm : LineManifest) : List Str :=
  (matchedSources (lineAlignment line (rebuiltTokens lm))).filterMap fun i =>
    idOf ((stringChildren line.children).getD i [])

/-- The words that keep no ID: they were matched with nothing, or with a word
that had none. -/
def newWords (line : TextLine) (lm : LineManifest) : List Nat :=
  (List.range (rebuiltWords lm).length).filter fun n => ((sourceOf line lm n).bind idOf).isNone

/-- Does a space stand before its mark: the text has one, and the mark leaves
room for it. -/
def writesBreakSpace [Numerals] (line : TextLine) (lm : LineManifest) : Bool :=
  let breakSpace := (writeTextFor lm (lm.correctedText.getD lm.ocrText)).2
  let width := (intAttr line.attrib "WIDTH").toOption.getD 0
  rebuiltTokens lm ≠ [] && isPart1Like lm && breakSpace && 2 ≤
    (breakSlot line lm width breakSpace).1

/-- How many `SP` elements the line has: one for each space between words, and
the one before its mark. -/
def spacesWritten [Numerals] (line : TextLine) (lm : LineManifest) : Nat :=
  ((rebuiltTokens lm).filter isSpaceToken).length + if writesBreakSpace line lm then 1 else 0

/-- The `HYP` elements whose identity stays. -/
def keptHyps (line : TextLine) (lm : LineManifest) : List Attributes :=
  if isPart1Like lm then (hypChildren line.children).take 1
  else if isNormal lm then hypChildren line.children
  else []

/-- The IDs that stay on a rebuilt line. -/
def stayingOnRebuilt [Numerals] (line : TextLine) (lm : LineManifest) : List Str :=
  childIds (clearLine line.children) ++ keptStringIds line lm ++
    (((spChildren line.children).take (spacesWritten line lm)).filterMap idOf ++
      (keptHyps line lm).filterMap idOf)

omit [Unicode] in
/-- A recycled String keeps the ID of the String it was. -/
theorem idOf_recycledAttributes (recycled : Option Attributes) :
    idOf (recycledAttributes recycled) = recycled.bind idOf := by
  cases hid : recycled.bind idOf with
  | none =>
    rw [idOf, ← Option.not_isSome_iff_eq_none, Dict.isSome_get?, keys_recycledAttributes,
      List.mem_filter]
    rintro ⟨-, hkey⟩
    cases recycled with
    | none => cases of_decide_eq_true hkey
    | some attrib =>
      have hsome := Dict.isSome_get?.mpr (of_decide_eq_true hkey)
      rw [Option.getD_some, ← idOf, show idOf attrib = none from hid] at hsome
      cases hsome
  | some id =>
    have hfirst : (recycled.bind fun attrib => Dict.get? attrib "ID".toList) = some id := hid
    rw [recycledAttributes, List.filterMap_cons, hfirst, idOf, Option.map_some,
      Dict.get?_cons, if_pos rfl]

/-- A word is written with the ID it is given. -/
theorem idOf_emitString (recycled : Option Attributes) (n : Nat) (lineId token : Str)
    (hpos width vpos height : Int) (usedIds : List Str) :
    (emitString recycled n lineId token hpos width vpos height usedIds).2 =
        (recycled.bind idOf).getD (generatedId lineId n usedIds) ∧
      idOf (emitString recycled n lineId token hpos width vpos height usedIds).1 =
        some ((recycled.bind idOf).getD (generatedId lineId n usedIds)) := by
  simp only [emitString]
  rw [← idOf_recycledAttributes]
  refine ⟨rfl, ?_⟩
  rw [idOf_placedAt, idOf_set (by decide), idOf, Dict.get?_set, if_pos rfl]
  rfl

/-- The ID of a word, knowing which ones are kept. -/
def wordId (context : EmissionContext) (kept : List Str) (n : Nat) : Str :=
  ((recycledFor context n).bind idOf).getD (generatedId context.lineId n kept)

omit [Unicode] in
/-- What earlier words were named does not change the name of a word. -/
theorem generatedId_usedIds {context : EmissionContext} {kept usedIds : List Str} {n : Nat}
    (hkept : ∀ m id, (recycledFor context m).bind idOf = some id → id ∈ kept)
    (hused : ∀ id, id ∈ usedIds ↔ id ∈ kept ∨ ∃ m < n, wordId context kept m = id) :
    generatedId context.lineId n usedIds = generatedId context.lineId n kept := by
  apply generatedId_congr
  intro k
  rw [hused]
  refine ⟨fun hmem => ?_, Or.inl⟩
  rcases hmem with hmem | ⟨m, hm, hname⟩
  · exact hmem
  · unfold wordId at hname
    cases hid : (recycledFor context m).bind idOf with
    | some id =>
      rw [hid, Option.getD_some] at hname
      exact hname ▸ hkept m id hid
    | none =>
      rw [hid, Option.getD_none] at hname
      -- the name of another word tells its place
      obtain ⟨k', hk', -, -⟩ := firstFree_generatedId context.lineId m kept
      exact absurd (stringId_inj (hk'.symm.trans hname)).2.1 (Nat.ne_of_lt hm)

omit [Unicode] in
/-- IDs in use while a word is written: the ones words keep, and the ones
earlier words were named. -/
def InUse (context : EmissionContext) (kept : List Str) (emission : Emission) : Prop :=
  ∀ id, id ∈ emission.usedIds ↔ id ∈ kept ∨ ∃ n < emission.strings, wordId context kept n = id

theorem emitToken_space {context : EmissionContext} {emission : Emission} {token : Str}
    (hspace : isSpaceToken token = true) (hpos width : Int) :
    (emitToken context emission (token, hpos, width)).children = emission.children ++
        [emitSp context.origSpAttribs emission.sps hpos width context.vpos] ∧
      (emitToken context emission (token, hpos, width)).sps = emission.sps + 1 ∧
      (emitToken context emission (token, hpos, width)).strings = emission.strings ∧
      (emitToken context emission (token, hpos, width)).usedIds = emission.usedIds := by
  unfold emitToken
  dsimp only
  rw [if_pos hspace]
  exact ⟨rfl, rfl, rfl, rfl⟩

/-- What a word adds to the emission. -/
theorem emitToken_word {context : EmissionContext} {emission : Emission} {token : Str}
    (hword : isSpaceToken token = false) (hpos width : Int) :
    emitToken context emission (token, hpos, width) =
      let written := emitString (recycledFor context emission.strings) emission.strings
        context.lineId token hpos width context.vpos context.height emission.usedIds
      { emission with
        children := emission.children ++ [.string written.1]
        strings := emission.strings + 1
        usedIds := written.2 :: emission.usedIds
        lastWordHpos := hpos
        lastWordWidth := width } := by
  unfold emitToken
  dsimp only
  rw [hword, if_neg Bool.false_ne_true]
  rfl

/-- A word is given the name that stands for its position, and the emission goes
on with it. -/
theorem emitToken_named {context : EmissionContext} {kept : List Str} {emission : Emission}
    (hkept : ∀ n id, (recycledFor context n).bind idOf = some id → id ∈ kept)
    (hused : InUse context kept emission) {token : Str} (hword : isSpaceToken token = false)
    (hpos width : Int) :
    ∃ attrib, (emitToken context emission (token, hpos, width)).children =
        emission.children ++ [.string attrib] ∧
      idOf attrib = some (wordId context kept emission.strings) ∧
      (emitToken context emission (token, hpos, width)).sps = emission.sps ∧
      (emitToken context emission (token, hpos, width)).strings = emission.strings + 1 ∧
      InUse context kept (emitToken context emission (token, hpos, width)) := by
  have hid := idOf_emitString (recycledFor context emission.strings) emission.strings
    context.lineId token hpos width context.vpos context.height emission.usedIds
  rw [generatedId_usedIds hkept hused, ← wordId] at hid
  rw [emitToken_word hword]
  generalize emitString (recycledFor context emission.strings) emission.strings context.lineId token
    hpos width context.vpos context.height emission.usedIds = written at hid
  refine ⟨written.1, rfl, hid.2, rfl, rfl, fun id => ?_⟩
  dsimp only
  rw [List.mem_cons, hid.1, hused, Nat.exists_lt_succ_right, @eq_comm _ id, or_comm, or_assoc]

/-- **Writing tokens** gives every word its ID and every space the one of the
space at its place. -/
theorem ids_foldl_emitToken {context : EmissionContext} {kept : List Str}
    (hkept : ∀ n id, (recycledFor context n).bind idOf = some id → id ∈ kept)
    (placed : List (Str × Int × Int)) {emission : Emission} (hused : InUse context kept emission) :
    let written := placed.foldl (emitToken context) emission
    let words := (placed.filter fun entry => !isSpaceToken entry.1).length
    let spaces := (placed.filter fun entry => isSpaceToken entry.1).length
    written.sps = emission.sps + spaces ∧
      (stringChildren written.children).map idOf = (stringChildren emission.children).map idOf ++
        (List.range' emission.strings words).map (fun n => some (wordId context kept n)) ∧
      (childIds written.children).Perm (childIds emission.children ++
        ((List.range' emission.strings words).map (wordId context kept) ++
          (List.range' emission.sps spaces).filterMap fun n =>
            idOf (context.origSpAttribs.getD n []))) := by
  -- induction on the placed tokens; the emission so far says how many names are spent
  induction placed generalizing emission with
  | nil => simp
  | cons entry placed ih =>
    obtain ⟨token, hpos, width⟩ := entry
    dsimp only at ih ⊢
    rw [List.foldl_cons]
    cases hspace : isSpaceToken token with
    | true =>
      -- a space spends the next original SP and names nothing
      obtain ⟨hchildren, hsps, hstrings, hids⟩ :=
        @emitToken_space _ context emission token hspace hpos width
      obtain ⟨hspsWritten, hstringsWritten, hidsWritten⟩ :=
        @ih (emitToken context emission (token, hpos, width)) (by
          intro id
          rw [hids, hstrings]
          exact hused id)
      rw [hsps] at hspsWritten hidsWritten
      rw [hstrings] at hstringsWritten hidsWritten
      rw [hchildren] at hstringsWritten hidsWritten
      simp only [List.filter_cons, hspace, Bool.not_true, Bool.false_eq_true, if_false, if_true,
        List.length_cons]
      refine ⟨by omega, ?_, hidsWritten.trans ?_⟩
      · rw [hstringsWritten, stringChildren_append]
        exact congrArg (· ++ _) (congrArg (List.map idOf) (List.append_nil _))
      · rw [childIds_append, childIds_cons, idOf_emitSp, List.range'_succ, List.filterMap_cons,
          List.append_assoc, show childIds [] = [] by rfl, List.append_nil]
        apply List.Perm.append_left _
        cases idOf (context.origSpAttribs.getD emission.sps []) with
        | none => exact .refl _
        | some id =>
          rw [Option.toList_some, List.singleton_append]
          exact List.perm_middle.symm
    | false =>
      -- a word spends the next free name, which `InUse` keeps apart from the kept ones
      obtain ⟨attrib, hchildren, hid, hsps, hstrings, hused'⟩ :=
        emitToken_named hkept hused hspace hpos width
      obtain ⟨hspsWritten, hstringsWritten, hidsWritten⟩ := ih hused'
      rw [hsps] at hspsWritten hidsWritten
      rw [hstrings] at hstringsWritten hidsWritten
      rw [hchildren] at hstringsWritten hidsWritten
      simp only [List.filter_cons, hspace, Bool.not_false, Bool.false_eq_true, if_false, if_true,
        List.length_cons]
      refine ⟨hspsWritten, ?_, hidsWritten.trans ?_⟩
      · rw [hstringsWritten, stringChildren_append, List.map_append, List.append_assoc,
          List.range'_succ, List.map_cons, ← hid]
        rfl
      · rw [childIds_append, childIds_cons, Child.attributes, hid, List.range'_succ, List.map_cons,
          List.append_assoc]
        exact .refl _

/-! ## What a line is rebuilt into -/

omit [Unicode] in
/-- The matched words, read target by target. -/
theorem matchedSources_alignTokens (source target : List Str) :
    matchedSources (alignTokens none charSimilarity source target) =
      (List.range target.length).filterMap
        (alignTokens none charSimilarity source target).sourceForTarget := by
  have hmap := congrArg (List.filterMap id)
    (map_sourceForTarget_alignTokens none charSimilarity source target)
  rw [List.filterMap_map, Function.id_comp] at hmap
  rw [hmap, matchedSources, List.filterMap_map, List.filterMap_filter]
  rfl

omit [Unicode] in
/-- Only a word there is has a source. -/
theorem lt_of_sourceForTarget {source target : List Str} {n i : Nat}
    (h : (alignTokens none charSimilarity source target).sourceForTarget n = some i) :
    n < target.length := by
  have htargets := targets_alignTokens none charSimilarity source target
  generalize alignTokens none charSimilarity source target = alignment at h htargets
  rw [TokenAlignment.sourceForTarget, Option.join_eq_some_iff] at h
  obtain ⟨pair, hpair, hmem⟩ := List.mem_filterMap.mp (Dict.mem_of_mem_ofList (Dict.mem_of_get? h))
  obtain ⟨m, hm, hentry⟩ := Option.map_eq_some_iff.mp hmem
  have hrange : n ∈ List.range target.length :=
    htargets ▸ List.mem_filterMap.mpr ⟨pair, hpair, hm.trans (congrArg some (Prod.mk.inj hentry).1)⟩
  exact List.mem_range.mp hrange

omit [Unicode] in
/-- **No two words have one source.** -/
theorem sourceForTarget_inj {source target : List Str} {n n' i : Nat}
    (h : (alignTokens none charSimilarity source target).sourceForTarget n = some i)
    (h' : (alignTokens none charSimilarity source target).sourceForTarget n' = some i) :
    n = n' := by
  have hnodup : (matchedSources (alignTokens none charSimilarity source target)).Nodup :=
    (matchedSources_sublist source target).nodup List.nodup_range
  rw [matchedSources_alignTokens, List.Nodup, List.pairwise_filterMap] at hnodup
  have hbefore := List.pairwise_iff_getElem.mp hnodup
  simp only [List.length_range, List.getElem_range] at hbefore
  rcases lt_trichotomy n n' with hlt | heq | hgt
  · exact absurd rfl (hbefore n n' (lt_of_sourceForTarget h)
      (lt_of_sourceForTarget h') hlt i h i h')
  · exact heq
  · exact absurd rfl (hbefore n' n (lt_of_sourceForTarget h')
      (lt_of_sourceForTarget h) hgt i h' i h)

omit [Unicode] in
theorem keptStringIds_eq (line : TextLine) (lm : LineManifest) :
    keptStringIds line lm =
      (List.range (rebuiltWords lm).length).filterMap fun n => (sourceOf line lm n).bind idOf := by
  rw [keptStringIds, lineAlignment, matchedSources_alignTokens, List.filterMap_filterMap]
  refine List.filterMap_congr fun n _ => ?_
  rw [sourceOf, Option.bind_map, lineAlignment]
  rfl

/-- The ID of a word of a rebuilt line. -/
def newId (line : TextLine) (lm : LineManifest) (n : Nat) : Str :=
  ((sourceOf line lm n).bind idOf).getD (generatedId lm.lineId n (keptStringIds line lm))

/-- The names of the words that keep no ID. -/
def newNames (line : TextLine) (lm : LineManifest) : List Str :=
  (newWords line lm).map fun n => generatedId lm.lineId n (keptStringIds line lm)

omit [Unicode] in
/-- A word keeps an ID or gets a name. -/
theorem perm_newId (line : TextLine) (lm : LineManifest) :
    ((List.range (rebuiltWords lm).length).map (newId line lm)).Perm
      (keptStringIds line lm ++ newNames line lm) := by
  have hsplit : ∀ places : List Nat, (places.map (newId line lm)).Perm
      ((places.filterMap fun n => (sourceOf line lm n).bind idOf) ++
        (places.filter fun n => ((sourceOf line lm n).bind idOf).isNone).map fun n =>
          generatedId lm.lineId n (keptStringIds line lm)) := by
    intro places
    induction places with
    | nil => exact .refl _
    | cons n places ih =>
      rw [List.map_cons, List.filterMap_cons, List.filter_cons, newId]
      cases (sourceOf line lm n).bind idOf with
      | some id => exact ih.cons id
      | none => exact (ih.cons _).trans List.perm_middle.symm
  rw [newNames, newWords]
  exact (keptStringIds_eq line lm) ▸ hsplit (List.range (rebuiltWords lm).length)

omit [Unicode] in
theorem filterMap_take_succ (attribs : List Attributes) (k : Nat) :
    (attribs.take (k + 1)).filterMap idOf =
      (attribs.take k).filterMap idOf ++ (idOf (attribs.getD k [])).toList := by
  rw [List.take_add_one, List.filterMap_append, List.getD_eq_getElem?_getD]
  cases attribs[k]? with
  | none => rfl
  | some attrib =>
    rw [Option.toList_some, List.filterMap_cons, Option.getD_some]
    cases idOf attrib <;> rfl

omit [Unicode] in
/-- The first elements, where there are as many. -/
theorem filterMap_getD_range (attribs : List Attributes) (k : Nat) :
    ((List.range k).filterMap fun n => idOf (attribs.getD n [])) =
    (attribs.take k).filterMap idOf := by
  induction k with
  | zero =>
    rw [List.take_zero]
    rfl
  | succ k ih =>
    rw [List.range_succ, List.filterMap_append, ih, filterMap_take_succ, List.filterMap_cons]
    cases idOf (attribs.getD k []) <;> rfl

omit [Unicode] in
theorem childIds_hyps (hyps : List Attributes) : childIds
    (hyps.map Child.hyp) = hyps.filterMap idOf := by
  rw [childIds, List.filterMap_map]
  rfl

omit [Unicode] in
theorem filterMap_idOf_take_one (hyps : List Attributes) :
    (hyps.take 1).filterMap idOf = (idOf (hyps.headD [])).toList := by
  cases hyps with
  | nil => rfl
  | cons hyp hyps =>
    rw [List.take_succ_cons, List.take_zero, List.headD_cons, List.filterMap_cons]
    cases idOf hyp <;> rfl

variable [Numerals]

omit [Unicode] [Numerals] in
/-- The `HYP` elements put back as they were keep their IDs. -/
theorem childIds_savedHyps {line : TextLine} {lm : LineManifest} (hplain : isPart1Like lm = false) :
    childIds (savedHyps line lm) = (keptHyps line lm).filterMap idOf := by
  rw [savedHyps, keptHyps, hplain, if_neg Bool.false_ne_true]
  split
  · exact childIds_hyps _
  · rfl

omit [Unicode] [Numerals] in
/-- The spaces and marks of a line without words keep their IDs. -/
theorem childIds_blankTail (line : TextLine) (lm : LineManifest) (box : LineBox)
    (slot : Int × Int) :
    childIds (blankTail line lm box slot) = (keptHyps line lm).filterMap idOf := by
  unfold blankTail
  cases hpart : isPart1Like lm with
  | false => exact childIds_savedHyps hpart
  | true =>
    rw [if_pos rfl, childIds_cons, idOf_trailingHyp, keptHyps, if_pos hpart,
      filterMap_idOf_take_one]
    exact List.append_nil _

omit [Unicode] [Numerals] in
/-- The space before a mark. -/
theorem reserveBreakSpace_children (origSpAttribs : List Attributes) (n : Nat)
    (hpos slotWidth vpos : Int) (wanted : Bool) :
    (reserveBreakSpace origSpAttribs n hpos slotWidth vpos wanted).1 =
      if wanted ∧ 2 ≤ slotWidth then [emitSp origSpAttribs n hpos (max 1 (slotWidth / 3)) vpos]
      else [] := by
  unfold reserveBreakSpace
  by_cases hroom : wanted = true ∧ 2 ≤ slotWidth
  · have hwanted : (!wanted || decide (slotWidth < 2)) = false := by
      rw [hroom.1, Bool.not_true, Bool.false_or, decide_eq_false_iff_not]
      omega
    rw [hwanted, if_neg Bool.false_ne_true, if_pos hroom]
  · have hwanted : (!wanted || decide (slotWidth < 2)) = true := by
      rw [Bool.or_eq_true, Bool.not_eq_true', decide_eq_true_eq]
      cases wanted with
      | false => exact .inl rfl
      | true => exact .inr (not_le.mp fun hle => hroom ⟨rfl, hle⟩)
    rw [hwanted, if_pos rfl, if_neg hroom]

omit [Unicode] [Numerals] in
/-- Those that follow the words of a line keep theirs. -/
theorem childIds_lineTail (line : TextLine) (lm : LineManifest) (box : LineBox) (slot : Int × Int)
    (emission : Emission) (spaceBeforeBreak : Bool) :
    childIds (lineTail line lm box slot emission spaceBeforeBreak) =
      (if isPart1Like lm ∧ spaceBeforeBreak ∧ 2 ≤ slot.1
        then (idOf ((spChildren line.children).getD emission.sps [])).toList else []) ++
      (keptHyps line lm).filterMap idOf := by
  unfold lineTail
  cases hpart : isPart1Like lm with
  | false =>
    simp only [Bool.false_eq_true, false_and, if_false, List.nil_append]
    exact childIds_savedHyps hpart
  | true =>
    have hkept : (keptHyps line lm).filterMap idOf =
        (idOf ((hypChildren line.children).headD [])).toList := by
      rw [keptHyps, if_pos hpart, filterMap_idOf_take_one]
    simp only [if_true, true_and]
    rw [hkept, childIds_append, reserveBreakSpace_children, childIds_cons, idOf_trailingHyp]
    refine congrArg₂ (· ++ ·) ?_ (List.append_nil _)
    split
    · rw [childIds_cons, idOf_emitSp]
      exact List.append_nil _
    · rfl

omit [Unicode] in
theorem intAttr_of_lineBox {line : TextLine} {box : LineBox} (h : lineBox line = .ok box) :
    intAttr line.attrib "WIDTH" = .ok box.width := by
  unfold lineBox at h
  obtain ⟨hpos, -, h⟩ := Fallible.bind_eq_ok.mp h
  obtain ⟨vpos, -, h⟩ := Fallible.bind_eq_ok.mp h
  obtain ⟨width, hwidth, h⟩ := Fallible.bind_eq_ok.mp h
  obtain ⟨height, -, h⟩ := Fallible.bind_eq_ok.mp h
  cases h
  exact hwidth

omit [Unicode] in
/-- The space before a break is written when the line has words, a forward break
and room for it. -/
theorem writesBreakSpace_iff {line : TextLine} {lm : LineManifest} {box : LineBox}
    (h : lineBox line = .ok box) :
    writesBreakSpace line lm = true ↔ rebuiltTokens lm ≠ [] ∧ isPart1Like lm = true ∧
      (writeTextFor lm (lm.correctedText.getD lm.ocrText)).2 = true ∧
      2 ≤ (breakSlot line lm box.width
          (writeTextFor lm (lm.correctedText.getD lm.ocrText)).2).1 := by
  have hwidth : (intAttr line.attrib "WIDTH").toOption.getD 0 = box.width := by
    rw [intAttr_of_lineBox h]
    rfl
  unfold writesBreakSpace
  dsimp only
  rw [hwidth]
  simp only [Bool.and_eq_true, decide_eq_true_eq, and_assoc]

omit [Unicode] [Numerals] in
/-- What tokens are written with, on a line being rebuilt. -/
def rebuildContext (line : TextLine) (lm : LineManifest) (box : LineBox) : EmissionContext :=
  ⟨stringChildren line.children, spChildren line.children, lineAlignment line (rebuiltTokens lm),
    lm.lineId, box.vpos, box.height⟩

omit [Unicode] [Numerals] in
theorem mem_keptStringIds {line : TextLine} {lm : LineManifest} {n : Nat} {id : Str}
    (h : (sourceOf line lm n).bind idOf = some id) : id ∈ keptStringIds line lm := by
  obtain ⟨attrib, hattrib, hid⟩ := Option.bind_eq_some_iff.mp h
  obtain ⟨i, hi, rfl⟩ := Option.map_eq_some_iff.mp hattrib
  rw [keptStringIds_eq]
  exact List.mem_filterMap.mpr ⟨n, List.mem_range.mpr (lt_of_sourceForTarget hi), h⟩

omit [Numerals] in
/-- **The IDs of the words and spaces of a rebuilt line.** -/
theorem ids_emitTokens {line : TextLine} {lm : LineManifest} (box : LineBox) (slot : Int × Int)
    (hne : rebuiltTokens lm ≠ []) :
    let emission := emitTokens line lm box slot (rebuiltTokens lm)
    let spaces := ((rebuiltTokens lm).filter isSpaceToken).length
    emission.sps = spaces ∧
      (stringChildren emission.children).map idOf =
        (List.range (rebuiltWords lm).length).map (fun n => some (newId line lm n)) ∧
      (childIds emission.children).Perm
        ((List.range (rebuiltWords lm).length).map (newId line lm) ++
          ((spChildren line.children).take spaces).filterMap idOf) := by
  have htokens : ∀ token ∈ rebuiltTokens lm, token ≠ [] := fun _ => ne_nil_of_mem_tokenize
  obtain ⟨widths, hgeometry, hshares⟩ := exists_computeGeometry box.hpos slot.2 hne htokens
  have hfst := map_fst_place box.hpos hshares.length
  have hcount : ∀ p : Str → Bool, ((place box.hpos (rebuiltTokens lm) widths).filter
      fun entry => p entry.1).length = ((rebuiltTokens lm).filter p).length := by
    intro p
    rw [← List.countP_eq_length_filter, ← List.countP_eq_length_filter]
    conv_rhs => rw [← hfst, List.countP_map]
    rfl
  obtain ⟨hsps, hstrings, hids⟩ := @ids_foldl_emitToken _ (rebuildContext line lm box)
    (keptStringIds line lm) (fun n id => mem_keptStringIds)
    (place box.hpos (rebuiltTokens lm) widths)
    ⟨[], 0, 0, keptStringIds line lm, box.hpos, slot.1⟩ (fun id => by simp)
  rw [hcount isSpaceToken] at hsps hids
  rw [hcount fun token => !isSpaceToken token] at hstrings hids
  dsimp only
  unfold emitTokens
  rw [hgeometry]
  refine ⟨hsps.trans (Nat.zero_add _), ?_, ?_⟩
  · rw [← List.range_eq_range'] at hstrings
    exact hstrings
  · rw [← List.range_eq_range', ← List.range_eq_range', filterMap_getD_range] at hids
    exact hids

/-- The identities of a rebuilt line: its words have theirs, and beside their
names only what stays has one. -/
structure Renamed (line : TextLine) (lm : LineManifest) (children : List Child) : Prop where
  words : (stringChildren children).map idOf =
    (List.range (rebuiltWords lm).length).map fun n => some (newId line lm n)
  ids : (childIds children).Perm (stayingOnRebuilt line lm ++ newNames line lm)

variable [Casing]

/-- Laid out again, a line renames its children in order. -/
theorem renamed_rebuildLine {line : TextLine} {lm : LineManifest} {children : List Child}
    {losses : Dict Str Nat} {moved : Bool}
    (h : rebuildLine line (writeTextFor lm (lm.correctedText.getD lm.ocrText)).1 lm
      (writeTextFor lm (lm.correctedText.getD lm.ocrText)).2 = .ok (children, losses, moved)) :
    Renamed line lm children := by
  -- the word ids and the fresh names are read off the two branches of the writer's last match
  unfold rebuildLine at h
  obtain ⟨box, hbox, h⟩ := Fallible.bind_eq_ok.mp h
  have hbreak := @writesBreakSpace_iff _ line lm box hbox
  have hnames := perm_newId line lm
  dsimp only at h
  rw [← rebuiltTokens] at h
  split at h
  -- an empty text writes no String and no SP, so nothing of the old line stays
  · next hnone =>
    cases h
    have hwords : rebuiltWords lm = [] := by
      rw [rebuiltWords, hnone]
      rfl
    have hspaces : spacesWritten line lm = 0 := by
      rw [spacesWritten, hnone, if_neg fun hwrites => (hbreak.mp hwrites).1 hnone]
      rfl
    rw [hwords] at hnames
    constructor
    · rw [stringChildren_append, stringChildren_clearLine, stringChildren_blankTail, hwords]
      rfl
    · rw [childIds_append, childIds_blankTail, stayingOnRebuilt, hspaces, List.take_zero]
      refine List.perm_iff_count.mpr fun id => ?_
      have hcount := hnames.count_eq id
      simp only [List.length_nil, List.range_zero, List.map_nil, List.count_nil, List.count_append,
        List.filterMap_nil] at hcount ⊢
      omega
  · next hsome =>
    cases h
    obtain ⟨hsps, hstrings, hids⟩ := @ids_emitTokens _ line lm box (breakSlot line lm box.width
      (writeTextFor lm (lm.correctedText.getD lm.ocrText)).2) hsome
    constructor
    · rw [stringChildren_append, stringChildren_append, stringChildren_clearLine,
        stringChildren_lineTail, List.append_nil, List.nil_append]
      exact hstrings
    · rw [childIds_append, childIds_append, childIds_lineTail, hsps, stayingOnRebuilt]
      -- the break space, when one is written, reuses the SP after the last one spent on the words
      have hspaces : ((spChildren line.children).take (spacesWritten line lm)).filterMap idOf =
          ((spChildren line.children).take
            ((rebuiltTokens lm).filter isSpaceToken).length).filterMap idOf ++
          if isPart1Like lm ∧ (writeTextFor lm (lm.correctedText.getD lm.ocrText)).2 ∧
              2 ≤ (breakSlot line lm box.width
                (writeTextFor lm (lm.correctedText.getD lm.ocrText)).2).1
          then (idOf ((spChildren line.children).getD
            ((rebuiltTokens lm).filter isSpaceToken).length [])).toList
          else [] := by
        rw [spacesWritten]
        by_cases hwrites : writesBreakSpace line lm = true
        · rw [if_pos hwrites, if_pos (hbreak.mp hwrites).2, filterMap_take_succ]
        · rw [if_neg hwrites, if_neg fun h => hwrites (hbreak.mpr ⟨hsome, h⟩), List.append_nil]
          rfl
      rw [hspaces]
      refine List.perm_iff_count.mpr fun id => ?_
      have hcount := hnames.count_eq id
      have hwritten := hids.count_eq id
      simp only [List.count_append] at hcount hwritten ⊢
      omega

omit [Numerals] [Casing] [Unicode] in
/-- The `n`-th String written bears the `n`-th name. -/
theorem idOf_stringChildren_get? {children : List Child} {line : TextLine} {lm : LineManifest}
    (h : (stringChildren children).map idOf =
      (List.range (rebuiltWords lm).length).map fun n => some (newId line lm n))
    {n : Nat} (hn : n < (rebuiltWords lm).length) :
    (stringChildren children)[n]?.bind idOf = some (newId line lm n) := by
  have hread := congrArg (fun ids : List (Option Str) => ids[n]?.join) h
  simp only [List.getElem?_map] at hread
  rw [List.getElem?_range hn] at hread
  cases hword : (stringChildren children)[n]? with
  | none =>
    rw [hword] at hread
    cases hread
  | some attrib =>
    rw [hword] at hread
    exact hread

/-- **How a line is rewritten**: it is left as it is, its SUBS are set, its
words are written in place, or it is rebuilt. -/
theorem rewriteTextline_cases {line : TextLine} {lm : LineManifest} {rewritten : RewrittenLine}
    (h : rewriteTextline line lm = .ok rewritten) :
    let corrected := lm.correctedText.getD lm.ocrText
    let place := updateContentInPlace line.children (writeTextFor lm corrected).1
    (lineTextUnchanged line.children corrected = true ∧ rewritten.path = .untouched ∧
      subsNeedUpdate line.children lm = false ∧ rewritten.children = line.children) ∨
    setAttributes rewritten = .ok rewritten ∧
    ((lineTextUnchanged line.children corrected = true ∧ rewritten.path = .subsOnly ∧
      rewritten.children = applySubs line.children lm) ∨
    (lineTextUnchanged line.children corrected = false ∧ rewritten.path = .fastPath ∧
      ∃ children, place = some children ∧ rewritten.children = applySubs children lm) ∨
    (lineTextUnchanged line.children corrected = false ∧ rewritten.path = .slowPath ∧ place = none ∧
      ∃ children losses moved, rebuildLine line (writeTextFor lm corrected).1 lm
          (writeTextFor lm corrected).2 = .ok (children, losses, moved) ∧
        rewritten.children = applySubs children lm)) := by
  have hset : ∀ {written : RewrittenLine}, setAttributes written = .ok rewritten →
      setAttributes rewritten = .ok rewritten ∧ rewritten = written := by
    intro written hwritten
    have hsame := setAttributes_eq_ok hwritten
    exact ⟨hsame ▸ hwritten, hsame⟩
  -- the cases of the writer: text unchanged or not, then its subs, then whether the old words fit
  unfold rewriteTextline at h
  dsimp only at h ⊢
  cases hunchanged : lineTextUnchanged line.children (lm.correctedText.getD lm.ocrText) with
  | true =>
    simp only [hunchanged, Bool.not_true, Bool.not_false, if_true] at h
    cases hsubs : subsNeedUpdate line.children lm with
    | false =>
      simp only [hsubs, Bool.not_false, Bool.true_and, if_true] at h
      cases h
      exact .inl ⟨rfl, rfl, rfl, rfl⟩
    | true =>
      simp only [hsubs, Bool.not_true, Bool.and_false, Bool.false_eq_true, if_false] at h
      obtain ⟨hxml, rfl⟩ := hset h
      exact .inr ⟨hxml, .inl ⟨rfl, rfl, rfl⟩⟩
  | false =>
    simp only [hunchanged, Bool.not_false, Bool.not_true, Bool.false_eq_true, Bool.false_and,
      if_false] at h
    split at h
    · next children hplace =>
      obtain ⟨hxml, rfl⟩ := hset h
      exact .inr ⟨hxml, .inr (.inl ⟨rfl, rfl, children, hplace, rfl⟩)⟩
    · next hplace =>
      obtain ⟨⟨children, losses, moved⟩, hrebuild, h⟩ := Fallible.bind_eq_ok.mp h
      obtain ⟨hxml, rfl⟩ := hset h
      exact .inr ⟨hxml, .inr (.inr ⟨rfl, rfl, hplace, children, losses, moved, hrebuild, rfl⟩)⟩

/-- What the rewriter does to the identities of a line, rebuilt or not. -/
theorem ids_rewriteTextline {line : TextLine} {lm : LineManifest} {rewritten : RewrittenLine}
    (h : rewriteTextline line lm = .ok rewritten) :
    (rebuilds line lm = true → rewritten.path = .slowPath ∧ Renamed line lm rewritten.children) ∧
      (rebuilds line lm = false →
        rewritten.path ≠ .slowPath ∧ childIds rewritten.children = childIds line.children) := by
  unfold rebuilds
  dsimp only
  rcases rewriteTextline_cases h with ⟨hunchanged, hpath, -, hchildren⟩ |
    ⟨-, ⟨hunchanged, hpath, hchildren⟩ | ⟨hunchanged, hpath, children, hplace, hchildren⟩ |
      ⟨hunchanged, hpath, hplace, children, losses, moved, hrebuild, hchildren⟩⟩
  · rw [hunchanged, hchildren, hpath]
    exact ⟨nofun, fun _ => ⟨nofun, rfl⟩⟩
  · rw [hunchanged, hchildren, hpath]
    exact ⟨nofun, fun _ => ⟨nofun, (ids_applySubs _ _).1⟩⟩
  · obtain ⟨words, rfl⟩ := exists_writeContents hplace
    rw [hunchanged, hchildren, hpath, hplace]
    exact ⟨nofun, fun _ => ⟨nofun, (ids_applySubs _ _).1.trans (childIds_writeContents _ _)⟩⟩
  · rw [hunchanged, hchildren, hpath, hplace]
    have hrenamed := renamed_rebuildLine hrebuild
    refine ⟨fun _ => ⟨rfl, (ids_applySubs _ _).2.trans hrenamed.words, ?_⟩, nofun⟩
    exact (List.Perm.of_eq (ids_applySubs _ _).1).trans hrenamed.ids

/-! ## What stays is what was there -/

omit [Unicode] [Numerals] [Casing] in
theorem filterMap_idOf_cons (attrib : Attributes) (attribs : List Attributes) :
    (attrib :: attribs).filterMap idOf = (idOf attrib).toList ++ attribs.filterMap idOf := by
  rw [List.filterMap_cons]
  cases idOf attrib <;> rfl

omit [Unicode] [Numerals] [Casing] in
/-- The IDs of a line, by the kind of element that has them. -/
theorem perm_childIds (children : List Child) :
    (childIds children).Perm (childIds (clearLine children) ++
      (stringChildren children).filterMap idOf ++
      ((spChildren children).filterMap idOf ++ (hypChildren children).filterMap idOf)) := by
  -- each child adds its own id to exactly one of the four lists
  rw [List.perm_iff_count]
  intro id
  induction children with
  | nil => rfl
  | cons child children ih =>
    rw [childIds_cons, List.count_append, ih]
    cases child with
    | string attrib =>
      show _ = List.count id (childIds (clearLine children) ++
        (attrib :: stringChildren children).filterMap idOf ++
        ((spChildren children).filterMap idOf ++ (hypChildren children).filterMap idOf))
      rw [filterMap_idOf_cons, Child.attributes]
      simp only [List.count_append]
      omega
    | sp attrib =>
      show _ = List.count id (childIds (clearLine children) ++
        (stringChildren children).filterMap idOf ++
        ((attrib :: spChildren children).filterMap idOf ++ (hypChildren children).filterMap idOf))
      rw [filterMap_idOf_cons, Child.attributes]
      simp only [List.count_append]
      omega
    | hyp attrib =>
      show _ = List.count id (childIds (clearLine children) ++
        (stringChildren children).filterMap idOf ++
        ((spChildren children).filterMap idOf ++ (attrib :: hypChildren children).filterMap idOf))
      rw [filterMap_idOf_cons, Child.attributes]
      simp only [List.count_append]
      omega
    | other tag attrib =>
      show _ = List.count id (childIds (.other tag attrib :: clearLine children) ++
        (stringChildren children).filterMap idOf ++
        ((spChildren children).filterMap idOf ++ (hypChildren children).filterMap idOf))
      rw [childIds_cons]
      simp only [List.count_append]
      omega
    | comment text =>
      show _ = List.count id (childIds (.comment text :: clearLine children) ++
        (stringChildren children).filterMap idOf ++
        ((spChildren children).filterMap idOf ++ (hypChildren children).filterMap idOf))
      rw [childIds_cons]
      simp only [List.count_append]
      omega

omit [Unicode] [Numerals] [Casing] in
theorem keptStringIds_sublist (line : TextLine) (lm : LineManifest) :
    (keptStringIds line lm).Sublist ((stringChildren line.children).filterMap idOf) := by
  have hsublist := matchedSources_sublist
    ((stringChildren line.children).map (·.getD "CONTENT".toList []))
    ((rebuiltTokens lm).filter fun token => !isSpaceToken token)
  rw [List.length_map] at hsublist
  have hkept := hsublist.filterMap fun i => idOf ((stringChildren line.children).getD i [])
  rwa [filterMap_getD_range, List.take_length] at hkept

omit [Unicode] [Casing] in
/-- What stays on a rebuilt line was there. -/
theorem stayingOnRebuilt_subperm (line : TextLine) (lm : LineManifest) :
    (stayingOnRebuilt line lm).Subperm (childIds line.children) := by
  have hhyps : (keptHyps line lm).Sublist (hypChildren line.children) := by
    unfold keptHyps
    split
    · exact List.take_sublist _ _
    · split
      · exact List.Sublist.refl _
      · exact List.nil_sublist _
  have hsublist := ((List.Sublist.refl (childIds (clearLine line.children))).append
    (keptStringIds_sublist line lm)).append
      (((List.take_sublist (spacesWritten line lm) (spChildren line.children)).filterMap
        idOf).append (hhyps.filterMap idOf))
  exact hsublist.subperm.trans (perm_childIds line.children).symm.subperm

omit [Unicode] [Numerals] [Casing] in
/-- The new words of a line have names of their own. -/
theorem nodup_newNames (line : TextLine) (lm : LineManifest) : (newNames line lm).Nodup := by
  have hwords : (newWords line lm).Nodup := List.nodup_range.filter _
  refine hwords.map_on fun n _ m _ hname => ?_
  obtain ⟨k, hk, -, -⟩ := firstFree_generatedId lm.lineId n (keptStringIds line lm)
  obtain ⟨k', hk', -, -⟩ := firstFree_generatedId lm.lineId m (keptStringIds line lm)
  exact (stringId_inj (hk.symm.trans (hname.trans hk'))).2.1

omit [Unicode] [Numerals] [Casing] in
/-- A name given on a line is one of its names. -/
theorem exists_of_mem_newNames {line : TextLine} {lm : LineManifest} {id : Str}
    (h : id ∈ newNames line lm) : ∃ n k, id = stringId lm.lineId n k := by
  obtain ⟨n, -, rfl⟩ := List.mem_map.mp h
  obtain ⟨k, hk, -, -⟩ := firstFree_generatedId lm.lineId n (keptStringIds line lm)
  exact ⟨n, k, hk⟩

end Line

end Saknussemm.Alto
