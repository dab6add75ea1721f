import Saknussemm.Alto.Identity

/-! # What a rewritten ALTO line reads as.

The text of a line depends on the words, spaces and marks of its children
alone, in their order.  SUBS change none of them; a rebuilt line has the words
and spaces of its decision, cleaned of what an attribute does not hold, and
the marks that stay. -/

namespace Saknussemm.Alto

open Page (Numerals)

/-! ## Words, spaces and marks -/

/-- What a child adds to the text of its line. -/
inductive Reading where
  | word (content : Option Str)
  | space
  | mark (content : Option Str)

/-- An element that reads so. -/
def Reading.child : Reading → Child
  | .word none => .string []
  | .word (some content) => .string [("CONTENT".toList, content)]
  | .space => .sp []
  | .mark none => .hyp []
  | .mark (some content) => .hyp [("CONTENT".toList, content)]

/-- The content of a word. -/
def Reading.word? : Reading → Option (Option Str)
  | .word content => some content
  | _ => none

/-- What a child reads as. -/
def Child.reading : Child → Option Reading
  | .string attrib => some (.word (Dict.get? attrib "CONTENT".toList))
  | .sp _ => some .space
  | .hyp attrib => some (.mark (Dict.get? attrib "CONTENT".toList))
  | _ => none

/-- What the children of a line read as. -/
def readings (children : List Child) : List Reading := children.filterMap Child.reading

theorem readings_append (children children' : List Child) :
    readings (children ++ children') = readings children ++ readings children' :=
  List.filterMap_append ..

theorem get?_content (content : Str) :
    Dict.get? [("CONTENT".toList, content)] "CONTENT".toList = some content := by
  rw [Dict.get?_cons, if_pos rfl]

theorem reading_child (reading : Reading) : reading.child.reading = some reading := by
  cases reading with
  | word content =>
    cases content with
    | none => rfl
    | some content =>
      exact congrArg (fun content => some (Reading.word content)) (get?_content content)
  | space => rfl
  | mark content =>
    cases content with
    | none => rfl
    | some content =>
      exact congrArg (fun content => some (Reading.mark content)) (get?_content content)

theorem readings_map_child (all : List Reading) : readings (all.map Reading.child) = all := by
  rw [readings, List.filterMap_map]
  refine Eq.trans (List.filterMap_congr fun reading _ => ?_) (List.filterMap_some)
  exact reading_child reading

theorem readings_clearLine (children : List Child) : readings (clearLine children) = [] := by
  induction children with
  | nil => rfl
  | cons child children ih => cases child <;> exact ih

theorem map_content_stringChildren (children : List Child) :
    (stringChildren children).map (Dict.get? · "CONTENT".toList) =
      (readings children).filterMap Reading.word? := by
  rw [readings, stringChildren, List.map_filterMap, List.filterMap_filterMap]
  refine List.filterMap_congr fun child _ => ?_
  cases child <;> rfl

/-- A child adds what it reads as. -/
theorem readChild_reading (verbatim : Bool) (text : Str) (child : Child) :
    readChild verbatim text child =
      (child.reading.map fun reading => readChild verbatim text reading.child).getD text := by
  have hcontent : ∀ (attrib : Attributes) (default : Str),
      attrib.getD "CONTENT".toList default =
        (Dict.get? attrib "CONTENT".toList).getD default := fun _ _ => rfl
  cases child with
  | string attrib =>
    rw [Child.reading, Option.map_some, Option.getD_some, readChild, hcontent]
    cases Dict.get? attrib "CONTENT".toList with
    | none => rfl
    | some content => rw [Reading.child, readChild, hcontent, get?_content]
  | sp attrib => rfl
  | hyp attrib =>
    rw [Child.reading, Option.map_some, Option.getD_some, readChild, hcontent]
    cases Dict.get? attrib "CONTENT".toList with
    | none => rfl
    | some content => rw [Reading.child, readChild, hcontent, get?_content]
  | other tag attrib => rfl
  | comment text => rfl

section Text

variable [Unicode]

/-- Lines that read the same have one text. -/
theorem reconstructTextline_of_readings {children children' : List Child}
    (h : readings children = readings children') (verbatim : Bool) :
    reconstructTextline verbatim children = reconstructTextline verbatim children' := by
  have hread : ∀ (children : List Child) text, children.foldl (readChild verbatim) text =
      (readings children).foldl
        (fun text reading => readChild verbatim text reading.child) text := by
    intro children
    induction children with
    | nil => exact fun _ => rfl
    | cons child children ih =>
      intro text
      rw [List.foldl_cons, ih, readings, readings, List.filterMap_cons, readChild_reading]
      cases child.reading with
      | none => rfl
      | some reading => rfl
  rw [reconstructTextline, reconstructTextline, hread children, hread children', h]

/-- Lines that read the same say one text. -/
theorem lineTextUnchanged_of_readings {children children' : List Child}
    (h : readings children = readings children') (corrected : Str) :
    lineTextUnchanged children corrected = lineTextUnchanged children' corrected := by
  rw [lineTextUnchanged, lineTextUnchanged, canonicalLineText, canonicalLineText, buildOcrText,
    buildOcrText, reconstructTextline_of_readings h]

omit [Unicode] in
/-- SUBS are not read. -/
theorem readings_applySubs (children : List Child) (lm : LineManifest) :
    readings (applySubs children lm) = readings children := by
  have hsubs : ∀ want (attrib : Attributes),
      Child.reading (.string (setSubsOnElement want attrib)) = Child.reading (.string attrib) := by
    intro want attrib
    have hcontent : Dict.get? (setSubsOnElement want attrib) "CONTENT".toList =
        Dict.get? attrib "CONTENT".toList := by
      unfold setSubsOnElement
      split
      · rw [Dict.get?_set, if_neg (by decide), Dict.get?_set, if_neg (by decide)]
      · rw [get?_removeAttribute (by decide), get?_removeAttribute (by decide)]
    rw [Child.reading, Child.reading, hcontent]
  unfold applySubs
  dsimp only
  cases subsTarget lm (stringChildren children).length with
  | none =>
    cases forwardSubsTarget lm (stringChildren children).length with
    | none => rfl
    | some j => exact filterMap_modifyString (hsubs _) _ _
  | some i =>
    cases forwardSubsTarget lm (stringChildren children).length with
    | none => exact filterMap_modifyString (hsubs _) _ _
    | some j =>
      exact (filterMap_modifyString (hsubs _) _ _).trans (filterMap_modifyString (hsubs _) _ _)

/-! ## A rebuilt line -/

/-- What a token is written as. -/
def tokenReading (token : Str) : Reading :=
  if isSpaceToken token then .space else .word (some (cleanContent token))

omit [Unicode] in
theorem get?_content_placedAt (attrib : Attributes) (hpos vpos width height : Int) :
    Dict.get? (placedAt attrib hpos vpos width height) "CONTENT".toList =
      Dict.get? attrib "CONTENT".toList := by
  rw [placedAt, Dict.get?_set, if_neg (by decide), Dict.get?_set, if_neg (by decide), Dict.get?_set,
    if_neg (by decide), Dict.get?_set, if_neg (by decide)]

/-- A token is read as it was written. -/
theorem readings_emitToken (context : EmissionContext) (emission : Emission) (token : Str)
    (hpos width : Int) :
    readings (emitToken context emission (token, hpos, width)).children =
      readings emission.children ++ [tokenReading token] := by
  cases hspace : isSpaceToken token with
  | true =>
    rw [(@emitToken_space _ context emission token hspace hpos width).1,
      readings_append, tokenReading, if_pos hspace]
    rfl
  | false =>
    rw [emitToken_word hspace, readings_append, tokenReading, hspace, if_neg Bool.false_ne_true]
    apply congrArg (readings emission.children ++ ·)
    rw [readings, List.filterMap_cons, Child.reading, List.filterMap_nil]
    dsimp only [emitString]
    rw [get?_content_placedAt, Dict.get?_set, if_pos rfl]

theorem readings_foldl_emitToken (context : EmissionContext) (placed : List (Str × Int × Int))
    (emission : Emission) :
    readings (placed.foldl (emitToken context) emission).children =
      readings emission.children ++ (placed.map Prod.fst).map tokenReading := by
  induction placed generalizing emission with
  | nil => exact (List.append_nil _).symm
  | cons entry placed ih =>
    rw [List.foldl_cons, ih, readings_emitToken, List.append_assoc]
    rfl

/-- The tokens of a line, read one by one. -/
theorem readings_emitTokens (line : TextLine) (lm : LineManifest) (box : LineBox) (slot : Int × Int)
    {tokens : List Str} (hne : tokens ≠ []) (htokens : ∀ token ∈ tokens, token ≠ []) :
    readings (emitTokens line lm box slot tokens).children = tokens.map tokenReading := by
  obtain ⟨widths, hgeometry, hshares⟩ := exists_computeGeometry box.hpos slot.2 hne htokens
  unfold emitTokens
  rw [hgeometry, readings_foldl_emitToken, map_fst_place box.hpos hshares.length]
  rfl

/-- The marks of a rebuilt line: its first, or a dash, where it carries one;
otherwise those put back. -/
def marksWritten (line : TextLine) (lm : LineManifest) : List Reading :=
  if isPart1Like lm then
    [.mark (some ((Dict.get? ((hypChildren line.children).headD []) "CONTENT".toList).getD ['-']))]
  else if isNormal lm then
    (hypChildren line.children).map fun attrib => .mark (Dict.get? attrib "CONTENT".toList)
  else []

/-- What a rebuilt line reads as. -/
def rebuiltReadings [Numerals] (line : TextLine) (lm : LineManifest) : List Reading :=
  (rebuiltTokens lm).map tokenReading ++ (if writesBreakSpace line lm then [.space] else []) ++
    marksWritten line lm

omit [Unicode] in
/-- A trailing hyphen reads as its own content, or as `-`. -/
theorem reading_trailingHyp (origHypAttribs : Attributes) (hpos vpos width height : Int) :
    (trailingHyp origHypAttribs hpos vpos width height).reading =
      some (.mark (some ((Dict.get? origHypAttribs "CONTENT".toList).getD ['-']))) := by
  have hkept : Dict.get? (origHypAttribs.filter fun entry => entry.1 ∉ geometryAttributes)
      "CONTENT".toList = Dict.get? origHypAttribs "CONTENT".toList :=
    @Dict.get?_filter _ _ _ origHypAttribs (· ∉ geometryAttributes) _ (by decide)
  unfold trailingHyp
  rw [Child.reading, get?_content_placedAt]
  split
  · next hcontent =>
    obtain ⟨content, hget⟩ := Option.isSome_iff_exists.mp (Dict.isSome_get?.mpr hcontent)
    rw [hget, ← hkept, hget]
    rfl
  · next hcontent =>
    have hnone : Dict.get? origHypAttribs "CONTENT".toList = none := by
      rw [← hkept, ← Option.not_isSome_iff_eq_none, Dict.isSome_get?]
      exact hcontent
    rw [Dict.get?_set, if_pos rfl, hnone]
    rfl

omit [Unicode] in
theorem readings_savedHyps {line : TextLine} {lm : LineManifest} (hplain : isPart1Like lm = false) :
    readings (savedHyps line lm) = marksWritten line lm := by
  rw [savedHyps, marksWritten, hplain, if_neg Bool.false_ne_true]
  split
  · rw [readings, List.filterMap_map, ← List.filterMap_eq_map]
    rfl
  · rfl

omit [Unicode] in
theorem readings_blankTail (line : TextLine) (lm : LineManifest) (box : LineBox)
    (slot : Int × Int) : readings (blankTail line lm box slot) = marksWritten line lm := by
  unfold blankTail
  cases hpart : isPart1Like lm with
  | false => exact readings_savedHyps hpart
  | true =>
    rw [if_pos rfl, marksWritten, if_pos hpart, readings, List.filterMap_cons, reading_trailingHyp]
    rfl

omit [Unicode] in
/-- What the tail of a line reads as: the space before the break, then the marks
written back. -/
theorem readings_lineTail (line : TextLine) (lm : LineManifest) (box : LineBox) (slot : Int × Int)
    (emission : Emission) (spaceBeforeBreak : Bool) :
    readings (lineTail line lm box slot emission spaceBeforeBreak) =
      (if isPart1Like lm ∧ spaceBeforeBreak ∧ 2 ≤ slot.1 then [.space] else []) ++
        marksWritten line lm := by
  unfold lineTail
  cases hpart : isPart1Like lm with
  | false =>
    simp only [Bool.false_eq_true, false_and, if_false, List.nil_append]
    exact readings_savedHyps hpart
  | true =>
    simp only [if_true, true_and]
    rw [readings_append, reserveBreakSpace_children, marksWritten, if_pos hpart]
    refine congrArg₂ (· ++ ·) ?_ ?_
    · split <;> rfl
    · rw [readings, List.filterMap_cons, reading_trailingHyp]
      rfl

variable [Numerals] [Casing]

/-- **A rebuilt line reads** as the tokens of its decision and its marks. -/
theorem readings_rebuildLine {line : TextLine} {lm : LineManifest} {children : List Child}
    {losses : Dict Str Nat} {moved : Bool}
    (h : rebuildLine line (writeTextFor lm (lm.correctedText.getD lm.ocrText)).1 lm
      (writeTextFor lm (lm.correctedText.getD lm.ocrText)).2 = .ok (children, losses, moved)) :
    readings children = rebuiltReadings line lm := by
  unfold rebuildLine at h
  obtain ⟨box, hbox, h⟩ := Fallible.bind_eq_ok.mp h
  have hbreak := @writesBreakSpace_iff _ line lm box hbox
  dsimp only at h
  rw [← rebuiltTokens] at h
  split at h
  · next hnone =>
    cases h
    rw [readings_append, readings_clearLine, readings_blankTail, rebuiltReadings, hnone,
      if_neg fun hwrites => (hbreak.mp hwrites).1 hnone]
    rfl
  · next hsome =>
    cases h
    have htokens : ∀ token ∈ rebuiltTokens lm, token ≠ [] := fun _ => ne_nil_of_mem_tokenize
    rw [readings_append, readings_append, readings_clearLine,
      readings_emitTokens line lm box _ hsome
      htokens, readings_lineTail, rebuiltReadings, List.nil_append, List.append_assoc]
    refine congrArg (_ ++ ·) (congrArg (· ++ _) ?_)
    by_cases hwrites : writesBreakSpace line lm = true
    · rw [if_pos (hbreak.mp hwrites).2, if_pos hwrites]
    · rw [if_neg fun h => hwrites (hbreak.mpr ⟨hsome, h⟩), if_neg hwrites]

end Text

end Saknussemm.Alto
