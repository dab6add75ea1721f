import Saknussemm.Alto.Readings

/-! # Rewriting an ALTO line twice.

A line that was rewritten is rewritten again with the same decision.  Its SUBS
are those it should have; its words are those it would be given, unless they
were stripped of spaces that only break no line: a rebuild strips its decision
of these, a write in place does not. -/

namespace Saknussemm.Alto

open Page (Numerals)

/-! ## SUBS set twice -/

/-- Writing the same `SUBS` twice is writing it once. -/
theorem setSubsOnElement_twice (want : Option (Str × Str)) {attrib : Attributes}
    (hnodup : (Dict.keys attrib).Nodup) :
    setSubsOnElement want (setSubsOnElement want attrib) = setSubsOnElement want attrib := by
  cases want with
  | none =>
    have htwice : ∀ (attrib : Attributes) (name : Str),
        removeAttribute (removeAttribute attrib name) name = removeAttribute attrib name := by
      intro attrib name
      rw [removeAttribute, removeAttribute, List.filter_filter]
      exact List.filter_congr fun entry _ => Bool.and_self _
    have hcomm : ∀ (attrib : Attributes) (name name' : Str),
        removeAttribute (removeAttribute attrib name) name' =
          removeAttribute (removeAttribute attrib name') name := by
      intro attrib name name'
      rw [removeAttribute, removeAttribute, removeAttribute, removeAttribute, List.filter_comm]
    rw [setSubsOnElement, setSubsOnElement, hcomm (removeAttribute attrib _), htwice, htwice]
  | some want =>
    have hset := Dict.nodup_keys_set (Dict.nodup_keys_set hnodup "SUBS_TYPE".toList want.1)
      "SUBS_CONTENT".toList want.2
    rw [setSubsOnElement, setSubsOnElement, Dict.set_eq_self hset (by
      rw [Dict.get?_set, if_neg (by decide), Dict.get?_set, if_pos rfl]),
      Dict.set_eq_self hset (by rw [Dict.get?_set, if_pos rfl])]

/-- A change that changes nothing. -/
theorem modifyString_eq_self {f : Attributes → Attributes} {i : Nat} {children : List Child}
    (h : ∀ attrib, (stringChildren children)[i]? = some attrib → f attrib = attrib) :
    modifyString f i children = children := by
  induction children generalizing i with
  | nil => rfl
  | cons child children ih =>
    cases child with
    | string attrib =>
      cases i with
      | zero => rw [modifyString, h attrib rfl]
      | succ i => rw [modifyString, ih fun attrib' hattrib => h attrib' hattrib]
    | sp attrib | hyp attrib | other tag attrib | comment text =>
      cases i <;> simp only [modifyString, List.cons.injEq, true_and] <;> exact ih h

theorem length_stringChildren_applySubs (children : List Child) (lm : LineManifest) :
    (stringChildren (applySubs children lm)).length = (stringChildren children).length := by
  simpa using congrArg List.length (ids_applySubs children lm).2

/-- An element that is written is written once. -/
theorem getElem?_applySubs {children : List Child} {lm : LineManifest} {i : Nat}
    {want : Option (Str × Str)}
    (hwrite : (i, want) ∈ subsWrites lm (stringChildren children).length) :
    (stringChildren (applySubs children lm))[i]? =
      (stringChildren children)[i]?.map (setSubsOnElement want) := by
  rw [stringChildren_applySubs]
  unfold subsWrites at hwrite ⊢
  cases htarget : subsTarget lm (stringChildren children).length with
  | none =>
    cases hforward : forwardSubsTarget lm (stringChildren children).length with
    | none => simp [htarget, hforward] at hwrite
    | some j =>
      rw [htarget, hforward] at hwrite
      cases List.mem_singleton.mp hwrite
      simp
  | some k =>
    cases hforward : forwardSubsTarget lm (stringChildren children).length with
    | none =>
      rw [htarget, hforward] at hwrite
      cases List.mem_singleton.mp hwrite
      simp
    | some j =>
      rw [htarget, hforward] at hwrite
      have hne : k ≠ j := by
        rintro rfl
        exact (forwardSubsTarget_spec hforward).2 htarget
      rcases List.mem_pair.mp hwrite with hfirst | hsecond
      · cases hfirst
        simp [hne.symm]
      · cases hsecond
        simp [hne]

/-- **SUBS set twice** are set once. -/
theorem applySubs_twice {children : List Child} (h : WellFormed (stringChildren children))
    (lm : LineManifest) : applySubs (applySubs children lm) lm = applySubs children lm := by
  have hlength := length_stringChildren_applySubs children lm
  -- every element written once is as it would be written again
  have hwritten : ∀ want i attrib, (i, want) ∈ subsWrites lm (stringChildren children).length →
      (stringChildren (applySubs children lm))[i]? = some attrib →
        setSubsOnElement want attrib = attrib := by
    intro want i attrib hwrite hattrib
    rw [getElem?_applySubs hwrite] at hattrib
    obtain ⟨attrib', hattrib', rfl⟩ := Option.map_eq_some_iff.mp hattrib
    exact setSubsOnElement_twice want (h attrib' (List.mem_of_getElem? hattrib'))
  generalize applySubs children lm = written at hlength hwritten
  unfold applySubs
  dsimp only
  rw [hlength]
  unfold subsWrites at hwritten
  cases htarget : subsTarget lm (stringChildren children).length with
  | none =>
    cases hforward : forwardSubsTarget lm (stringChildren children).length with
    | none => rfl
    | some j =>
      apply modifyString_eq_self
      exact fun attrib hattrib => hwritten _ j attrib (by simp [htarget, hforward]) hattrib
  | some i =>
    have hbackward : modifyString (setSubsOnElement (desiredSubs lm)) i written = written := by
      apply modifyString_eq_self
      exact fun attrib hattrib => hwritten _ i attrib (by simp [htarget]) hattrib
    dsimp only
    rw [hbackward]
    cases hforward : forwardSubsTarget lm (stringChildren children).length with
    | none => rfl
    | some j =>
      apply modifyString_eq_self
      exact fun attrib hattrib => hwritten _ j attrib (by simp [hforward]) hattrib

theorem wellFormed_applySubs {children : List Child} (h : WellFormed (stringChildren children))
    (lm : LineManifest) : WellFormed (stringChildren (applySubs children lm)) := by
  rw [stringChildren_applySubs]
  generalize subsWrites lm (stringChildren children).length = writes
  generalize stringChildren children = strings at h
  induction writes generalizing strings with
  | nil => exact h
  | cons write writes ih => exact ih _ (wellFormed_setSubs h write.2 write.1)

section Words

variable [Unicode]

/-! ## Words written twice -/

/-- What the words of a line say. -/
def contents (children : List Child) : List (Option Str) :=
  (stringChildren children).map (Dict.get? · "CONTENT".toList)

theorem writeContent_eq_self {word : Str} {attrib : Attributes} (hnodup : (Dict.keys attrib).Nodup)
    (h : Dict.get? attrib "CONTENT".toList = some (cleanContent word)) :
    writeContent word attrib = attrib := by
  unfold writeContent
  dsimp only
  rw [if_neg (not_not.mpr h), Dict.set_eq_self hnodup h]

/-- Words that are written already. -/
theorem writeContents_eq_self {children : List Child} {words : List Str}
    (hwell : WellFormed (stringChildren children))
    (h : contents children = words.map fun word => some (cleanContent word)) :
    writeContents children words = children := by
  induction children generalizing words with
  | nil => rfl
  | cons child children ih =>
    cases child with
    | string attrib =>
      obtain ⟨hattrib, hchildren⟩ := List.forall_mem_cons.mp hwell
      cases words with
      | nil => cases h
      | cons word words =>
        obtain ⟨hfirst, hrest⟩ := List.cons.inj h
        rw [writeContents, writeContent_eq_self hattrib hfirst, ih hchildren hrest]
    | sp attrib | hyp attrib | other tag attrib | comment text =>
      cases words <;> simp only [writeContents, List.cons.injEq, true_and] <;> exact ih hwell h

/-- Words are written as they are cleaned. -/
theorem contents_writeContents {children : List Child} {words : List Str}
    (hlength : words.length = (stringChildren children).length) :
    contents (writeContents children words) = words.map fun word => some (cleanContent word) := by
  have hcontent : ∀ word (attrib : Attributes),
      Dict.get? (writeContent word attrib) "CONTENT".toList = some (cleanContent word) := by
    intro word attrib
    unfold writeContent
    dsimp only
    split
    · rw [get?_removeAttribute (by decide), get?_removeAttribute (by decide),
        Dict.get?_set, if_pos rfl]
    · rw [Dict.get?_set, if_pos rfl]
  induction children generalizing words with
  | nil =>
    rw [List.length_eq_zero_iff.mp hlength]
    rfl
  | cons child children ih =>
    cases child with
    | string attrib =>
      cases words with
      | nil => cases hlength
      | cons word words =>
        exact congrArg₂ List.cons (hcontent word attrib) (ih (Nat.succ.inj hlength))
    | sp attrib | hyp attrib | other tag attrib | comment text =>
      cases words <;> exact ih hlength

/-- The words are written in place exactly when their number fits and no word
boundary moved. -/
theorem updateContentInPlace_eq_some {children written : List Child} {text : Str} :
    updateContentInPlace children text = some written ↔
      (wordTokens text).length = (stringChildren children).length ∧
      wordBoundaryMoved ((contents children).map (·.getD [])) ((wordTokens text).map cleanContent) =
        false ∧
      writeContents children (wordTokens text) = written := by
  have hcontents : (stringChildren children).map (·.getD "CONTENT".toList []) =
      (contents children).map (·.getD []) := by
    rw [contents, List.map_map]
    rfl
  unfold updateContentInPlace
  dsimp only
  rw [hcontents]
  by_cases hlength : (wordTokens text).length = (stringChildren children).length
  · rw [if_neg (not_not.mpr hlength)]
    cases hmoved : wordBoundaryMoved ((contents children).map (·.getD []))
        ((wordTokens text).map cleanContent) with
    | true => simp
    | false => simp [hlength]
  · rw [if_pos hlength]
    simp [hlength]

/-- Words that say what they would be given are left as they are. -/
theorem updateContentInPlace_again {children : List Child} {text : Str}
    (hwell : WellFormed (stringChildren children))
    (h : contents children = (wordTokens text).map fun word => some (cleanContent word)) :
    updateContentInPlace children text = some children := by
  rw [updateContentInPlace_eq_some]
  refine ⟨?_, ?_, writeContents_eq_self hwell h⟩
  · have hlength := congrArg List.length h
    rw [contents, List.length_map, List.length_map] at hlength
    exact hlength.symm
  · rw [h, List.map_map, wordBoundaryMoved, if_pos]
    exact List.map_congr_left fun _ _ => rfl

omit [Unicode] in
/-- Lines that read the same say the same words. -/
theorem contents_of_readings {children children' : List Child}
    (h : readings children = readings children') : contents children = contents children' := by
  rw [contents, contents, map_content_stringChildren, map_content_stringChildren, h]

/-! ## When a line settles -/

/-- The text written for a line. -/
def writtenText (lm : LineManifest) : Str := (writeTextFor lm (lm.correctedText.getD lm.ocrText)).1

/-- Does a rebuilt line read as its decision? -/
def readsBack [Numerals] (line : TextLine) (lm : LineManifest) : Bool :=
  lineTextUnchanged ((rebuiltReadings line lm).map Reading.child) (lm.correctedText.getD lm.ocrText)

/-- Does stripping the text written leave its words as they are? -/
def stripKeepsWords (lm : LineManifest) : Bool :=
  (wordTokens (writtenText lm)).map cleanContent = (rebuiltWords lm).map cleanContent

/-- A line settles unless it is rebuilt, reads as another text than its
decision, and has lost a space that breaks no line. -/
def Settles [Numerals] (line : TextLine) (lm : LineManifest) : Prop :=
  rebuilds line lm = true → readsBack line lm = true ∨ stripKeepsWords lm = true

/-- Would the lost spaces have a line rebuilt again, not written in place? -/
def rebuiltAgain (lm : LineManifest) : Bool :=
  (wordTokens (writtenText lm)).length ≠ (rebuiltWords lm).length ||
    wordBoundaryMoved ((rebuiltWords lm).map cleanContent)
      ((wordTokens (writtenText lm)).map cleanContent)

variable [Numerals] [Casing]

/-- Rewritten again, the line stays as it is. -/
def Settled (line : TextLine) (lm : LineManifest) (rewritten : RewrittenLine) : Prop :=
  ∃ again, rewriteTextline { line with children := rewritten.children } lm = .ok again ∧
    again.children = rewritten.children

omit [Numerals] [Casing] [Unicode] in
theorem setAttributes_again {rewritten rewritten' again : RewrittenLine}
    (h : setAttributes rewritten = .ok rewritten')
    (hchildren : again.children = rewritten.children) : setAttributes again = .ok again := by
  unfold setAttributes at h ⊢
  rw [hchildren]
  split at h
  · cases h
  · rfl

/-- A line whose SUBS and words are those it would be given settles. -/
theorem settled_of_fixed {line : TextLine} {lm : LineManifest}
    {rewritten rewritten' : RewrittenLine} (hxml : setAttributes rewritten = .ok rewritten')
    (hsubs : applySubs rewritten.children lm = rewritten.children)
    (h : lineTextUnchanged rewritten.children (lm.correctedText.getD lm.ocrText) = true ∨
      updateContentInPlace rewritten.children (writtenText lm) = some rewritten.children) :
    Settled line lm rewritten := by
  unfold Settled rewriteTextline
  dsimp only
  cases hunchanged : lineTextUnchanged rewritten.children (lm.correctedText.getD lm.ocrText) with
  | true =>
    cases subsNeedUpdate rewritten.children lm with
    | false => exact ⟨_, rfl, rfl⟩
    | true =>
      simp only [Bool.not_true, Bool.and_false, Bool.false_eq_true, if_false,
        Bool.not_false, if_true]
      rw [hsubs]
      exact ⟨_, setAttributes_again hxml rfl, rfl⟩
  | false =>
    rw [hunchanged] at h
    have hplace := h.resolve_left Bool.false_ne_true
    rw [writtenText] at hplace
    simp only [Bool.not_false, Bool.not_true, Bool.false_and, Bool.false_eq_true, if_false]
    rw [hplace]
    dsimp only
    rw [hsubs]
    exact ⟨_, setAttributes_again hxml rfl, rfl⟩

omit [Casing] in
/-- The words of a rebuilt line. -/
theorem contents_of_rebuilt {line : TextLine} {lm : LineManifest} {children : List Child}
    (h : readings children = rebuiltReadings line lm) :
    contents children = (rebuiltWords lm).map fun word => some (cleanContent word) := by
  have hwords : ∀ tokens : List Str, (tokens.map tokenReading).filterMap Reading.word? =
      (tokens.filter fun token => !isSpaceToken token).map
        fun word => some (cleanContent word) := by
    intro tokens
    induction tokens with
    | nil => rfl
    | cons token tokens ih =>
      rw [List.map_cons, List.filterMap_cons, ih, List.filter_cons, tokenReading]
      cases isSpaceToken token <;> rfl
  have hmarks : (marksWritten line lm).filterMap Reading.word? = [] := by
    unfold marksWritten
    split
    · rfl
    · split
      · rw [List.filterMap_map, List.filterMap_eq_nil_iff]
        exact fun _ _ => rfl
      · rfl
  have hspace : (if writesBreakSpace line lm = true then [Reading.space] else []).filterMap
      Reading.word? = [] := by
    split <;> rfl
  rw [contents, map_content_stringChildren, h, rebuiltReadings, List.filterMap_append,
    List.filterMap_append, hwords, hspace, hmarks, List.append_nil, List.append_nil, rebuiltWords]

/-- **A line that is rebuilt** settles when it reads as its decision, or its
words are those of the text it was written from. -/
theorem settled_of_rebuilt {line : TextLine} {lm : LineManifest} {rewritten : RewrittenLine}
    (hxml : setAttributes rewritten = .ok rewritten)
    (hwell : WellFormed (stringChildren rewritten.children))
    (hsubs : applySubs rewritten.children lm = rewritten.children)
    (hread : readings rewritten.children = rebuiltReadings line lm)
    (h : readsBack line lm = true ∨ stripKeepsWords lm = true) : Settled line lm rewritten := by
  refine settled_of_fixed hxml hsubs (h.imp (fun hback => ?_) fun hwords => ?_)
  · rwa [lineTextUnchanged_of_readings (hread.trans (readings_map_child _).symm)]
  · apply updateContentInPlace_again hwell
    have hsame := congrArg (List.map some) (of_decide_eq_true hwords)
    rw [List.map_map, List.map_map] at hsame
    exact (contents_of_rebuilt hread).trans hsame.symm

/-- Otherwise its words are written again, in place. -/
theorem not_settled_of_rebuilt {line : TextLine} {lm : LineManifest} {rewritten : RewrittenLine}
    (hread : readings rewritten.children = rebuiltReadings line lm)
    (hback : readsBack line lm = false) (hwords : stripKeepsWords lm = false)
    (hagain : rebuiltAgain lm = false) : ¬ Settled line lm rewritten := by
  rintro ⟨again, h, hchildren⟩
  have hcontents := contents_of_rebuilt hread
  have hchanged : lineTextUnchanged rewritten.children
      (lm.correctedText.getD lm.ocrText) = false := by
    rw [lineTextUnchanged_of_readings (hread.trans (readings_map_child _).symm)]
    exact hback
  rcases rewriteTextline_cases h with ⟨hunchanged, -⟩ |
    ⟨-, ⟨hunchanged, -⟩ | ⟨-, -, children, hplace, hagainChildren⟩ | ⟨-, -, hplace, -⟩⟩
  · rw [hchanged] at hunchanged
    cases hunchanged
  · rw [hchanged] at hunchanged
    cases hunchanged
  · -- the words written are those of the whole text
    obtain ⟨hlength, -, hwritten⟩ := updateContentInPlace_eq_some.mp hplace
    have hnew := contents_writeContents hlength
    rw [hwritten, ← contents_of_readings (readings_applySubs children lm),
      ← hagainChildren, hchildren, hcontents] at hnew
    have hsame := congrArg (List.map fun content : Option Str => content.getD []) hnew
    rw [List.map_map, List.map_map] at hsame
    refine absurd (decide_eq_true ?_) (ne_true_of_eq_false hwords)
    exact hsame.symm
  · rw [rebuiltAgain, Bool.or_eq_false_iff, decide_eq_false_iff_not, not_not] at hagain
    have hsome : updateContentInPlace rewritten.children (writtenText lm) =
        some (writeContents rewritten.children (wordTokens (writtenText lm))) := by
      refine updateContentInPlace_eq_some.mpr ⟨?_, ?_, rfl⟩
      · have hlength := congrArg List.length hcontents
        rw [contents, List.length_map, List.length_map] at hlength
        exact hagain.1.trans hlength.symm
      · rw [hcontents, List.map_map]
        exact hagain.2
    exact absurd (hplace.symm.trans hsome) nofun

/-- **A rewritten line settles** unless it was rebuilt, reads as another text
than its decision, and was stripped of a space that breaks no line; then it
does not, unless it is rebuilt again. -/
theorem settled_rewriteTextline {line : TextLine} {lm : LineManifest} {rewritten : RewrittenLine}
    (hwell : WellFormed (stringChildren line.children))
    (h : rewriteTextline line lm = .ok rewritten) : (Settles line lm → Settled line lm rewritten) ∧
      (¬ Settles line lm → rebuiltAgain lm = false → ¬ Settled line lm rewritten) := by
  -- unless the line is laid out again, what it settles on is asked of nothing
  have hkeeps : ∀ place : Option (List Child),
      updateContentInPlace line.children (writtenText lm) = place →
      (lineTextUnchanged line.children (lm.correctedText.getD lm.ocrText) = true ∨
        place.isSome = true) → Settles line lm := by
    intro place hplace hnot hrebuilds
    rw [rebuilds, Bool.and_eq_true, Bool.not_eq_true', ← writtenText, hplace] at hrebuilds
    rcases hnot with hunchanged | hsome
    · exact absurd hunchanged (ne_true_of_eq_false hrebuilds.1)
    · rw [Option.isNone_iff_eq_none.mp hrebuilds.2] at hsome
      cases hsome
  -- the four ways a line is written: untouched, subs only, in place, laid out again
  rcases rewriteTextline_cases h with ⟨hunchanged, -, -, hchildren⟩ |
    ⟨hxml, ⟨hunchanged, -, hchildren⟩ | ⟨-, -, children, hplace, hchildren⟩ |
      ⟨hunchanged, -, hplace, children, losses, moved, hrebuild, hchildren⟩⟩
  · refine ⟨fun _ => ⟨rewritten, ?_, rfl⟩, fun hnot => absurd (hkeeps _ rfl (.inl hunchanged)) hnot⟩
    rw [hchildren]
    exact h
  · refine ⟨fun _ => ?_, fun hnot => absurd (hkeeps _ rfl (.inl hunchanged)) hnot⟩
    refine settled_of_fixed hxml ?_ (.inl ?_)
    · rw [hchildren, applySubs_twice hwell]
    · rw [hchildren, lineTextUnchanged_of_readings (readings_applySubs _ _)]
      exact hunchanged
  · refine ⟨fun _ => ?_, fun hnot => absurd (hkeeps _ hplace (.inr rfl)) hnot⟩
    obtain ⟨hlength, -, rfl⟩ := updateContentInPlace_eq_some.mp hplace
    have hwritten := wellFormed_writeContents hwell (wordTokens (writtenText lm))
    refine settled_of_fixed hxml ?_ (.inr (updateContentInPlace_again ?_ ?_))
    · rw [hchildren]
      exact applySubs_twice hwritten lm
    · rw [hchildren]
      exact wellFormed_applySubs hwritten lm
    · rw [hchildren, contents_of_readings (readings_applySubs _ _)]
      exact contents_writeContents hlength
  -- laid out again, the second rewrite reads the readings of the first
  · have hrebuilt := (rebuilt_rebuildLine hrebuild).wellFormed
    have hread : readings rewritten.children = rebuiltReadings line lm := by
      rw [hchildren, readings_applySubs]
      exact readings_rebuildLine hrebuild
    refine ⟨fun hsettles => ?_, fun hnot hagain => ?_⟩
    · refine settled_of_rebuilt hxml ?_ ?_ hread (hsettles ?_)
      · rw [hchildren]
        exact wellFormed_applySubs hrebuilt lm
      · rw [hchildren]
        exact applySubs_twice hrebuilt lm
      · rw [rebuilds, hunchanged, hplace]
        rfl
    · rw [Settles, Classical.not_imp, not_or, Bool.not_eq_true, Bool.not_eq_true] at hnot
      exact not_settled_of_rebuilt hread hnot.2.1 hnot.2.2 hagain

end Words

/-! ## A space that breaks no line -/

/-- A line of one word. -/
def oneWordLine : TextLine where
  attrib := [("HPOS".toList, ['0']), ("VPOS".toList, ['0']), ("WIDTH".toList, "40".toList),
    ("HEIGHT".toList, ['1'])]
  children := [.string [("ID".toList, ['i']), ("CONTENT".toList, ['a'])]]

/-- What is known of that line, decided so. -/
def oneWordManifest (decided : String) : LineManifest :=
  { plainLine ['p'] 0 "l" "a" .none with correctedText := some decided.toList }

/-- One word corrected to two settles after one rewrite. -/
theorem settled_oneWordLine : ∃ rewritten,
    @rewriteTextline .ascii .ascii .digits oneWordLine (oneWordManifest "b c") = .ok rewritten ∧
    @Settled .ascii .digits .ascii oneWordLine (oneWordManifest "b c") rewritten := by
  let _ := Unicode.ascii
  let _ := Casing.ascii
  let _ := Numerals.digits
  have hok : (rewriteTextline oneWordLine (oneWordManifest "b c")).isOk = true := by decide +kernel
  have hback : readsBack oneWordLine (oneWordManifest "b c") = true := by decide +kernel
  have hwell : WellFormed (stringChildren oneWordLine.children) := by
    unfold WellFormed
    decide
  cases hrewrite : rewriteTextline oneWordLine (oneWordManifest "b c") with
  | error error =>
    rw [hrewrite] at hok
    cases hok
  | ok rewritten =>
    exact ⟨rewritten, rfl, (settled_rewriteTextline hwell hrewrite).1 fun _ => .inl hback⟩

/-- **Rewritten twice, changed twice**: the rebuild strips the space before the
first word, and the second time it is written with it. -/
theorem not_settled_oneWordLine : ∃ rewritten,
    @rewriteTextline .ascii .ascii .digits oneWordLine (oneWordManifest "\u00A0b  c") =
      .ok rewritten ∧
    ¬ @Settled .ascii .digits .ascii oneWordLine (oneWordManifest "\u00A0b  c") rewritten := by
  let _ := Unicode.ascii
  let _ := Casing.ascii
  let _ := Numerals.digits
  have htwice : (rewriteTextline oneWordLine (oneWordManifest "\u00A0b  c")).toOption.map
      (fun rewritten => (contents rewritten.children,
        (rewriteTextline { oneWordLine with children := rewritten.children }
          (oneWordManifest "\u00A0b  c")).toOption.map fun again => contents again.children)) =
      some ([some ['b'], some ['c']], some [some "\u00A0b".toList, some ['c']]) := by
    decide +kernel
  cases hrewrite : rewriteTextline oneWordLine (oneWordManifest "\u00A0b  c") with
  | error error =>
    rw [hrewrite] at htwice
    cases htwice
  | ok rewritten =>
    refine ⟨rewritten, rfl, ?_⟩
    rintro ⟨again, hagain, hchildren⟩
    rw [hrewrite] at htwice
    obtain ⟨hfirst, hsecond⟩ := Prod.mk.inj (Option.some.inj htwice)
    rw [hagain, Except.toOption, Option.map_some, hchildren, hfirst] at hsecond
    exact absurd hsecond (by decide)

end Saknussemm.Alto
