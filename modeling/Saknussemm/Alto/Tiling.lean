import Saknussemm.Alto.Rewriter
import Saknussemm.Document

/-! # A rebuilt line is tiled.

Its words, its spaces and its break mark stand side by side from the line's
left edge, each at least one unit wide, and fill its width. -/

namespace Saknussemm.Alto

open Page (Numerals)

/-- The element stands at `hpos` and is `width` wide. -/
structure StandsAt (child : Child) (hpos width : Int) : Prop where
  hpos : Dict.get? child.attributes "HPOS".toList = some (intText hpos)
  width : Dict.get? child.attributes "WIDTH".toList = some (intText width)

/-- Elements of these widths stand side by side from `hpos` on. -/
def Tiles : Int → List Child → List Int → Prop
  | _, [], [] => True
  | hpos, child :: children, width :: widths =>
    StandsAt child hpos width ∧ Tiles (hpos + width) children widths
  | _, _, _ => False

/-- Two runs of boxes that meet tile as one. -/
theorem Tiles.append {hpos : Int} {children children' : List Child} {widths widths' : List Int}
    (h : Tiles hpos children widths) (h' : Tiles (hpos + widths.sum) children' widths') :
    Tiles hpos (children ++ children') (widths ++ widths') := by
  induction children generalizing hpos widths with
  | nil =>
    cases widths with
    | nil => simpa using h'
    | cons width widths => exact h.elim
  | cons child children ih =>
    cases widths with
    | nil => exact h.elim
    | cons width widths =>
      rw [List.sum_cons, ← add_assoc] at h'
      exact ⟨h.1, ih h.2 h'⟩

/-! ## What is written stands where it was placed -/

/-- An element given a place stands there. -/
theorem standsAt_of_placedAt {child : Child} {attrib : Attributes} {hpos vpos width height : Int}
    (h : child.attributes = placedAt attrib hpos vpos width height) :
    StandsAt child hpos width := by
  constructor
  · rw [h, placedAt, Dict.get?_set, if_neg (by decide), Dict.get?_set, if_neg (by decide),
      Dict.get?_set, if_neg (by decide), Dict.get?_set, if_pos rfl]
  · rw [h, placedAt, Dict.get?_set, if_neg (by decide), Dict.get?_set, if_pos rfl]

theorem standsAt_trailingHyp (origHypAttribs : Attributes) (hpos vpos width height : Int) :
    StandsAt (trailingHyp origHypAttribs hpos vpos width height) hpos width := by
  simp only [trailingHyp]
  exact standsAt_of_placedAt (by rw [Child.attributes])

theorem standsAt_emitSp (origSpAttribs : List Attributes) (n : Nat) (hpos width vpos : Int) :
    StandsAt (emitSp origSpAttribs n hpos width vpos) hpos width := by
  constructor
  · rw [emitSp, Child.attributes, Dict.get?_set, if_neg (by decide), Dict.get?_set, if_pos rfl]
  · rw [emitSp, Child.attributes, Dict.get?_set, if_neg (by decide), Dict.get?_set,
      if_neg (by decide), Dict.get?_set, if_pos rfl]

section Rebuilding

variable [Unicode]

theorem standsAt_emitString (recycled : Option Attributes) (n : Nat) (lineId token : Str)
    (hpos width vpos height : Int) (usedIds : List Str) :
    StandsAt (.string (emitString recycled n lineId token hpos width vpos height usedIds).1)
      hpos width := by
  simp only [emitString]
  exact standsAt_of_placedAt (by rw [Child.attributes])

/-- Written, a token stands where it was placed, and the last word is
remembered. -/
theorem emitToken_spec (context : EmissionContext) (emission : Emission) (token : Str)
    (hpos width : Int) :
    ∃ child, (emitToken context emission (token, hpos, width)).children =
      emission.children ++ [child] ∧ StandsAt child hpos width ∧
      (isSpaceToken token = false →
        (emitToken context emission (token, hpos, width)).lastWordHpos +
          (emitToken context emission (token, hpos, width)).lastWordWidth = hpos + width) := by
  unfold emitToken
  dsimp only
  split
  · next hspace => exact ⟨_, rfl, standsAt_emitSp _ _ _ _ _, fun hword => by simp [hword] at hspace⟩
  · exact ⟨_, rfl, standsAt_emitString _ _ _ _ _ _ _ _ _, fun _ => rfl⟩

/-- **Placed tokens tile the line**, and a last word ends where they do. -/
theorem tiles_foldl_emitToken (context : EmissionContext) (emission : Emission) {hpos : Int}
    {tokens : List Str} {widths : List Int} (hlength : widths.length = tokens.length) :
    ∃ children, ((place hpos tokens widths).foldl (emitToken context) emission).children =
        emission.children ++ children ∧
      Tiles hpos children widths ∧
      ∀ word ∈ tokens.getLast?, isSpaceToken word = false →
        ((place hpos tokens widths).foldl (emitToken context) emission).lastWordHpos +
            ((place hpos tokens widths).foldl (emitToken context) emission).lastWordWidth =
          hpos + widths.sum := by
  -- each token stands where the one before it ended
  induction tokens generalizing emission hpos widths with
  | nil =>
    rw [List.length_nil, List.length_eq_zero_iff] at hlength
    subst hlength
    exact ⟨[], (List.append_nil _).symm, trivial, by simp⟩
  | cons token tokens ih =>
    cases widths with
    | nil => simp at hlength
    | cons width widths =>
      rw [place, List.foldl_cons]
      obtain ⟨child, hchild, hstands, hlast⟩ := emitToken_spec context emission token hpos width
      obtain ⟨children, hchildren, htiles, hword⟩ :=
        @ih (emitToken context emission (token, hpos, width)) (hpos + width) widths
          (by simpa using hlength)
      refine ⟨child :: children, ?_, ⟨hstands, htiles⟩, ?_⟩
      · rw [hchildren, hchild, List.append_assoc, List.singleton_append]
      · intro word hmem hnospace
        rw [List.sum_cons, ← add_assoc]
        cases tokens with
        | nil =>
          have hnone : widths = [] := by simpa using hlength
          subst hnone
          cases hmem
          simpa [place] using hlast hnospace
        | cons next rest =>
          rw [List.getLast?_cons_cons] at hmem
          exact hword word hmem hnospace

/-- **The tokens of a line tile it**, sharing out its text's slot. -/
theorem tiles_emitTokens (line : TextLine) (lm : LineManifest) (box : LineBox) (slot : Int × Int)
    {tokens : List Str} (hne : tokens ≠ []) (htokens : ∀ token ∈ tokens, token ≠ []) :
    ∃ widths, SharesOut slot.2 tokens widths ∧
      Tiles box.hpos (emitTokens line lm box slot tokens).children widths ∧
      ∀ word ∈ tokens.getLast?, isSpaceToken word = false →
        (emitTokens line lm box slot tokens).lastWordHpos +
          (emitTokens line lm box slot tokens).lastWordWidth = box.hpos + widths.sum := by
  obtain ⟨widths, hgeometry, hshares⟩ := exists_computeGeometry box.hpos slot.2 hne htokens
  unfold emitTokens
  rw [hgeometry]
  obtain ⟨children, hchildren, htiles, hlast⟩ := tiles_foldl_emitToken _ _ hshares.length
  refine ⟨widths, hshares, ?_, hlast⟩
  rw [hchildren]
  exact htiles

/-! ## The slot of a break mark -/

section Slot

variable [Numerals]

/-- The width of a line that carries its mark: the mark and the text take at
least a unit each. -/
def tiledWidth (lm : LineManifest) (width : Int) : Int :=
  if isPart1Like lm then max width 2 else width

omit [Unicode] in
/-- The break slot takes at least one unit from the text and leaves it one. -/
theorem reserveBreakSlot_spec (origHypAttribs : Attributes) (width : Int)
    (spaceBeforeBreak : Bool) : let slot := reserveBreakSlot origHypAttribs width spaceBeforeBreak
    1 ≤ slot.1 ∧ 1 ≤ slot.2 ∧ slot.1 + slot.2 = max width 2 := by
  have hleast : ∀ hypWidth : Int, 1 ≤ hypWidth →
      1 ≤ min hypWidth (max 1 (width - 1)) ∧
      1 ≤ max 1 (width - min hypWidth (max 1 (width - 1))) ∧
      min hypWidth (max 1 (width - 1)) + max 1 (width - min hypWidth (max 1 (width - 1))) =
        max width 2 := by
    intro hypWidth hhyp
    omega
  unfold reserveBreakSlot
  dsimp only
  apply hleast
  split <;> split <;> omega

omit [Unicode] [Numerals] in
/-- The space before a mark and the mark fill the mark's slot. -/
theorem tiles_breakSpace (origSpAttribs : List Attributes) (n : Nat) (origHypAttribs : Attributes)
    {hpos slot vpos height : Int} (wanted : Bool) (hslot : 1 ≤ slot) :
    ∃ widths, Tiles hpos
        ((reserveBreakSpace origSpAttribs n hpos slot vpos wanted).1 ++
          [trailingHyp origHypAttribs (reserveBreakSpace origSpAttribs n hpos slot vpos wanted).2.1
            vpos (reserveBreakSpace origSpAttribs n hpos slot vpos wanted).2.2 height]) widths ∧
      widths.sum = slot ∧ ∀ w ∈ widths, 1 ≤ w := by
  unfold reserveBreakSpace
  split
  · exact ⟨[slot], ⟨standsAt_trailingHyp _ _ _ _ _, trivial⟩, by simp, by simpa using hslot⟩
  · next hwide =>
    rw [Bool.or_eq_true, decide_eq_true_eq, not_or] at hwide
    refine ⟨[max 1 (slot / 3), slot - max 1 (slot / 3)],
      ⟨standsAt_emitSp _ _ _ _ _, standsAt_trailingHyp _ _ _ _ _, trivial⟩, by simp, ?_⟩
    intro w hw
    rcases List.mem_pair.mp hw with rfl | rfl <;> omega

omit [Unicode] [Numerals] in
theorem tiles_lineTail (line : TextLine) {lm : LineManifest} (box : LineBox) {slot : Int × Int}
    (emission : Emission) (spaceBeforeBreak : Bool) (hlm : isPart1Like lm = true)
    (hslot : 1 ≤ slot.1) : ∃ widths, Tiles (emission.lastWordHpos + emission.lastWordWidth)
        (lineTail line lm box slot emission spaceBeforeBreak) widths ∧
      widths.sum = slot.1 ∧ ∀ w ∈ widths, 1 ≤ w := by
  rw [lineTail, if_pos hlm]
  exact tiles_breakSpace _ _ _ _ hslot

omit [Unicode] in
/-- The slots of a line fill it. -/
theorem breakSlot_spec (line : TextLine) (lm : LineManifest) (width : Int)
    (spaceBeforeBreak : Bool) :
    (breakSlot line lm width spaceBeforeBreak).1 + (breakSlot line lm width spaceBeforeBreak).2 =
        tiledWidth lm width ∧
      (isPart1Like lm = true → 1 ≤ (breakSlot line lm width spaceBeforeBreak).1) ∧
      (isPart1Like lm = false → (breakSlot line lm width spaceBeforeBreak).1 = 0) := by
  unfold breakSlot tiledWidth
  split
  · next hlm =>
    obtain ⟨hhyp, -, hsum⟩ := reserveBreakSlot_spec ((hypChildren line.children).headD []) width
      spaceBeforeBreak
    exact ⟨hsum, fun _ => hhyp, fun hnot => by simp [hlm] at hnot⟩
  · next hlm => exact ⟨Int.zero_add _, fun hlike => absurd hlike hlm, fun _ => rfl⟩

end Slot

/-! ## The line -/

section Line

variable [Numerals] [Casing]

/-- A rebuilt line: what it kept, elements side by side from its left edge,
and the `HYP` elements put back as they were. -/
structure Tiling (line : TextLine) (lm : LineManifest) (corrected : Str) (spaceBeforeBreak : Bool)
    (children : List Child) (hpos width : Int) (tiled : List Child) (widths : List Int) : Prop where
  leftEdge : intAttr line.attrib "HPOS" = .ok hpos
  lineWidth : intAttr line.attrib "WIDTH" = .ok width
  children : children = clearLine line.children ++ tiled ++ savedHyps line lm
  /-- A mark the markup announces is among the elements, and none is put back. -/
  announced : lm.hyphenRole = .part1 ∨ lm.hyphenRole = .both → forwardBreakIsExplicit lm = true →
    savedHyps line lm = []
  tiles : Tiles hpos tiled widths
  /-- With a unit for each token, the elements fill the line. -/
  full : ((tokenize (strip corrected)).length : Int) ≤
    (breakSlot line lm width spaceBeforeBreak).2 →
    (∀ w ∈ widths, 1 ≤ w) ∧ widths.sum = tiledWidth lm width
  /-- With fewer, each token has one all the same. -/
  short : (breakSlot line lm width spaceBeforeBreak).2 < (tokenize (strip corrected)).length →
    ∀ w ∈ widths.take (tokenize (strip corrected)).length, w = 1

omit [Unicode] [Numerals] [Casing] in
/-- A mark taken off the text has a slot of its own, where the slot is reserved
for the mark that was taken off. -/
theorem savedHyps_of_announced (line : TextLine) {lm : LineManifest}
    (hslot : forwardBreakIsExplicit lm = true → lm.hyphenSourceExplicit = true)
    (hrole : lm.hyphenRole = .part1 ∨ lm.hyphenRole = .both)
    (hbreak : forwardBreakIsExplicit lm = true) : savedHyps line lm = [] := by
  have hlike : isPart1Like lm = true := by
    rcases hrole with hrole | hrole <;> simp [isPart1Like, hrole, hslot hbreak]
  simp [savedHyps, isNormal, hlike]

/-- **A rebuilt line is tiled**, where the mark that was taken off its text is
the one a slot is reserved for, and what its tokens are short of is repaid in
the end. -/
theorem tiling_rebuildLine :
    (∀ shares owed, ∃ n, Repayment.step (Repayment.run n (shares, owed)) = none) ∧
    ∀ (line : TextLine) (lm : LineManifest) (corrected : Str) (spaceBeforeBreak : Bool),
      (forwardBreakIsExplicit lm = true → lm.hyphenSourceExplicit = true) →
      strip corrected ≠ [] → ∀ children losses moved,
        rebuildLine line corrected lm spaceBeforeBreak = .ok (children, losses, moved) →
          ∃ hpos width tiled widths,
            Tiling line lm corrected spaceBeforeBreak children hpos width tiled widths := by
  -- the deficit falls by one at every step, so repaying it ends
  refine ⟨fun shares owed => ⟨owed.toNat, Repayment.step_run (Nat.le_refl _)⟩, ?_⟩
  intro line lm corrected spaceBeforeBreak hslot htext children losses moved h
  have hannounced := savedHyps_of_announced line hslot
  -- the stripped text is not empty, so the line has a last token and that token is a word
  have hne : tokenize (strip corrected) ≠ [] := List.splitBy_ne_nil.mpr htext
  obtain ⟨before, word, htokens, hword⟩ := exists_tokenize_strip htext
  have hlast : word ∈ (tokenize (strip corrected)).getLast? := by
    rw [htokens, List.getLast?_concat]
    rfl
  unfold rebuildLine at h
  obtain ⟨box, hbox, h⟩ := Fallible.bind_eq_ok.mp h
  dsimp only at h
  rw [if_neg hne] at h
  cases h
  obtain ⟨hpos, hhpos, hbox⟩ := Fallible.bind_eq_ok.mp hbox
  obtain ⟨vpos, -, hbox⟩ := Fallible.bind_eq_ok.mp hbox
  obtain ⟨width, hwidth, hbox⟩ := Fallible.bind_eq_ok.mp hbox
  obtain ⟨height, -, hbox⟩ := Fallible.bind_eq_ok.mp hbox
  cases hbox
  let slot := breakSlot line lm width spaceBeforeBreak
  let emission := emitTokens line lm ⟨hpos, vpos, width, height⟩ slot (tokenize (strip corrected))
  obtain ⟨widths, hshares, htiles, hend⟩ :=
    tiles_emitTokens line lm ⟨hpos, vpos, width, height⟩ slot hne fun _ => ne_nil_of_mem_tokenize
  obtain ⟨hslots, hmark, hnomark⟩ := breakSlot_spec line lm width spaceBeforeBreak
  -- with a mark to place, the tail closes the width; otherwise the words fill it alone
  cases hlm : isPart1Like lm with
  | true =>
    obtain ⟨tail, htail, hsum, hleast⟩ := tiles_lineTail line ⟨hpos, vpos, width, height⟩ emission
      spaceBeforeBreak hlm (hmark hlm)
    rw [hend word hlast hword] at htail
    have hnosaved : savedHyps line lm = [] := by simp [savedHyps, isNormal, hlm]
    refine ⟨hpos, width, _, widths ++ tail, hhpos, hwidth, ?_, hannounced, htiles.append htail,
      ?_, ?_⟩
    · rw [hnosaved, List.append_nil, List.append_assoc]
    · intro hfull
      refine ⟨fun w hw => (List.mem_append.mp hw).elim (hshares.least w) (hleast w), ?_⟩
      rw [List.sum_append, hshares.sum hfull, hsum, ← hslots]
      exact Int.add_comm _ _
    · intro hshort
      rw [← hshares.length, List.take_left]
      exact hshares.short hshort
  | false =>
    have htail : lineTail line lm ⟨hpos, vpos, width, height⟩ slot emission spaceBeforeBreak =
        savedHyps line lm := by simp [lineTail, hlm]
    refine ⟨hpos, width, _, widths, hhpos, hwidth, ?_, hannounced, htiles, ?_, ?_⟩
    · exact congrArg (clearLine line.children ++ emission.children ++ ·) htail
    · intro hfull
      refine ⟨hshares.least, ?_⟩
      rw [hshares.sum hfull, ← hslots, hnomark hlm, Int.zero_add]
    · intro hshort
      rw [← hshares.length, List.take_length]
      exact hshares.short hshort

end Line

end Rebuilding

/-! ## Four lines -/

/-- The line of two words and a mark, so wide. -/
def brokenLine (width : String) : TextLine where
  attrib := [("HPOS".toList, ['0']), ("VPOS".toList, ['0']), ("WIDTH".toList, width.toList),
    ("HEIGHT".toList, ['1'])]
  children := [.string [("CONTENT".toList, "le".toList)],
    .string [("CONTENT".toList, "por".toList)],
    .hyp [("CONTENT".toList, ['-']), ("HPOS".toList, ['3']), ("WIDTH".toList, ['2'])]]

/-- What is known of that line: it breaks a word, and its markup says so or
not. -/
def brokenManifest (explicit : Bool) : LineManifest :=
  { plainLine "p".toList 0 "a" "le por-" .part1 with hyphenSourceExplicit := explicit }

/-- The broken line tiles its width. -/
theorem tiling_brokenLine : ∃ children losses moved,
    @rebuildLine .ascii .ascii .digits (brokenLine "20") "porte".toList (brokenManifest true) true =
      .ok (children, losses, moved) ∧
    ∃ hpos width tiled widths, @Tiling .digits (brokenLine "20") (brokenManifest true)
      "porte".toList true children hpos width tiled widths := by
  let _ := Unicode.ascii
  let _ := Casing.ascii
  let _ := Page.Numerals.digits
  have hok : (rebuildLine (brokenLine "20") "porte".toList (brokenManifest true)
      true).isOk = true := by
    decide +kernel
  cases hrebuild : rebuildLine (brokenLine "20") "porte".toList (brokenManifest true) true with
  | error error =>
    rw [hrebuild] at hok
    cases hok
  | ok result =>
    obtain ⟨children, losses, moved⟩ := result
    exact ⟨children, losses, moved, rfl,
      tiling_rebuildLine.2 _ _ _ _ (by decide) (by decide +kernel) children losses moved hrebuild⟩

/-- Where elements say they stand, and how wide. -/
def boxes (children : List Child) : List (Option Str × Option Str) :=
  children.map fun child =>
    (Dict.get? child.attributes "HPOS".toList, Dict.get? child.attributes "WIDTH".toList)

/-- **Where a line is not filled**: one unit wide, it holds a word and a mark
of one each; emptied, it keeps its mark where the text would end; and a mark
the markup does not announce is put back where it was. -/
theorem boxes_brokenLine :
    (@rebuildLine .ascii .ascii .digits (brokenLine "1") "porte".toList (brokenManifest true)
        false).toOption.map (boxes ·.1) =
      some [(some ['0'], some ['1']), (some ['1'], some ['1'])] ∧
    (@rebuildLine .ascii .ascii .digits (brokenLine "20") [] (brokenManifest true)
        false).toOption.map (boxes ·.1) = some [(some "18".toList, some ['2'])] ∧
    (@rebuildLine .ascii .ascii .digits (brokenLine "20") "porte".toList (brokenManifest false)
        false).toOption.map (boxes ·.1) =
      some [(some ['0'], some "20".toList), (some ['3'], some ['2'])] := by
  refine ⟨?_, ?_, ?_⟩
  · decide +kernel
  · decide +kernel
  · decide +kernel

end Saknussemm.Alto
