import Saknussemm.Alignment
import Saknussemm.Alto.Geometry
import Saknussemm.Alto.LossTable
import Saknussemm.Document
import Saknussemm.Library.Fallible
import Saknussemm.Norm
import Saknussemm.Page.Rewriter

/-! # Writing corrected text back into an ALTO line.

A line whose text and hyphen markup are already right is left untouched,
or has its markup put right; one that keeps its words is written in place;
any other is rebuilt, its tokens aligned with the words it had.  A file is
rewritten line by line. -/

namespace Saknussemm.Alto

open Page (Numerals parseIntTolerant XmlError isXmlChar)

variable [Unicode]

/-- A `TextLine` element. -/
structure TextLine where
  attrib : Attributes
  children : List Child

/-- `del el.attrib[name]`, where it is there. -/
def removeAttribute (attrib : Attributes) (name : Str) : Attributes :=
  attrib.filter fun entry => entry.1 ≠ name

/-- The attributes of the `String` children. -/
def stringChildren (children : List Child) : List Attributes := children.filterMap Child.string?

/-- The attributes of the `SP` children. -/
def spChildren (children : List Child) : List Attributes :=
  children.filterMap fun
    | .sp attrib => some attrib
    | _ => none

/-- The attributes of the `HYP` children. -/
def hypChildren (children : List Child) : List Attributes :=
  children.filterMap fun
    | .hyp attrib => some attrib
    | _ => none

/-- Change the attributes of one of the `String` children. -/
def modifyString (f : Attributes → Attributes) : Nat → List Child → List Child
  | _, [] => []
  | 0, .string attrib :: rest => .string (f attrib) :: rest
  | i + 1, .string attrib :: rest => .string attrib :: modifyString f i rest
  | i, child :: rest => child :: modifyString f i rest

/-! ## The text of a line, before and after -/

/-- The parser's logical text of a line. -/
def canonicalLineText (children : List Child) : Str := buildOcrText children

/-- Does the line say the corrected text already? -/
def lineTextUnchanged (children : List Child) (corrected : Str) : Bool :=
  canonicalLineText children = strip ((Unicode.nfc corrected).filter (· ≠ '\r'))

/-! ## SUBS attributes -/

/-- SUBS of a type, where the markup is explicit and says the whole word. -/
def subsWhen (type : String) (explicit : Bool) (content : Option Str) : Option (Str × Str) :=
  match content with
  | some (c :: cs) => if explicit then some (type.toList, c :: cs) else none
  | _ => none

/-- The SUBS of the line's primary role. -/
def desiredSubs (lm : LineManifest) : Option (Str × Str) :=
  match lm.hyphenRole with
  | .part1 => subsWhen "HypPart1" lm.hyphenSourceExplicit lm.hyphenSubsContent
  | .part2 | .both => subsWhen "HypPart2" lm.hyphenSourceExplicit lm.hyphenSubsContent
  | .none => none

/-- The SUBS of the forward role of a `both` line. -/
def desiredForwardSubs (lm : LineManifest) : Option (Str × Str) :=
  if lm.hyphenRole ≠ .both then none
  else subsWhen "HypPart1" lm.hyphenForwardExplicit lm.hyphenForwardSubsContent

/-- Which of a line's `String` elements carries the SUBS of its primary role. -/
def subsTarget (lm : LineManifest) (strings : Nat) : Option Nat :=
  if strings = 0 then none
  else
    match lm.hyphenRole with
    | .part1 => some (strings - 1)
    | .part2 | .both => some 0
    | .none => none

/-- Which one carries the forward SUBS: the last, unless it carries the
others already. -/
def forwardSubsTarget (lm : LineManifest) (strings : Nat) : Option Nat :=
  if lm.hyphenRole ≠ .both || strings = 0 then none
  else if subsTarget lm strings = some (strings - 1) then none
  else some (strings - 1)

/-- Are these the SUBS of an element? -/
def carriesSubs (want : Option (Str × Str)) (attrib : Attributes) : Bool :=
  Dict.get? attrib "SUBS_TYPE".toList = want.map Prod.fst &&
    Dict.get? attrib "SUBS_CONTENT".toList = want.map Prod.snd

/-- Do the line's SUBS differ from the ones it should have? -/
def subsNeedUpdate (children : List Child) (lm : LineManifest) : Bool :=
  let strings := stringChildren children
  let carries := fun i want => carriesSubs want (strings.getD i [])
  if lm.hyphenRole = .none then false
  else
    let backward :=
      match subsTarget lm strings.length with
      | none => (desiredSubs lm).isSome
      | some i => !carries i (desiredSubs lm)
    let forward :=
      match forwardSubsTarget lm strings.length with
      | none => false
      | some i => !carries i (desiredForwardSubs lm)
    backward || forward

/-- Set or remove the SUBS of an element. -/
def setSubsOnElement (want : Option (Str × Str)) (attrib : Attributes) : Attributes :=
  match want with
  | some (type, content) =>
    Dict.set (Dict.set attrib "SUBS_TYPE".toList type) "SUBS_CONTENT".toList content
  | none => removeAttribute (removeAttribute attrib "SUBS_TYPE".toList) "SUBS_CONTENT".toList

/-- Set or remove the SUBS of a line. -/
def applySubs (children : List Child) (lm : LineManifest) : List Child :=
  let strings := (stringChildren children).length
  let children :=
    match subsTarget lm strings with
    | none => children
    | some i => modifyString (setSubsOnElement (desiredSubs lm)) i children
  match forwardSubsTarget lm strings with
  | none => children
  | some i => modifyString (setSubsOnElement (desiredForwardSubs lm)) i children

/-! ## In place -/

/-- Would pairing words by position put a word in another's box? -/
def wordBoundaryMoved (originals words : List Str) : Bool :=
  if originals = words then false
  else if originals.flatten = words.flatten then true
  else
    (originals.zip words).any fun (original, word) =>
      max 1 (original.length / 2) < ((word.length : Int) - original.length).natAbs

/-- Write a word into a `String`; another word makes its confidences false. -/
def writeContent (word : Str) (attrib : Attributes) : Attributes :=
  let content := cleanContent word
  let written := Dict.set attrib "CONTENT".toList content
  if Dict.get? attrib "CONTENT".toList ≠ some content then
    removeAttribute (removeAttribute written "WC".toList) "CC".toList
  else written

/-- Write words into the `String` children. -/
def writeContents : List Child → List Str → List Child
  | [], _ => []
  | .string attrib :: rest, word :: words =>
    .string (writeContent word attrib) :: writeContents rest words
  | child :: rest, words => child :: writeContents rest words

/-- Write the words of a text in place, unless their number changed or their
boundaries moved. -/
def updateContentInPlace (children : List Child) (corrected : Str) : Option (List Child) :=
  let strings := stringChildren children
  let words := wordTokens corrected
  if words.length ≠ strings.length then none
  else if wordBoundaryMoved (strings.map (·.getD "CONTENT".toList [])) (words.map cleanContent) then
    none
  else some (writeContents children words)

/-! ## A rebuilt line -/

/-- A line's children without its `String`, `SP` and `HYP` elements. -/
def clearLine (children : List Child) : List Child :=
  children.filter fun
    | .string _ | .sp _ | .hyp _ => false
    | _ => true

/-- `str(n)`. -/
def intText (n : Int) : Str := (toString n).toList

/-- The attributes that place an element. -/
def geometryAttributes : List Str :=
  ["HPOS".toList, "VPOS".toList, "WIDTH".toList, "HEIGHT".toList]

/-- The attributes of an element with the place it has now. -/
def placedAt (attrib : Attributes) (hpos vpos width height : Int) : Attributes :=
  Dict.set (Dict.set (Dict.set (Dict.set attrib "HPOS".toList (intText hpos))
    "VPOS".toList (intText vpos)) "WIDTH".toList (intText width)) "HEIGHT".toList (intText height)

/-- An `SP` where it stands now. -/
def emitSp (origSpAttribs : List Attributes) (n : Nat) (hpos width vpos : Int) : Child :=
  let kept := (origSpAttribs.getD n []).filter fun entry => entry.1 ∉ geometryAttributes
  .sp (Dict.set (Dict.set (Dict.set kept "WIDTH".toList (intText width)) "HPOS".toList
    (intText hpos)) "VPOS".toList (intText vpos))

/-- An ID no element of the line has. -/
def generatedId (lineId : Str) (n : Nat) (usedIds : List Str) : Str :=
  let base := lineId ++ "_STR_".toList ++ (toString n).toList.leftpad 4 '0'
  if base ∉ usedIds then base
  else
    let candidates := (List.range' 2 (usedIds.length + 1)).map fun suffix =>
      base ++ ['_'] ++ (toString suffix).toList
    (candidates.find? (· ∉ usedIds)).getD base

/-- What a rebuilt `String` keeps of the one it was: identity and style. -/
def recycledAttributes (recycled : Option Attributes) : Attributes :=
  ["ID".toList, "STYLEREFS".toList, "STYLE".toList].filterMap fun name =>
    (recycled.bind (Dict.get? · name)).map (name, ·)

/-- A `String` for a token, and the ID it was given. -/
def emitString (recycled : Option Attributes) (n : Nat) (lineId token : Str)
    (hpos width vpos height : Int) (usedIds : List Str) : Attributes × Str :=
  let kept := recycledAttributes recycled
  let id := (Dict.get? kept "ID".toList).getD (generatedId lineId n usedIds)
  let named := Dict.set kept "ID".toList id
  let written := Dict.set named "CONTENT".toList (cleanContent token)
  (placedAt written hpos vpos width height, id)

/-- The `HYP` at the end of a line that breaks a word. -/
def trailingHyp (origHypAttribs : Attributes) (hpos vpos width height : Int) : Child :=
  let kept := origHypAttribs.filter fun entry => entry.1 ∉ geometryAttributes
  let marked := if "CONTENT".toList ∈ Dict.keys kept then kept else Dict.set kept
    "CONTENT".toList ['-']
  .hyp (placedAt marked hpos vpos width height)

/-- Remove one trailing break mark: the `HYP` says it. -/
def dropStructuralBreakHyphen (text : Str) : Str :=
  let stripped := rstrip text
  if endsWithAny stripped hyphenChars then stripped.dropLast else text

/-- What to write for a line, and whether a space stands before its mark. -/
def writeTextFor (lm : LineManifest) (corrected : Str) : Str × Bool :=
  if (lm.hyphenRole = .part1 ∨ lm.hyphenRole = .both) ∧ forwardBreakIsExplicit lm = true then
    let writeText := dropStructuralBreakHyphen corrected
    (writeText, writeText ≠ rstrip writeText)
  else (corrected, false)

/-- Does the line carry a mark in a `HYP` of its own? -/
def isPart1Like (lm : LineManifest) : Bool :=
  (lm.hyphenRole = .part1 || lm.hyphenRole = .both) && lm.hyphenSourceExplicit

/-- Are the line's `HYP` elements put back as they were? -/
def isNormal (lm : LineManifest) : Bool := !isPart1Like lm && lm.hyphenRole ≠ .part2

/-- The `HYP` elements put back as they were. -/
def savedHyps (line : TextLine) (lm : LineManifest) : List Child :=
  if isNormal lm then (hypChildren line.children).map Child.hyp else []

section Numbers

variable [Numerals]

/-- Split a line's width into the mark's and the text's. -/
def reserveBreakSlot (origHypAttribs : Attributes) (width : Int)
    (spaceBeforeBreak : Bool) : Int × Int :=
  let origHypWidth := parseIntTolerant (Dict.get? origHypAttribs "WIDTH".toList) 0
  let hypWidth := if 0 < origHypWidth then origHypWidth else max 1 (pyRound (width * (4 / 100)))
  let hypWidth := if spaceBeforeBreak then max hypWidth 2 else hypWidth
  let hypWidth := min hypWidth (max 1 (width - 1))
  (hypWidth, max 1 (width - hypWidth))

omit [Unicode] [Numerals] in
/-- The space between the last word and the mark, taken from the mark's slot;
and what is left of the slot. -/
def reserveBreakSpace (origSpAttribs : List Attributes) (n : Nat) (hpos slotWidth vpos : Int)
    (wanted : Bool) : List Child × Int × Int :=
  if !wanted || slotWidth < 2 then ([], hpos, slotWidth)
  else
    let spWidth := max 1 (slotWidth / 3)
    ([emitSp origSpAttribs n hpos spWidth vpos], hpos + spWidth, slotWidth - spWidth)

/-- Why a line is not rewritten. -/
inductive AltoError where
  | notAnInteger (raw : Str)
  | xml (error : XmlError)

/-- The slots of a line's mark and of its text. -/
def breakSlot (line : TextLine) (lm : LineManifest) (width : Int) (spaceBeforeBreak : Bool) :
    Int × Int :=
  if isPart1Like lm then
    reserveBreakSlot ((hypChildren line.children).headD []) width spaceBeforeBreak
  else (0, width)

/-- An integer attribute of the line. -/
def intAttr (attrib : Attributes) (name : String) : Except AltoError Int :=
  match Dict.get? attrib name.toList with
  | none | some [] => .ok 0
  | some (c :: cs) =>
    match Numerals.truncated (c :: cs) with
    | some n => .ok n
    | none => .error (.notAnInteger (c :: cs))

/-- Where a line stands. -/
structure LineBox where
  hpos : Int
  vpos : Int
  width : Int
  height : Int

/-- The place of a line. -/
def lineBox (line : TextLine) : Except AltoError LineBox := do
  let hpos ← intAttr line.attrib "HPOS"
  let vpos ← intAttr line.attrib "VPOS"
  let width ← intAttr line.attrib "WIDTH"
  let height ← intAttr line.attrib "HEIGHT"
  return ⟨hpos, vpos, width, height⟩

end Numbers

/-- The source tokens that were matched. -/
def matchedSources (alignment : TokenAlignment) : List Nat :=
  alignment.pairs.filterMap fun pair => if pair.targetIndex.isSome then pair.sourceIndex else none

/-- The `String` and `SP` children written so far, newest last, how many of
each, the IDs in use and where the last word stands. -/
structure Emission where
  children : List Child
  strings : Nat
  sps : Nat
  usedIds : List Str
  lastWordHpos : Int
  lastWordWidth : Int

/-- What the tokens of a line are written with. -/
structure EmissionContext where
  origStringAttribs : List Attributes
  origSpAttribs : List Attributes
  alignment : TokenAlignment
  lineId : Str
  vpos : Int
  height : Int

/-- Write one token. -/
def emitToken (context : EmissionContext) (emission : Emission)
    (placed : Str × Int × Int) : Emission :=
  let (token, hpos, width) := placed
  if isSpaceToken token then
    { emission with
      children := emission.children ++
        [emitSp context.origSpAttribs emission.sps hpos width context.vpos]
      sps := emission.sps + 1 }
  else
    let recycled := (context.alignment.sourceForTarget emission.strings).map
      (context.origStringAttribs.getD · [])
    let (attrib, id) := emitString recycled emission.strings context.lineId token hpos width
      context.vpos context.height emission.usedIds
    { emission with
      children := emission.children ++ [.string attrib]
      strings := emission.strings + 1
      usedIds := id :: emission.usedIds
      lastWordHpos := hpos
      lastWordWidth := width }

/-- The alignment of a line's words with the tokens of its correction. -/
def lineAlignment (line : TextLine) (tokens : List Str) : TokenAlignment :=
  alignTokens none charSimilarity ((stringChildren line.children).map (·.getD "CONTENT".toList []))
    (tokens.filter fun token => !isSpaceToken token)

/-- Write the tokens of a line side by side. -/
def emitTokens (line : TextLine) (lm : LineManifest) (box : LineBox) (slot : Int × Int)
    (tokens : List Str) : Emission :=
  let strings := stringChildren line.children
  let alignment := lineAlignment line tokens
  let usedIds := (matchedSources alignment).filterMap fun i =>
    Dict.get? (strings.getD i []) "ID".toList
  let context : EmissionContext :=
    ⟨strings, spChildren line.children, alignment, lm.lineId, box.vpos, box.height⟩
  (computeGeometry box.hpos slot.2 tokens).foldl (emitToken context)
    ⟨[], 0, 0, usedIds, box.hpos, slot.1⟩

/-- What follows the text of a line: its mark, after the space before it, or
the `HYP` elements it had. -/
def lineTail (line : TextLine) (lm : LineManifest) (box : LineBox) (slot : Int × Int)
    (emission : Emission) (spaceBeforeBreak : Bool) : List Child :=
  if isPart1Like lm then
    let (space, breakHpos, breakWidth) := reserveBreakSpace (spChildren line.children) emission.sps
      (emission.lastWordHpos + emission.lastWordWidth) slot.1 box.vpos spaceBeforeBreak
    space ++ [trailingHyp ((hypChildren line.children).headD []) breakHpos box.vpos breakWidth
      box.height]
  else savedHyps line lm

/-- What follows no text at all. -/
def blankTail (line : TextLine) (lm : LineManifest) (box : LineBox)
    (slot : Int × Int) : List Child :=
  if isPart1Like lm then
    [trailingHyp ((hypChildren line.children).headD []) (box.hpos + slot.2) box.vpos
      slot.1 box.height]
  else savedHyps line lm

section Losses

variable [Casing]

omit [Unicode] in
/-- The SUBS types the line writes back. -/
def wantedTypes (lm : LineManifest) : List Str :=
  [desiredSubs lm, desiredForwardSubs lm].filterMap fun want => want.map Prod.fst

/-- The attributes of a `String` by their names in upper case. -/
def byLocal (attrib : Attributes) : Dict Str Str :=
  Dict.ofList (attrib.map fun entry => (Casing.upper (localName entry.1), entry.2))

/-- Does a `String` carry SUBS the line will not write back? -/
def hasUnwantedSubs (lm : LineManifest) (attrib : Attributes) : Bool :=
  match (byLocal attrib).get? "SUBS_TYPE".toList with
  | none => false
  | some type => type ∉ wantedTypes lm

/-- Count the attributes a rebuild loses whatever the alignment says. -/
def semanticAttrLosses (origStringAttribs : List Attributes) (lm : LineManifest) : Dict Str Nat :=
  origStringAttribs.foldl
    (fun losses attrib =>
      let losses :=
        if hasUnwantedSubs lm attrib then
          subsAttributes.foldl
            (fun losses name =>
              if name ∈ (byLocal attrib).keys then countLoss losses (lossKey name) else losses)
            losses
        else losses
      attrib.foldl
        (fun losses entry =>
          let name := localName entry.1
          if Casing.upper name ∈ subsAttributes || !isUnconditionalLoss name then losses
          else countLoss losses (lossKey name))
        losses)
    []

/-- Count the style of every source `String` that was not matched. -/
def addAlignmentScopedLosses (losses : Dict Str Nat) (origStringAttribs : List Attributes)
    (matchedSources : List Nat) : Dict Str Nat :=
  origStringAttribs.zipIdx.foldl
    (fun losses (attrib, i) =>
      if i ∈ matchedSources then losses
      else
        alignmentScoped.foldl
          (fun losses name =>
            if name ∈ Dict.keys attrib then countLoss losses (lossKey name) else losses)
          losses)
    losses

/-- How many confidences the line's `String` elements still carry. -/
def confidenceAttrCount (children : List Child) : Nat :=
  ((stringChildren children).map fun attrib =>
    attrib.countP fun entry => Casing.upper (localName entry.1) ∈ invalidatedAttributes).sum

/-- A line that lost confidences lost its confidence once. -/
def confidenceLoss (before : Nat) (children : List Child) : Dict Str Nat :=
  if before = 0 ∨ before ≤ confidenceAttrCount children then []
  else [("confidence_invalidated".toList, 1)]

/-- `{**losses, **more}`. -/
def mergeLosses (losses more : Dict Str Nat) : Dict Str Nat :=
  more.foldl (fun losses entry => losses.set entry.1 entry.2) losses

/-- What a rebuild loses whatever the alignment says. -/
def rebuildLosses (line : TextLine) (lm : LineManifest) : Dict Str Nat :=
  let losses := semanticAttrLosses (stringChildren line.children) lm
  let hyps := hypChildren line.children
  if !isPart1Like lm && !isNormal lm && hyps ≠ [] then
    Dict.set losses "hyp_elements_removed".toList hyps.length
  else losses

variable [Numerals]

/-- The children a line has when its words have changed, what is lost, and
whether words seem to have moved. -/
def rebuildLine (line : TextLine) (corrected : Str) (lm : LineManifest) (spaceBeforeBreak : Bool) :
    Except AltoError (List Child × Dict Str Nat × Bool) := do
  let box ← lineBox line
  let slot := breakSlot line lm box.width spaceBeforeBreak
  let strings := stringChildren line.children
  let losses := rebuildLosses line lm
  let tokens := tokenize (strip corrected)
  if tokens = [] then
    return (clearLine line.children ++ blankTail line lm box slot,
      addAlignmentScopedLosses losses strings [], false)
  else
    let alignment := lineAlignment line tokens
    let emission := emitTokens line lm box slot tokens
    return (clearLine line.children ++ emission.children ++
        lineTail line lm box slot emission spaceBeforeBreak,
      addAlignmentScopedLosses losses strings (matchedSources alignment), alignment.moveSuspected)

/-! ## One line -/

/-- How a line was rewritten. -/
inductive RewriterPath where
  | untouched | subsOnly | fastPath | slowPath
  deriving DecidableEq, Repr

/-- A rewritten line: its children, how, what was lost and whether words
seem to have moved. -/
structure RewrittenLine where
  children : List Child
  path : RewriterPath
  losses : Dict Str Nat
  wordOrderSuspected : Bool

/-- The attributes of a child. -/
def Child.attributes : Child → Attributes
  | .string attrib | .sp attrib | .hyp attrib | .other _ attrib => attrib
  | .comment _ => []

/-- Setting an attribute to something XML cannot hold raises. -/
def setAttributes (rewritten : RewrittenLine) : Except AltoError RewrittenLine :=
  match (rewritten.children.flatMap Child.attributes).find? fun entry => !entry.2.all isXmlChar with
  | some entry => .error (.xml ⟨entry.2⟩)
  | none => .ok rewritten

/-- Rewrite one line with its decided text. -/
def rewriteTextline (line : TextLine) (lm : LineManifest) : Except AltoError RewrittenLine :=
  let corrected := lm.correctedText.getD lm.ocrText
  let textChanged := !lineTextUnchanged line.children corrected
  let subsChanged := subsNeedUpdate line.children lm
  let confBefore := confidenceAttrCount line.children
  if !textChanged && !subsChanged then .ok ⟨line.children, .untouched, [], false⟩
  else if !textChanged then
    let children := applySubs line.children lm
    setAttributes ⟨children, .subsOnly, confidenceLoss confBefore children, false⟩
  else
    let (writeText, breakSpace) := writeTextFor lm corrected
    match updateContentInPlace line.children writeText with
    | some children =>
      let children := applySubs children lm
      setAttributes ⟨children, .fastPath, confidenceLoss confBefore children, false⟩
    | none => do
      let (children, losses, moved) ← rebuildLine line writeText lm breakSpace
      let children := applySubs children lm
      setAttributes
        ⟨children, .slowPath, mergeLosses losses (confidenceLoss confBefore children), moved⟩

/-! ## A file -/

/-- A text line of a file, and the IDs of the elements inside its `String`
elements: its `SP` and `HYP` elements are empty. -/
structure FileLine where
  line : TextLine
  insideStrings : List Str

/-- The text lines of a file in document order, and the IDs of the elements
that are no part of one. -/
structure AltoFile where
  elsewhere : List Str
  lines : List FileLine

/-- Why a file is not rewritten. -/
inductive RewriteError where
  | identity (error : IdentityError)
  | line (error : AltoError)

/-- The ID of an element. -/
def idOf (attrib : Attributes) : Option Str := Dict.get? attrib "ID".toList

/-- The manifest of a line, where there is one. -/
def manifestOf (manifests : Dict Str LineManifest) (entry : FileLine) : Option LineManifest :=
  (idOf entry.line.attrib).bind manifests.get?

/-- Rewrite one line of a file.  What stood inside the words of a line goes
with them when it is rebuilt. -/
def rewriteFileLine (entry : FileLine) (lm : LineManifest) : Except AltoError FileLine := do
  let rewritten ← rewriteTextline entry.line lm
  return ⟨{ entry.line with children := rewritten.children },
    if rewritten.path = .slowPath then [] else entry.insideStrings⟩

/-- Rewrite the lines that have a manifest; two with one ID raise. -/
def rewriteFileLines (sourceName : Str) (manifests : Dict Str LineManifest) :
    List Str → List FileLine → Except RewriteError (List FileLine)
  | _, [] => .ok []
  | seen, entry :: entries =>
    match manifestOf manifests entry with
    | none => do
      let entries ← rewriteFileLines sourceName manifests seen entries
      return entry :: entries
    | some lm =>
      if lm.lineId ∈ seen then .error (.identity (.duplicateId sourceName))
      else do
        let entry ← (rewriteFileLine entry lm).mapError .line
        let entries ← rewriteFileLines sourceName manifests (lm.lineId :: seen) entries
        return entry :: entries

/-- Rewrite a file.  The processing step it records has no ID. -/
def rewriteAltoFile (sourceName : Str) (pages : List PageManifest) (file : AltoFile) :
    Except RewriteError AltoFile := do
  (ensureUniqueIdentities pages sourceName).mapError .identity
  let lines ← rewriteFileLines sourceName (manifestById pages) [] file.lines
  return { file with lines }

end Losses

end Saknussemm.Alto
