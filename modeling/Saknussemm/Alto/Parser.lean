import Saknussemm.Library.Dict
import Saknussemm.Pairing

/-! # The first pass of the ALTO parser over one line.

A `TextLine` is a list of `String`, `SP` and `HYP` elements.  The parser and
the rewriter read its text with the same walk.  What the markup says about a
broken word comes first, and what the text says where the markup is silent. -/

namespace Saknussemm.Alto

variable [Unicode]

/-! ## The text of a line -/

/-- The attributes of an element, in document order. -/
abbrev Attributes := Dict Str Str

/-- `el.get(name, default)`. -/
def Attributes.getD (attrib : Attributes) (name default : Str) : Str :=
  (Dict.get? attrib name).getD default

/-- A child of a `TextLine`.  Comments and processing instructions are
children with no tag name. -/
inductive Child where
  | string (attrib : Attributes)
  | sp (attrib : Attributes)
  | hyp (attrib : Attributes)
  | other (tag : Str) (attrib : Attributes)
  | comment (text : Str)
  deriving DecidableEq

/-- Is the child an element? -/
def Child.isElement : Child → Bool
  | comment _ => false
  | _ => true

/-- The attributes of a `String`. -/
def Child.string? : Child → Option Attributes
  | string attrib => some attrib
  | _ => none

/-- Marks that count as "the `String` already rendered the break". -/
def dedupMarks : List Char := hyphenChars.filter (· ≠ '\u00AD')

/-- Source mark to what the logical text says instead. -/
def markSubstitutions : Dict Str Str := [(['\u00AD'], ['-'])]

/-- What one child adds to the text read so far. -/
def readChild (verbatim : Bool) (text : Str) : Child → Str
  | .string attrib => text ++ attrib.getD "CONTENT".toList []
  | .sp _ => text ++ [' ']
  | .hyp attrib =>
    let content := attrib.getD "CONTENT".toList ['-']
    let mark := if verbatim then content else (Dict.get? markSubstitutions content).getD content
    if mark ≠ [] && !endsWithAny text dedupMarks then text ++ mark else text
  | _ => text

/-- Walk a `TextLine`'s children and rebuild its text. -/
def reconstructTextline (verbatim : Bool) (children : List Child) : Str :=
  Unicode.nfc (children.foldl (readChild verbatim) [])

/-- The parser's logical line text. -/
def buildOcrText (children : List Child) : Str :=
  strip ((reconstructTextline false children).filter (· ≠ '\r'))

/-! ## The break a line ends on -/

/-- `if subs:` before a field is assigned. -/
def assignSubs (subs field : Option Str) : Option Str := if truthy subs then subs else field

/-- The break a line's markup announces: whether it does, and the whole word
when it says so. -/
def markedBreak (children : List Child) : Bool × Option Str :=
  let lastString := (children.filterMap Child.string?).getLast?
  match children.getLast? with
  | some (.hyp _) => (true, assignSubs (lastString.bind (Dict.get? · "SUBS_CONTENT".toList)) none)
  | _ =>
    match lastString with
    | none => (false, none)
    | some attrib =>
      if attrib.getD "SUBS_TYPE".toList [] = "HypPart1".toList then
        (true, assignSubs (Dict.get? attrib "SUBS_CONTENT".toList) none)
      else (false, none)

/-- The continuation a line's markup announces. -/
def markedContinuation (children : List Child) : Bool × Option Str :=
  match (children.filterMap Child.string?).head? with
  | none => (false, none)
  | some attrib =>
    if attrib.getD "SUBS_TYPE".toList [] = "HypPart2".toList then
      (true, Dict.get? attrib "SUBS_CONTENT".toList)
    else (false, none)

/-- First-pass hyphenation scan for a single `TextLine`. -/
def parseTextlineHyphenInfo (textline : List Child) (line : LineManifest) : LineManifest :=
  let children := textline.filter Child.isElement
  if children.isEmpty then line
  else
    let (isPart2, backwardSubs) := markedContinuation children
    let (forwardExplicit, forwardSubs) := markedBreak children
    let isPart1 := forwardExplicit || (trailingHyphenChar line.ocrText).isSome
    if isPart2 && isPart1 then
      { line with
        hyphenRole := .both
        hyphenSourceExplicit := true
        hyphenSubsContent := assignSubs backwardSubs line.hyphenSubsContent
        hyphenForwardExplicit := forwardExplicit
        hyphenForwardSubsContent := assignSubs forwardSubs line.hyphenForwardSubsContent }
    else if isPart2 then
      { line with
        hyphenRole := .part2
        hyphenSourceExplicit := true
        hyphenSubsContent := assignSubs backwardSubs line.hyphenSubsContent }
    else if isPart1 then
      { line with
        hyphenRole := .part1
        hyphenSourceExplicit := forwardExplicit
        hyphenSubsContent := assignSubs forwardSubs line.hyphenSubsContent }
    else line

/-! ## Lines without markup -/

/-- Does the child say anything about hyphenation? -/
def Child.marksHyphen : Child → Bool
  | string attrib => (Dict.get? attrib "SUBS_TYPE".toList).isSome
  | hyp _ => true
  | _ => false

omit [Unicode] in
/-- A `String` that says nothing about hyphenation has no `SUBS_TYPE`. -/
theorem getD_subsType {children : List Child}
    (hplain : ∀ child ∈ children, child.marksHyphen = false)
    {attrib : Attributes} (hmem : attrib ∈ children.filterMap Child.string?) :
    attrib.getD "SUBS_TYPE".toList [] = [] := by
  obtain ⟨child, hchild, hstring⟩ := List.mem_filterMap.mp hmem
  have hmarks := hplain child hchild
  cases child with
  | string attrib' =>
    cases hstring
    rw [Child.marksHyphen, Option.isSome_eq_false_iff, Option.isNone_iff_eq_none] at hmarks
    rw [Attributes.getD, hmarks]
    rfl
  | _ => cases hstring

omit [Unicode] in
theorem markedContinuation_of_unmarked {children : List Child}
    (hplain : ∀ child ∈ children, child.marksHyphen = false) :
    markedContinuation children = (false, none) := by
  unfold markedContinuation
  split
  · rfl
  · next attrib hhead =>
    rw [getD_subsType hplain (List.mem_of_mem_head? hhead)]
    rfl

omit [Unicode] in
/-- Without marked children no break is marked. -/
theorem markedBreak_of_unmarked {children : List Child}
    (hplain : ∀ child ∈ children, child.marksHyphen = false) :
    markedBreak children = (false, none) := by
  unfold markedBreak
  dsimp only
  split
  · next attrib hlast => cases hplain _ (List.mem_of_getLast? hlast)
  · split
    · rfl
    · next attrib hlast =>
      rw [getD_subsType hplain (List.mem_of_getLast? hlast)]
      rfl

/-- **Without markup the text decides**, and a line without a trailing mark
is left alone. -/
theorem parseTextlineHyphenInfo_of_unmarked {textline : List Child} {line : LineManifest}
    (hplain : ∀ child ∈ textline, child.marksHyphen = false)
    (hempty : textline.filter Child.isElement = [] → trailingHyphenChar line.ocrText = none) :
    parseTextlineHyphenInfo textline line =
      if (trailingHyphenChar line.ocrText).isSome then
        { line with hyphenRole := .part1, hyphenSourceExplicit := false }
      else line := by
  have hchildren : ∀ child ∈ textline.filter Child.isElement, child.marksHyphen = false :=
    fun child hchild => hplain child (List.mem_of_mem_filter hchild)
  unfold parseTextlineHyphenInfo
  simp only [markedContinuation_of_unmarked hchildren, markedBreak_of_unmarked hchildren]
  split
  · next hnil => rw [hempty (List.isEmpty_iff.mp hnil)]; rfl
  · simp [assignSubs]

end Saknussemm.Alto
