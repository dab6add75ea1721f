import Saknussemm.Policies
import Saknussemm.Library.Sweep

/-! # Format-agnostic hyphen-pair linking.

Once a parser has set each line's `hyphenRole`, the pass that links
`part1`/`both` lines to their forward partners is the same for every
format.  Two functions read a slot, one maps a role to a slot, and three
passes write them: the in-page pass, the page-id disambiguation, and the
cross-page pass. -/

namespace Saknussemm

open Sweep

/-! ## Break marks -/

/-- Terminal characters treated as a word-break hyphen: `-`, `¬`, `⸗`, the
soft hyphen, `‐` and the non-breaking hyphen. -/
def hyphenChars : List Char :=
  ['-', '\u00AC', '\u2E17', '\u00AD', '\u2010', '\u2011']

/-- Does `text` end in a word-break mark, trailing whitespace aside? -/
def endsWithBreakMark (text : Str) : Bool := endsWithAny (rstrip text) hyphenChars

/-- `text` without its trailing break marks, whatever spells them. -/
def stripTrailingBreakMarks (text : Str) : Str := rstripChars hyphenChars text

/-- The trailing hyphen character of `text`: the last token ends in a mark
with an alphabetic character immediately before it. -/
def trailingHyphenChar [Unicode] (text : Str) : Option Char :=
  match (split text).getLast? with
  | none => none
  | some last =>
    match last.getLast?, last.dropLast.getLast? with
    | some ch, some before =>
      if hyphenChars.contains ch && Unicode.isAlpha before then some ch else none
    | _, _ => none

/-- Force `corrected` to end in the source's break character when both end
in one; trailing whitespace is kept. -/
def preserveBreakChar [Unicode] (sourceText corrected : Str) : Str :=
  match trailingHyphenChar sourceText with
  | none => corrected
  | some mark =>
    let stripped := rstrip corrected
    let trailing := corrected.drop stripped.length
    match stripped.getLast? with
    | some ch =>
      if hyphenChars.contains ch && ch ≠ mark then stripped.dropLast ++ [mark] ++ trailing
      else stripped ++ trailing
    | none => stripped ++ trailing

/-! ## Reading the link slots -/

/-- One slot's link: an empty line id is no link, and an unset or empty
page id means the line's own page. -/
def slotRef (own : Str) (pageId lineId : Option Str) : Option LineRef :=
  match lineId with
  | some (c :: cs) => some ⟨orElseStr pageId own, c :: cs⟩
  | _ => none

/-- The PAIR slot's link, page-qualified. -/
def pairRef (lm : LineManifest) : Option LineRef :=
  slotRef lm.pageId lm.hyphenPairPageId lm.hyphenPairLineId

/-- The FORWARD slot's link, page-qualified. -/
def forwardRef (lm : LineManifest) : Option LineRef :=
  slotRef lm.pageId lm.hyphenForwardPairPageId lm.hyphenForwardPairId

/-- The line this line's word continues ONTO. -/
def forwardPartnerRef (lm : LineManifest) : Option LineRef :=
  match lm.hyphenRole with
  | .part1 => pairRef lm
  | .both => forwardRef lm
  | _ => none

/-- The line whose word continues onto this one. -/
def backwardPartnerRef (lm : LineManifest) : Option LineRef :=
  match lm.hyphenRole with
  | .part2 | .both => pairRef lm
  | _ => none

/-- Is this line's end-of-line break marked up in the source? -/
def forwardBreakIsExplicit (lm : LineManifest) : Bool :=
  if lm.hyphenRole = .both then lm.hyphenForwardExplicit else lm.hyphenSourceExplicit

/-- Bare line id of the forward partner, for lookups scoped to one page. -/
def forwardPartnerId (lm : LineManifest) : Option Str :=
  (forwardPartnerRef lm).map LineRef.lineId

/-- Does the line break a word at its end? -/
def opensForward (lm : LineManifest) : Bool :=
  lm.hyphenRole = .part1 || lm.hyphenRole = .both

/-! ## The in-page pass -/

/-- The candidate takes the tail side of the link: a `part1` candidate is
the middle of a chain and moves its own flags to the FORWARD fields, an
unmarked one becomes `part2`. -/
def claimCandidate (line candidate : LineManifest) : LineManifest :=
  match candidate.hyphenRole with
  | .part1 =>
    { candidate with
      hyphenForwardExplicit := candidate.hyphenSourceExplicit
      hyphenForwardSubsContent := candidate.hyphenSubsContent
      hyphenSubsContent := none
      hyphenRole := .both
      hyphenSourceExplicit := forwardBreakIsExplicit line }
  | .none =>
    { candidate with
      hyphenRole := .part2
      hyphenSourceExplicit := forwardBreakIsExplicit line }
  | _ => candidate

/-- Write the link into both lines.  A `both` line keeps its PAIR slot for
the previous line and writes its FORWARD slot. -/
def joinPair (line candidate : LineManifest) : LineManifest × LineManifest :=
  if line.hyphenRole = .both then
    let subs := orElseOpt line.hyphenForwardSubsContent candidate.hyphenSubsContent
    ({ line with
        hyphenForwardPairId := some candidate.lineId
        hyphenForwardPairPageId := some candidate.pageId
        hyphenForwardSubsContent :=
          if truthy subs then subs else line.hyphenForwardSubsContent },
     { candidate with
        hyphenPairLineId := some line.lineId
        hyphenPairPageId := some line.pageId
        hyphenSubsContent := if truthy subs then subs else candidate.hyphenSubsContent })
  else
    let subs := orElseOpt line.hyphenSubsContent candidate.hyphenSubsContent
    ({ line with
        hyphenPairLineId := some candidate.lineId
        hyphenPairPageId := some candidate.pageId
        hyphenSubsContent := if truthy subs then subs else line.hyphenSubsContent },
     { candidate with
        hyphenPairLineId := some line.lineId
        hyphenPairPageId := some line.pageId
        hyphenSubsContent := if truthy subs then subs else candidate.hyphenSubsContent })

/-- One round of the linking loop on a line and the next substantive one. -/
def linkPair (policy : PairingPolicy) (line candidate : LineManifest) :
    LineManifest × LineManifest :=
  if opensForward line && policy.canPair line candidate then
    joinPair line (claimCandidate line candidate)
  else (line, candidate)

/-- Put the rewritten substantive lines back between the blank ones. -/
def putBack : List LineManifest → List LineManifest → List LineManifest
  | [], _ => []
  | line :: lines, rewritten =>
    if line.substantive then
      match rewritten with
      | [] => line :: putBack lines []
      | new :: rewritten => new :: putBack lines rewritten
    else line :: putBack lines rewritten

/-- Second pass of a parser: link `part1`/`both` lines to their forward
partners, stepping over blank lines. -/
def linkHyphenPairs (policy : PairingPolicy) (lines : List LineManifest) : List LineManifest :=
  match lines.filter LineManifest.substantive with
  | [] => lines
  | line :: rest => putBack lines (sweep (linkPair policy) line rest)

/-! ## Page-id disambiguation -/

/-- The pages of the parsed files, in order. -/
def allPages (parsed : List (Str × List PageManifest)) : List PageManifest :=
  parsed.flatMap Prod.snd

/-- Is the page id declared by more than one page? -/
def colliding (parsed : List (Str × List PageManifest)) (pageId : Str) : Bool :=
  decide (1 < ((allPages parsed).map PageManifest.pageId).count pageId)

/-- `f"{source_name}::{page_id}"`. -/
def qualifiedId (sourceName pageId : Str) : Str := sourceName ++ [':', ':'] ++ pageId

/-- Move one line to the qualified page id, with the refs into its old page. -/
def renameLine (oldId newId : Str) (lm : LineManifest) : LineManifest :=
  { lm with
    pageId := newId
    hyphenPairPageId :=
      if lm.hyphenPairPageId = some oldId then some newId else lm.hyphenPairPageId
    hyphenForwardPairPageId :=
      if lm.hyphenForwardPairPageId = some oldId then some newId
      else lm.hyphenForwardPairPageId }

/-- Move a page, its blocks and its lines to the qualified page id. -/
def renamePage (newId : Str) (page : PageManifest) : PageManifest :=
  { page with
    pageId := newId
    blocks := page.blocks.map fun block => { block with pageId := newId }
    lines := page.lines.map (renameLine page.pageId newId) }

/-- Prefix colliding page ids with their source file name. -/
def disambiguatePageIds (parsed : List (Str × List PageManifest)) :
    List (Str × List PageManifest) :=
  parsed.map fun (sourceName, pages) =>
    (sourceName, pages.map fun page =>
      if colliding parsed page.pageId then renamePage (qualifiedId sourceName page.pageId) page
      else page)

/-! ## The cross-page pass -/

/-- The last line of a page breaks a word and has no partner yet. -/
def needsForwardLink (lm : LineManifest) : Bool :=
  (lm.hyphenRole = .part1 && !truthy lm.hyphenPairLineId) ||
    (lm.hyphenRole = .both && !truthy lm.hyphenForwardPairId)

/-- One seam: the last line of a page against the first of the next. -/
def sewSeam (policy : PairingPolicy) (lastLine firstLine : LineManifest) :
    LineManifest × LineManifest :=
  if needsForwardLink lastLine then linkPair policy lastLine firstLine
  else (lastLine, firstLine)

/-- A substantive line, marked when it is the first of its page. -/
structure SeamLine where
  opensPage : Bool
  line : LineManifest

/-- The substantive lines of one page, the first one marked. -/
def pageSeamLines (page : PageManifest) : List SeamLine :=
  match substantive page with
  | [] => []
  | first :: others => ⟨true, first⟩ :: others.map fun line => ⟨false, line⟩

/-- The document's substantive lines in order.  Pages without text add
nothing, so the last line of a page and the first of the next page with
text are neighbours here. -/
def seamLines (pages : List PageManifest) : List SeamLine := pages.flatMap pageSeamLines

/-- Only a pair whose second member opens a page is a seam. -/
def sewStep (policy : PairingPolicy) (x y : SeamLine) : SeamLine × SeamLine :=
  if y.opensPage then
    let sewn := sewSeam policy x.line y.line
    ({ x with line := sewn.1 }, { y with line := sewn.2 })
  else (x, y)

/-- Hand the rewritten substantive lines back to their pages. -/
def putBackPages : List PageManifest → List LineManifest → List PageManifest
  | [], _ => []
  | page :: pages, rewritten =>
    let n := (substantive page).length
    { page with lines := putBack page.lines (rewritten.take n) } ::
      putBackPages pages (rewritten.drop n)

/-- Sew the seams from the first line to the last. -/
def sewSeams (policy : PairingPolicy) : List SeamLine → List LineManifest
  | [] => []
  | first :: rest => (sweep (sewStep policy) first rest).map SeamLine.line

/-- Link a `part1`/`both` line at the bottom of a page to the top of the
next page with text. -/
def linkCrossPageHyphens (policy : PairingPolicy) (pages : List PageManifest) :
    List PageManifest :=
  putBackPages pages (sewSeams policy (seamLines pages))

end Saknussemm
