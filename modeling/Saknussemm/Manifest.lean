import Mathlib.Algebra.Order.Ring.Rat
import Saknussemm.Text

/-! # The document as the pipeline sees it.

Pages, blocks, lines and their geometry: what a format parser fills and
the engine reads.  A `LineManifest` is also the run's working state: the
engine writes `correctedText`, `status` and the two hyphen slots of the
lines it was handed. -/

namespace Saknussemm

/-- Per-line outcome after the pipeline has visited a line. -/
inductive LineStatus where
  | pending | corrected | fallback | failed
  deriving DecidableEq, Repr

/-- Position of a line within a hyphenated pair: `part1` is the top line
(left fragment and trailing mark), `part2` the bottom one, `both` the
middle of a chain. -/
inductive HyphenRole where
  | none | part1 | part2 | both
  deriving DecidableEq, Repr

/-- A line or block box, in pixels of the source image. -/
structure Coords where
  hpos : Int
  vpos : Int
  width : Int
  height : Int
  deriving DecidableEq, Repr

/-- Fully qualified line identity: the only key of document-wide lookups. -/
structure LineRef where
  pageId : Str
  lineId : Str
  deriving DecidableEq, Repr

/-- One line of text with its correction and hyphenation state.

The two link slots are named after the slot, not after the reading
direction: a `part1` line continues onto the line in its PAIR slot, and
only a `both` line uses the FORWARD slot for that. -/
structure LineManifest where
  lineId : Str
  pageId : Str
  blockId : Str
  lineOrderGlobal : Nat
  coords : Coords
  ocrText : Str
  /-- Word elements of the source markup, when there are any to lose. -/
  wordCount : Option Nat
  /-- The source engine's own confidence, in `[0, 1]`. -/
  ocrConfidence : Option ℚ
  prevLineId : Option Str
  nextLineId : Option Str
  correctedText : Option Str
  status : LineStatus
  hyphenRole : HyphenRole
  hyphenPairLineId : Option Str
  hyphenPairPageId : Option Str
  hyphenSubsContent : Option Str
  hyphenSourceExplicit : Bool
  hyphenForwardPairId : Option Str
  hyphenForwardPairPageId : Option Str
  hyphenForwardSubsContent : Option Str
  hyphenForwardExplicit : Bool
  deriving DecidableEq

/-- A text block: its id and the ids of the lines it contains. -/
structure BlockManifest where
  blockId : Str
  pageId : Str
  lineIds : List Str
  deriving DecidableEq

/-- A page: source file, dimensions, and the blocks and lines it owns. -/
structure PageManifest where
  pageId : Str
  sourceFile : Str
  pageWidth : Int
  pageHeight : Int
  blocks : List BlockManifest
  lines : List LineManifest
  deriving DecidableEq

/-- A document: the structure a run consumes. -/
structure DocumentManifest where
  sourceFiles : List Str
  pages : List PageManifest
  deriving DecidableEq

/-- Every line of the document, page by page. -/
def DocumentManifest.lines (doc : DocumentManifest) : List LineManifest :=
  doc.pages.flatMap PageManifest.lines

/-- The `LineRef` of a line. -/
def lineRef (lm : LineManifest) : LineRef := ⟨lm.pageId, lm.lineId⟩

/-- Does the line carry any text?  A blank line can say nothing about a
word that spans it. -/
def LineManifest.substantive (lm : LineManifest) : Bool := !(strip lm.ocrText).isEmpty

/-- The page's lines that carry text. -/
def substantive (page : PageManifest) : List LineManifest :=
  page.lines.filter LineManifest.substantive

/-- The truth value of an optional string: `None` and `""` are both false. -/
def truthy : Option Str → Bool
  | some (_ :: _) => true
  | _ => false

@[simp] theorem truthy_none : truthy none = false := rfl
@[simp] theorem truthy_some_nil : truthy (some []) = false := rfl

/-- `a or b` on an optional string and a string. -/
def orElseStr (a : Option Str) (b : Str) : Str :=
  match a with
  | some (c :: cs) => c :: cs
  | _ => b

/-- `a or b` on two optional strings. -/
def orElseOpt (a b : Option Str) : Option Str :=
  if truthy a then a else b

end Saknussemm
