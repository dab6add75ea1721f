import Mathlib.Data.List.MinMax
import Saknussemm.Library.Dict
import Saknussemm.Pairing

/-! # Canonical text of PAGE lines and words, and the roles it gives them.

The canonical `TextEquiv` of an element is the one with the smallest
`@index`.  A line's text is that of its own canonical `TextEquiv`, or of
its words when it has none; the parser and the rewriter read it alike.
PAGE marks no hyphenation, so the parser's first pass goes by the text. -/

namespace Saknussemm.Page

/-- `int(float(raw))`, where it does not raise. -/
class Numerals where
  truncated : Str → Option Int

/-- Nothing is a number: every `@index` is the default. -/
@[reducible] def Numerals.none : Numerals := ⟨fun _ => Option.none⟩

/-- Only unsigned decimals are numbers. -/
@[reducible] def Numerals.digits : Numerals where
  truncated raw :=
    if raw ≠ [] ∧ raw.all Char.isDigit then
      some (raw.foldl (fun (n : Nat) c => 10 * n + (c.toNat - '0'.toNat)) 0 : Nat)
    else Option.none

/-- Parse an integer, a missing or unusable one being `default`. -/
def parseIntTolerant [Numerals] (raw : Option Str) (default : Int) : Int :=
  match raw with
  | none | some [] => default
  | some (c :: cs) => (Numerals.truncated (c :: cs)).getD default

/-- One reading of a line or a word: its `@index` and `@conf`, and the text
of its `Unicode` and `PlainText` children where it has them. -/
structure TextEquiv where
  index : Option Str
  conf : Option Str
  unicode : Option (Option Str)
  plainText : Option (Option Str)
  deriving DecidableEq

/-- A `Word`: its identity and polygon, and its readings. -/
structure Word where
  id : Option Str
  coords : Str
  equivs : List TextEquiv
  deriving DecidableEq

/-- A `TextLine`: its own readings and its words. -/
structure TextLine where
  id : Str
  equivs : List TextEquiv
  words : List Word
  deriving DecidableEq

variable [Numerals]

/-- The `@index` of a `TextEquiv`. -/
def indexOf (te : TextEquiv) : Int := parseIntTolerant te.index 0

/-- The canonical reading: the first with the smallest index. -/
def canonicalTextequiv (equivs : List TextEquiv) : Option TextEquiv :=
  @List.argmin _ _ Int.instLinearOrder.toPartialOrder.toPreorder Int.instLinearOrder.toDecidableLT
    indexOf equivs

variable [Unicode]

/-- The text of a reading; `verbatim` leaves it as the file spells it. -/
def unicodeText (verbatim : Bool) (te : Option TextEquiv) : Str :=
  match te.bind TextEquiv.unicode with
  | some (some text) => if verbatim then text else Unicode.nfc text
  | _ => []

/-- Canonical text of a word. -/
def wordText (verbatim : Bool) (word : Word) : Str :=
  unicodeText verbatim (canonicalTextequiv word.equivs)

/-- `text.replace("\r", "").strip()`. -/
def tidy (text : Str) : Str := strip (text.filter (· ≠ '\r'))

/-- A line's logical text. -/
def canonicalLineText (verbatim : Bool) (line : TextLine) : Str :=
  match canonicalTextequiv line.equivs with
  | some te => tidy (unicodeText verbatim (some te))
  | none =>
    let joined := List.intercalate [' '] ((line.words.map (wordText verbatim)).filter (· ≠ []))
    tidy (if verbatim then joined else Unicode.nfc joined)

/-! ## The first pass over the lines of a page -/

/-- Does the line end in a trailing mark? -/
def breaks (lm : LineManifest) : Bool := (trailingHyphenChar lm.ocrText).isSome

/-- The roles of `lines`, knowing whether the line before them breaks. -/
def assignHyphenRolesFrom : Bool → List LineManifest → List LineManifest
  | _, [] => []
  | prevHyphenated, lm :: lines =>
    let assigned :=
      if breaks lm then
        { lm with hyphenRole := if prevHyphenated then .both else .part1 }
      else lm
    assigned :: assignHyphenRolesFrom (breaks lm) lines

/-- First-pass heuristic hyphenation for PAGE. -/
def assignHyphenRoles (lines : List LineManifest) : List LineManifest :=
  assignHyphenRolesFrom false lines

end Saknussemm.Page
