import Saknussemm.Text

/-! # Normalisation of text on its way in and out, and how faithful it is.

Comparisons fold case after composing; the writer composes and strips
what a single-line attribute may not carry.  The reader's cleaning and
the writer's are the same function.  The artefact must say what the run
decided all the same: whitespace a format cannot store is graded, other
words are corruption. -/

namespace Saknussemm

/-! ## Normalisation -/

section Normalisation

variable [Unicode]

/-- NFC and case-folded: for comparisons that ignore case and spelling. -/
def ncfold (s : Str) : Str := Unicode.casefold (Unicode.nfc s)

/-- Every line boundary `str.splitlines` recognises. -/
def lineSeparators : List Char :=
  ['\n', '\r', '\u000B', '\u000C', '\u001C', '\u001D', '\u001E', '\u0085', '\u2028', '\u2029']

/-- Does the text hold any line boundary? -/
def hasLineSeparator (text : Str) : Bool := text.any lineSeparators.contains

/-- Characters the writer removes whatever surrounds them: the soft hyphen,
the zero-width ones, and the line and tab controls. -/
def invisibleChars : List Char :=
  ['\u00AD', '\u200B', '\u200C', '\u200D', '\uFEFF', '\n', '\r', '\t']

/-- Only the invisible-character removal of `cleanContent`. -/
def stripInvisibles (s : Str) : Str := s.filter fun c => !invisibleChars.contains c

/-- A C0 or C1 control character. -/
def isControl (c : Char) : Bool := c.toNat < 0x20 || (0x7F ≤ c.toNat && c.toNat ≤ 0x9F)

/-- Compose, then strip invisibles, then controls. -/
def cleanContent (s : Str) : Str :=
  (stripInvisibles (Unicode.nfc s)).filter fun c => !isControl c

end Normalisation

/-! ## Fidelity -/

/-- The level at which a rewritten line carries its decision, best first. -/
inductive ProjectionFidelity where
  | exact | sourceSpelling | tokenEquivalent | normalized
  deriving DecidableEq, Repr

/-- The whitespace runs of a text that starts on a word, `gap` being read. -/
def gapsFrom : Str → Str → List Str
  | gap, [] => if gap = [] then [] else [gap.reverse]
  | gap, c :: rest =>
    if isSpace c then gapsFrom (c :: gap) rest
    else if gap = [] then gapsFrom [] rest
    else gap.reverse :: gapsFrom [] rest

/-- The whitespace runs between the words of `text`. -/
def interiorGaps (text : Str) : List Str := gapsFrom [] (strip text)

/-- The weaker of two levels. -/
def ProjectionFidelity.weakest : ProjectionFidelity → ProjectionFidelity → ProjectionFidelity
  | .normalized, _ | _, .normalized => .normalized
  | .tokenEquivalent, _ | _, .tokenEquivalent => .tokenEquivalent
  | .sourceSpelling, _ | _, .sourceSpelling => .sourceSpelling
  | .exact, .exact => .exact

/-- Highest level at which `extracted` carries `decided`; `none` when their
words differ.  `verbatim` is the same line without the reader's own
substitutions. -/
def classifyProjectionFidelity (decided extracted : Str) (verbatim : Option Str) :
    Option ProjectionFidelity :=
  let floor := if verbatim.any (· ≠ extracted) then .sourceSpelling else .exact
  if decided = extracted then some floor
  else if split decided ≠ split extracted then
    if stripInvisibles decided = extracted then some .normalized else none
  else
    let swapped := ((interiorGaps decided).zip (interiorGaps extracted)).any fun (gap, gap') =>
      gap.any (!gap'.contains ·)
    some (ProjectionFidelity.weakest (if swapped then .normalized else .tokenEquivalent) floor)

/-- A projection is corrupt when its words differ by more than characters
the writers declare they remove. -/
theorem classifyProjectionFidelity_isSome {decided extracted : Str} {verbatim : Option Str} :
    (classifyProjectionFidelity decided extracted verbatim).isSome ↔
      split decided = split extracted ∨ stripInvisibles decided = extracted := by
  unfold classifyProjectionFidelity
  dsimp only
  split
  · next heq => simp [heq]
  · split
    · next hwords => split <;> grind
    · next hwords => grind

end Saknussemm
