import Saknussemm.Library.Fallible
import Saknussemm.Library.Pointwise
import Saknussemm.Page.Text
import Saknussemm.Pairing

/-! # Writing corrected text back into a PAGE line.

Geometry is never touched.  A line whose number of words is the markup's
is updated word by word; any other loses its `Word` elements and keeps its
text at line level. -/

namespace Saknussemm.Page

variable [Numerals] [Unicode]

/-- How a line was rewritten. -/
inductive RewriterPath where
  | untouched | fastPath | slowPath
  deriving DecidableEq, Repr

/-- A character an XML document may hold. -/
def isXmlChar (c : Char) : Bool :=
  c.toNat = 0x9 || c.toNat = 0xA || c.toNat = 0xD || (0x20 ≤ c.toNat && c.toNat ≤ 0xD7FF) ||
    (0xE000 ≤ c.toNat && c.toNat ≤ 0xFFFD) || (0x10000 ≤ c.toNat && c.toNat ≤ 0x10FFFF)

/-- Setting an element's text to something XML cannot hold raises. -/
structure XmlError where
  text : Str

/-- `el.text = text`. -/
def setElementText (text : Str) : Except XmlError (Option Str) :=
  if text.all isXmlChar then .ok (some text) else .error ⟨text⟩

/-- Set the text of a reading, `PlainText` too when it has one, and drop its
stale confidence. -/
def setTextequivText (te : TextEquiv) (text : Str) : Except XmlError TextEquiv := do
  let written ← setElementText text
  return { te with conf := none, unicode := some written, plainText :=
    te.plainText.map fun _ => written }

/-- A reading created by the rewriter. -/
def newTextequiv : TextEquiv := ⟨none, none, none, none⟩

/-- Update the canonical reading, or create one; the alternatives go. -/
def updateTextequiv (equivs : List TextEquiv) (text : Str) : Except XmlError (List TextEquiv) := do
  let updated ← setTextequivText ((canonicalTextequiv equivs).getD newTextequiv) text
  return [updated]

/-- Update each word in place, keeping its polygon. -/
def updateWordsFast (words : List Word) (tokens : List Str) : Except XmlError (List Word) :=
  (words.zip tokens).mapM fun (word, token) => do
    return { word with equivs := ← updateTextequiv word.equivs token }

/-- What is written for a line: composed, with the source's break mark. -/
def writtenText (line : TextLine) (rawCorrected : Str) : Str :=
  tidy (preserveBreakChar (canonicalLineText false line) (Unicode.nfc rawCorrected))

/-- A line as it was rewritten, how, and the words it lost. -/
structure RewrittenLine where
  line : TextLine
  path : RewriterPath
  wordsDropped : Nat

/-- Rewrite one line with its decided text. -/
def rewriteTextLine (line : TextLine) (rawCorrected : Str) : Except XmlError RewrittenLine :=
  let corrected := writtenText line rawCorrected
  if corrected = canonicalLineText false line then .ok ⟨line, .untouched, 0⟩
  else
    let tokens := split corrected
    if line.words ≠ [] ∧ tokens.length ≠ line.words.length then do
      let equivs ← updateTextequiv line.equivs corrected
      return ⟨{ line with equivs := equivs, words := [] }, .slowPath, line.words.length⟩
    else do
      let words ← updateWordsFast line.words tokens
      let equivs ← updateTextequiv line.equivs corrected
      return ⟨{ line with equivs := equivs, words := words }, .fastPath, 0⟩

/-! ## What rewriting a line comes to -/

omit [Numerals] [Unicode] in
theorem setTextequivText_eq_ok {te te' : TextEquiv} {text : Str} :
    setTextequivText te text = .ok te' ↔ (∀ c ∈ text, isXmlChar c = true) ∧
      te' = { te with
        conf := none, unicode := some (some text), plainText :=
            te.plainText.map fun _ => some text } := by
  rw [setTextequivText, setElementText]
  by_cases hchars : text.all isXmlChar = true
  · rw [if_pos hchars, ← List.all_eq_true]
    simp only [bind, Except.bind, pure, Except.pure, Except.ok.injEq, hchars, true_and]
    exact eq_comm
  · rw [if_neg hchars, ← List.all_eq_true]
    simp [bind, Except.bind, hchars]

/-- The one reading an updated element has. -/
def updatedTextequiv (equivs : List TextEquiv) (text : Str) : TextEquiv :=
  let te := (canonicalTextequiv equivs).getD newTextequiv
  { te with conf := none, unicode := some (some text), plainText :=
    te.plainText.map fun _ => some text }

omit [Unicode] in
theorem updateTextequiv_eq_ok {equivs equivs' : List TextEquiv} {text : Str} :
    updateTextequiv equivs text = .ok equivs' ↔ (∀ c ∈ text, isXmlChar c = true) ∧
      equivs' = [updatedTextequiv equivs text] := by
  rw [updateTextequiv, Fallible.bind_eq_ok]
  simp only [setTextequivText_eq_ok, pure, Except.pure, Except.ok.injEq]
  constructor
  · rintro ⟨te, ⟨hchars, rfl⟩, rfl⟩
    exact ⟨hchars, rfl⟩
  · rintro ⟨hchars, rfl⟩
    exact ⟨_, ⟨hchars, rfl⟩, rfl⟩

/-- What a correction of its text leaves of a word. -/
def Word.geometry (word : Word) : Option Str × Str := (word.id, word.coords)

omit [Unicode] in
/-- Updating the words of a line keeps their identity and their polygons. -/
theorem geometry_updateWordsFast {words words' : List Word} {tokens : List Str}
    (h : updateWordsFast words tokens = .ok words') (hlen : words.length ≤ tokens.length) :
    words'.map Word.geometry = words.map Word.geometry := by
  rw [updateWordsFast, Fallible.mapM_eq_ok] at h
  have hmap : words'.map Word.geometry = (words.zip tokens).map (Word.geometry ∘ Prod.fst) := by
    refine Pointwise.map_eq h fun item word hword => ?_
    obtain ⟨_, -, hword⟩ := Fallible.bind_eq_ok.mp hword
    cases hword
    rfl
  rw [hmap, ← List.map_map, List.map_fst_zip hlen]

omit [Unicode] in
/-- Words are updated when XML can hold them. -/
theorem exists_updateWordsFast (words : List Word) {tokens : List Str}
    (h : ∀ token ∈ tokens, ∀ c ∈ token, isXmlChar c = true) :
    ∃ words', updateWordsFast words tokens = .ok words' := by
  refine ⟨(words.zip tokens).map fun item =>
    { item.1 with equivs := [updatedTextequiv item.1.equivs item.2] }, ?_⟩
  rw [updateWordsFast, Fallible.mapM_eq_ok, List.forall₂_map_right_iff]
  refine List.forall₂_same.mpr fun item hitem => ?_
  have hchars := h item.2 (List.of_mem_zip hitem).2
  exact Fallible.bind_eq_ok.mpr ⟨_, updateTextequiv_eq_ok.mpr ⟨hchars, rfl⟩, rfl⟩

/-- **What rewriting a line does**: nothing when it already says the text,
else its readings are updated, and its words too unless their number
changed. -/
theorem rewriteTextLine_eq_ok {line : TextLine} {decided : Str} {rewritten : RewrittenLine}
    (h : rewriteTextLine line decided = .ok rewritten) :
    (writtenText line decided = canonicalLineText false line ∧ rewritten = ⟨line, .untouched, 0⟩) ∨
      (∀ c ∈ writtenText line decided, isXmlChar c = true) ∧ ∃ words, rewritten.line =
          { line with equivs := [updatedTextequiv line.equivs (writtenText line decided)], words :=
            words } ∧
        (line.words ≠ [] ∧ (split (writtenText line decided)).length ≠ line.words.length ∨
          rewritten.path = .fastPath ∧ rewritten.wordsDropped = 0 ∧
            words.map Word.geometry = line.words.map Word.geometry) := by
  unfold rewriteTextLine at h
  dsimp only at h
  split at h
  · next hsame =>
    cases h
    exact .inl ⟨hsame, rfl⟩
  · right
    split at h
    · next hcount =>
      obtain ⟨equivs, hequivs, h⟩ := Fallible.bind_eq_ok.mp h
      obtain ⟨hchars, rfl⟩ := updateTextequiv_eq_ok.mp hequivs
      cases h
      exact ⟨hchars, [], rfl, .inl hcount⟩
    · next hcount =>
      obtain ⟨words, hwords, h⟩ := Fallible.bind_eq_ok.mp h
      obtain ⟨equivs, hequivs, h⟩ := Fallible.bind_eq_ok.mp h
      obtain ⟨hchars, rfl⟩ := updateTextequiv_eq_ok.mp hequivs
      cases h
      refine ⟨hchars, words, rfl, .inr ⟨rfl, rfl, geometry_updateWordsFast hwords ?_⟩⟩
      by_cases hnone : line.words = []
      · simp [hnone]
      · by_contra hlt
        exact hcount ⟨hnone, by omega⟩

/-- **Rewriting raises exactly on what XML cannot hold.** -/
theorem rewriteTextLine_isOk {line : TextLine} {decided : Str} :
    (∃ rewritten, rewriteTextLine line decided = .ok rewritten) ↔
      (writtenText line decided ≠ canonicalLineText false line →
        ∀ c ∈ writtenText line decided, isXmlChar c = true) := by
  constructor
  · rintro ⟨rewritten, h⟩ hchanged
    rcases rewriteTextLine_eq_ok h with ⟨hsame, -⟩ | ⟨hchars, -⟩
    · exact absurd hsame hchanged
    · exact hchars
  · intro hchars
    unfold rewriteTextLine
    dsimp only
    split
    · exact ⟨_, rfl⟩
    · next hchanged =>
      have hupdate : updateTextequiv line.equivs (writtenText line decided) =
          .ok [updatedTextequiv line.equivs (writtenText line decided)] :=
        updateTextequiv_eq_ok.mpr ⟨hchars hchanged, rfl⟩
      split
      · exact ⟨_, Fallible.bind_eq_ok.mpr ⟨_, hupdate, rfl⟩⟩
      · have htokens : ∀ token ∈ split (writtenText line decided), ∀ c ∈ token,
            isXmlChar c = true := by
          intro token htoken c hc
          rcases mem_of_mem_splitFrom htoken hc with hnil | hmem
          · cases hnil
          · exact hchars hchanged c hmem
        obtain ⟨words, hwords⟩ := exists_updateWordsFast line.words htokens
        exact ⟨_, Fallible.bind_eq_ok.mpr ⟨_, hwords, Fallible.bind_eq_ok.mpr ⟨_, hupdate, rfl⟩⟩⟩

end Saknussemm.Page
