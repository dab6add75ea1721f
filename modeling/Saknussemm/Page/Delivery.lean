import Saknussemm.Norm
import Saknussemm.Page.Rewriter

/-! # What the PAGE artefact says.

The writer composes the decision and the reader composes what it reads, so
the artefact says the composed decision.  It is compared with the decision
as the producer spelled it. -/

namespace Saknussemm

/-- What the engine relies on about composition. -/
class Composition extends Unicode where
  nfc_nfc : ∀ s : Str, nfc (nfc s) = nfc s
  /-- A part of a composed text is composed. -/
  nfc_of_infix : ∀ s t : Str, nfc s = s → t <:+: s → nfc t = t
  /-- Composing makes no carriage return. -/
  no_return : ∀ s : Str, '\r' ∉ s → '\r' ∉ nfc s
  /-- Composing makes and joins no words. -/
  length_split : ∀ s : Str, (split (nfc s)).length = (split s).length
  /-- Composing makes no break mark at the end of a text. -/
  last_mark : ∀ (s : Str) (c : Char), c ∈ hyphenChars → (rstrip (nfc s)).getLast? = some c →
    (rstrip s).getLast? = some c

/-- ASCII text is composed. -/
@[reducible] def Composition.ascii : Composition where
  toUnicode := Unicode.ascii
  nfc_nfc _ := rfl
  nfc_of_infix _ _ _ _ := rfl
  no_return _ h := h
  length_split _ := rfl
  last_mark _ _ _ h := h

/-! ## Respelling twice -/

section Respell

variable [Unicode] {source text : Str}

/-- A trailing mark is the last character of its text. -/
theorem last_of_trailingHyphenChar {mark : Char} (h : trailingHyphenChar text = some mark) :
    mark ∈ hyphenChars ∧ (rstrip text).getLast? = some mark := by
  have hne : rstrip text ≠ [] := by
    intro hnil
    rw [trailingHyphenChar, split_of_strip_eq_nil (by rw [strip, hnil]; rfl)] at h
    cases h
  obtain ⟨w, htext, hw⟩ := exists_rstrip_append text
  have hnonspace : isSpace ((rstrip text).getLast hne) = false :=
    Bool.eq_false_iff.mpr (List.rdropWhile_last_not isSpace text hne)
  obtain ⟨last, hlast, hend⟩ := @exists_getLast?_splitFrom (rstrip text).dropLast [] _ hnonspace
  rw [List.dropLast_append_getLast hne, ← splitFrom_append_of_blank hw, ← htext] at hlast
  rw [List.getLast?_eq_some_getLast hne]
  rw [trailingHyphenChar, split, hlast] at h
  dsimp only at h
  rw [hend] at h
  split at h
  · next ch _ hch _ =>
    split at h
    · next hmark =>
      cases h
      cases hch
      simp only [Bool.and_eq_true, List.contains_iff_mem] at hmark
      exact ⟨hmark.1, rfl⟩
    · cases h
  · cases h

omit [Unicode] in
theorem isSpace_of_mem_hyphenChars {c : Char} (h : c ∈ hyphenChars) : isSpace c = false := by
  have hall : hyphenChars.all (fun c => !isSpace c) = true := by decide
  simpa using List.all_eq_true.mp hall c h

/-- A text that ends in no other mark than the source's is left alone. -/
theorem preserveBreakChar_of_last (h : ∀ mark, trailingHyphenChar source = some mark →
    ∀ c ∈ hyphenChars, (rstrip text).getLast? = some c → c = mark) :
    preserveBreakChar source text = text := by
  unfold preserveBreakChar
  split
  · rfl
  · next mark hmark =>
    dsimp only
    split
    · next c hc =>
      split
      · next hother =>
        simp only [Bool.and_eq_true, List.contains_iff_mem, decide_eq_true_eq] at hother
        exact absurd (h mark hmark c hother.1 hc) hother.2
      · exact (rstrip_append_drop text).1
    · exact (rstrip_append_drop text).1

/-- Respelled, a text ends in no other mark than the source's. -/
theorem last_preserveBreakChar {mark c : Char} (hmark : trailingHyphenChar source = some mark)
    (hc : c ∈ hyphenChars) (hlast : (rstrip (preserveBreakChar source text)).getLast? = some c) :
    c = mark := by
  obtain ⟨hback, hblank⟩ := rstrip_append_drop text
  rw [preserveBreakChar, hmark] at hlast
  dsimp only at hlast
  split at hlast
  · next ch hch =>
    split at hlast
    · have hspace := isSpace_of_mem_hyphenChars (last_of_trailingHyphenChar hmark).1
      rw [rstrip_append_of_blank hblank, rstrip,
        List.rdropWhile_concat_neg _ _ _ (by simp [hspace])] at hlast
      simpa using hlast.symm
    · next hkept =>
      rw [hback, hch] at hlast
      cases hlast
      simpa [hc] using hkept
  · next hnone =>
    rw [hback, hnone] at hlast
    cases hlast

/-- Respelling brings in nothing but a break mark. -/
theorem mem_of_mem_preserveBreakChar {c : Char} (h : c ∈ preserveBreakChar source text) :
    c ∈ text ∨ c ∈ hyphenChars := by
  unfold preserveBreakChar at h
  split at h
  · exact .inl h
  · next mark hmark =>
    have hback : c ∈ rstrip text ++ text.drop (rstrip text).length → c ∈ text := by
      rw [(rstrip_append_drop text).1]
      exact id
    dsimp only at h
    split at h
    · split at h
      · rw [List.append_assoc, List.mem_append, List.mem_append, List.mem_singleton] at h
        rcases h with hmem | rfl | hmem
        · exact .inl ((List.rdropWhile_prefix _ _).subset (List.dropLast_subset _ hmem))
        · exact .inr (last_of_trailingHyphenChar hmark).1
        · exact .inl (List.mem_of_mem_drop hmem)
      · exact .inl (hback h)
    · exact .inl (hback h)

end Respell

/-! ## Delivering a decision -/

/-- A text the validator lets through. -/
structure AdmissibleText where
  text : Str
  single_line : hasLineSeparator text = false
  nonblank : strip text ≠ []

namespace Page

variable [Numerals] [Composition]

/-- A line's decision, respelled with the source's break mark. -/
def decidedText (line : TextLine) (accepted : AdmissibleText) : Str :=
  if accepted.text = canonicalLineText false line then accepted.text
  else preserveBreakChar (canonicalLineText false line) accepted.text

/-- The decision reaches the artefact: writing it raises nothing, and what
is read back carries its words. -/
def Delivered (line : TextLine) (decided : Str) : Prop :=
  ∃ rewritten, rewriteTextLine line decided = .ok rewritten ∧
    (classifyProjectionFidelity decided (canonicalLineText false rewritten.line)
      (some (canonicalLineText true rewritten.line))).isSome = true

/-- A decision PAGE can say: composed it is the source or holds only XML
characters, and composing changes no word, or only takes out invisible
characters. -/
structure Sayable (line : TextLine) (decided : Str) : Prop where
  chars : strip (Unicode.nfc decided) ≠ canonicalLineText false line →
    ∀ c ∈ strip (Unicode.nfc decided), isXmlChar c = true
  words : split decided = split (Unicode.nfc decided) ∨
    stripInvisibles decided = strip (Unicode.nfc decided)

omit [Numerals] [Composition] in
/-- Tidying a text without carriage returns strips it. -/
theorem tidy_of_no_return {text : Str} (h : '\r' ∉ text) : tidy text = strip text := by
  have hfilter : text.filter (· ≠ '\r') = text := by
    rw [List.filter_eq_self]
    intro c hc
    rw [decide_eq_true_eq]
    rintro rfl
    exact h hc
  rw [tidy, hfilter]

/-- A decision is written as it is, composed. -/
theorem writtenText_eq {line : TextLine} {decided : Str} (hreturn : '\r' ∉ decided)
    (hlast : ∀ mark, trailingHyphenChar (canonicalLineText false line) = some mark →
      ∀ c ∈ hyphenChars, (rstrip decided).getLast? = some c → c = mark) :
    writtenText line decided = strip (Unicode.nfc decided) := by
  have hkept : preserveBreakChar (canonicalLineText false line) (Unicode.nfc decided) =
      Unicode.nfc decided :=
    preserveBreakChar_of_last fun mark hmark c hc hend =>
      hlast mark hmark c hc (Composition.last_mark decided c hc hend)
  rw [writtenText, hkept, tidy_of_no_return (Composition.no_return _ hreturn)]

omit [Numerals] [Composition] in
theorem not_mem_strip {text : Str} {c : Char} (h : c ∉ text) : c ∉ strip text :=
  fun hc => h ((infix_strip text).subset hc)

/-- What is written at line level is read back as it is. -/
theorem canonicalLineText_updated {line : TextLine} {text : Str} (hreturn : '\r' ∉ text)
    (words : List Word) :
    canonicalLineText false { line with
        equivs := [updatedTextequiv line.equivs (strip (Unicode.nfc text))], words := words } =
      strip (Unicode.nfc text) := by
  have hcomposed : Unicode.nfc (strip (Unicode.nfc text)) = strip (Unicode.nfc text) :=
    Composition.nfc_of_infix _ _ (Composition.nfc_nfc text) (infix_strip _)
  have hread : canonicalTextequiv [updatedTextequiv line.equivs (strip (Unicode.nfc text))] =
      some (updatedTextequiv line.equivs (strip (Unicode.nfc text))) := rfl
  rw [canonicalLineText]
  dsimp only
  rw [hread]
  dsimp only [unicodeText, updatedTextequiv, Option.bind_some]
  rw [if_neg (by simp), hcomposed,
    tidy_of_no_return (not_mem_strip (Composition.no_return _ hreturn)), strip_strip]

/-- A decision is a single line, respelled. -/
theorem decidedText_spec (line : TextLine) (accepted : AdmissibleText) :
    '\r' ∉ decidedText line accepted ∧
      ∀ mark, trailingHyphenChar (canonicalLineText false line) = some mark → ∀ c ∈ hyphenChars,
        (rstrip (decidedText line accepted)).getLast? = some c → c = mark := by
  have hsingle : '\r' ∉ accepted.text := by
    intro hmem
    have hsep : hasLineSeparator accepted.text = true :=
      List.any_eq_true.mpr ⟨'\r', hmem, by decide⟩
    rw [accepted.single_line] at hsep
    cases hsep
  unfold decidedText
  split
  · next hsame =>
    refine ⟨hsingle, fun mark hmark c _ hlast => ?_⟩
    rw [hsame, (last_of_trailingHyphenChar hmark).2] at hlast
    exact (Option.some_inj.mp hlast).symm
  · refine ⟨fun hmem => ?_, fun mark hmark c hc hlast => last_preserveBreakChar hmark hc hlast⟩
    rcases mem_of_mem_preserveBreakChar hmem with hmem | hmark
    · exact hsingle hmem
    · exact absurd hmark (by decide)

/-- **A decision is delivered exactly when PAGE can say it.** -/
theorem delivered_iff (line : TextLine) (accepted : AdmissibleText) :
    Delivered line (decidedText line accepted) ↔ Sayable line (decidedText line accepted) := by
  obtain ⟨hreturn, hlast⟩ := decidedText_spec line accepted
  generalize decidedText line accepted = decided at hreturn hlast
  -- an admissible text has no return and keeps its last mark, so what is written is its trim
  have hwritten : writtenText line decided = strip (Unicode.nfc decided) :=
    writtenText_eq hreturn hlast
  -- on either path the line reads back as that trim
  have hread : ∀ rewritten, rewriteTextLine line decided = .ok rewritten →
      canonicalLineText false rewritten.line = strip (Unicode.nfc decided) := by
    intro rewritten h
    rcases rewriteTextLine_eq_ok h with ⟨hsame, rfl⟩ | ⟨-, words, hline, -⟩
    · rw [← hwritten, hsame]
    · rw [hline, hwritten, canonicalLineText_updated hreturn]
  constructor
  · rintro ⟨rewritten, h, hfidelity⟩
    rw [classifyProjectionFidelity_isSome, hread rewritten h, split_strip] at hfidelity
    have hchars := rewriteTextLine_isOk.mp ⟨rewritten, h⟩
    rw [hwritten] at hchars
    exact ⟨hchars, hfidelity⟩
  · rintro ⟨hchars, hwords⟩
    rw [← hwritten] at hchars
    obtain ⟨rewritten, h⟩ := rewriteTextLine_isOk.mpr hchars
    refine ⟨rewritten, h, ?_⟩
    rw [classifyProjectionFidelity_isSome, hread rewritten h, split_strip]
    exact hwords

end Page

/-- A line of one reading, without words. -/
def plainTextLine (text : String) : Page.TextLine where
  id := "a".toList
  equivs := [⟨none, none, some (some text.toList), none⟩]
  words := []

/-- A single line of text with a control character in it. -/
def controlText : AdmissibleText where
  text := "le mo\u0001t".toList
  single_line := by decide +kernel
  nonblank := by decide +kernel

/-- **A control character the validator lets through ends the run.** -/
theorem controlText_not_delivered : ¬ @Page.Delivered .none Composition.ascii
    (plainTextLine "le mot") (@Page.decidedText .none Composition.ascii
      (plainTextLine "le mot") controlText) := by
  let _ := Page.Numerals.none
  let _ := Composition.ascii
  rintro ⟨rewritten, h, -⟩
  have hchars := Page.rewriteTextLine_isOk.mp ⟨rewritten, h⟩ (by decide +kernel) '\u0001'
    (by decide +kernel)
  exact absurd hchars (by decide +kernel)

end Saknussemm
