import Mathlib.Data.List.DropRight

/-! # Text: Python strings as lists of code points.

Every string of the engine (ids, OCR text, corrections) is a list of
characters, and the handful of `str` methods the engine calls are
defined here on such lists.  What needs the Unicode tables (`isalpha`,
NFC normalisation, `casefold`) is the class `Unicode`: nothing below
depends on which version of the tables it stands for. -/

namespace Saknussemm

/-- A Python `str`. -/
abbrev Str := List Char

/-- Texts compare lawfully, by one name. -/
instance : LawfulBEq Str := inferInstance

instance : LawfulBEq (Str × Str) := inferInstance

/-- The part of `str` and `unicodedata` that is a table lookup. -/
class Unicode where
  /-- `str.isalpha` of one character. -/
  isAlpha : Char → Bool
  /-- `unicodedata.normalize("NFC", s)`. -/
  nfc : Str → Str
  /-- `str.casefold`. -/
  casefold : Str → Str

/-- The tables on ASCII text, which is composed already. -/
@[reducible] def Unicode.ascii : Unicode where
  isAlpha := Char.isAlpha
  nfc := id
  casefold := List.map Char.toLower

/-! ## Whitespace -/

/-- `str.isspace` of one character, also what `strip()` and `split()` cut at. -/
def isSpace (c : Char) : Bool :=
  let n := c.toNat
  (9 ≤ n && n ≤ 13) || (28 ≤ n && n ≤ 32) || n == 0x85 || n == 0xA0 || n == 0x1680 ||
    (0x2000 ≤ n && n ≤ 0x200A) || n == 0x2028 || n == 0x2029 || n == 0x202F ||
    n == 0x205F || n == 0x3000

/-- `s.rstrip()`. -/
def rstrip (s : Str) : Str := s.rdropWhile isSpace

/-- `s.strip()`. -/
def strip (s : Str) : Str := (rstrip s).dropWhile isSpace

/-- `s.rstrip(chars)`. -/
def rstripChars (chars : List Char) (s : Str) : Str := s.rdropWhile (chars.contains ·)

/-- `s.split()`, with the word being read held in reverse. -/
def splitFrom : Str → Str → List Str
  | word, [] => if word = [] then [] else [word.reverse]
  | word, c :: rest =>
    if isSpace c then
      if word = [] then splitFrom [] rest else word.reverse :: splitFrom [] rest
    else splitFrom (c :: word) rest

/-- `s.split()`: the maximal runs of non-space characters. -/
def split (s : Str) : List Str := splitFrom [] s

/-! ### What stripping leaves -/

/-- Whitespace at the end of a text is not part of what is kept. -/
theorem rstrip_append_of_blank {s w : Str} (h : ∀ c ∈ w, isSpace c = true) :
    rstrip (s ++ w) = rstrip s := by
  induction w using List.reverseRecOn with
  | nil => rw [List.append_nil]
  | append_singleton w c ih =>
    rw [← List.append_assoc, rstrip, List.rdropWhile_concat_pos _ _ _ (h c (by simp))]
    exact ih fun d hd => h d (by simp [hd])

/-- A text is what `rstrip` keeps of it, followed by whitespace. -/
theorem exists_rstrip_append (s : Str) : ∃ w, s = rstrip s ++ w ∧ ∀ c ∈ w, isSpace c = true :=
  ⟨s.rtakeWhile isSpace, List.rdropWhile_append_rtakeWhile.symm,
    fun _ hc => List.mem_rtakeWhile_imp hc⟩

theorem rstrip_append_drop (s : Str) : rstrip s ++ s.drop (rstrip s).length = s ∧
    ∀ c ∈ s.drop (rstrip s).length, isSpace c = true := by
  obtain ⟨w, hs, hw⟩ := exists_rstrip_append s
  have hdrop : s.drop (rstrip s).length = w := by
    conv_lhs => rw [hs]
    rw [rstrip_append_of_blank hw]
    unfold rstrip
    rw [List.rdropWhile_idempotent, List.drop_left]
  rw [hdrop]
  exact ⟨hs.symm, hw⟩

/-- Blanks at the end start no word. -/
theorem splitFrom_append_of_blank {s w word : Str} (h : ∀ c ∈ w, isSpace c = true) :
    splitFrom word (s ++ w) = splitFrom word s := by
  have hblank : ∀ w : Str, (∀ c ∈ w, isSpace c = true) → splitFrom [] w = [] := by
    intro w hw
    induction w with
    | nil => rfl
    | cons c w ih =>
      rw [splitFrom, if_pos (hw c (by simp)), if_pos rfl]
      exact ih fun d hd => hw d (by simp [hd])
  induction s generalizing word with
  | nil =>
    cases w with
    | nil => rfl
    | cons c w =>
      have hw := hblank w fun d hd => h d (by simp [hd])
      simp only [List.nil_append, splitFrom, h c (by simp), if_true, hw]
  | cons c s ih =>
    rw [List.cons_append, splitFrom, splitFrom, ih, ih]

/-- The words of a text do not depend on the whitespace around them. -/
theorem split_strip (s : Str) : split (strip s) = split s := by
  have hleft : ∀ s : Str, splitFrom [] (s.dropWhile isSpace) = splitFrom [] s := by
    intro s
    induction s with
    | nil => rfl
    | cons c s ih =>
      by_cases hc : isSpace c = true
      · rw [List.dropWhile_cons_of_pos hc, ih, splitFrom, if_pos hc, if_pos rfl]
      · rw [List.dropWhile_cons_of_neg hc]
  obtain ⟨w, hs, hw⟩ := exists_rstrip_append s
  unfold split strip
  rw [hleft]
  conv_rhs => rw [hs]
  rw [splitFrom_append_of_blank hw]

/-- Text without a character to keep has no words. -/
theorem split_of_strip_eq_nil {s : Str} (h : strip s = []) : split s = [] := by
  rw [← split_strip, h]
  rfl

/-- The last word of a text ends where the text does. -/
theorem exists_getLast?_splitFrom {s word : Str} {c : Char} (hc : isSpace c = false) :
    ∃ last, (splitFrom word (s ++ [c])).getLast? = some last ∧ last.getLast? = some c := by
  induction s generalizing word with
  | nil =>
    rw [List.nil_append, splitFrom, if_neg (by simp [hc]), splitFrom, if_neg (by simp)]
    exact ⟨_, rfl, by simp⟩
  | cons a s ih =>
    rw [List.cons_append, splitFrom]
    split
    · split
      · exact ih
      · obtain ⟨last, hlast, hc⟩ := @ih []
        exact ⟨last, by rw [List.getLast?_cons, hlast]; rfl, hc⟩
    · exact ih

/-- The characters of a word are characters of its text. -/
theorem mem_of_mem_splitFrom {s word token : Str} {c : Char} (htoken : token ∈ splitFrom word s)
    (hc : c ∈ token) : c ∈ word ∨ c ∈ s := by
  induction s generalizing word with
  | nil =>
    rw [splitFrom] at htoken
    split at htoken
    · cases htoken
    · rw [List.mem_singleton] at htoken
      exact .inl (List.mem_reverse.mp (htoken ▸ hc))
  | cons a s ih =>
    have hright : ∀ {word : Str}, token ∈ splitFrom word s → c ∈ word ∨ c ∈ a :: s :=
      fun h => (ih h).imp id fun hmem => List.mem_cons_of_mem _ hmem
    rw [splitFrom] at htoken
    split at htoken
    · split at htoken
      · exact (hright htoken).imp (fun h => by cases h) id
      · rcases List.mem_cons.mp htoken with rfl | htoken
        · exact .inl (List.mem_reverse.mp hc)
        · exact (hright htoken).imp (fun h => by cases h) id
    · rcases hright htoken with hword | hmem
      · rcases List.mem_cons.mp hword with rfl | hword
        · exact .inr List.mem_cons_self
        · exact .inl hword
      · exact .inr hmem

theorem infix_strip (s : Str) : strip s <:+: s :=
  (List.dropWhile_suffix _).isInfix.trans (List.rdropWhile_prefix _ _).isInfix

/-- A stripped text ends in no whitespace. -/
theorem rstrip_strip (s : Str) : rstrip (strip s) = strip s := by
  rw [rstrip, List.rdropWhile_eq_self_iff]
  intro hne
  have hne' : rstrip s ≠ [] := by
    intro hnil
    rw [strip, hnil] at hne
    exact hne rfl
  have hlast : (strip s).getLast hne = (rstrip s).getLast hne' :=
    (List.dropWhile_suffix isSpace).getLast hne
  rw [hlast]
  exact List.rdropWhile_last_not isSpace s hne'

/-- Stripping twice strips once. -/
theorem strip_strip (s : Str) : strip (strip s) = strip s := by
  conv_lhs => rw [strip, rstrip_strip]
  rw [strip, List.dropWhile_idempotent]

/-- `s.endswith((c₁, …, cₙ))` for one-character suffixes. -/
def endsWithAny (s : Str) (chars : List Char) : Bool :=
  match s.getLast? with
  | some c => chars.contains c
  | none => false

end Saknussemm
