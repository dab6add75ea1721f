import Saknussemm.Document
import Saknussemm.Page.Rewriter

/-! # What a PAGE rewrite says was lost.

Every line is rewritten with one record of counters, and what they gain
while a line is processed is that line's loss.  A line that lost its
confidence is counted once, by what its canonical readings lost. -/

namespace Saknussemm.Page

/-! ## The `custom` microformat -/

/-- Word characters of a regular expression: `\w`. -/
class WordChars where
  isWord : Char → Bool

/-- Word characters of ASCII text. -/
@[reducible] def WordChars.ascii : WordChars := ⟨fun c => c.isAlphanum || c = '_'⟩

section Custom

variable [WordChars]

/-- A group of a `custom` attribute: the text between it and the one before
it, its own text and its body. -/
structure CustomGroup where
  gap : Str
  text : Str
  body : Str

/-- The group `name {body}` a text starts with, as its text, its body and the
rest. -/
def matchGroup (text : Str) : Option (Str × Str × Str) :=
  let name := text.takeWhile WordChars.isWord
  let spaces := (text.dropWhile WordChars.isWord).takeWhile isSpace
  match (text.dropWhile WordChars.isWord).dropWhile isSpace with
  | '\x7b' :: inner =>
    if name ≠ [] ∧ '\x7d' ∈ inner then
      let body := inner.takeWhile (· ≠ '\x7d')
      some (name ++ spaces ++ ['\x7b'] ++ body ++ ['\x7d'], body, inner.drop (body.length + 1))
    else none
  | _ => none

/-- The groups of a text, `gap` read since the last one.  Each match and
each character costs one of `fuel`. -/
def groupsFrom : Nat → Str → Str → List CustomGroup
  | 0, _, _ => []
  | fuel + 1, gap, text =>
    match matchGroup text with
    | some (group, body, rest) => ⟨gap, group, body⟩ :: groupsFrom fuel [] rest
    | none =>
      match text with
      | [] => []
      | c :: rest => groupsFrom fuel (gap ++ [c]) rest

/-- Does a group's body point at character ranges? -/
def bodyHasOffset (body : Str) : Bool :=
  (body.splitOn ';').any fun pair =>
    let key := strip (pair.takeWhile (· ≠ ':'))
    key = "offset".toList || key = "length".toList

/-- The groups that are kept, and what stood between them unless a group was
cut out of it; `between` is the text since the last group kept. -/
def joinKept : Option Str → List CustomGroup → Str
  | _, [] => []
  | between, group :: rest =>
    if bodyHasOffset group.body then joinKept (between.map (· ++ group.gap ++ group.text)) rest
    else
      let separator :=
        match between.map (· ++ group.gap) with
        | none => []
        | some text => if '\x7b' ∈ text then [' '] else text
      separator ++ group.text ++ joinKept (some []) rest

/-- A `custom` value without its offset-anchored groups, and how many went. -/
def stripOffsetGroups (custom : Str) : Str × Nat :=
  let groups := groupsFrom (custom.length + 1) [] custom
  let removed := groups.countP (bodyHasOffset ·.body)
  if removed = 0 then (custom, 0) else (joinKept none groups, removed)

/-- Strip an element's stale offset groups; an emptied attribute goes. -/
def stripCustomOffsets (custom : Option Str) : Option Str × Nat :=
  match custom with
  | none | some [] => (custom, 0)
  | some (c :: cs) =>
    let (stripped, removed) := stripOffsetGroups (c :: cs)
    if removed = 0 then (custom, 0)
    else (if stripped = [] then none else some stripped, removed)

end Custom

/-! ## The counters -/

/-- A line of the file with its `custom` attributes. -/
structure MarkedLine where
  line : TextLine
  custom : Option Str
  wordCustoms : List (Option Str)

/-- Per-path line counts, and what was dropped. -/
structure PageRewriterMetrics where
  untouched : Nat
  fastPath : Nat
  slowPath : Nat
  wordsDropped : Nat
  confidenceInvalidated : Nat
  /-- Removals of `@conf`; not reported. -/
  confOccurrences : Nat
  altTextequivDropped : Nat
  customOffsetStripped : Nat
  hyphenPreserved : Nat
  lineWordDisagreement : Nat

/-- Nothing counted yet. -/
def PageRewriterMetrics.zero : PageRewriterMetrics := ⟨0, 0, 0, 0, 0, 0, 0, 0, 0, 0⟩

/-- The counters a report names. -/
inductive LossCounter where
  | wordsDropped | confidenceInvalidated | altTextequivDropped | customOffsetStripped
  | hyphenPreserved | lineWordDisagreement
  deriving DecidableEq, Repr

/-- All of them, in the report's order. -/
def LossCounter.all : List LossCounter :=
  [.wordsDropped, .confidenceInvalidated, .altTextequivDropped, .customOffsetStripped,
    .hyphenPreserved, .lineWordDisagreement]

namespace PageRewriterMetrics

/-- The loss counters as they stand. -/
def lossCounters (m : PageRewriterMetrics) : LossCounter → Nat
  | .wordsDropped => m.wordsDropped
  | .confidenceInvalidated => m.confidenceInvalidated
  | .altTextequivDropped => m.altTextequivDropped
  | .customOffsetStripped => m.customOffsetStripped
  | .hyphenPreserved => m.hyphenPreserved
  | .lineWordDisagreement => m.lineWordDisagreement

/-- The counters that are not zero. -/
def asLosses (m : PageRewriterMetrics) : Dict LossCounter Nat :=
  (LossCounter.all.map fun k => (k, m.lossCounters k)).filter (·.2 ≠ 0)

end PageRewriterMetrics

/-- What the counters gained since `before`, where they gained something. -/
def lossDelta (before after : PageRewriterMetrics) : Dict LossCounter Nat :=
  (LossCounter.all.filter fun k => before.lossCounters k < after.lossCounters k).map fun k =>
    (k, after.lossCounters k - before.lossCounters k)

/-- Attribute to a line what the counters gained while it was processed. -/
def recordLineLosses (lossesByLine : Dict Str (Dict LossCounter Nat)) (lineId : Str)
    (before after : PageRewriterMetrics) : Dict Str (Dict LossCounter Nat) :=
  if lossDelta before after = [] then lossesByLine
  else lossesByLine.set lineId (lossDelta before after)

/-- A line that lost an `@conf` lost its confidence once. -/
def promoteConfidenceToLine (occurrencesBefore : Nat) (m : PageRewriterMetrics) :
    PageRewriterMetrics :=
  if occurrencesBefore < m.confOccurrences then
    { m with confidenceInvalidated := m.confidenceInvalidated + 1 }
  else m

section Counting

variable [Numerals]

/-- Does the canonical reading of an element carry a confidence? -/
def canonicalConf (equivs : List TextEquiv) : Bool :=
  ((canonicalTextequiv equivs).bind TextEquiv.conf).isSome

/-- Count what updating an element's readings drops: the confidence of the
canonical one, and the alternatives. -/
def countTextequiv (equivs : List TextEquiv) (m : PageRewriterMetrics) : PageRewriterMetrics :=
  { m with
    confOccurrences := m.confOccurrences + if canonicalConf equivs then 1 else 0
    altTextequivDropped := m.altTextequivDropped + (equivs.length - 1) }

/-- Count the offset groups stripped from an element. -/
def countCustom [WordChars] (custom : Option Str) (m : PageRewriterMetrics) : PageRewriterMetrics :=
  { m with customOffsetStripped := m.customOffsetStripped + (stripCustomOffsets custom).2 }

variable [Unicode]

/-- Do the line's own text and its words' disagree? -/
def lineWordDisagrees (line : TextLine) : Bool :=
  line.words ≠ [] && line.equivs ≠ [] &&
    let concat := strip (Unicode.nfc
      (List.intercalate [' '] ((line.words.map (wordText false)).filter (· ≠ []))))
    concat ≠ [] && concat ≠ canonicalLineText false line

variable [WordChars]

/-- Rewrite one line with its decided text, counting what is lost. -/
def rewriteMarkedLine (marked : MarkedLine) (rawCorrected : Str) (m : PageRewriterMetrics) :
    Except XmlError (MarkedLine × PageRewriterMetrics) :=
  let before := m.confOccurrences
  let line := marked.line
  let source := canonicalLineText false line
  let corrected := writtenText line rawCorrected
  let m := { m with lineWordDisagreement :=
    m.lineWordDisagreement + if lineWordDisagrees line then 1 else 0 }
  if corrected = source then
    .ok (marked, promoteConfidenceToLine before { m with untouched := m.untouched + 1 })
  else do
    let m := { m with hyphenPreserved :=
      m.hyphenPreserved + if (trailingHyphenChar source).isSome then 1 else 0 }
    let tokens := split corrected
    let slow : Bool := line.words ≠ [] ∧ tokens.length ≠ line.words.length
    let (words, wordCustoms, m) ←
      if slow then pure ([], [], { m with wordsDropped := m.wordsDropped + line.words.length })
      else do
        let words ← updateWordsFast line.words tokens
        let m := line.words.foldl (fun m word => countTextequiv word.equivs m) m
        let m := marked.wordCustoms.foldl (fun m custom => countCustom custom m) m
        pure (words, marked.wordCustoms.map fun custom => (stripCustomOffsets custom).1, m)
    let equivs ← updateTextequiv line.equivs corrected
    let m := countCustom marked.custom (countTextequiv line.equivs m)
    let m := if slow then { m with slowPath := m.slowPath + 1 } else { m with fastPath :=
      m.fastPath + 1 }
    return (⟨{ line with equivs := equivs, words := words }, (stripCustomOffsets marked.custom).1,
      wordCustoms⟩, promoteConfidenceToLine before m)

/-! ## The file -/

/-- Why a file is not rewritten. -/
inductive RewriteError where
  | duplicateId (lineId : Str)
  | duplicateIdentities
  | xml (error : XmlError)

/-- The lines written so far, newest last, and what was counted. -/
structure RewriteState where
  metrics : PageRewriterMetrics
  seen : List Str
  lossesByLine : Dict Str (Dict LossCounter Nat)

/-- Rewrite the lines of a file in document order.  A line nobody decided is
left as it is; a line met twice fails the file. -/
def rewriteTextLines (lineById : Dict Str LineManifest) :
    List MarkedLine → RewriteState → Except RewriteError (List MarkedLine × RewriteState)
  | [], state => .ok ([], state)
  | marked :: rest, state =>
    match lineById.get? marked.line.id with
    | none => do
      let (written, state) ← rewriteTextLines lineById rest state
      return (marked :: written, state)
    | some lm =>
      if marked.line.id ∈ state.seen then .error (.duplicateId marked.line.id)
      else
        match rewriteMarkedLine marked (lm.correctedText.getD lm.ocrText) state.metrics with
        | .error error => .error (.xml error)
        | .ok (rewritten, metrics) => do
          let (written, state) ← rewriteTextLines lineById rest {
            metrics := metrics
            seen := marked.line.id :: state.seen
            lossesByLine := recordLineLosses state.lossesByLine marked.line.id
              state.metrics metrics }
          return (rewritten :: written, state)

/-- A rewritten file: its lines, the losses of the run and those of each
line. -/
structure PageRewriteResult where
  lines : List MarkedLine
  losses : Dict LossCounter Nat
  metrics : PageRewriterMetrics
  lossesByLine : Dict Str (Dict LossCounter Nat)

/-- Rewrite a file with the lines its manifests decided. -/
def rewritePageFile (lines : List MarkedLine) (pages : List PageManifest) :
    Except RewriteError PageRewriteResult :=
  if !uniqueIdentities pages then .error .duplicateIdentities
  else do
    let (written, state) ← rewriteTextLines (manifestById pages) lines ⟨.zero, [], []⟩
    return ⟨written, state.metrics.asLosses, state.metrics, state.lossesByLine⟩

/-! ## What a line's counters say -/

omit [Numerals] [Unicode] [WordChars] in
theorem LossCounter.mem_all (k : LossCounter) : k ∈ LossCounter.all := by
  cases k <;> decide

/-- What a table of losses says of a counter. -/
def lossOf (losses : Dict LossCounter Nat) (k : LossCounter) : Nat := (losses.get? k).getD 0

omit [Numerals] [Unicode] [WordChars] in
theorem lossOf_asLosses (m : PageRewriterMetrics) (k : LossCounter) :
    lossOf m.asLosses k = m.lossCounters k := by
  have hfilter : m.asLosses =
      (LossCounter.all.filter fun k => m.lossCounters k ≠ 0).map fun k =>
          (k, m.lossCounters k) := by
    rw [PageRewriterMetrics.asLosses, List.filter_map]
    rfl
  rw [lossOf, hfilter, Dict.get?_map_pair]
  by_cases hk : m.lossCounters k = 0 <;> simp [hk, LossCounter.mem_all]

omit [Numerals] [Unicode] [WordChars] in
theorem lossOf_lossDelta {before after : PageRewriterMetrics}
    (h : ∀ k, before.lossCounters k ≤ after.lossCounters k) (k : LossCounter) :
    lossOf (lossDelta before after) k + before.lossCounters k = after.lossCounters k := by
  rw [lossOf, lossDelta, Dict.get?_map_pair]
  have hle := h k
  by_cases hk : before.lossCounters k < after.lossCounters k
  · simp [hk, LossCounter.mem_all]
    omega
  · simp [hk]
    omega

/-- The confidences a line carries, its own and its words'. -/
def confidences (line : TextLine) : Nat :=
  line.equivs.countP (·.conf.isSome) +
    (line.words.map fun word => word.equivs.countP (·.conf.isSome)).sum

/-- The line is rewritten with this text. -/
def Rewrites (line : TextLine) (rawCorrected : Str) : Prop :=
  writtenText line rawCorrected ≠ canonicalLineText false line

/-- The confidences counted are there: the line's canonical reading has
one, or its words keep their number and one of theirs has. -/
def CountsConfidence (line : TextLine) (rawCorrected : Str) : Prop :=
  canonicalConf line.equivs = true ∨
    (split (writtenText line rawCorrected)).length = line.words.length ∧
      ∃ word ∈ line.words, canonicalConf word.equivs = true

omit [Unicode] [WordChars] in
theorem canonicalConf_iff {equivs : List TextEquiv} : canonicalConf equivs = true ↔
    ∃ te, canonicalTextequiv equivs = some te ∧ te.conf.isSome := by
  unfold canonicalConf
  cases canonicalTextequiv equivs <;> simp

omit [Unicode] [WordChars] in
/-- A canonical confidence is one of the element's. -/
theorem countP_pos_of_canonicalConf {equivs : List TextEquiv} (h : canonicalConf equivs = true) :
    0 < equivs.countP (·.conf.isSome) := by
  obtain ⟨te, hte, hconf⟩ := canonicalConf_iff.mp h
  rw [List.countP_pos_iff]
  exact ⟨te, List.argmin_mem hte, hconf⟩

omit [Unicode] [WordChars] in
theorem confidences_pos_of_word {line : TextLine} {word : Word} (hword : word ∈ line.words)
    (h : canonicalConf word.equivs = true) : 0 < confidences line := by
  have hsum : 0 < (line.words.map fun word => word.equivs.countP (·.conf.isSome)).sum :=
    List.sum_pos_iff_exists_pos_nat.mpr
      ⟨_, List.mem_map_of_mem hword, countP_pos_of_canonicalConf h⟩
  rw [confidences]
  omega

omit [WordChars] in
/-- What is counted is lost. -/
theorem CountsConfidence.pos {line : TextLine} {rawCorrected : Str}
    (h : CountsConfidence line rawCorrected) : 0 < confidences line := by
  rcases h with hline | ⟨-, word, hword, hconf⟩
  · have := countP_pos_of_canonicalConf hline
    rw [confidences]
    omega
  · exact confidences_pos_of_word hword hconf

omit [Unicode] [WordChars] in
/-- Words rewritten in place keep no confidence. -/
theorem sum_confidences_updateWordsFast {words words' : List Word} {tokens : List Str}
    (h : updateWordsFast words tokens = .ok words') :
    (words'.map fun word => word.equivs.countP (·.conf.isSome)).sum = 0 := by
  rw [updateWordsFast, Fallible.mapM_eq_ok] at h
  rw [List.sum_eq_zero_iff_forall_eq_nat]
  intro n hn
  obtain ⟨word', hword', rfl⟩ := List.mem_map.mp hn
  obtain ⟨item, -, hitem⟩ := Pointwise.exists_of_mem_right h hword'
  obtain ⟨equivs, hequivs, hitem⟩ := Fallible.bind_eq_ok.mp hitem
  cases hitem
  rw [(updateTextequiv_eq_ok.mp hequivs).2]
  rfl

omit [Unicode] [WordChars] in
/-- Counting words adds their canonical confidences and their alternatives. -/
theorem countTextequiv_words (words : List Word) (m : PageRewriterMetrics) :
    words.foldl (fun m word => countTextequiv word.equivs m) m =
      { m with
        confOccurrences := m.confOccurrences + words.countP fun word => canonicalConf word.equivs
        altTextequivDropped := m.altTextequivDropped +
          (words.map fun word => word.equivs.length - 1).sum } := by
  induction words generalizing m with
  | nil => rfl
  | cons word words ih =>
    rw [List.foldl_cons, ih, countTextequiv, List.countP_cons, List.map_cons, List.sum_cons]
    congr 1 <;> dsimp only <;> omega

omit [Numerals] [Unicode] in
theorem countCustom_words (customs : List (Option Str)) (m : PageRewriterMetrics) :
    customs.foldl (fun m custom => countCustom custom m) m =
      { m with customOffsetStripped := m.customOffsetStripped +
        (customs.map fun custom => (stripCustomOffsets custom).2).sum } := by
  induction customs generalizing m with
  | nil => rfl
  | cons custom customs ih =>
    rw [List.foldl_cons, ih, countCustom, List.map_cons, List.sum_cons]
    congr 1
    dsimp only
    omega

/-- What rewriting one line does to its words, its confidences and the
counters. -/
structure LineAccount (marked : MarkedLine) (rawCorrected : Str) (m : PageRewriterMetrics)
    (written : MarkedLine) (m' : PageRewriterMetrics) : Prop where
  id : written.line.id = marked.line.id
  words : m'.wordsDropped + written.line.words.length = m.wordsDropped + marked.line.words.length
  lost : confidences written.line < confidences marked.line ↔
    Rewrites marked.line rawCorrected ∧ 0 < confidences marked.line
  gained : ∀ k, m.lossCounters k ≤ m'.lossCounters k
  counted : Rewrites marked.line rawCorrected ∧ CountsConfidence marked.line rawCorrected →
    m'.confidenceInvalidated = m.confidenceInvalidated + 1
  uncounted : ¬ (Rewrites marked.line rawCorrected ∧ CountsConfidence marked.line rawCorrected) →
    m'.confidenceInvalidated = m.confidenceInvalidated

omit [Numerals] [Unicode] [WordChars] in
theorem promoteConfidenceToLine_le {before : Nat} {m m' : PageRewriterMetrics}
    (h : ∀ k, m.lossCounters k ≤ m'.lossCounters k) (k : LossCounter) :
    m.lossCounters k ≤ (promoteConfidenceToLine before m').lossCounters k := by
  have hk := h k
  unfold promoteConfidenceToLine
  split
  · cases k <;> simp only [PageRewriterMetrics.lossCounters] at hk ⊢ <;> omega
  · exact hk

omit [Numerals] [Unicode] [WordChars] in
@[simp] theorem promoteConfidenceToLine_wordsDropped (before : Nat) (m : PageRewriterMetrics) :
    (promoteConfidenceToLine before m).wordsDropped = m.wordsDropped := by
  unfold promoteConfidenceToLine
  split <;> rfl

omit [Numerals] [Unicode] [WordChars] in
theorem promoteConfidenceToLine_of_lt {before : Nat} {m : PageRewriterMetrics}
    (h : before < m.confOccurrences) :
    (promoteConfidenceToLine before m).confidenceInvalidated = m.confidenceInvalidated + 1 := by
  rw [promoteConfidenceToLine, if_pos h]

omit [Numerals] [Unicode] [WordChars] in
theorem promoteConfidenceToLine_of_le {before : Nat} {m : PageRewriterMetrics}
    (h : m.confOccurrences ≤ before) : promoteConfidenceToLine before m = m := by
  rw [promoteConfidenceToLine, if_neg (Nat.not_lt.mpr h)]

omit [Unicode] [WordChars] in
/-- Rewritten, a line has no confidence left. -/
theorem confidences_rewritten {line : TextLine} {text : Str} {words : List Word}
    (hwords : (words.map fun word => word.equivs.countP (·.conf.isSome)).sum = 0) :
    confidences
      { line with equivs := [updatedTextequiv line.equivs text], words := words } = 0 := by
  rw [confidences, hwords]
  rfl

omit [WordChars] in
/-- The account of a line that is rewritten: it has no confidence left, and
counts one when an occurrence was counted. -/
theorem LineAccount.of_rewrites {marked written : MarkedLine} {rawCorrected : Str}
    {m m' : PageRewriterMetrics} (hrewrites : Rewrites marked.line rawCorrected)
    (hid : written.line.id = marked.line.id)
    (hwords : m'.wordsDropped + written.line.words.length =
      m.wordsDropped + marked.line.words.length)
    (hzero : confidences written.line = 0) (hgained : ∀ k, m.lossCounters k ≤ m'.lossCounters k)
    (hinvalidated : m'.confidenceInvalidated = m.confidenceInvalidated)
    (hcounts : CountsConfidence marked.line rawCorrected ↔ m.confOccurrences < m'.confOccurrences) :
    LineAccount marked rawCorrected m written (promoteConfidenceToLine m.confOccurrences m') := by
  refine ⟨hid, by simpa using hwords, ?lost, fun k => promoteConfidenceToLine_le hgained k,
    fun h => ?counted, fun hnot => ?uncounted⟩
  case lost =>
    rw [hzero]
    exact ⟨fun hpos => ⟨hrewrites, hpos⟩, And.right⟩
  case counted => rw [promoteConfidenceToLine_of_lt (hcounts.mp h.2), hinvalidated]
  case uncounted =>
    have hle := Nat.not_lt.mp fun hlt => hnot ⟨hrewrites, hcounts.mpr hlt⟩
    rw [promoteConfidenceToLine_of_le hle, hinvalidated]

omit [WordChars] in
/-- Where the words change in number, only the line's own confidence counts. -/
theorem countsConfidence_of_length_ne {line : TextLine} {rawCorrected : Str}
    (hother : (split (writtenText line rawCorrected)).length ≠ line.words.length) :
    CountsConfidence line rawCorrected ↔ canonicalConf line.equivs = true :=
  ⟨fun h => h.resolve_right fun hfast => hother hfast.1, .inl⟩

omit [WordChars] in
/-- Where they keep it, those of the words count too. -/
theorem countsConfidence_of_length_eq {line : TextLine} {rawCorrected : Str}
    (hsame : line.words ≠ [] → (split (writtenText line rawCorrected)).length = line.words.length) :
    CountsConfidence line rawCorrected ↔ canonicalConf line.equivs = true ∨
      0 < line.words.countP fun word => canonicalConf word.equivs := by
  rw [CountsConfidence, List.countP_pos_iff]
  refine or_congr Iff.rfl ⟨And.right, fun hword => ⟨?_, hword⟩⟩
  obtain ⟨word, hword, -⟩ := hword
  exact hsame (List.ne_nil_of_mem hword)

/-- **One line's account.** -/
theorem lineAccount {marked written : MarkedLine} {rawCorrected : Str} {m m' : PageRewriterMetrics}
    (h : rewriteMarkedLine marked rawCorrected m = .ok (written, m')) :
    LineAccount marked rawCorrected m written m' := by
  unfold rewriteMarkedLine at h
  dsimp only at h
  split at h
  · next hsame =>
    -- untouched: nothing is lost, and nothing but a disagreement counted
    cases h
    have hnot : ¬ Rewrites marked.line rawCorrected := not_not.mpr hsame
    refine ⟨rfl, by simp, ?_, fun k => promoteConfidenceToLine_le (fun k => ?_) k,
      fun hcounts => absurd hcounts.1 hnot, fun _ => ?_⟩
    · exact ⟨fun hlt => absurd hlt (Nat.lt_irrefl _), fun hlost => absurd hlost.1 hnot⟩
    · cases k <;> simp [PageRewriterMetrics.lossCounters]
    · simp [promoteConfidenceToLine]
  · next hchanged =>
    have hrewrites : Rewrites marked.line rawCorrected := hchanged
    split at h
    · next hslow =>
      -- the slow path: the words go, and their confidences with them
      rw [decide_eq_true_eq] at hslow
      obtain ⟨⟨_, _, _⟩, hpure, h⟩ := Fallible.bind_eq_ok.mp h
      cases hpure
      obtain ⟨equivs, hequivs, h⟩ := Fallible.bind_eq_ok.mp h
      obtain ⟨-, rfl⟩ := updateTextequiv_eq_ok.mp hequivs
      cases h
      refine LineAccount.of_rewrites (m := m) hrewrites ?_ ?_ ?_ ?_ ?_ ?_
      · rfl
      · simp [countCustom, countTextequiv]
      · exact confidences_rewritten (by simp)
      · intro k
        cases k <;> simp only [PageRewriterMetrics.lossCounters, countCustom, countTextequiv] <;>
          omega
      · rfl
      · rw [countsConfidence_of_length_ne hslow.2]
        dsimp only [countCustom, countTextequiv]
        split
        · next hconf => exact iff_of_true hconf (by omega)
        · next hconf => exact iff_of_false hconf (by omega)
    · next hfast =>
      -- the fast path: the words stay, each with its text rewritten
      rw [decide_eq_true_eq] at hfast
      have hsame : marked.line.words ≠ [] → (split (writtenText marked.line rawCorrected)).length =
          marked.line.words.length := fun hwords => not_not.mp (not_and.mp hfast hwords)
      obtain ⟨words', hupdate, h⟩ := Fallible.bind_eq_ok.mp h
      rw [countTextequiv_words, countCustom_words] at h
      obtain ⟨⟨_, _, _⟩, hpure, h⟩ := Fallible.bind_eq_ok.mp h
      cases hpure
      obtain ⟨equivs, hequivs, h⟩ := Fallible.bind_eq_ok.mp h
      obtain ⟨-, rfl⟩ := updateTextequiv_eq_ok.mp hequivs
      cases h
      have hlength : words'.length = marked.line.words.length := by
        by_cases hnone : marked.line.words = []
        · rw [hnone] at hupdate ⊢
          cases hupdate
          rfl
        · have hgeometry := geometry_updateWordsFast hupdate (hsame hnone).ge
          simpa using congrArg List.length hgeometry
      refine LineAccount.of_rewrites (m := m) hrewrites ?_ ?_ ?_ ?_ ?_ ?_
      · rfl
      · simp [countCustom, countTextequiv, hlength]
      · exact confidences_rewritten (sum_confidences_updateWordsFast hupdate)
      · intro k
        cases k <;> simp only [PageRewriterMetrics.lossCounters, countCustom, countTextequiv] <;>
          omega
      · rfl
      · rw [countsConfidence_of_length_eq hsame]
        dsimp only [countCustom, countTextequiv]
        split
        · next hconf => exact iff_of_true (.inl hconf) (by omega)
        · next hconf =>
          rw [or_iff_right hconf]
          omega

/-! ## What a file's counters say -/

/-- The words of lines. -/
def wordTotal (lines : List MarkedLine) : Nat := (lines.map (·.line.words.length)).sum

/-- How many lines carry fewer confidences than they did. -/
def linesLosingConfidence (lines written : List MarkedLine) : Nat :=
  (lines.zip written).countP fun pair => confidences pair.2.line < confidences pair.1.line

/-- What the lines lost of a counter, in all. -/
def attributed (lossesByLine : Dict Str (Dict LossCounter Nat)) (k : LossCounter) : Nat :=
  (lossesByLine.map fun entry => lossOf entry.2 k).sum

/-- The text a line is rewritten with. -/
def decisionText (lm : LineManifest) : Str := lm.correctedText.getD lm.ocrText

/-- A line that loses a confidence loses one that is counted. -/
def LosesCounted (lineById : Dict Str LineManifest) (line : TextLine) : Prop :=
  ∀ lm ∈ lineById.get? line.id, Rewrites line (decisionText lm) → 0 < confidences line →
    CountsConfidence line (decisionText lm)

/-- What rewriting lines adds to what was counted before. -/
structure LinesAccount (lineById : Dict Str LineManifest) (lines : List MarkedLine)
    (before : RewriteState) (written : List MarkedLine) (after : RewriteState) : Prop where
  words : after.metrics.wordsDropped + wordTotal written =
    before.metrics.wordsDropped + wordTotal lines
  atMost : after.metrics.confidenceInvalidated ≤
    before.metrics.confidenceInvalidated + linesLosingConfidence lines written
  counted : after.metrics.confidenceInvalidated =
      before.metrics.confidenceInvalidated + linesLosingConfidence lines written ↔
    ∀ marked ∈ lines, LosesCounted lineById marked.line
  attributed : ∀ k, attributed after.lossesByLine k + before.metrics.lossCounters k =
    attributed before.lossesByLine k + after.metrics.lossCounters k

omit [WordChars] in
/-- One line counts one confidence exactly when what it loses is counted. -/
theorem LineAccount.confidence {lineById : Dict Str LineManifest} {lm : LineManifest}
    {marked written : MarkedLine} {m m' : PageRewriterMetrics}
    (hlm : lineById.get? marked.line.id = some lm)
    (h : LineAccount marked (decisionText lm) m written m') :
    m'.confidenceInvalidated ≤
      m.confidenceInvalidated + linesLosingConfidence [marked] [written] ∧
    (m'.confidenceInvalidated =
      m.confidenceInvalidated + linesLosingConfidence [marked] [written] ↔
      LosesCounted lineById marked.line) := by
  have hone : linesLosingConfidence [marked] [written] =
      if confidences written.line < confidences marked.line then 1 else 0 := by
    simp [linesLosingConfidence, List.countP_cons]
  have hcond : LosesCounted lineById marked.line ↔
      (Rewrites marked.line (decisionText lm) ∧ 0 < confidences marked.line →
        Rewrites marked.line (decisionText lm) ∧
            CountsConfidence marked.line (decisionText lm)) := by
    constructor
    · exact fun hloses hlost => ⟨hlost.1, hloses lm hlm hlost.1 hlost.2⟩
    · intro hloses lm' hlm' hrewrites hpos
      cases hlm.symm.trans hlm'
      exact (hloses ⟨hrewrites, hpos⟩).2
  rw [hone, hcond, ← h.lost]
  by_cases hcounts : Rewrites marked.line (decisionText lm) ∧
      CountsConfidence marked.line (decisionText lm)
  · have hlost := h.lost.mpr ⟨hcounts.1, hcounts.2.pos⟩
    rw [h.counted hcounts, if_pos hlost]
    exact ⟨Nat.le_refl _, iff_of_true rfl fun _ => hcounts⟩
  · rw [h.uncounted hcounts]
    refine ⟨Nat.le_add_right _ _, ?_⟩
    split
    · next hlost => exact iff_of_false (by omega) fun hall => hcounts (hall hlost)
    · next hkept => exact iff_of_true rfl fun hlost => absurd hlost hkept

omit [Numerals] [Unicode] [WordChars] in
theorem linesLosingConfidence_cons (marked written : MarkedLine) (lines rest : List MarkedLine) :
    linesLosingConfidence (marked :: lines) (written :: rest) =
      linesLosingConfidence [marked] [written] + linesLosingConfidence lines rest := by
  simp only [linesLosingConfidence, List.zip_cons_cons, List.zip_nil_left, List.countP_cons,
    List.countP_nil]
  omega

omit [Numerals] [Unicode] [WordChars] in
/-- What a line loses is attributed to it. -/
theorem attributed_recordLineLosses {lossesByLine : Dict Str (Dict LossCounter Nat)} {lineId : Str}
    {before after : PageRewriterMetrics} (hnew : lineId ∉ Dict.keys lossesByLine)
    (h : ∀ k, before.lossCounters k ≤ after.lossCounters k) (k : LossCounter) :
    attributed (recordLineLosses lossesByLine lineId before after) k + before.lossCounters k =
      attributed lossesByLine k + after.lossCounters k := by
  have hdelta := lossOf_lossDelta h k
  unfold recordLineLosses
  split
  · next hempty =>
    rw [hempty] at hdelta
    have hzero : lossOf [] k = 0 := rfl
    omega
  · rw [Dict.set_of_notMem hnew, attributed, List.map_append, List.sum_append, ← attributed]
    simp only [List.map_cons, List.map_nil, List.sum_singleton]
    omega

omit [Numerals] [Unicode] [WordChars] in
theorem mem_keys_recordLineLosses {lossesByLine : Dict Str (Dict LossCounter Nat)} {lineId id : Str}
    {before after : PageRewriterMetrics}
    (h : id ∈ Dict.keys (recordLineLosses lossesByLine lineId before after)) :
    id = lineId ∨ id ∈ Dict.keys lossesByLine := by
  unfold recordLineLosses at h
  split at h
  · exact .inr h
  · exact Dict.mem_keys_set.mp h

/-- **What rewriting the lines of a file counts**: every word that is gone,
every loss under its line, and a confidence for each line that lost one that
is counted. -/
theorem linesAccount {lineById : Dict Str LineManifest} {lines written : List MarkedLine}
    {before after : RewriteState}
    (h : rewriteTextLines lineById lines before = .ok (written, after))
    (hkeys : ∀ id ∈ Dict.keys before.lossesByLine, id ∈ before.seen) :
    LinesAccount lineById lines before written after := by
  induction lines generalizing before written with
  | nil =>
    cases h
    exact ⟨rfl, Nat.le_refl _, iff_of_true rfl (by simp), fun _ => rfl⟩
  | cons marked rest ih =>
    unfold rewriteTextLines at h
    cases hlm : lineById.get? marked.line.id with
    | none =>
      -- nobody decided the line: it is written as it was read
      rw [hlm] at h
      obtain ⟨⟨written', after'⟩, hrest, h⟩ := Fallible.bind_eq_ok.mp h
      cases h
      show LinesAccount lineById (marked :: rest) before (marked :: written') _
      have account := ih hrest hkeys
      have hkept : linesLosingConfidence [marked] [marked] = 0 := by
        simp [linesLosingConfidence]
      have hloses : LosesCounted lineById marked.line := by
        intro lm hget
        rw [hlm] at hget
        cases hget
      refine ⟨?_, ?_, ?_, account.attributed⟩
      · have hwords := account.words
        simp only [wordTotal, List.map_cons, List.sum_cons] at hwords ⊢
        omega
      · rw [linesLosingConfidence_cons, hkept, Nat.zero_add]
        exact account.atMost
      · rw [linesLosingConfidence_cons, hkept, Nat.zero_add, account.counted, List.forall_mem_cons]
        exact (and_iff_right hloses).symm
    | some lm =>
      rw [hlm] at h
      dsimp only at h
      split at h
      · cases h
      next hnew =>
      cases hline : rewriteMarkedLine marked (lm.correctedText.getD lm.ocrText) before.metrics with
      | error => rw [hline] at h; cases h
      | ok result =>
        obtain ⟨rewritten, metrics⟩ := result
        rw [hline] at h
        obtain ⟨⟨written', after'⟩, hrest, h⟩ := Fallible.bind_eq_ok.mp h
        cases h
        show LinesAccount lineById (marked :: rest) before (rewritten :: written') after'
        have line : LineAccount marked (decisionText lm) before.metrics rewritten metrics :=
          lineAccount hline
        have account := ih hrest fun id hid => by
          rcases mem_keys_recordLineLosses hid with rfl | hid
          · exact List.mem_cons_self
          · exact List.mem_cons_of_mem _ (hkeys id hid)
        have hconf := line.confidence hlm
        refine ⟨?_, ?_, ?_, fun k => ?_⟩
        · have hwords := account.words
          have hword := line.words
          simp only [wordTotal, List.map_cons, List.sum_cons] at hwords ⊢
          omega
        · have hatMost := account.atMost
          dsimp only at hatMost
          rw [linesLosingConfidence_cons]
          omega
        · -- both counts fall short of what was lost, so they agree when each does
          have hatMost := account.atMost
          have hcounted := account.counted
          dsimp only at hatMost hcounted
          rw [linesLosingConfidence_cons, List.forall_mem_cons, ← hconf.2, ← hcounted]
          omega
        · have hattributed := account.attributed k
          have hrecorded := attributed_recordLineLosses
            (fun hmem => hnew (hkeys _ hmem)) line.gained k
          dsimp only at hattributed
          omega

/-! ## The account a file gives -/

/-- What a rewritten file says was lost is what was lost. -/
structure Accounts (lines : List MarkedLine) (result : PageRewriteResult) : Prop where
  words : lossOf result.losses .wordsDropped + wordTotal result.lines = wordTotal lines
  confidence : lossOf result.losses .confidenceInvalidated =
    linesLosingConfidence lines result.lines
  attributed : ∀ k, attributed result.lossesByLine k = lossOf result.losses k

/-- Every line that is rewritten and carries a confidence carries one that
is counted. -/
def ConfidenceCounted (lines : List MarkedLine) (pages : List PageManifest) : Prop :=
  ∀ marked ∈ lines, LosesCounted (manifestById pages) marked.line

/-- A PAGE rewrite accounts for its losses exactly when it counted every
confidence. -/
theorem accounts_iff {lines : List MarkedLine} {pages : List PageManifest}
    {result : PageRewriteResult} (h : rewritePageFile lines pages = .ok result) :
    Accounts lines result ↔ ConfidenceCounted lines pages := by
  rw [rewritePageFile] at h
  split at h
  · cases h
  obtain ⟨⟨written, after⟩, hrewrite, h⟩ := Fallible.bind_eq_ok.mp h
  cases h
  -- words and attributes add up on every file; the confidence count is all that can differ
  have account := linesAccount hrewrite (by simp [Dict.keys])
  have hzero : PageRewriterMetrics.zero.confidenceInvalidated = 0 := rfl
  rw [ConfidenceCounted, ← account.counted, hzero, Nat.zero_add]
  constructor
  · intro accounts
    have hconf := accounts.confidence
    rwa [lossOf_asLosses] at hconf
  · intro hconf
    refine ⟨?_, ?_, fun k => ?_⟩
    · rw [lossOf_asLosses]
      exact account.words.trans (Nat.zero_add _)
    · rw [lossOf_asLosses]
      exact hconf
    · have hattributed := account.attributed k
      rw [lossOf_asLosses]
      cases k <;> exact hattributed.trans (Nat.zero_add _)

end Counting

/-! ## Two files -/

/-- A line of two words, each with its reading. -/
def confidentLine (line word : Option String) : MarkedLine where
  line := {
    id := "a".toList
    equivs := [⟨none, line.map String.toList, some (some "le mot".toList), none⟩]
    words := List.replicate 2 ⟨none, [], [⟨none, word.map String.toList, none, none⟩]⟩ }
  custom := none
  wordCustoms := [none, none]

/-- The page of that line, corrected. -/
def correctedPage (text : String) : PageManifest :=
  { plainPage "a.xml" "p" 0 [("a", "le mot", .none)] with
    lines := [{ plainLine "p".toList 0 "a" "le mot" .none with
      correctedText := some text.toList }] }

/-- A line of two words becomes one of three, and its own confidence goes. -/
theorem accounts_confidentLine : ∃ result,
    @rewritePageFile .none .ascii .ascii [confidentLine (some "0.9") (some "0.8")]
      [correctedPage "le mo t"] = .ok result ∧
    Accounts [confidentLine (some "0.9") (some "0.8")] result := by
  let _ := Numerals.none
  let _ := Unicode.ascii
  let _ := WordChars.ascii
  have hok : (rewritePageFile [confidentLine (some "0.9") (some "0.8")]
      [correctedPage "le mo t"]).isOk = true := by
    decide +kernel
  cases hfile : rewritePageFile [confidentLine (some "0.9") (some "0.8")]
      [correctedPage "le mo t"] with
  | error error =>
    rw [hfile] at hok
    cases hok
  | ok result =>
    refine ⟨result, rfl, (accounts_iff hfile).mpr fun marked hmarked => ?_⟩
    rw [List.mem_singleton] at hmarked
    subst hmarked
    exact fun lm _ _ _ => .inl (by decide +kernel)

/-- **The words of a line go with their confidences**, and nothing says the
line lost any. -/
theorem confidentWords_uncounted : ∃ result,
    @rewritePageFile .none .ascii .ascii [confidentLine none (some "0.8")]
      [correctedPage "le mo t"] = .ok result ∧
    lossOf result.losses .confidenceInvalidated = 0 ∧
    linesLosingConfidence [confidentLine none (some "0.8")] result.lines = 1 := by
  let _ := Numerals.none
  let _ := Unicode.ascii
  let _ := WordChars.ascii
  have hcounts : ((rewritePageFile [confidentLine none (some "0.8")]
      [correctedPage "le mo t"]).toOption.map fun result =>
        (lossOf result.losses .confidenceInvalidated,
          linesLosingConfidence [confidentLine none (some "0.8")] result.lines)) = some (0, 1) := by
    decide +kernel
  cases hfile : rewritePageFile [confidentLine none (some "0.8")] [correctedPage "le mo t"] with
  | error error =>
    rw [hfile] at hcounts
    cases hcounts
  | ok result =>
    rw [hfile] at hcounts
    have hboth := Option.some_inj.mp hcounts
    exact ⟨result, rfl, congrArg Prod.fst hboth, congrArg Prod.snd hboth⟩

end Saknussemm.Page
