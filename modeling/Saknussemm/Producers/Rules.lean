import Saknussemm.SpanApplication

/-! # The rules producer.

A table of literal and regular-expression substitutions, turned into span
edits.  A guarded rule edits a word only into a word of the lexicon. -/

namespace Saknussemm.Rules

/-! ## Rules -/

/-- What a pattern finds: where, and what the replacement expands to there. -/
structure Match where
  span : Span
  replacement : Str

/-- A regular expression: the matches of `finditer`, with the replacement
expanded.  They lie in the text. -/
structure Regex where
  finditer : (replacement text : Str) → List Match
  inside : ∀ replacement text, ∀ m ∈ finditer replacement text,
    m.span.start ≤ m.span.stop ∧ m.span.stop ≤ text.length

/-- A character class: each of its members found in the text. -/
def Regex.charClass (members : List Char) : Regex where
  finditer replacement text :=
    (text.zipIdx.filter fun entry => members.contains entry.1).map fun entry =>
      ⟨⟨entry.2, entry.2 + 1⟩, replacement⟩
  inside replacement text m hm := by
    obtain ⟨entry, hentry, rfl⟩ := List.mem_map.mp hm
    obtain ⟨-, hlt, -⟩ := List.mem_zipIdx (List.mem_filter.mp hentry).1
    exact ⟨Nat.le_succ _, by dsimp only; omega⟩

/-- A pattern is a literal, or a regular expression. -/
inductive Pattern where
  | literal (needle : Str)
  | regex (regex : Regex)

/-- One substitution.  A guarded one fires only where the word around it
becomes a lexicon entry. -/
structure SubstitutionRule where
  pattern : Pattern
  replacement : Str
  lexiconGuarded : Bool

/-- Occurrences of a literal from left to right, none in another; `skip`
characters are still in the last one. -/
def literalFrom (needle : Str) : (pos skip : Nat) → Str → List Span
  | pos, _, [] => if needle = [] then [⟨pos, pos⟩] else []
  | pos, skip + 1, _ :: rest => literalFrom needle (pos + 1) skip rest
  | pos, 0, c :: rest =>
    if needle.isPrefixOf (c :: rest) then
      ⟨pos, pos + needle.length⟩ :: literalFrom needle (pos + 1) (needle.length - 1) rest
    else literalFrom needle (pos + 1) 0 rest

/-- What a rule finds in a text. -/
def SubstitutionRule.matches (rule : SubstitutionRule) (text : Str) : List Match :=
  match rule.pattern with
  | .literal needle => (literalFrom needle 0 0 text).map (⟨·, rule.replacement⟩)
  | .regex regex => regex.finditer rule.replacement text

/-! ## Words -/

/-- `text[start:stop]`. -/
def slice (text : Str) (start stop : Nat) : Str := (text.take stop).drop start

/-- Whitespace-delimited token bounds enclosing a span. -/
def tokenBounds (text : Str) (span : Span) : Span :=
  ⟨span.start - ((text.take span.start).reverse.takeWhile (!isSpace ·)).length,
    span.stop + ((text.drop span.stop).takeWhile (!isSpace ·)).length⟩

/-- The punctuation stripped from a word before it is looked up. -/
def wordMarks : List Char := " \t.,;:!?'\"()[]«»—–-".toList

/-- `token.strip(_STRIP)`. -/
def stripMarks (token : Str) : Str :=
  (rstripChars wordMarks token).dropWhile (wordMarks.contains ·)

variable [Unicode]

/-- A lexicon, normalised. -/
def normalLexicon (lexicon : List Str) : List Str := lexicon.map ncfold

/-- Is a token a word of a normalised lexicon? -/
def isWord (lexicon : List Str) (token : Str) : Bool := ncfold (stripMarks token) ∈ lexicon

/-! ## Edits -/

/-- An edit that a rule proposes. -/
structure Candidate where
  span : Span
  replacement : Str
  guarded : Bool
  deriving DecidableEq

/-- The token around an edit, with the edit. -/
def wordOk (lexicon : List Str) (text : Str) (m : Match) : Bool :=
  let bounds := tokenBounds text m.span
  isWord lexicon <|
    slice text bounds.start m.span.start ++ m.replacement ++ slice text m.span.stop bounds.stop

/-- All edits the rules propose for a text. -/
def candidates (rules : List SubstitutionRule) (lexicon : List Str) (text : Str) : List Candidate :=
  rules.flatMap fun rule =>
    ((rule.matches text).filter fun m =>
      m.span.start ≠ m.span.stop && (!rule.lexiconGuarded || wordOk lexicon text m) &&
        slice text m.span.start m.span.stop ≠ m.replacement).map
      fun m => ⟨m.span, m.replacement, rule.lexiconGuarded⟩

/-- Keep the edits that start behind the last one kept. -/
def selectFrom : Nat → List Candidate → List Candidate
  | _, [] => []
  | cursor, c :: rest =>
    if c.span.start < cursor then selectFrom cursor rest
    else c :: selectFrom c.span.stop rest

/-- Greedy selection: earliest start, longest at a tie. -/
def select (proposed : List Candidate) : List Candidate :=
  selectFrom 0 <| proposed.insertionSort fun a b =>
    a.span.start < b.span.start ∨
      (a.span.start = b.span.start ∧ b.span.stop - b.span.start ≤ a.span.stop - a.span.start)

/-- The text from `cursor` to `stop` with edits applied. -/
def composeFrom (text : Str) (stop : Nat) : Nat → List Candidate → Str
  | cursor, [] => slice text cursor stop
  | cursor, c :: rest =>
    slice text cursor c.span.start ++ c.replacement ++ composeFrom text stop c.span.stop rest

/-- Is a token with these bounds refused?  One with several edits, a guarded
one among them, has to be a word once all of them are applied. -/
def rejected (lexicon : List Str) (text : Str) (chosen : List Candidate) (bounds : Span) : Bool :=
  let group := chosen.filter fun c => tokenBounds text c.span = bounds
  2 ≤ group.length && group.any Candidate.guarded &&
    !isWord lexicon (composeFrom text bounds.stop bounds.start group)

/-- The selected edits without those of the tokens refused. -/
def validateComposedTokens (lexicon : List Str) (text : Str) (chosen : List Candidate) :
    List Candidate :=
  chosen.filter fun c => !rejected lexicon text chosen (tokenBounds text c.span)

/-- The edits emitted for a text, with their guards. -/
def editsForLine (rules : List SubstitutionRule) (lexicon : List Str) (text : Str) :
    List Candidate :=
  validateComposedTokens (normalLexicon lexicon) text
    (select (candidates rules (normalLexicon lexicon) text))

/-- The spans emitted for a text. -/
def spansForLine (rules : List SubstitutionRule) (lexicon : List Str) (text : Str) :
    List (Span × Str) :=
  (editsForLine rules lexicon text).map fun c => (c.span, c.replacement)

/-- The operations of one line in the script a producer answers with. -/
def lineOps (lineId : Str) (spans : List (Span × Str)) : List EditOp :=
  spans.map fun (span, replacement) =>
    .replaceSpan lineId (.range span.start span.stop) replacement none

/-! ## Where the edits lie -/

section Spans

variable {rules : List SubstitutionRule} {lexicon : List Str} {text : Str}

omit [Unicode] in
/-- An occurrence lies inside the text. -/
theorem inside_literalFrom (needle : Str) (pos skip : Nat) (rest : Str) :
    ∀ span ∈ literalFrom needle pos skip rest,
      span.start ≤ span.stop ∧ span.stop ≤ pos + rest.length := by
  fun_induction literalFrom needle pos skip rest with
  | case1 pos _ hempty => simp
  | case2 => simp
  | case3 pos skip c rest ih =>
    intro span hspan
    have := ih span hspan
    simp only [List.length_cons]
    omega
  | case4 pos c rest hprefix ih =>
    intro span hspan
    have hlength : needle.length ≤ (c :: rest).length :=
      (List.isPrefixOf_iff_prefix.mp hprefix).length_le
    rcases List.mem_cons.mp hspan with rfl | hspan
    · exact ⟨Nat.le_add_right _ _, Nat.add_le_add_left hlength _⟩
    · have := ih span hspan
      simp only [List.length_cons]
      omega
  | case5 pos c rest _ ih =>
    intro span hspan
    have := ih span hspan
    simp only [List.length_cons]
    omega

omit [Unicode] in
theorem SubstitutionRule.inside_matches {rule : SubstitutionRule} {m : Match}
    (h : m ∈ rule.matches text) : m.span.start ≤ m.span.stop ∧ m.span.stop ≤ text.length := by
  unfold SubstitutionRule.matches at h
  split at h
  · obtain ⟨span, hspan, rfl⟩ := List.mem_map.mp h
    simpa using inside_literalFrom _ 0 0 text span hspan
  · next regex _ => exact regex.inside _ _ m h

/-- A proposed edit is not empty, lies in the text, and if guarded makes a
word of its token. -/
theorem mem_candidates {c : Candidate} (h : c ∈ candidates rules lexicon text) :
    c.span.start < c.span.stop ∧ c.span.stop ≤ text.length ∧
      (c.guarded = true → wordOk lexicon text ⟨c.span, c.replacement⟩ = true) := by
  obtain ⟨rule, -, h⟩ := List.mem_flatMap.mp h
  obtain ⟨m, hm, rfl⟩ := List.mem_map.mp h
  obtain ⟨hm, hkept⟩ := List.mem_filter.mp hm
  have hinside := rule.inside_matches hm
  simp only [Bool.and_eq_true, decide_eq_true_eq, Bool.or_eq_true, Bool.not_eq_true'] at hkept
  obtain ⟨⟨hne, hword⟩, -⟩ := hkept
  refine ⟨show m.span.start < m.span.stop by omega, hinside.2, fun hguarded => ?_⟩
  rcases hword with hfree | hword
  · rw [hfree] at hguarded
    cases hguarded
  · exact hword

omit [Unicode] in
theorem selectFrom_sublist (cursor : Nat) (proposed : List Candidate) :
    (selectFrom cursor proposed).Sublist proposed := by
  fun_induction selectFrom cursor proposed with
  | case1 => exact .slnil
  | case2 cursor c rest _ ih => exact ih.cons c
  | case3 cursor c rest _ ih => exact ih.cons_cons c

omit [Unicode] in
/-- Each edit kept starts behind the one before. -/
theorem pairwise_selectFrom (cursor : Nat) (proposed : List Candidate)
    (h : ∀ c ∈ proposed, c.span.start < c.span.stop) :
    (∀ c ∈ selectFrom cursor proposed, cursor ≤ c.span.start) ∧
      (selectFrom cursor proposed).Pairwise fun a b => a.span.stop ≤ b.span.start := by
  fun_induction selectFrom cursor proposed with
  | case1 => simp
  | case2 cursor c rest _ ih => exact ih fun c hc => h c (List.mem_cons_of_mem _ hc)
  | case3 cursor c rest hbehind ih =>
    obtain ⟨hrest, hpairwise⟩ := ih fun c hc => h c (List.mem_cons_of_mem _ hc)
    have hc := h c List.mem_cons_self
    refine ⟨fun d hd => ?_, List.pairwise_cons.mpr ⟨hrest, hpairwise⟩⟩
    rcases List.mem_cons.mp hd with rfl | hd
    · omega
    · have := hrest d hd
      omega

/-- The edits selected are proposed ones, in order and apart. -/
theorem select_spec (rules : List SubstitutionRule) (lexicon : List Str) (text : Str) :
    (∀ c ∈ select (candidates rules lexicon text), c ∈ candidates rules lexicon text) ∧
      (select (candidates rules lexicon text)).Pairwise fun a b => a.span.stop ≤ b.span.start := by
  refine ⟨fun c hc => (List.mem_insertionSort _).mp ((selectFrom_sublist 0 _).subset hc),
    (pairwise_selectFrom 0 _ fun c hc => ?_).2⟩
  exact (mem_candidates ((List.mem_insertionSort _).mp hc)).1

end Spans

/-! ## Applying the edits -/

section Apply

variable {text : Str} {guard : GuardConfig} {role : HyphenRole}

/-- Spans of a text, none empty, each behind the one before. -/
structure Apart (text : Str) (ranges : List (Span × Str)) : Prop where
  inside : ∀ range ∈ ranges, range.1.start < range.1.stop ∧ range.1.stop ≤ text.length
  apart : ranges.Pairwise fun a b => a.1.stop ≤ b.1.start

omit [Unicode]

/-- No anchor is refused for overlapping. -/
theorem normalizeAnchor_ne_overlap {anchor : Anchor} :
    normalizeAnchor anchor text ≠ .error .overlap := by
  unfold normalizeAnchor
  split
  · split <;> simp
  · split
    · simp
    · split
      · simp
      · simp
      · simp
      · split <;> simp

/-- Overlaps are found after the spans are normalised, never before. -/
theorem overlap_notMem_normalizeSpans (ops : List (Anchor × Str)) :
    EditReason.overlap ∉ (normalizeSpans text guard ops).2 := by
  induction ops with
  | nil => exact List.not_mem_nil
  | cons op ops ih =>
    obtain ⟨anchor, replacement⟩ := op
    rw [normalizeSpans]
    dsimp only
    split
    · simpa using ih
    · split
      · next reason hanchor =>
        intro hmem
        rcases List.mem_cons.mp hmem with rfl | hmem
        · exact normalizeAnchor_ne_overlap hanchor
        · exact ih hmem
      · split
        · simpa using ih
        · exact ih

theorem spansVerdict_ne_overlap {canonical : Str} {accepted : List (Span × Str)} :
    spansVerdict role canonical accepted guard ≠ .error .overlap := by
  unfold spansVerdict e5Refusal
  dsimp only
  split_ifs <;> simp

/-- Edits apart refuse one another nowhere. -/
theorem withoutOverlaps_of_apart {ranges : List (Span × Str)} (h : Apart text ranges)
    (prev : Option Span)
    (hprev : ∀ p ∈ prev, p.start < p.stop ∧ ∀ range ∈ ranges, p.stop ≤ range.1.start) :
    withoutOverlaps prev ranges = (ranges, []) := by
  induction ranges generalizing prev with
  | nil => rfl
  | cons range ranges ih =>
    obtain ⟨span, replacement⟩ := range
    obtain ⟨hnext, hrest⟩ := List.pairwise_cons.mp h.apart
    have hspan := h.inside _ List.mem_cons_self
    have hkept : ¬ (prev.any fun p => span.start < p.stop || span.start = p.start) = true := by
      cases prev with
      | none => simp
      | some p =>
        obtain ⟨hp, hbehind⟩ := hprev p rfl
        have hle : p.stop ≤ span.start := hbehind _ List.mem_cons_self
        simp only [Option.any_some, Bool.or_eq_true, decide_eq_true_eq]
        omega
    have htail : Apart text ranges :=
      ⟨fun r hr => h.inside r (List.mem_cons_of_mem _ hr), hrest⟩
    rw [withoutOverlaps, if_neg hkept, ih htail (some span) fun p hp => ?_]
    cases hp
    exact ⟨hspan.1, hnext⟩

/-- The spans that normalise are some of those given. -/
theorem normalizeSpans_sublist {ranges : List (Span × Str)} :
    (normalizeSpans text guard (ranges.map fun range =>
      (Anchor.range range.1.start range.1.stop, range.2))).1.Sublist ranges := by
  obtain ⟨kept, hkept, hforall, -⟩ := normalizeSpans_kept text guard
    (ranges.map fun range => (Anchor.range range.1.start range.1.stop, range.2))
  obtain ⟨sub, hsub, rfl⟩ := List.sublist_map_iff.mp hkept
  have hsame : ∀ a b, Normalizes text guard (Anchor.range a.1.start a.1.stop, a.2) b → b = a := by
    rintro ⟨a, r⟩ b ⟨hanchor, htext, -⟩
    unfold normalizeAnchor at hanchor
    dsimp only at hanchor
    split at hanchor
    · have hspan := Except.ok.inj hanchor
      exact Prod.ext (hspan.symm.trans rfl) htext
    · cases hanchor
  have hmap : (normalizeSpans text guard _).1.map id = sub.map id :=
    Pointwise.map_eq (List.forall₂_map_left_iff.mp hforall) hsame
  rw [List.map_id, List.map_id] at hmap
  rw [hmap]
  exact hsub

theorem wholeLines_lineOps (lineId : Str) (ranges : List (Span × Str)) :
    wholeLines (lineOps lineId ranges) = [] ∧ spans (lineOps lineId ranges) =
      ranges.map fun range => (Anchor.range range.1.start range.1.stop, range.2) := by
  induction ranges with
  | nil => exact ⟨rfl, rfl⟩
  | cons range ranges ih =>
    exact ⟨ih.1, congrArg _ ih.2⟩

/-- **Edits that are apart are never refused as overlapping.** -/
theorem overlap_notMem_applyLineOps {ranges : List (Span × Str)} (h : Apart text ranges)
    (lineId : Str) :
    ∀ refusal ∈ (applyLineOps lineId (lineOps lineId ranges) text role guard).2,
      refusal.reason ≠ .overlap := by
  obtain ⟨hwhole, hspans⟩ := wholeLines_lineOps lineId ranges
  have hsub := @normalizeSpans_sublist text guard ranges
  have hapart : Apart text (normalizeSpans text guard (spans (lineOps lineId ranges))).1 := by
    rw [hspans]
    exact ⟨fun range hrange => h.inside range (hsub.subset hrange), h.apart.sublist hsub⟩
  -- ranges that lie apart are sorted already, so sorting them changes nothing
  have hsorted : (normalizeSpans text guard (spans (lineOps lineId ranges))).1.Pairwise fun a b =>
      a.1.start < b.1.start ∨ (a.1.start = b.1.start ∧ a.1.stop ≤ b.1.stop) := by
    refine hapart.apart.imp_of_mem fun {a b} ha _ hab => .inl ?_
    exact lt_of_lt_of_le (hapart.inside a ha).1 hab
  have hnone := withoutOverlaps_of_apart hapart none (by simp)
  have hmalformed := @overlap_notMem_normalizeSpans text guard (spans (lineOps lineId ranges))
  unfold applyLineOps applySpanOps
  rw [if_neg (not_not.mpr hwhole)]
  dsimp only
  rw [hsorted.insertionSort_eq, hnone]
  intro refusal hrefusal hoverlap
  obtain ⟨reason, hreason, rfl⟩ := List.mem_map.mp hrefusal
  obtain rfl : reason = .overlap := hoverlap
  dsimp only at hreason
  rw [List.append_nil] at hreason
  -- overlaps aside, a refusal comes from one span or from the verdict on all of them
  split at hreason
  · exact hmalformed hreason
  · split at hreason
    · next reason hverdict =>
      rcases List.mem_append.mp hreason with hmem | hmem
      · exact hmalformed hmem
      · rw [← List.mem_singleton.mp hmem] at hverdict
        exact spansVerdict_ne_overlap hverdict
    · exact hmalformed hreason

end Apply

/-! ## Words of the lexicon -/

section Words

variable {rules : List SubstitutionRule} {lexicon : List Str} {text : Str} {edits : List Candidate}

/-- Do two stretches share a character? -/
def meets (a b : Span) : Bool := a.start < b.stop && b.start < a.stop

/-- The stretch of a line around an edit: its tokens, and those of every
other edit that shares one. -/
def stretch (text : Str) (edits : List Candidate) (edit : Candidate) : Span :=
  let bounds := tokenBounds text edit.span
  let around := (edits.map fun c => tokenBounds text c.span).filter (meets · bounds)
  ⟨(around.map Span.start).foldl min bounds.start, (around.map Span.stop).foldl max bounds.stop⟩

/-- Is the stretch around an edit a word once all edits are applied? -/
def readsAsWord (lexicon : List Str) (text : Str) (edits : List Candidate)
    (edit : Candidate) : Bool :=
  let around := stretch text edits edit
  isWord lexicon <|
    composeFrom text around.stop around.start (edits.filter fun c => meets c.span around)

omit [Unicode] in
theorem le_tokenBounds (text : Str) (span : Span) :
    (tokenBounds text span).start ≤ span.start ∧ span.stop ≤ (tokenBounds text span).stop :=
  ⟨Nat.sub_le _ _, Nat.le_add_right _ _⟩

omit [Unicode] in
theorem foldl_of_forall_eq {op : Nat → Nat → Nat} {a : Nat} (hop : op a a = a) {l : List Nat}
    (h : ∀ x ∈ l, x = a) : l.foldl op a = a := by
  induction l with
  | nil => rfl
  | cons x l ih =>
    rw [List.foldl_cons, h x List.mem_cons_self, hop]
    exact ih fun y hy => h y (List.mem_cons_of_mem _ hy)

omit [Unicode] in
/-- Where no token is shared unevenly, the stretch is the token. -/
theorem stretch_eq {edit : Candidate}
    (h : ∀ c ∈ edits, meets (tokenBounds text c.span) (tokenBounds text edit.span) = true →
      tokenBounds text c.span = tokenBounds text edit.span) :
    stretch text edits edit = tokenBounds text edit.span := by
  have haround : ∀ bounds ∈ (edits.map fun c => tokenBounds text c.span).filter
      (meets · (tokenBounds text edit.span)), bounds = tokenBounds text edit.span := by
    intro bounds hbounds
    obtain ⟨hin, hmeets⟩ := List.mem_filter.mp hbounds
    obtain ⟨c, hc, rfl⟩ := List.mem_map.mp hin
    exact h c hc hmeets
  have hsame : ∀ side : Span → Nat, ∀ x ∈ ((edits.map fun c => tokenBounds text c.span).filter
      (meets · (tokenBounds text edit.span))).map side, x = side (tokenBounds text edit.span) := by
    intro side x hx
    obtain ⟨bounds, hbounds, rfl⟩ := List.mem_map.mp hx
    rw [haround bounds hbounds]
  unfold stretch
  dsimp only
  rw [foldl_of_forall_eq (Nat.min_self _) (hsame Span.start),
    foldl_of_forall_eq (Nat.max_self _) (hsame Span.stop)]

/-- Edits of a token that stands are a word together, if one is guarded. -/
theorem isWord_of_not_rejected {chosen : List Candidate} {edit : Candidate} (hin : edit ∈ chosen)
    (hguarded : edit.guarded = true)
    (hword : wordOk lexicon text ⟨edit.span, edit.replacement⟩ = true)
    (hstands : rejected lexicon text chosen (tokenBounds text edit.span) = false) :
    isWord lexicon (composeFrom text (tokenBounds text edit.span).stop
      (tokenBounds text edit.span).start
      (chosen.filter fun c => tokenBounds text c.span = tokenBounds text edit.span)) = true := by
  have hmem : edit ∈ chosen.filter fun c => tokenBounds text c.span = tokenBounds text edit.span :=
    List.mem_filter.mpr ⟨hin, decide_eq_true rfl⟩
  unfold rejected at hstands
  dsimp only at hstands
  generalize (chosen.filter fun c => tokenBounds text c.span = tokenBounds text edit.span) = group
    at hmem hstands ⊢
  by_cases hseveral : 2 ≤ group.length
  · have hany : group.any Candidate.guarded = true := List.any_eq_true.mpr ⟨edit, hmem, hguarded⟩
    simpa [hseveral, hany] using hstands
  · -- the only edit of its token was vetted on its own
    obtain rfl : group = [edit] := by
      rcases group with _ | ⟨only, _ | ⟨_, _⟩⟩
      · cases hmem
      · rw [List.mem_singleton.mp hmem]
      · exact absurd (by simp) hseveral
    exact hword

/-- **An edit that shares no token unevenly makes a word.** -/
theorem readsAsWord_of_even {edit : Candidate}
    (hin : edit ∈ select (candidates rules lexicon text)) (hguarded : edit.guarded = true)
    (hstands : rejected lexicon text (select (candidates rules lexicon text))
      (tokenBounds text edit.span) = false)
    (h : ∀ c ∈ validateComposedTokens lexicon text (select (candidates rules lexicon text)),
      meets (tokenBounds text c.span) (tokenBounds text edit.span) = true →
        tokenBounds text c.span = tokenBounds text edit.span) :
    readsAsWord lexicon text
      (validateComposedTokens lexicon text
          (select (candidates rules lexicon text))) edit = true := by
  have hproposed := (select_spec rules lexicon text).1
  unfold readsAsWord
  dsimp only
  rw [stretch_eq h]
  -- the edits in the token are the group the token was judged by
  have hgroup : (validateComposedTokens lexicon text
        (select (candidates rules lexicon text))).filter
        (fun c => meets c.span (tokenBounds text edit.span)) =
      (select (candidates rules lexicon text)).filter
        fun c => tokenBounds text c.span = tokenBounds text edit.span := by
    rw [validateComposedTokens, List.filter_filter]
    refine List.filter_congr fun c hc => ?_
    obtain ⟨hspan, -⟩ := mem_candidates (hproposed c hc)
    have hbounds := le_tokenBounds text c.span
    by_cases hsame : tokenBounds text c.span = tokenBounds text edit.span
    · have hmeets : meets c.span (tokenBounds text edit.span) = true := by
        rw [hsame] at hbounds
        simp only [meets, Bool.and_eq_true, decide_eq_true_eq]
        omega
      rw [hmeets, hsame, hstands]
      simp
    · have hapart : ¬ (meets c.span (tokenBounds text edit.span) = true ∧
          rejected lexicon text (select (candidates rules lexicon text))
            (tokenBounds text c.span) = false) := by
        rintro ⟨hmeets, hkept⟩
        refine hsame (h c (List.mem_filter.mpr ⟨hc, by simp [hkept]⟩) ?_)
        simp only [meets, Bool.and_eq_true, decide_eq_true_eq] at hmeets ⊢
        omega
      simpa [hsame] using hapart
  rw [hgroup]
  exact isWord_of_not_rejected hin hguarded
    ((mem_candidates (hproposed edit hin)).2.2 hguarded) hstands

/-- What the rules producer promises of a line. -/
structure RulesSafe (rules : List SubstitutionRule) (lexicon : List Str) (text : Str) : Prop where
  apart : Apart text (spansForLine rules lexicon text)
  /-- Its edits are never refused as overlapping. -/
  accepted : ∀ lineId role guard, ∀ refusal ∈
    (applyLineOps lineId (lineOps lineId (spansForLine rules lexicon text)) text role guard).2,
    refusal.reason ≠ .overlap
  /-- A guarded edit makes a word of the stretch around it. -/
  words : ∀ edit ∈ editsForLine rules lexicon text, edit.guarded = true →
    readsAsWord (normalLexicon lexicon) text (editsForLine rules lexicon text) edit = true

/-- No guarded edit of a token that stands shares it with an edit of another
token that stands. -/
def SharesEvenly (lexicon : List Str) (text : Str) (chosen : List Candidate) : Prop :=
  ∀ edit ∈ chosen, edit.guarded = true →
    rejected lexicon text chosen (tokenBounds text edit.span) = false →
    ∀ other ∈ chosen, rejected lexicon text chosen (tokenBounds text other.span) = false →
      meets (tokenBounds text other.span) (tokenBounds text edit.span) = true →
        tokenBounds text other.span = tokenBounds text edit.span

instance (lexicon : List Str) (text : Str) (chosen : List Candidate) :
    Decidable (SharesEvenly lexicon text chosen) :=
  inferInstanceAs (Decidable (∀ _ ∈ _, _ → _ → ∀ _ ∈ _, _ → _ → _))

theorem mem_editsForLine {c : Candidate} : c ∈ editsForLine rules lexicon text ↔
    c ∈ select (candidates rules (normalLexicon lexicon) text) ∧
      rejected (normalLexicon lexicon) text
        (select (candidates rules (normalLexicon lexicon) text))
            (tokenBounds text c.span) = false := by
  rw [editsForLine, validateComposedTokens, List.mem_filter, Bool.not_eq_true']

/-- **The spans of a line are apart**, whatever the rules. -/
theorem apart_spansForLine (rules : List SubstitutionRule) (lexicon : List Str) (text : Str) :
    Apart text (spansForLine rules lexicon text) := by
  obtain ⟨hproposed, hpairwise⟩ := select_spec rules (normalLexicon lexicon) text
  refine ⟨fun range hrange => ?_, List.pairwise_map.mpr (hpairwise.sublist List.filter_sublist)⟩
  obtain ⟨c, hc, rfl⟩ := List.mem_map.mp hrange
  obtain ⟨hspan, hstop, -⟩ := mem_candidates (hproposed c (mem_editsForLine.mp hc).1)
  exact ⟨hspan, hstop⟩

theorem rulesSafe_of_evenly (heven : SharesEvenly (normalLexicon lexicon) text
    (select (candidates rules (normalLexicon lexicon) text))) : RulesSafe rules lexicon text := by
  have hapart := apart_spansForLine rules lexicon text
  refine ⟨hapart, fun lineId role guard => overlap_notMem_applyLineOps hapart lineId,
    fun edit hedit hguarded => ?_⟩
  obtain ⟨hin, hstands⟩ := mem_editsForLine.mp hedit
  refine readsAsWord_of_even hin hguarded hstands fun other hother => ?_
  obtain ⟨hotherIn, hotherStands⟩ := mem_editsForLine.mp hother
  exact heven edit hin hguarded hstands other hotherIn hotherStands

/-! ### Matches within a word -/

/-- No whitespace stands in a stretch of the text. -/
def InWord (text : Str) (span : Span) : Prop :=
    ∀ c ∈ slice text span.start span.stop, isSpace c = false

instance (text : Str) (span : Span) : Decidable (InWord text span) :=
  inferInstanceAs (Decidable (∀ c ∈ slice text span.start span.stop, isSpace c = false))

omit [Unicode] in
/-- A span lies in a word when no blank is inside it. -/
theorem inWord_iff {span : Span} : InWord text span ↔
    ∀ i c, span.start ≤ i → i < span.stop → text[i]? = some c → isSpace c = false := by
  constructor
  · intro h i c hle hlt hc
    refine h c (List.mem_iff_getElem?.mpr ⟨i - span.start, ?_⟩)
    rw [slice, List.getElem?_drop, Nat.add_sub_cancel' hle, List.getElem?_take, if_pos hlt, hc]
  · intro h c hc
    obtain ⟨i, hi⟩ := List.mem_iff_getElem?.mp hc
    rw [slice, List.getElem?_drop, List.getElem?_take] at hi
    split at hi
    · next hlt => exact h _ c (Nat.le_add_right _ _) hlt hi
    · cases hi

/-- A token of the text, from one whitespace to the next. -/
structure WholeToken (text : Str) (span : Span) : Prop where
  inside : span.stop ≤ text.length
  word : InWord text span
  before : ∀ i c, i + 1 = span.start → text[i]? = some c → isSpace c = true
  after : ∀ c, text[span.stop]? = some c → isSpace c = true

omit [Unicode] in
/-- Whole tokens that share a character are one. -/
theorem WholeToken.eq_of_meets {a b : Span} (ha : WholeToken text a) (hb : WholeToken text b)
    (hmeets : meets a b = true) : a = b := by
  have hle : ∀ {a b : Span}, WholeToken text a → WholeToken text b → meets a b = true →
      b.start ≤ a.start ∧ a.stop ≤ b.stop := by
    intro a b ha hb hmeets
    simp only [meets, Bool.and_eq_true, decide_eq_true_eq] at hmeets
    constructor
    · -- else the whitespace before `b` stands in `a`
      by_contra hlt
      have hinside := ha.inside
      obtain ⟨c, hc⟩ : ∃ c, text[b.start - 1]? = some c :=
        ⟨_, List.getElem?_eq_getElem (by omega)⟩
      have hspace := hb.before _ c (by omega) hc
      rw [inWord_iff.mp ha.word _ c (by omega) (by omega) hc] at hspace
      cases hspace
    · by_contra hlt
      have hinside := ha.inside
      obtain ⟨c, hc⟩ : ∃ c, text[b.stop]? = some c := ⟨_, List.getElem?_eq_getElem (by omega)⟩
      have hspace := hb.after c hc
      rw [inWord_iff.mp ha.word _ c (by omega) (by omega) hc] at hspace
      cases hspace
  have hmeets' : meets b a = true := by
    rw [meets, Bool.and_comm]
    exact hmeets
  obtain ⟨hstart, hstop⟩ := hle ha hb hmeets
  obtain ⟨hstart', hstop'⟩ := hle hb ha hmeets'
  cases a
  cases b
  congr 1
  · exact Nat.le_antisymm hstart' hstart
  · exact Nat.le_antisymm hstop hstop'

omit [Unicode] in
/-- A prefix that is all of a kind ends before what is not. -/
theorem length_takeWhile_spec {α : Type*} (p : α → Bool) (l : List α) :
    (∀ i < (l.takeWhile p).length, ∀ c ∈ l[i]?, p c = true) ∧
      ∀ c ∈ l[(l.takeWhile p).length]?, p c = false := by
  induction l with
  | nil => simp
  | cons a l ih =>
    rw [List.takeWhile_cons]
    by_cases ha : p a = true
    · rw [if_pos ha, List.length_cons]
      refine ⟨fun i hi c hc => ?_, ih.2⟩
      cases i with
      | zero =>
        obtain rfl : a = c := by simpa using hc
        exact ha
      | succ i => exact ih.1 i (Nat.lt_of_succ_lt_succ hi) c hc
    · rw [if_neg ha]
      refine ⟨fun i hi => absurd hi (Nat.not_lt_zero i), fun c hc => ?_⟩
      obtain rfl : a = c := by simpa using hc
      simpa using ha

omit [Unicode] in
/-- The token around a stretch of one word is a whole one. -/
theorem wholeToken_tokenBounds {span : Span} (hle : span.start ≤ span.stop)
    (hstop : span.stop ≤ text.length) (hword : InWord text span) :
    WholeToken text (tokenBounds text span) := by
  obtain ⟨hback, hbefore⟩ := length_takeWhile_spec (!isSpace ·) (text.take span.start).reverse
  obtain ⟨hahead, hafter⟩ := length_takeWhile_spec (!isSpace ·) (text.drop span.stop)
  have hlen : (text.take span.start).length = span.start := by
    rw [List.length_take]
    omega
  have hbackLe := List.IsPrefix.length_le
    (List.takeWhile_prefix (!isSpace ·) (l := (text.take span.start).reverse))
  have haheadLe := List.IsPrefix.length_le
    (List.takeWhile_prefix (!isSpace ·) (l := text.drop span.stop))
  rw [List.length_reverse, hlen] at hbackLe
  rw [List.length_drop] at haheadLe
  -- the reversed prefix, read from the span backwards
  have hread : ∀ i < span.start, (text.take span.start).reverse[i]? =
      text[span.start - 1 - i]? := by
    intro i hi
    rw [List.getElem?_reverse (by omega), hlen, List.getElem?_take, if_pos (by omega)]
  refine ⟨?_, inWord_iff.mpr fun i c hfrom hto hc => ?_, fun i c hi hc => ?_, fun c hc => ?_⟩
  · dsimp only [tokenBounds]
    omega
  · dsimp only [tokenBounds] at hfrom hto
    by_cases hbehind : i < span.start
    · have hnot := hback (span.start - 1 - i) (by omega) c (by
        rw [hread _ (by omega), show span.start - 1 - (span.start - 1 - i) = i by omega]
        exact hc)
      simpa using hnot
    · by_cases hin : i < span.stop
      · exact inWord_iff.mp hword i c (by omega) hin hc
      · have hnot := hahead (i - span.stop) (by omega) c (by
          rw [List.getElem?_drop, Nat.add_sub_cancel' (by omega)]
          exact hc)
        simpa using hnot
  · dsimp only [tokenBounds] at hi
    have hspace := hbefore c (by
      rw [hread _ (by omega), show span.start - 1 -
        ((text.take span.start).reverse.takeWhile (!isSpace ·)).length = i by omega]
      exact hc)
    simpa using hspace
  · have hspace := hafter c (by
      rw [List.getElem?_drop]
      exact hc)
    simpa using hspace

/-- Matches that reach over no whitespace share tokens evenly. -/
theorem sharesEvenly_of_inWord
    (h : ∀ c ∈ candidates rules lexicon text, InWord text c.span) :
    SharesEvenly lexicon text (select (candidates rules lexicon text)) := by
  have hwhole : ∀ c ∈ select (candidates rules lexicon text),
      WholeToken text (tokenBounds text c.span) := by
    intro c hc
    have hproposed := (select_spec rules lexicon text).1 c hc
    obtain ⟨hlt, hstop, -⟩ := mem_candidates hproposed
    exact wholeToken_tokenBounds hlt.le hstop (h c hproposed)
  intro edit hedit _ _ other hother _ hmeets
  exact (hwhole other hother).eq_of_meets (hwhole edit hedit) hmeets

/-- **Rules edits are apart on every line, and lexicon-safe where no guarded
edit shares a token with an edit of other bounds**; so always where no match
reaches over whitespace. -/
theorem rulesSafe_spansForLine (rules : List SubstitutionRule) (lexicon : List Str) (text : Str) :
    (Apart text (spansForLine rules lexicon text) ∧ ∀ lineId role guard, ∀ refusal ∈
      (applyLineOps lineId (lineOps lineId (spansForLine rules lexicon text)) text role guard).2,
      refusal.reason ≠ .overlap) ∧
    (SharesEvenly (normalLexicon lexicon) text
        (select (candidates rules (normalLexicon lexicon) text)) → RulesSafe rules lexicon text) ∧
    ((∀ c ∈ candidates rules (normalLexicon lexicon) text, InWord text c.span) →
      SharesEvenly (normalLexicon lexicon) text
        (select (candidates rules (normalLexicon lexicon) text))) := by
  -- the candidates are selected apart, so the line operations meet no overlap
  have hapart := apart_spansForLine rules lexicon text
  exact ⟨⟨hapart, fun lineId role guard => overlap_notMem_applyLineOps hapart lineId⟩,
    rulesSafe_of_evenly, sharesEvenly_of_inWord⟩

end Words

/-! ## One line -/

/-- A literal rule. -/
def literalRule (needle replacement : String) (guarded : Bool) : SubstitutionRule :=
  ⟨.literal needle.toList, replacement.toList, guarded⟩

/-- A rule for the characters of a class. -/
def classRule (members replacement : String) : SubstitutionRule :=
  ⟨.regex (.charClass members.toList), replacement.toList, false⟩

omit [Unicode] in
/-- A guarded edit and the long s of the next word, which do not meet: the
line becomes "moderne sab". -/
theorem rulesSafe_longS : @RulesSafe .ascii
    [literalRule "em" "ern" true, classRule "ſ" "s"] ["moderne".toList] "modeme ſab".toList :=
  (@rulesSafe_spansForLine .ascii [literalRule "em" "ern" true, classRule "ſ" "s"]
    ["moderne".toList] "modeme ſab".toList).2.1 (by decide +kernel)

omit [Unicode] in
/-- **An edit over the space after it undoes a guarded edit's word**: the
line becomes "moderne-ab". -/
theorem not_rulesSafe_hyphenated : ¬ @RulesSafe .ascii
    [literalRule "em" "ern" true, literalRule "e a" "e-a" false] ["moderne".toList]
    "modeme ab".toList := by
  intro hsafe
  have hword := @RulesSafe.words .ascii _ _ _ hsafe ⟨⟨3, 5⟩, "ern".toList, true⟩
    (by decide +kernel) rfl
  revert hword
  decide +kernel

end Saknussemm.Rules
