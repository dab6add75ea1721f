import Mathlib.Data.List.Sort
import Saknussemm.Library.Dict
import Saknussemm.Norm
import Saknussemm.Pairing

/-! # The edit protocol.

A producer answers with operations on lines: the whole line's text, or a
span of it.  Spans are anchored by offsets or by an exact substring,
normalised to offsets, and judged before they apply.  The same
application replays a published script. -/

namespace Saknussemm

/-- The digest of one line's text that a precondition records. -/
class Digest where
  lineDigest : Str → Str

/-! ## Operations -/

/-- Where a span sits in the line's text: by offsets, or by an exact
substring, which has to be unique unless an occurrence is named. -/
inductive Anchor where
  | range (start stop : Int)
  | text (needle : Str) (occurrence : Option Int)
  deriving DecidableEq

/-- One edit operation.  A published one carries its page id. -/
inductive EditOp where
  | replaceLine (lineId text : Str) (pageId : Option Str)
  | replaceSpan (lineId : Str) (anchor : Anchor) (text : Str) (pageId : Option Str)
  deriving DecidableEq

/-- The names of the operations, as rejections report them. -/
inductive OpKind where
  | replaceLine | replaceSpan
  deriving DecidableEq, Repr

namespace EditOp

/-- The line an operation is about. -/
def lineId : EditOp → Str
  | replaceLine id .. | replaceSpan id .. => id

/-- The page an operation is stamped with. -/
def pageId : EditOp → Option Str
  | replaceLine _ _ page | replaceSpan _ _ _ page => page

/-- The operation's name. -/
def kind : EditOp → OpKind
  | replaceLine .. => .replaceLine
  | replaceSpan .. => .replaceSpan

/-- The operation stamped with a page. -/
def stamped (page : Str) : EditOp → EditOp
  | replaceLine id text _ => replaceLine id text (some page)
  | replaceSpan id anchor text _ => replaceSpan id anchor text (some page)

end EditOp

/-- What a line's source text must be for a script to apply to it. -/
structure LinePrecondition where
  lineId : Str
  pageId : Option Str
  digest : Str
  deriving DecidableEq

/-- Operations, with the protocol they speak and their preconditions. -/
structure EditScript where
  ops : List EditOp
  protocolVersion : Option Str
  preconditions : List LinePrecondition

/-- The version of this protocol. -/
def editProtocolVersion : Str := "1".toList

/-- A bare list of operations, as producers answer. -/
def EditScript.ofOps (ops : List EditOp) : EditScript := ⟨ops, none, []⟩

/-! ## Refusals -/

/-- Why an operation was refused. -/
inductive EditReason where
  | unknownLine
  | contextLine
  | conflict
  | empty
  | newline
  | overlap
  | driftRatio
  | driftBudget
  | hyphen
  | boundaryWord
  | anchorNotFound
  | anchorAmbiguous
  | anchorRange
  | anchorEmpty
  | precondition
  deriving DecidableEq, Repr

/-- One operation that could not be applied.  A failed precondition names
the digest found and the one recorded. -/
structure EditRejection where
  lineId : Str
  op : OpKind
  reason : EditReason
  detail : Option (Str × Str)
  deriving DecidableEq

/-- New text of every line with an accepted operation, and the refusals. -/
structure EditResult where
  textById : Dict Str Str
  rejected : List EditRejection

/-! ## Anchors -/

/-- A span of a line's text. -/
structure Span where
  start : Nat
  stop : Nat
  deriving DecidableEq

/-- Offsets at which `needle` occurs, overlaps included. -/
def occurrencesFrom (needle : Str) : Nat → Str → List Nat
  | i, [] => if needle = [] then [i] else []
  | i, c :: rest =>
    if needle.isPrefixOf (c :: rest) then i :: occurrencesFrom needle (i + 1) rest
    else occurrencesFrom needle (i + 1) rest

/-- Normalise an anchor to offsets into `canonical`. -/
def normalizeAnchor (anchor : Anchor) (canonical : Str) : Except EditReason Span :=
  match anchor with
  | .range start stop =>
    if 0 ≤ start ∧ start ≤ stop ∧ stop ≤ canonical.length then .ok ⟨start.toNat, stop.toNat⟩
    else .error .anchorRange
  | .text needle occurrence =>
    if needle = [] then .error .anchorEmpty
    else
      match occurrencesFrom needle 0 canonical, occurrence with
      | [], _ => .error .anchorNotFound
      | [start], none => .ok ⟨start, start + needle.length⟩
      | _ :: _ :: _, none => .error .anchorAmbiguous
      | start :: rest, some n =>
        match if n < 0 then none else (start :: rest)[n.toNat]? with
        | some at' => .ok ⟨at', at' + needle.length⟩
        | none => .error .anchorRange

/-! ## Drift and hyphen checks -/

/-- Length of the common prefix. -/
def commonPrefix : Str → Str → Nat
  | a :: as, b :: bs => if a = b then commonPrefix as bs + 1 else 0
  | _, _ => 0

/-- Characters a replacement changes: the larger side of what is left after
the common prefix and suffix. -/
def changedChars (original replacement : Str) : Nat :=
  let p := commonPrefix original replacement
  let s := commonPrefix (original.drop p).reverse (replacement.drop p).reverse
  max original.length replacement.length - p - s

/-- A forward hyphen line keeps its break mark and a word before it; a
space before the mark is accepted when the source already had one. -/
def e5HyphenOk (role : HyphenRole) (resultText source : Str) : Bool :=
  if role = .part1 ∨ role = .both then
    let stripped := rstrip resultText
    let beforeMark := rstripChars hyphenChars stripped
    endsWithAny stripped hyphenChars &&
      match beforeMark.getLast? with
      | none => false
      | some c => !isSpace c || endsWithAny (rstripChars hyphenChars (rstrip source)) [' ']
  else true

/-- Where the first word of `text` starts and ends. -/
def firstWordRange (text : Str) : Option Span :=
  let start := (text.takeWhile isSpace).length
  let word := (text.dropWhile isSpace).takeWhile (!isSpace ·)
  if word = [] then none else some ⟨start, start + word.length⟩

/-- No span erases the word that continues a broken word. -/
def e5bBoundaryWordKept (role : HyphenRole) (canonical : Str)
    (accepted : List (Span × Str)) : Bool :=
  if role = .part2 ∨ role = .both then
    match firstWordRange canonical with
    | none => true
    | some word =>
      !accepted.any fun (span, replacement) =>
        span.start ≤ word.start && word.stop ≤ span.stop && strip replacement = []
  else true

/-- The hyphen checks of a span-edited line. -/
def e5Refusal (role : HyphenRole) (canonical result : Str) (accepted : List (Span × Str)) :
    Option EditReason :=
  if !e5HyphenOk role result canonical then some .hyphen
  else if !e5bBoundaryWordKept role canonical accepted then some .boundaryWord
  else none

/-- The drift and hyphen checks of a whole-line proposal. -/
def wholeLineDriftRefusal (role : HyphenRole) (canonical text : Str) (guard : GuardConfig) :
    Option EditReason :=
  if guard.editLineMaxChangedChars < changedChars canonical text then some .driftBudget
  else if !e5HyphenOk role text canonical then some .hyphen
  else none

/-! ## Applying the operations of one line -/

/-- Apply spans right to left. -/
def applySpans (canonical : Str) (ranges : List (Span × Str)) : Str :=
  (ranges.insertionSort fun a b => b.1.start ≤ a.1.start).foldl
    (fun text (span, replacement) => text.take span.start ++ replacement ++ text.drop span.stop)
    canonical

/-- Normalise the spans, refusing those whose text, anchor or growth is
not acceptable. -/
def normalizeSpans (canonical : Str) (guard : GuardConfig) :
    List (Anchor × Str) → List (Span × Str) × List EditReason
  | [] => ([], [])
  | (anchor, text) :: rest =>
    let (normalized, refused) := normalizeSpans canonical guard rest
    if hasLineSeparator text then (normalized, .newline :: refused)
    else
      match normalizeAnchor anchor canonical with
      | .error reason => (normalized, reason :: refused)
      | .ok span =>
        if guard.editSpanMaxGrowthRatio * (max 1 (span.stop - span.start) : Nat) < text.length then
          (normalized, .driftRatio :: refused)
        else ((span, text) :: normalized, refused)

/-- Keep the spans that overlap no span kept before them; `prev` is the one
kept last. -/
def withoutOverlaps : Option Span → List (Span × Str) → List (Span × Str) × List EditReason
  | _, [] => ([], [])
  | prev, (span, text) :: rest =>
    if prev.any fun p => span.start < p.stop || span.start = p.start then
      let (accepted, refused) := withoutOverlaps prev rest
      (accepted, .overlap :: refused)
    else
      let (accepted, refused) := withoutOverlaps (some span) rest
      ((span, text) :: accepted, refused)

/-- The verdict on the accepted spans together: the budget, then the
resulting line. -/
def spansVerdict (role : HyphenRole) (canonical : Str) (accepted : List (Span × Str))
    (guard : GuardConfig) : Except EditReason Str :=
  let changed := (accepted.map fun (span, text) =>
    changedChars ((canonical.take span.stop).drop span.start) text).sum
  let result := applySpans canonical accepted
  if guard.editLineMaxChangedChars < changed then .error .driftBudget
  else if strip result = [] then .error .empty
  else
    match e5Refusal role canonical result accepted with
    | some reason => .error reason
    | none => .ok result

/-- Apply a line's spans.  `none` leaves the line as it was. -/
def applySpanOps (canonical : Str) (role : HyphenRole) (guard : GuardConfig)
    (spans : List (Anchor × Str)) : Option Str × List EditReason :=
  let (normalized, malformed) := normalizeSpans canonical guard spans
  let ordered := normalized.insertionSort fun a b =>
    a.1.start < b.1.start ∨ (a.1.start = b.1.start ∧ a.1.stop ≤ b.1.stop)
  let (accepted, overlapping) := withoutOverlaps none ordered
  if accepted = [] then (none, malformed ++ overlapping)
  else
    match spansVerdict role canonical accepted guard with
    | .error reason => (none, malformed ++ overlapping ++ [reason])
    | .ok result => (some result, malformed ++ overlapping)

/-- Whole-line texts among a line's operations. -/
def wholeLines (ops : List EditOp) : List Str :=
  ops.filterMap fun
    | .replaceLine _ text _ => some text
    | .replaceSpan .. => none

/-- Spans among a line's operations. -/
def spans (ops : List EditOp) : List (Anchor × Str) :=
  ops.filterMap fun
    | .replaceSpan _ anchor text _ => some (anchor, text)
    | .replaceLine .. => none

/-- Why a whole-line proposal may not stand, if it may not. -/
def wholeLineVerdict (texts : List Str) (spanOps : List (Anchor × Str)) (role : HyphenRole)
    (canonical : Str) (guard : GuardConfig) : Except EditReason Str :=
  match texts with
  | [text] =>
    if spanOps ≠ [] then .error .conflict
    else if hasLineSeparator text then .error .newline
    else if strip text = [] then .error .empty
    else
      match wholeLineDriftRefusal role canonical text guard with
      | some reason => .error reason
      | none => .ok text
  | _ => .error .conflict

/-- Apply one line's operations. -/
def applyLineOps (lineId : Str) (ops : List EditOp) (canonical : Str) (role : HyphenRole)
    (guard : GuardConfig) : Option Str × List EditRejection :=
  if wholeLines ops ≠ [] then
    match wholeLineVerdict (wholeLines ops) (spans ops) role canonical guard with
    | .error reason => (none, [⟨lineId, .replaceLine, reason, none⟩])
    | .ok text => (some text, [])
  else
    let (text, refused) := applySpanOps canonical role guard (spans ops)
    (text, refused.map fun reason => ⟨lineId, .replaceSpan, reason, none⟩)

/-! ## Applying a script -/

/-- Why a line may not be edited: nobody knows it, or it was only context. -/
def e1Refusal (lineId : Str) (canonicalById : Dict Str Str) (chunkLineIds : Option (List Str)) :
    Option EditReason :=
  if (canonicalById.get? lineId).isNone then some .unknownLine
  else if chunkLineIds.any (lineId ∉ ·) then some .contextLine
  else none

/-- Is something stamped with `stamp` in scope when replaying `page`? -/
def inScope (page stamp : Option Str) : Bool :=
  match page, stamp with
  | some p, some q => p = q
  | _, _ => true

/-- The operations in scope by line, lines in order of first mention. -/
def opsByLine (ops : List EditOp) : List (Str × List EditOp) :=
  ((ops.map EditOp.lineId).eraseDups).map fun id => (id, ops.filter (·.lineId = id))

/-- Apply the operations of one line of a script. -/
def applyLine [Digest] (canonicalById : Dict Str Str) (chunkLineIds : Option (List Str))
    (guard : GuardConfig) (roleOf : Str → HyphenRole) (digestByLine : Dict Str Str) (lineId : Str)
    (ops : List EditOp) : Option Str × List EditRejection :=
  match e1Refusal lineId canonicalById chunkLineIds with
  | some reason => (none, ops.map fun op => ⟨lineId, op.kind, reason, none⟩)
  | none =>
    let canonical := (canonicalById.get? lineId).getD []
    match digestByLine.get? lineId with
    | some expected =>
      if Digest.lineDigest canonical ≠ expected then
        (none, ops.map fun op =>
          ⟨lineId, op.kind, .precondition, some (Digest.lineDigest canonical, expected)⟩)
      else applyLineOps lineId ops canonical (roleOf lineId) guard
    | none => applyLineOps lineId ops canonical (roleOf lineId) guard

/-- A script of another protocol version is refused whole. -/
structure UnknownProtocol where
  version : Str

/-- Apply a script, scoped to one page when `pageId` is given. -/
def applyEditScript [Digest] (script : EditScript) (canonicalById : Dict Str Str)
    (chunkLineIds : Option (List Str)) (guard : GuardConfig) (roleOf : Str → HyphenRole)
    (pageId : Option Str) : Except UnknownProtocol EditResult :=
  match script.protocolVersion.filter (· ≠ editProtocolVersion) with
  | some version => .error ⟨version⟩
  | none =>
    let digestByLine := Dict.ofList <|
      (script.preconditions.filter fun pc => inScope pageId pc.pageId).map
        fun pc => (pc.lineId, pc.digest)
    let results := (opsByLine (script.ops.filter fun op => inScope pageId op.pageId)).map
      fun (lineId, ops) =>
        (lineId, applyLine canonicalById chunkLineIds guard roleOf digestByLine lineId ops)
    .ok {
      textById := results.filterMap fun (lineId, text, _) => text.map (lineId, ·)
      rejected := results.flatMap fun (_, _, rejected) => rejected }

end Saknussemm
