import Saknussemm.Library.Dict
import Saknussemm.Pairing

/-! # Building a document, and the identity checks at the doors.

A parser hands over pages whose lines carry a role and nothing else of
the hyphen state; the builder links them file by file, qualifies
colliding page ids, and sews the page seams.  Identities are checked
twice: per file right after parsing, and over the whole document at the
pipeline's door. -/

namespace Saknussemm

/-! ## Identity checks -/

/-- What the builder and the pipeline refuse. -/
inductive IdentityError where
  | duplicateId (sourceName : Str)
  | missingId (sourceName : Str)
  | pageIdInTwoFiles
  deriving DecidableEq, Repr

/-- Page ids unique, block ids unique within their page, line ids unique:
all within the pages of one source file. -/
def uniqueIdentities (pages : List PageManifest) : Bool :=
  decide ((pages.map PageManifest.pageId).Nodup) &&
    pages.all (fun page => decide ((page.blocks.map BlockManifest.blockId).Nodup)) &&
    decide ((pages.flatMap fun page => page.lines.map LineManifest.lineId).Nodup)

/-- The lines of some pages, by their ids. -/
def manifestById (pages : List PageManifest) : Dict Str LineManifest :=
  Dict.ofList ((pages.flatMap PageManifest.lines).map fun lm => (lm.lineId, lm))

/-- Refuse a file that repeats an id. -/
def ensureUniqueIdentities (pages : List PageManifest) (sourceName : Str) :
    Except IdentityError Unit :=
  if uniqueIdentities pages then .ok () else .error (.duplicateId sourceName)

/-- Refuse a line without an id. -/
def ensureElementIdsPresent (pages : List PageManifest) (sourceName : Str) :
    Except IdentityError Unit :=
  if pages.all fun page => page.lines.all fun lm => !lm.lineId.isEmpty then .ok ()
  else .error (.missingId sourceName)

/-- Refuse one page id in two source files. -/
def ensureUniquePageIdsAcrossFiles (pages : List PageManifest) : Except IdentityError Unit :=
  if pages.all fun p => pages.all fun q => p.pageId ≠ q.pageId || p.sourceFile = q.sourceFile
  then .ok () else .error .pageIdInTwoFiles

/-- The pages of one source file. -/
def pagesOfFile (pages : List PageManifest) (sourceName : Str) : List PageManifest :=
  pages.filter (·.sourceFile = sourceName)

/-- The identity checks of the pipeline's door. -/
def ensureIdentities (doc : DocumentManifest) : Except IdentityError Unit := do
  (doc.pages.map PageManifest.sourceFile).forM fun sourceName =>
    ensureUniqueIdentities (pagesOfFile doc.pages sourceName) sourceName
  ensureUniquePageIdsAcrossFiles doc.pages

/-! ## What a parser hands over -/

/-- A page fresh from a parser: its lines and blocks carry its id, no line
has been visited, and both link slots are empty.  Texts, roles, flags and
`SUBS_CONTENT` are whatever the markup said. -/
structure PageManifest.Parsed (page : PageManifest) : Prop where
  line_page : ∀ lm ∈ page.lines, lm.pageId = page.pageId
  block_page : ∀ block ∈ page.blocks, block.pageId = page.pageId
  unvisited : ∀ lm ∈ page.lines, lm.correctedText = none ∧ lm.status = .pending
  unlinked : ∀ lm ∈ page.lines, lm.hyphenPairLineId = none ∧ lm.hyphenPairPageId = none ∧
    lm.hyphenForwardPairId = none ∧ lm.hyphenForwardPairPageId = none

/-- One source file as its parser read it, before linking. -/
structure SourceFile where
  name : Str
  pages : List PageManifest
  parsed : ∀ page ∈ pages, page.Parsed
  source : ∀ page ∈ pages, page.sourceFile = name

/-! ## The builder -/

/-- Link the lines of one page in place. -/
def linkPage (policy : PairingPolicy) (page : PageManifest) : PageManifest :=
  { page with lines := linkHyphenPairs policy page.lines }

/-- The second half of a parser: link each page, then check the ids. -/
def parseFile (policy : PairingPolicy) (file : SourceFile) :
    Except IdentityError (Str × List PageManifest) := do
  let pages := file.pages.map (linkPage policy)
  ensureUniqueIdentities pages file.name
  ensureElementIdsPresent pages file.name
  return (file.name, pages)

/-- The three passes in order: in-page links, page ids, page seams. -/
def buildDocumentManifest (policy : PairingPolicy) (files : List SourceFile) :
    Except IdentityError DocumentManifest := do
  let parsed ← files.mapM (parseFile policy)
  return {
    sourceFiles := files.map SourceFile.name
    pages := linkCrossPageHyphens policy (allPages (disambiguatePageIds parsed)) }

/-! ## Plain documents

Lines without geometry or markup: the documents the concrete runs below
are made of. -/

/-- A line of text alone on its block, with a role read off its text. -/
def plainLine (pageId : Str) (order : Nat) (lineId text : String) (role : HyphenRole) :
    LineManifest where
  lineId := lineId.toList
  pageId := pageId
  blockId := "b".toList
  lineOrderGlobal := order
  coords := ⟨0, 0, 0, 0⟩
  ocrText := text.toList
  wordCount := none
  ocrConfidence := none
  prevLineId := none
  nextLineId := none
  correctedText := none
  status := .pending
  hyphenRole := role
  hyphenPairLineId := none
  hyphenPairPageId := none
  hyphenSubsContent := none
  hyphenSourceExplicit := false
  hyphenForwardPairId := none
  hyphenForwardPairPageId := none
  hyphenForwardSubsContent := none
  hyphenForwardExplicit := false

/-- A page of such lines, numbered from `start`, in a single block. -/
def plainPage (sourceFile pageId : String) (start : Nat)
    (rows : List (String × String × HyphenRole)) : PageManifest where
  pageId := pageId.toList
  sourceFile := sourceFile.toList
  pageWidth := 0
  pageHeight := 0
  blocks := [⟨"b".toList, pageId.toList, rows.map fun row => row.1.toList⟩]
  lines := (rows.zipIdx start).map fun (row, order) =>
    plainLine pageId.toList order row.1 row.2.1 row.2.2

/-- One page of some lines. -/
def onePage (lines : List LineManifest) : PageManifest :=
  { plainPage "a.xml" "p" 0 [] with lines := lines }

/-- A document of that page. -/
def onePageDocument (lines : List LineManifest) : DocumentManifest :=
  ⟨["a.xml".toList], [onePage lines]⟩

/-- A plain page is what a parser can return. -/
theorem plainPage_parsed (sourceFile pageId : String) (start : Nat)
    (rows : List (String × String × HyphenRole)) :
    (plainPage sourceFile pageId start rows).Parsed := by
  have hline : ∀ lm ∈ (plainPage sourceFile pageId start rows).lines,
      ∃ order lineId text role, lm = plainLine pageId.toList order lineId text role := by
    intro lm hlm
    obtain ⟨⟨row, order⟩, -, rfl⟩ := List.mem_map.mp hlm
    exact ⟨order, row.1, row.2.1, row.2.2, rfl⟩
  refine ⟨?_, ?_, ?_, ?_⟩
  · intro lm hlm
    obtain ⟨_, _, _, _, rfl⟩ := hline lm hlm
    rfl
  · simp [plainPage]
  · intro lm hlm
    obtain ⟨_, _, _, _, rfl⟩ := hline lm hlm
    exact ⟨rfl, rfl⟩
  · intro lm hlm
    obtain ⟨_, _, _, _, rfl⟩ := hline lm hlm
    exact ⟨rfl, rfl, rfl, rfl⟩

/-- A source file of plain pages: for each its id, the number of its first
line, and its rows. -/
def plainFile (name : String)
    (pages : List (String × Nat × List (String × String × HyphenRole))) : SourceFile where
  name := name.toList
  pages := pages.map fun page => plainPage name page.1 page.2.1 page.2.2
  parsed := by
    intro page hpage
    obtain ⟨_, -, rfl⟩ := List.mem_map.mp hpage
    exact plainPage_parsed _ _ _ _
  source := by
    intro page hpage
    obtain ⟨_, -, rfl⟩ := List.mem_map.mp hpage
    rfl

end Saknussemm
