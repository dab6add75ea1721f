import Saknussemm.Units

/-! # Chunk planner: a page's lines in producer-sized chunks.

PAGE, BLOCK and WINDOW keep the page as it is; LINE may sever forward
links, so a plan comes with the lines it leaves.  Positions are indices
into the page's line list. -/

namespace Saknussemm

/-! ## Granularity -/

/-- The next finer granularity, or `none` at LINE. -/
def downgradeGranularity : ChunkGranularity → Option ChunkGranularity
  | .page => some .block
  | .block => some .window
  | .window => some .line
  | .line => none

/-! ## Helpers -/

/-- The sum of the raw OCR lengths. -/
def totalChars (lines : List LineManifest) : Nat := (lines.map fun lm => lm.ocrText.length).sum

/-- Position of a line id on the page (ids are unique there). -/
def positionOf (lines : List LineManifest) (lineId : Str) : Option Nat :=
  lines.findIdx? (·.lineId = lineId)

/-- Position of the forward partner of the line at `position`, by bare id. -/
def partnerAt (lines : List LineManifest) (position : Nat) : Option Nat :=
  (lines[position]?.bind forwardPartnerId).bind (positionOf lines)

/-- The exclusive end a window must reach to hold every forward link that
leaves `lines[start:stop]`. -/
def unitReach (lines : List LineManifest) (start stop : Nat) : Nat :=
  (List.range' start (stop - start)).foldl
    (fun reach position =>
      match partnerAt lines position with
      | some partner => if partner < stop then reach else max reach (partner + 1)
      | none => reach) stop

/-- A chunk of one granularity. -/
def makeChunk (pageId : Str) (granularity : ChunkGranularity) (lineIds : List Str)
    (blockId : Option Str) (targets : Option (List Str)) : ChunkRequest :=
  ⟨pageId, blockId, granularity, lineIds, targets⟩

/-- Do the lines fit one request? -/
def withinBudget (config : ChunkPlannerConfig) (lines : List LineManifest) : Bool :=
  totalChars lines ≤ config.maxInputCharsPerRequest && lines.length ≤ config.maxLinesPerRequest

/-! ## PAGE granularity -/

/-- The whole page as one chunk, if it fits. -/
def tryPage (config : ChunkPlannerConfig) (page : PageManifest) : Option ChunkPlan :=
  if withinBudget config page.lines then
    some ⟨page.pageId,
      [makeChunk page.pageId .page (page.lines.map LineManifest.lineId) none none], .page, []⟩
  else none

/-! ## BLOCK granularity -/

/-- The page's line with a given id (ids are unique there). -/
def lineById (lines : List LineManifest) (lineId : Str) : Option LineManifest :=
  lines.find? (·.lineId = lineId)

/-- The blocks each hyphen unit spans, pair by pair. -/
def linkedBlocks (page : PageManifest) : List (Str × Str) :=
  (deriveHyphenGroups page.lines).flatMap fun group =>
    let memberBlocks := group.members.filterMap fun ref =>
      (lineById page.lines ref.lineId).map LineManifest.blockId
    let linked := memberBlocks.filter (· ∈ page.blocks.map BlockManifest.blockId)
    linked.zip linked.tail

/-- The representative of a block's merged group: `union(a, b)` points the
root of `b` at the root of `a`. -/
def blockRoot (page : PageManifest) (blockId : Str) : Str :=
  let links := (linkedBlocks page).map Prod.swap
  (UnionFind.find links.length (UnionFind.unions links.length links) blockId).1

/-- The lines of each block, by block id: of blocks that share an id, those
of the last. -/
def blockLines (page : PageManifest) : Dict Str (List LineManifest) :=
  Dict.ofList <| page.blocks.map fun block =>
    (block.blockId, block.lineIds.filterMap (lineById page.lines))

/-- The lines of the block with a given id. -/
def linesOfBlock (page : PageManifest) (blockId : Str) : List LineManifest :=
  ((blockLines page).get? blockId).getD []

/-- The ids of the merged block groups, in page order. -/
def blockGroups (page : PageManifest) : List (List Str) :=
  let ids := page.blocks.map BlockManifest.blockId
  (ids.map (blockRoot page)).eraseDups.map fun root => ids.filter fun id => blockRoot page id = root

/-- One chunk for a group of blocks; the label only when it is one block. -/
def blockChunk (page : PageManifest) (group : List Str) : ChunkRequest :=
  makeChunk page.pageId .block ((group.flatMap (linesOfBlock page)).map LineManifest.lineId)
    (if group.length = 1 then group.head? else none) none

/-- One chunk per group of blocks a unit spans; `none` when one is too
large, or when there is no block at all. -/
def tryBlock (config : ChunkPlannerConfig) (page : PageManifest) : Option ChunkPlan :=
  let groups := blockGroups page
  if groups.all (fun group => withinBudget config (group.flatMap (linesOfBlock page)))
      && !groups.isEmpty then
    some ⟨page.pageId, groups.map (blockChunk page), .block, []⟩
  else none

/-! ## WINDOW granularity -/

/-- How many more lines the window takes: `slots` at most, within budget. -/
def fillWindow (budget : Nat) : Nat → List LineManifest → Nat → Nat
  | chars, lm :: rest, slots + 1 =>
    if chars + lm.ocrText.length > budget then 0
    else 1 + fillWindow budget (chars + lm.ocrText.length) rest slots
  | _, _, _ => 0

/-- The exclusive end of the window before any extension: bounded by the
line count and by the char budget, one line at least. -/
def coreEnd (config : ChunkPlannerConfig) (lines : List LineManifest) (start : Nat) : Nat :=
  match lines.drop start with
  | [] => start
  | lm :: rest =>
    start + 1 + fillWindow config.maxInputCharsPerRequest lm.ocrText.length rest
      (config.lineWindowSize - 1)

/-- Where an extension must stop: the line cap, or the end of the page. -/
def extensionLimit (config : ChunkPlannerConfig) (lines : List LineManifest) (start : Nat) : Nat :=
  min lines.length
    (start + max config.maxLinesPerRequest (coreEnd config lines start - start + 10))

/-- Extend a window until no forward link leaves it, up to the limit. -/
def extendWindow (lines : List LineManifest) (start limit : Nat) : Nat → Nat → Nat
  | 0, stop => stop
  | fuel + 1, stop =>
    if stop < limit then
      let reach := unitReach lines start stop
      if reach ≤ stop then stop else extendWindow lines start limit fuel (min reach limit)
    else stop

/-- The exclusive end of the window that starts at `start`. -/
def windowEnd (config : ChunkPlannerConfig) (lines : List LineManifest) (start : Nat) : Nat :=
  extendWindow lines start (extensionLimit config lines start) lines.length
    (coreEnd config lines start)

/-- Where the next window starts: relative to the core window when the char
budget shortened it, by the fixed step otherwise. -/
def nextStart (config : ChunkPlannerConfig) (lines : List LineManifest) (start : Nat) : Nat :=
  let next :=
    if coreEnd config lines start < min (start + config.lineWindowSize) lines.length then
      max (start + 1) (coreEnd config lines start - config.lineWindowOverlap)
    else start + (config.lineWindowSize - config.lineWindowOverlap)
  if next ≤ start then start + 1 else next

/-- The starts of the windows from `start` on. -/
def windowStartsFrom (config : ChunkPlannerConfig) (lines : List LineManifest) :
    Nat → Nat → List Nat
  | 0, _ => []
  | fuel + 1, start =>
    if start < lines.length then
      start :: windowStartsFrom config lines fuel (nextStart config lines start)
    else []

/-- The starts of the page's windows. -/
def windowStarts (config : ChunkPlannerConfig) (lines : List LineManifest) : List Nat :=
  windowStartsFrom config lines lines.length 0

/-- The line ids from one position to another. -/
def sliceIds (lines : List LineManifest) (start stop : Nat) : List Str :=
  ((lines.drop start).take (stop - start)).map LineManifest.lineId

/-- The line ids of each window. -/
def windowLineIds (config : ChunkPlannerConfig) (lines : List LineManifest) : List (List Str) :=
  (windowStarts config lines).map fun start =>
    sliceIds lines start (windowEnd config lines start)

/-- The windows a line is in, by index. -/
def membership (windows : List (List Str)) (lineId : Str) : List Nat :=
  (List.range windows.length).filter fun i => lineId ∈ windows.getD i []

/-- The windows that contain all of `members`. -/
def commonWindows (windows : List (List Str)) (members : List Str) : List Nat :=
  (List.range windows.length).filter fun i => members.all (· ∈ windows.getD i [])

/-- The window a line is a target of: the last one it is in, unless its
hyphen unit fits a window, and then the last that holds the whole unit. -/
def targetWindow (windows : List (List Str)) (units : List (List Str)) (lineId : Str) :
    Option Nat :=
  units.foldl
    (fun win members =>
      if members.length < 2 then win
      else
        match (commonWindows windows members).getLast? with
        | some common => if lineId ∈ members then some common else win
        | none => win)
    (membership windows lineId).getLast?

/-- Assign every line to exactly one target window. -/
def assignWindowTargets (windows : List (List Str)) (lines : List LineManifest) :
    List (List Str) :=
  let visited := lines.filter fun lm => membership windows lm.lineId ≠ []
  let units := (deriveHyphenGroups visited).map fun group =>
    (group.members.map LineRef.lineId).filter fun id => membership windows id ≠ []
  (List.range windows.length).map fun i =>
    (windows.getD i []).filter fun lineId => targetWindow windows units lineId = some i

/-- Overlapping windows, each line a target of one of them. -/
def tryWindow (config : ChunkPlannerConfig) (page : PageManifest) : ChunkPlan :=
  let windows := windowLineIds config page.lines
  let targets := assignWindowTargets windows page.lines
  ⟨page.pageId,
    (windows.zip targets).map fun (ids, targets) =>
      makeChunk page.pageId .window ids none (some targets),
    .window, []⟩

/-! ## LINE granularity -/

/-- Follow the forward links from the chunk's start, the lines in between
included, up to the line cap. -/
def followChain (cap : Nat) (lines : List LineManifest) (start : Nat) : Nat → Nat → Nat
  | 0, last => last
  | fuel + 1, last =>
    match partnerAt lines last with
    | none => last
    | some partner =>
      if partner ≤ last then last
      else if (last - start + 1) + (partner - last) > cap then last
      else followChain cap lines start fuel partner

/-- Sever the tail's link when its partner is on the page but not in the
chunk. -/
def severTail (lines : List LineManifest) (chain : List Str) (last : Nat) :
    List LineManifest × List HyphenSplit :=
  match lines[last]?, (lines[last]?.bind forwardPartnerId), partnerAt lines last with
  | some tail, some partnerId, some partner =>
    if partnerId ∈ chain then (lines, [])
    else
      match lines[partner]? with
      | some head =>
        let (tail', head', split) := splitForwardLink tail head
        ((lines.set last tail').set partner head', [split])
      | none => (lines, [])
  | _, _, _ => (lines, [])

/-- The LINE chunks from position `start` on: one per chain. -/
def planLineFrom (config : ChunkPlannerConfig) (pageId : Str) :
    Nat → List LineManifest → Nat → List ChunkRequest × List HyphenSplit × List LineManifest
  | 0, lines, _ => ([], [], lines)
  | fuel + 1, lines, start =>
    if start < lines.length then
      let last := followChain config.maxLinesPerRequest lines start lines.length start
      let chain := sliceIds lines start (last + 1)
      let (lines, splits) := severTail lines chain last
      let (chunks, laterSplits, lines) := planLineFrom config pageId fuel lines (last + 1)
      (makeChunk pageId .line chain none none :: chunks, splits ++ laterSplits, lines)
    else ([], [], lines)

/-- One chunk per chain; an over-long chain is cut, and the cut recorded. -/
def planLine (config : ChunkPlannerConfig) (page : PageManifest) :
    ChunkPlan × List LineManifest :=
  let (chunks, splits, lines) :=
    planLineFrom config page.pageId page.lines.length page.lines 0
  (⟨page.pageId, chunks, .line, splits⟩, lines)

/-! ## Entry point -/

/-- PAGE, then BLOCK, then WINDOW. -/
def autoPlan (config : ChunkPlannerConfig) (page : PageManifest) : ChunkPlan :=
  ((tryPage config page).or (tryBlock config page)).getD (tryWindow config page)

/-- A plan for a page and the page's lines after it: forced to a level
where that level can be had, automatic otherwise. -/
def planPage (config : ChunkPlannerConfig) (page : PageManifest)
    (force : Option ChunkGranularity) : ChunkPlan × List LineManifest :=
  match force with
  | some .line => planLine config page
  | some .window => (tryWindow config page, page.lines)
  | some .block => ((tryBlock config page).getD (tryWindow config page), page.lines)
  | some .page => ((tryPage config page).getD (autoPlan config page), page.lines)
  | none => (autoPlan config page, page.lines)

end Saknussemm
