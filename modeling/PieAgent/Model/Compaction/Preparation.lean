import Mathlib.Algebra.Ring.Nat
import Mathlib.Order.WithBot
import PieAgent.Model.Core.Messages

/-! # Preparing a compaction

`prepareCompaction` exists twice in the repository, once in the agent core and once in the coding
agent. Both select the boundary of the previous compaction, cut the branch, split the entries
before the cut into history and turn prefix, and collect the file operations of both parts. The
parameters of the shared definition are what differs: the token estimates, the usage blocks that
count, the context rebuild and the treatment of an empty branch.
-/

/-! ## Rebuilding the agent context from a session branch

`buildSessionContext` reads the entries of one branch, root first. Without a compaction entry every
context-bearing entry yields its message. With one, the summary of the last compaction comes first,
then the entries from its first kept entry on, then the entries after it.
-/

namespace PieAgent.Model

open JavaScript

def EntryBody.isCompaction : EntryBody → Bool
  | .compaction .. => true
  | _ => false

def EntryBody.isMessage : EntryBody → Bool
  | .message _ => true
  | _ => false

/-- The message `appendMessage` pushes for an entry, if it pushes one. -/
def contextMessage? (entry : SessionTreeEntry) : Option AgentMessage :=
  match entry.body with
  | .message message => some message
  | .customMessage customType content details display =>
    some (.custom (createCustomMessage customType content display details entry.timestamp))
  | .branchSummary fromId summary _ _ =>
    if summary.isEmpty then none
    else some (.branchSummary (createBranchSummaryMessage summary fromId entry.timestamp))
  | _ => none

/-- The context-bearing messages of a list of entries. -/
def contextMessages (entries : List SessionTreeEntry) : List AgentMessage := entries.filterMap contextMessage?

structure SessionContext where
  messages : List AgentMessage
  thinkingLevel : JsString
  model : Option (JsString × JsString)

/-- The thinking level a branch selects. -/
def branchThinkingLevel (entries : List SessionTreeEntry) : JsString :=
  entries.foldl (fun level entry => match entry.body with
    | .thinkingLevelChange thinkingLevel => thinkingLevel
    | _ => level) (js "off")

/-- The provider and model a branch selects, from model changes and assistant messages alike. -/
def branchModel (entries : List SessionTreeEntry) : Option (JsString × JsString) :=
  entries.foldl (fun model entry => match entry.body with
    | .modelChange provider modelId => some (provider, modelId)
    | .message (.assistant message) => some (message.provider, message.model)
    | _ => model) none

/-- The last compaction entry of a branch. -/
def lastCompaction? (entries : List SessionTreeEntry) : Option SessionTreeEntry :=
  entries.foldl (fun compaction entry => if entry.body.isCompaction then some entry else compaction) none

/-- The entries from the first one with the given id on. -/
def fromFirstKept (firstKeptEntryId : JsString) (entries : List SessionTreeEntry) : List SessionTreeEntry :=
  entries.dropWhile fun entry => entry.id != firstKeptEntryId

def buildSessionContext (pathEntries : List SessionTreeEntry) : SessionContext where
  messages :=
    match lastCompaction? pathEntries with
    | some ⟨id, _, timestamp, .compaction summary firstKeptEntryId tokensBefore _ _⟩ =>
      let compactionIdx := pathEntries.findIdx fun entry => entry.body.isCompaction && entry.id == id
      .compactionSummary (createCompactionSummaryMessage summary tokensBefore timestamp) ::
        contextMessages (fromFirstKept firstKeptEntryId (pathEntries.take compactionIdx)) ++
        contextMessages (pathEntries.drop (compactionIdx + 1))
    | _ => contextMessages pathEntries
  thinkingLevel := branchThinkingLevel pathEntries
  model := branchModel pathEntries

/-- The entry `Session.appendCompaction` hands to the storage. -/
def compactionEntry (id : JsString) (parentId : Option JsString) (timestamp summary firstKeptEntryId : JsString)
    (tokensBefore : ℕ) (details : Option Json) (fromHook : Bool) : SessionTreeEntry :=
  { id, parentId, timestamp, body := .compaction summary firstKeptEntryId tokensBefore details fromHook }

/-- A branch of the session tree: the entries from the root to a leaf, whose ids are distinct. -/
structure Branch where
  entries : List SessionTreeEntry
  unique : (entries.map (·.id)).Nodup

end PieAgent.Model

/-! ## Where compaction cuts a branch

The two compaction modules of the repository share this search. It walks back from the leaf until
the messages passed reach the budget of recent tokens, moves forward to the next entry a cut may
fall on, and then back over the entries that carry no message. A cut inside a turn records where
that turn starts. The token estimate is a parameter: the two modules estimate differently.

A budget is an integer or `⊤`. A fractional budget is reached exactly when its ceiling is, and no
amount of tokens reaches `NaN` or `Infinity`.
-/

namespace PieAgent.Model

open JavaScript

/-- An entry the kept part may start with: any message but a tool result, or a summary or custom message. -/
def EntryBody.isCutPoint : EntryBody → Bool
  | .message (.toolResult _) => false
  | .message _ => true
  | .branchSummary .. => true
  | .customMessage .. => true
  | _ => false

/-- An entry that starts a turn. -/
def EntryBody.startsTurn : EntryBody → Bool
  | .branchSummary .. => true
  | .customMessage .. => true
  | .message (.user _) => true
  | .message (.bashExecution _) => true
  | _ => false

def EntryBody.isUserMessage : EntryBody → Bool
  | .message (.user _) => true
  | _ => false

/-- The entry at an index satisfies a test on its body. -/
def testAt (entries : List SessionTreeEntry) (test : EntryBody → Bool) (index : ℕ) : Bool :=
  (entries[index]?).any fun entry => test entry.body

def findValidCutPoints (entries : List SessionTreeEntry) (startIndex endIndex : ℕ) : List ℕ :=
  (List.range' startIndex (endIndex - startIndex)).filter (testAt entries EntryBody.isCutPoint)

/-- The last turn start from `startIndex` up to `entryIndex`; the source returns `-1` for `none`. -/
def findTurnStartIndex (entries : List SessionTreeEntry) (entryIndex startIndex : ℕ) : Option ℕ :=
  (List.range' startIndex (entryIndex + 1 - startIndex)).reverse.find? (testAt entries EntryBody.startsTurn)

/-- The estimated size of an entry, nothing for an entry that is not a message. -/
def entryTokens? (estimateTokens : AgentMessage → ℕ) (entry : SessionTreeEntry) : Option ℕ :=
  match entry.body with
  | .message message => some (estimateTokens message)
  | _ => none

/-- `tokens >= keepRecentTokens`. -/
def reachesLimit (keepRecentTokens : WithTop ℤ) (tokens : ℕ) : Bool :=
  match keepRecentTokens with
  | none => false
  | some limit => limit ≤ tokens

/-- Walk back over `remaining` entries from `startIndex` until the accumulated tokens reach the budget. -/
def budgetIndex? (estimateTokens : AgentMessage → ℕ) (keepRecentTokens : WithTop ℤ)
    (entries : List SessionTreeEntry) (startIndex : ℕ) : ℕ → ℕ → Option ℕ
  | 0, _ => none
  | remaining + 1, accumulatedTokens =>
    match (entries[startIndex + remaining]?).bind (entryTokens? estimateTokens) with
    | none => budgetIndex? estimateTokens keepRecentTokens entries startIndex remaining accumulatedTokens
    | some messageTokens =>
      if reachesLimit keepRecentTokens (accumulatedTokens + messageTokens) then some (startIndex + remaining)
      else budgetIndex? estimateTokens keepRecentTokens entries startIndex remaining
        (accumulatedTokens + messageTokens)

/-- Move a cut back over the entries before it that are neither messages nor compactions. -/
def includeNonMessages (entries : List SessionTreeEntry) (startIndex : ℕ) : ℕ → ℕ
  | 0 => 0
  | previous + 1 =>
    if previous + 1 ≤ startIndex then previous + 1
    else if testAt entries (fun body => body.isCompaction || body.isMessage) previous then previous + 1
    else includeNonMessages entries startIndex previous

structure CutPointResult where
  firstKeptEntryIndex : ℕ
  turnStartIndex : Option ℕ
  isSplitTurn : Bool
deriving DecidableEq

def findCutPoint (estimateTokens : AgentMessage → ℕ) (entries : List SessionTreeEntry) (startIndex endIndex : ℕ)
    (keepRecentTokens : WithTop ℤ) : CutPointResult :=
  match findValidCutPoints entries startIndex endIndex with
  | [] => { firstKeptEntryIndex := startIndex, turnStartIndex := none, isSplitTurn := false }
  | first :: rest =>
    let lastTurnStart := findTurnStartIndex entries (endIndex - 1) startIndex
    let fallback := lastTurnStart.getD first
    let cutIndex :=
      match budgetIndex? estimateTokens keepRecentTokens entries startIndex (endIndex - startIndex) 0 with
      | none => fallback
      | some index => ((first :: rest).find? (index ≤ ·)).getD fallback
    let cutIndex := includeNonMessages entries startIndex cutIndex
    let isUserMessage := testAt entries EntryBody.isUserMessage cutIndex
    let turnStartIndex := if isUserMessage then none else findTurnStartIndex entries cutIndex startIndex
    { firstKeptEntryIndex := cutIndex
      turnStartIndex
      isSplitTurn := !isUserMessage && turnStartIndex.isSome }

end PieAgent.Model

namespace PieAgent.Model

open JavaScript

/-- `getMessageFromEntry`. -/
def getMessageFromEntry (entry : SessionTreeEntry) : Option AgentMessage :=
  match entry.body with
  | .message message => some message
  | .customMessage customType content details display =>
    some (.custom (createCustomMessage customType content display details entry.timestamp))
  | .branchSummary fromId summary _ _ =>
    some (.branchSummary (createBranchSummaryMessage summary fromId entry.timestamp))
  | .compaction summary _ tokensBefore _ _ =>
    some (.compactionSummary (createCompactionSummaryMessage summary tokensBefore entry.timestamp))
  | _ => none

def getMessageFromEntryForCompaction (entry : SessionTreeEntry) : Option AgentMessage :=
  if entry.body.isCompaction then none else getMessageFromEntry entry

/-- File paths touched by a range of messages, each list in insertion order without repetition. -/
structure FileOperations where
  read : List JsString := []
  written : List JsString := []
  edited : List JsString := []
deriving DecidableEq

/-- `Set.prototype.add`. -/
def addPath (paths : List JsString) (path : JsString) : List JsString :=
  if path ∈ paths then paths else paths ++ [path]

/-- The file operation of one tool call. -/
def recordToolCall (fileOps : FileOperations) (call : ToolCall) : FileOperations :=
  match (call.arguments.get? (js "path")).bind Json.str? with
  | some (unit :: rest) =>
    if call.name = js "read" then { fileOps with read := addPath fileOps.read (unit :: rest) }
    else if call.name = js "write" then { fileOps with written := addPath fileOps.written (unit :: rest) }
    else if call.name = js "edit" then { fileOps with edited := addPath fileOps.edited (unit :: rest) }
    else fileOps
  | _ => fileOps

def extractFileOpsFromMessage (fileOps : FileOperations) : AgentMessage → FileOperations
  | .assistant message => message.toolCalls.foldl recordToolCall fileOps
  | _ => fileOps

/-- The strings of an array property of the details of a compaction. -/
def detailPaths (details : Json) (key : JsString) : List JsString :=
  match details.get? key with
  | some (.arr items) => items.filterMap Json.str?
  | _ => []

/-- The file operations recorded by the previous compaction, unless a hook wrote it. -/
def previousFileOps (previous : Option SessionTreeEntry) : FileOperations :=
  match previous.map SessionTreeEntry.body with
  | some (.compaction _ _ _ (some details) false) =>
    { read := (detailPaths details (js "readFiles")).foldl addPath []
      edited := (detailPaths details (js "modifiedFiles")).foldl addPath [] }
  | _ => {}

def extractFileOperations (messages : List AgentMessage) (previous : Option SessionTreeEntry) : FileOperations :=
  messages.foldl extractFileOpsFromMessage (previousFileOps previous)

/-- Code unit order of strings, the order of `Array.prototype.sort`. -/
def sortPaths (paths : List JsString) : List JsString := paths.mergeSort fun first second => first ≤ second

structure CompactionDetails where
  readFiles : List JsString
  modifiedFiles : List JsString

def computeFileLists (fileOps : FileOperations) : CompactionDetails :=
  let modified := (fileOps.edited ++ fileOps.written).foldl addPath []
  { readFiles := sortPaths (fileOps.read.filter (· ∉ modified))
    modifiedFiles := sortPaths modified }

def formatFileOperations (lists : CompactionDetails) : JsString :=
  let sections :=
    (if lists.readFiles.isEmpty then []
      else [js "<read-files>\n" ++ join (js "\n") lists.readFiles ++ js "\n</read-files>"]) ++
    (if lists.modifiedFiles.isEmpty then []
      else [js "<modified-files>\n" ++ join (js "\n") lists.modifiedFiles ++ js "\n</modified-files>"])
  if sections.isEmpty then [] else js "\n\n" ++ join (js "\n\n") sections

def calculateContextTokens (usage : Usage) : ℕ :=
  if usage.totalTokens = 0 then usage.input + usage.output + usage.cacheRead + usage.cacheWrite
  else usage.totalTokens

/-- The total of `estimateContextTokens`: the last usage block, plus an estimate for what follows it. -/
def contextTokens (estimateTokens : AgentMessage → ℕ) (getAssistantUsage : AgentMessage → Option Usage)
    (messages : List AgentMessage) : ℕ :=
  match (List.range messages.length).reverse.findSome? fun index =>
      ((messages[index]?).bind getAssistantUsage).map fun usage => (usage, index) with
  | none => (messages.map estimateTokens).sum
  | some (usage, index) =>
    calculateContextTokens usage + ((messages.drop (index + 1)).map estimateTokens).sum

structure CompactionSettings where
  enabled : Bool
  reserveTokens : ℤ
  keepRecentTokens : WithTop ℤ
deriving DecidableEq

structure CompactionPreparation where
  firstKeptEntryId : JsString
  messagesToSummarize : List AgentMessage
  turnPrefixMessages : List AgentMessage
  isSplitTurn : Bool
  tokensBefore : ℕ
  previousSummary : Option JsString
  fileOps : FileOperations
  settings : CompactionSettings
deriving DecidableEq

/-- The index of the last compaction entry; the source uses `-1` for `none`. -/
def prevCompactionIndex? (entries : List SessionTreeEntry) : Option ℕ :=
  (List.range entries.length).reverse.find? (testAt entries EntryBody.isCompaction)

/-- Where the entries kept by the previous compaction start, or the root. -/
def boundaryStart (entries : List SessionTreeEntry) : ℕ :=
  match prevCompactionIndex? entries with
  | none => 0
  | some index =>
    match (entries[index]?).map SessionTreeEntry.body with
    | some (.compaction _ firstKeptEntryId _ _ _) =>
      ((List.range entries.length).find? fun i =>
        (entries[i]?).any fun entry => entry.id == firstKeptEntryId).getD (index + 1)
    | _ => 0

/-- The summary of the previous compaction. -/
def previousSummary? (entries : List SessionTreeEntry) : Option JsString :=
  ((prevCompactionIndex? entries).bind (entries[·]?)).bind fun entry => match entry.body with
    | .compaction summary _ _ _ _ => some summary
    | _ => none

/-- The messages of the entries from one index up to another. -/
def messagesBetween (entries : List SessionTreeEntry) (first last : ℕ) : List AgentMessage :=
  ((entries.take last).drop first).filterMap getMessageFromEntryForCompaction

/-- The preparation for a cut, once the first kept entry is known to have an id. -/
def preparationAt (tokensBefore : ℕ) (entries : List SessionTreeEntry) (settings : CompactionSettings)
    (cutPoint : CutPointResult) (firstKeptEntryId : JsString) : CompactionPreparation :=
  let turnStart := cutPoint.turnStartIndex.getD 0
  let historyEnd := if cutPoint.isSplitTurn then turnStart else cutPoint.firstKeptEntryIndex
  let messagesToSummarize := messagesBetween entries (boundaryStart entries) historyEnd
  let turnPrefixMessages :=
    if cutPoint.isSplitTurn then messagesBetween entries turnStart cutPoint.firstKeptEntryIndex else []
  let fileOps := extractFileOperations messagesToSummarize ((prevCompactionIndex? entries).bind (entries[·]?))
  { firstKeptEntryId
    messagesToSummarize
    turnPrefixMessages
    isSplitTurn := cutPoint.isSplitTurn
    tokensBefore
    previousSummary := previousSummary? entries
    fileOps := turnPrefixMessages.foldl extractFileOpsFromMessage fileOps
    settings }

/-- What `prepareCompaction` answers. -/
inductive PrepareResult where
  /-- Compaction does not apply to this branch. -/
  | notApplicable
  /-- The first kept entry has no id. -/
  | missingId
  | prepared (preparation : CompactionPreparation)
deriving DecidableEq

/-- The part of `prepareCompaction` after the test for branches it does not apply to. -/
def prepareBranch (estimateTokens : AgentMessage → ℕ) (tokensBefore : ℕ) (entries : List SessionTreeEntry)
    (settings : CompactionSettings) : PrepareResult :=
  let cutPoint :=
    findCutPoint estimateTokens entries (boundaryStart entries) entries.length settings.keepRecentTokens
  match (entries[cutPoint.firstKeptEntryIndex]?).map SessionTreeEntry.id with
  | some (unit :: rest) => .prepared (preparationAt tokensBefore entries settings cutPoint (unit :: rest))
  | _ => .missingId

/-- The last entry of the branch is a compaction. -/
def endsWithCompaction (entries : List SessionTreeEntry) : Bool :=
  (entries.getLast?).any fun entry => entry.body.isCompaction

end PieAgent.Model
