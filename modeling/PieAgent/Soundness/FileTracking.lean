import Mathlib.Data.List.Find
import PieAgent.Model.Compaction.AgentCore
import PieAgent.Model.Compaction.Preparation
import PieAgent.Proofs.Compaction.Preparation

/-! # The file lists of later compactions

A generated compaction stores the paths of the messages it summarizes together with those that the compaction before
it has stored. A compaction that a hook supplies stores what the hook returns, and the next one inherits nothing from
it. Between two of those every path stays on the lists.
-/

/-! ## Which paths the file lists hold

A path is read, written or edited by a message when one of its tool calls says so. The accumulator gathers the paths
of all messages, and the file lists are its paths, those that were modified apart from those that were only read.
-/

namespace PieAgent.Model

open JavaScript

/-- A tool call with a file name as its path. -/
def ToolCall.Names (call : ToolCall) (tool : JsString) (path : JsString) : Prop :=
  call.name = tool ∧ path ≠ [] ∧ call.arguments.get? (js "path") = some (.str path)

/-- A message with a call of the tool on the path. -/
def AgentMessage.Calls (message : AgentMessage) (tool : JsString) (path : JsString) : Prop :=
  ∃ answer, message = .assistant answer ∧ ∃ call ∈ answer.toolCalls, call.Names tool path

/-- Some message reads the path. -/
def Reads (messages : List AgentMessage) (path : JsString) : Prop := ∃ message ∈ messages, message.Calls (js "read") path

/-- Some message writes or edits the path. -/
def Modifies (messages : List AgentMessage) (path : JsString) : Prop :=
  ∃ message ∈ messages, message.Calls (js "write") path ∨ message.Calls (js "edit") path

/-- The paths that were written or edited. -/
def FileOperations.Modified (fileOps : FileOperations) (path : JsString) : Prop :=
  path ∈ fileOps.edited ∨ path ∈ fileOps.written

variable {paths : List JsString} {path other : JsString} {fileOps : FileOperations} {messages : List AgentMessage}

theorem mem_addPath : path ∈ addPath paths other ↔ path ∈ paths ∨ path = other := by
  unfold addPath
  split
  · next known =>
    constructor
    · exact .inl
    · rintro (member | rfl)
      · exact member
      · exact known
  · simp

theorem mem_foldl_addPath {known : List JsString} : path ∈ paths.foldl addPath known ↔ path ∈ known ∨ path ∈ paths := by
  induction paths generalizing known with
  | nil => simp
  | cons first rest ih => rw [List.foldl_cons, ih, mem_addPath, List.mem_cons, or_assoc]

/-- What a tool call adds to the accumulator. -/
private theorem recordToolCall_cases (fileOps : FileOperations) (call : ToolCall) :
    (∃ path, call.Names (js "read") path ∧
        recordToolCall fileOps call = { fileOps with read := addPath fileOps.read path }) ∨
      (∃ path, call.Names (js "write") path ∧
        recordToolCall fileOps call = { fileOps with written := addPath fileOps.written path }) ∨
      (∃ path, call.Names (js "edit") path ∧
        recordToolCall fileOps call = { fileOps with edited := addPath fileOps.edited path }) ∨
      (recordToolCall fileOps call = fileOps ∧
        ∀ tool ∈ [js "read", js "write", js "edit"], ∀ path, ¬ call.Names tool path) := by
  unfold recordToolCall
  split
  · next unit rest found =>
    have argument : call.arguments.get? (js "path") = some (.str (unit :: rest)) := by
      obtain ⟨value, got, same⟩ := Option.bind_eq_some_iff.mp found
      cases value <;> cases same
      exact got
    split_ifs with read write edit
    · exact .inl ⟨_, ⟨read, List.cons_ne_nil _ _, argument⟩, rfl⟩
    · exact .inr (.inl ⟨_, ⟨write, List.cons_ne_nil _ _, argument⟩, rfl⟩)
    · exact .inr (.inr (.inl ⟨_, ⟨edit, List.cons_ne_nil _ _, argument⟩, rfl⟩))
    · refine .inr (.inr (.inr ⟨rfl, ?_⟩))
      rintro tool member path ⟨name, _, _⟩
      simp only [List.mem_cons, List.not_mem_nil, or_false] at member
      rcases member with rfl | rfl | rfl
      · exact read name
      · exact write name
      · exact edit name
  · next absent =>
    refine .inr (.inr (.inr ⟨rfl, ?_⟩))
    rintro tool _ path ⟨_, nonempty, argument⟩
    obtain ⟨unit, rest, rfl⟩ := List.exists_cons_of_ne_nil nonempty
    exact absent unit rest (by rw [argument]; rfl)

private theorem names_unique {call : ToolCall} {tool : JsString} (first : call.Names tool path)
    (second : call.Names tool other) : path = other := by
  have same := first.2.2.symm.trans second.2.2
  cases same
  rfl

private theorem names_tool {call : ToolCall} {tool third : JsString} (first : call.Names tool path)
    (second : call.Names third other) : tool = third :=
  first.1.symm.trans second.1

private theorem tools_differ : js "read" ≠ js "write" ∧ js "read" ≠ js "edit" ∧ js "write" ≠ js "edit" := by decide

private theorem mem_read_recordToolCall (call : ToolCall) :
    path ∈ (recordToolCall fileOps call).read ↔ path ∈ fileOps.read ∨ call.Names (js "read") path := by
  obtain ⟨notWrite, notEdit, _⟩ := tools_differ
  rcases recordToolCall_cases fileOps call with
    ⟨named, names, same⟩ | ⟨named, names, same⟩ | ⟨named, names, same⟩ | ⟨same, none⟩ <;> rw [same]
  · rw [mem_addPath]
    exact or_congr_right ⟨fun equal => equal ▸ names, fun again => names_unique again names⟩
  · exact (or_iff_left fun again => notWrite (names_tool again names)).symm
  · exact (or_iff_left fun again => notEdit (names_tool again names)).symm
  · exact (or_iff_left (none _ (by simp) path)).symm

private theorem modified_recordToolCall (call : ToolCall) : (recordToolCall fileOps call).Modified path ↔
    fileOps.Modified path ∨ call.Names (js "write") path ∨ call.Names (js "edit") path := by
  obtain ⟨notWrite, notEdit, apart⟩ := tools_differ
  rcases recordToolCall_cases fileOps call with
    ⟨named, names, same⟩ | ⟨named, names, same⟩ | ⟨named, names, same⟩ | ⟨same, none⟩ <;> rw [same]
  · refine (or_iff_left ?_).symm
    rintro (again | again)
    · exact notWrite (names_tool names again)
    · exact notEdit (names_tool names again)
  · have only : call.Names (js "write") path ∨ call.Names (js "edit") path ↔ path = named := by
      constructor
      · rintro (again | again)
        · exact names_unique again names
        · exact absurd (names_tool names again) apart
      · rintro rfl
        exact .inl names
    rw [only, FileOperations.Modified, FileOperations.Modified, mem_addPath, or_assoc]
  · have only : call.Names (js "write") path ∨ call.Names (js "edit") path ↔ path = named := by
      constructor
      · rintro (again | again)
        · exact absurd (names_tool again names) apart
        · exact names_unique again names
      · rintro rfl
        exact .inr names
    rw [only, FileOperations.Modified, FileOperations.Modified, mem_addPath, or_right_comm]
  · refine (or_iff_left ?_).symm
    rintro (again | again)
    · exact none _ (by simp) path again
    · exact none _ (by simp) path again

private theorem mem_read_calls {calls : List ToolCall} : path ∈ (calls.foldl recordToolCall fileOps).read ↔
    path ∈ fileOps.read ∨ ∃ call ∈ calls, call.Names (js "read") path := by
  induction calls generalizing fileOps with
  | nil => simp
  | cons call calls ih => simp only [List.foldl_cons, ih, mem_read_recordToolCall, List.exists_mem_cons_iff, or_assoc]

private theorem modified_calls {calls : List ToolCall} : (calls.foldl recordToolCall fileOps).Modified path ↔
    fileOps.Modified path ∨ ∃ call ∈ calls, call.Names (js "write") path ∨ call.Names (js "edit") path := by
  induction calls generalizing fileOps with
  | nil => simp
  | cons call calls ih => simp only [List.foldl_cons, ih, modified_recordToolCall, List.exists_mem_cons_iff, or_assoc]

private theorem calls_assistant {answer : AssistantMessage} {tool : JsString} :
    (AgentMessage.assistant answer).Calls tool path ↔ ∃ call ∈ answer.toolCalls, call.Names tool path := by
  constructor
  · rintro ⟨_, same, calls⟩
    cases same
    exact calls
  · exact fun calls => ⟨answer, rfl, calls⟩

private theorem mem_read_message (message : AgentMessage) : path ∈ (extractFileOpsFromMessage fileOps message).read ↔
    path ∈ fileOps.read ∨ message.Calls (js "read") path := by
  cases message with
  | assistant answer => rw [calls_assistant, extractFileOpsFromMessage, mem_read_calls]
  | _ =>
    refine (or_iff_left ?_).symm
    rintro ⟨_, same, _⟩
    cases same

private theorem modified_message (message : AgentMessage) : (extractFileOpsFromMessage fileOps message).Modified path ↔
    fileOps.Modified path ∨ message.Calls (js "write") path ∨ message.Calls (js "edit") path := by
  cases message with
  | assistant answer =>
    simp only [calls_assistant, extractFileOpsFromMessage, modified_calls, ← exists_or, ← and_or_left]
  | _ =>
    refine (or_iff_left ?_).symm
    rintro (⟨_, same, _⟩ | ⟨_, same, _⟩) <;> cases same

/-- The paths read are those known before and those that the messages read. -/
theorem mem_read_messages : path ∈ (messages.foldl extractFileOpsFromMessage fileOps).read ↔
    path ∈ fileOps.read ∨ Reads messages path := by
  induction messages generalizing fileOps with
  | nil => simp [Reads]
  | cons message messages ih =>
    simp only [List.foldl_cons, ih, mem_read_message, Reads, List.exists_mem_cons_iff, or_assoc]

theorem modified_messages : (messages.foldl extractFileOpsFromMessage fileOps).Modified path ↔
    fileOps.Modified path ∨ Modifies messages path := by
  induction messages generalizing fileOps with
  | nil => simp [Modifies]
  | cons message messages ih =>
    simp only [List.foldl_cons, ih, modified_message, Modifies, List.exists_mem_cons_iff, or_assoc]

theorem mem_modifiedFiles : path ∈ (computeFileLists fileOps).modifiedFiles ↔ fileOps.Modified path := by
  simp [computeFileLists, sortPaths, mem_foldl_addPath, FileOperations.Modified]

/-- A path that was modified is not listed as read. -/
theorem mem_readFiles : path ∈ (computeFileLists fileOps).readFiles ↔ path ∈ fileOps.read ∧ ¬ fileOps.Modified path := by
  simp [computeFileLists, sortPaths, mem_foldl_addPath, FileOperations.Modified]

end PieAgent.Model

namespace PieAgent.Soundness.FileTracking

open JavaScript Model

/-- The lists as `compact` returns them. -/
def storedDetails (details : CompactionDetails) : Json :=
  .obj [(js "readFiles", .arr (details.readFiles.map .str)), (js "modifiedFiles", .arr (details.modifiedFiles.map .str))]

/-- A compaction entry and the messages that were prepared for its summary. -/
structure Round where
  entry : SessionTreeEntry
  summarized : List AgentMessage

namespace Round

/-- The content was supplied by a hook. -/
def fromHook (round : Round) : Bool :=
  match round.entry.body with
  | .compaction _ _ _ _ fromHook => fromHook
  | _ => false

/-- A list in the stored details. -/
def files (round : Round) (key : String) : List JsString :=
  match round.entry.body with
  | .compaction _ _ _ (some details) _ => detailPaths details (js key)
  | _ => []

def readFiles (round : Round) : List JsString := round.files "readFiles"

def modifiedFiles (round : Round) : List JsString := round.files "modifiedFiles"

end Round

/-- The branches of a session that grows, with the rounds of its compactions. -/
inductive Compacts : List SessionTreeEntry → List Round → Prop
  | empty : Compacts [] []
  | append {entries : List SessionTreeEntry} {rounds : List Round} {entry : SessionTreeEntry}
      (grown : Compacts entries rounds) (kind : entry.body.isCompaction = false) : Compacts (entries ++ [entry]) rounds
  | generated {entries : List SessionTreeEntry} {rounds : List Round} {settings : CompactionSettings}
      {preparation : CompactionPreparation} {summarizer : Summarizer} {compacted : Compacted} {entry : SessionTreeEntry}
      {id timestamp : JsString} {parentId : Option JsString} (grown : Compacts entries rounds)
      (prepared : AgentCore.prepareCompaction entries settings = .prepared preparation)
      (done : AgentCore.compact summarizer preparation = .ok compacted) (said : compacted.result.summary ≠ [])
      (appended : entry = compactionEntry id parentId timestamp compacted.result.summary
        compacted.result.firstKeptEntryId compacted.result.tokensBefore (some (storedDetails compacted.result.details))
        false) :
      Compacts (entries ++ [entry])
        (rounds ++ [⟨entry, preparation.messagesToSummarize ++ preparation.turnPrefixMessages⟩])
  | supplied {entries : List SessionTreeEntry} {rounds : List Round} {settings : CompactionSettings}
      {preparation : CompactionPreparation} {entry : SessionTreeEntry}
      {id timestamp summary firstKeptEntryId : JsString} {parentId : Option JsString} {tokensBefore : ℕ}
      {details : Option Json} (grown : Compacts entries rounds)
      (prepared : AgentCore.prepareCompaction entries settings = .prepared preparation)
      (appended : entry = compactionEntry id parentId timestamp summary firstKeptEntryId tokensBefore details true) :
      Compacts (entries ++ [entry])
        (rounds ++ [⟨entry, preparation.messagesToSummarize ++ preparation.turnPrefixMessages⟩])

/-- What the messages of one round touched is on the lists of another. -/
structure Tracked (round later : Round) : Prop where
  read : ∀ path, Reads round.summarized path → path ∈ later.readFiles ∨ path ∈ later.modifiedFiles
  modified : ∀ path, Modifies round.summarized path → path ∈ later.modifiedFiles

variable {entries : List SessionTreeEntry} {rounds : List Round} {round later : Round} {path : JsString}

/-- The compaction that a preparation inherits from is the last one of the branch. -/
private theorem previous_eq (entries : List SessionTreeEntry) : (prevCompactionIndex? entries).bind (entries[·]?) =
    (entries.filter fun entry => entry.body.isCompaction).getLast? := by
  induction entries using List.reverseRecOn with
  | nil => rfl
  | append_singleton entries entry ih =>
    rw [prevCompactionIndex?, List.length_append, List.length_singleton, List.range_succ, List.reverse_append,
      List.reverse_singleton, List.singleton_append, List.find?_cons, List.filter_append]
    have here : testAt (entries ++ [entry]) EntryBody.isCompaction entries.length = entry.body.isCompaction := by
      simp [testAt]
    rw [here]
    cases kind : entry.body.isCompaction with
    | true => simp [kind]
    | false =>
      have same : (List.range entries.length).reverse.find? (testAt (entries ++ [entry]) EntryBody.isCompaction) =
          prevCompactionIndex? entries := by
        refine List.find?_congr fun index member => ?_
        rw [testAt, testAt, List.getElem?_append_left (by simpa using member)]
      rw [same, List.filter_singleton, kind, cond_false, List.append_nil, ← ih]
      cases found : prevCompactionIndex? entries with
      | none => rfl
      | some index =>
        have inside : index < entries.length := by
          simpa using List.mem_of_find?_eq_some found
        rw [Option.bind_some, Option.bind_some, List.getElem?_append_left inside]

private theorem bind_ok {ε α β : Type} {action : Except ε α} {next : α → Except ε β} {result : β}
    (done : (action >>= next) = .ok result) : ∃ value, action = .ok value ∧ next value = .ok result := by
  cases action with
  | error => cases done
  | ok value => exact ⟨value, rfl, done⟩

private theorem compact_details {summarizer : Summarizer} {preparation : CompactionPreparation} {compacted : Compacted}
    (done : AgentCore.compact summarizer preparation = .ok compacted) :
    compacted.result.details = computeFileLists preparation.fileOps := by
  unfold AgentCore.compact compactWith at done
  split_ifs at done
  · cases done
    rfl
  · obtain ⟨turnPrefix, _, done⟩ := bind_ok done
    cases done
    rfl
  · obtain ⟨history, _, done⟩ := bind_ok done
    obtain ⟨turnPrefix, _, done⟩ := bind_ok done
    cases done
    rfl
  · obtain ⟨history, _, done⟩ := bind_ok done
    cases done
    rfl

/-- The file operations of a preparation are those of its messages on top of the inherited ones. -/
private theorem prepared_fileOps {settings : CompactionSettings} {preparation : CompactionPreparation}
    (prepared : AgentCore.prepareCompaction entries settings = .prepared preparation) :
    preparation.fileOps = (preparation.messagesToSummarize ++ preparation.turnPrefixMessages).foldl
      extractFileOpsFromMessage
      (previousFileOps (entries.filter fun entry => entry.body.isCompaction).getLast?) := by
  unfold AgentCore.prepareCompaction AgentCore.prepareCompactionWith at prepared
  split at prepared
  · cases prepared
  · obtain ⟨_, _, _, rfl⟩ := prepareBranch_eq prepared
    rw [List.foldl_append, ← previous_eq]
    rfl

private theorem Compacts.entries_eq (grown : Compacts entries rounds) :
    rounds.map Round.entry = entries.filter fun entry => entry.body.isCompaction := by
  induction grown with
  | empty => rfl
  | append _ kind ih => rw [ih, List.filter_append, List.filter_singleton, kind, cond_false, List.append_nil]
  | generated _ _ _ _ appended ih | supplied _ _ appended ih =>
    subst appended
    rw [List.map_append, ih, List.filter_append]
    rfl

private theorem files_stored {details : CompactionDetails} {summarized : List AgentMessage}
    {id timestamp summary firstKeptEntryId : JsString} {parentId : Option JsString} {tokensBefore : ℕ} :
    let round : Round := ⟨compactionEntry id parentId timestamp summary firstKeptEntryId tokensBefore
      (some (storedDetails details)) false, summarized⟩
    round.readFiles = details.readFiles ∧ round.modifiedFiles = details.modifiedFiles := by
  have strings (paths : List JsString) : (paths.map Json.str).filterMap Json.str? = paths := by
    rw [List.filterMap_map]
    exact List.filterMap_some
  have first : (storedDetails details).get? (js "readFiles") = some (.arr (details.readFiles.map .str)) := rfl
  have second : (storedDetails details).get? (js "modifiedFiles") = some (.arr (details.modifiedFiles.map .str)) := rfl
  simp only [Round.readFiles, Round.modifiedFiles, Round.files, compactionEntry, detailPaths, first, second, strings,
    and_self]

/-- What a preparation inherits from a generated compaction. -/
private theorem mem_previousFileOps (own : round.fromHook = false) :
    (path ∈ (previousFileOps (some round.entry)).read ↔ path ∈ round.readFiles) ∧
      ((previousFileOps (some round.entry)).Modified path ↔ path ∈ round.modifiedFiles) := by
  obtain ⟨⟨id, parentId, timestamp, body⟩, summarized⟩ := round
  cases body with
  | compaction summary firstKeptEntryId tokensBefore details fromHook =>
    cases own
    cases details <;>
      simp [previousFileOps, Round.readFiles, Round.modifiedFiles, Round.files, FileOperations.Modified,
        mem_foldl_addPath]
  | _ => simp [previousFileOps, Round.readFiles, Round.modifiedFiles, Round.files, FileOperations.Modified]

/-- The lists of a round hold what is inherited and what its messages touched, the modified paths on one list alone. -/
def Lists (inherited : FileOperations) (round : Round) : Prop :=
  ∀ path, (path ∈ round.readFiles ↔ (path ∈ inherited.read ∨ Reads round.summarized path) ∧ path ∉ round.modifiedFiles) ∧
    (path ∈ round.modifiedFiles ↔ inherited.Modified path ∨ Modifies round.summarized path)

section Lists

variable {inherited : FileOperations} (lists : Lists inherited later)
include lists

private theorem Lists.disjoint : List.Disjoint later.readFiles later.modifiedFiles := fun path read modified =>
  ((lists path).1.mp read).2 modified

private theorem Lists.tracked_self : Tracked later later where
  read path reads := by
    by_cases modified : path ∈ later.modifiedFiles
    · exact .inr modified
    · exact .inl ((lists path).1.mpr ⟨.inr reads, modified⟩)
  modified path modifies := (lists path).2.mpr (.inr modifies)

/-- What was on the inherited lists stays on the lists. -/
private theorem Lists.tracked {previous : Round} (tracked : Tracked round previous)
    (inherits : inherited = previousFileOps (some previous.entry)) (own : previous.fromHook = false) :
    Tracked round later where
  read path reads := by
    subst inherits
    by_cases modified : path ∈ later.modifiedFiles
    · exact .inr modified
    · refine .inl ((lists path).1.mpr ⟨.inl ((mem_previousFileOps own).1.mpr ?_), modified⟩)
      refine (tracked.read path reads).resolve_right fun before => modified ?_
      exact (lists path).2.mpr (.inl ((mem_previousFileOps own).2.mpr before))
  modified path modifies := by
    subst inherits
    exact (lists path).2.mpr (.inl ((mem_previousFileOps own).2.mpr (tracked.modified path modifies)))

end Lists

private theorem generated_lists {settings : CompactionSettings} {preparation : CompactionPreparation}
    {summarizer : Summarizer} {compacted : Compacted} {id timestamp : JsString} {parentId : Option JsString}
    (grown : Compacts entries rounds) (prepared : AgentCore.prepareCompaction entries settings = .prepared preparation)
    (done : AgentCore.compact summarizer preparation = .ok compacted) :
    Lists (previousFileOps (rounds.getLast?.map Round.entry)) ⟨compactionEntry id parentId timestamp
      compacted.result.summary compacted.result.firstKeptEntryId compacted.result.tokensBefore
      (some (storedDetails compacted.result.details)) false,
      preparation.messagesToSummarize ++ preparation.turnPrefixMessages⟩ := by
  intro path
  rw [(files_stored).1, (files_stored).2, compact_details done, mem_readFiles, mem_modifiedFiles, prepared_fileOps prepared,
    mem_read_messages, modified_messages, ← grown.entries_eq, List.getLast?_map]
  exact ⟨Iff.rfl, Iff.rfl⟩

/-- The last round of a longer list, or one of the shorter. -/
private theorem getElem?_concat {j : ℕ} {last : Round} (found : (rounds ++ [last])[j]? = some round) :
    (j = rounds.length ∧ round = last) ∨ (j < rounds.length ∧ rounds[j]? = some round) := by
  by_cases inside : j < rounds.length
  · rw [List.getElem?_append_left inside] at found
    exact .inr ⟨inside, found⟩
  · have bound := (List.getElem?_eq_some_iff.mp found).1
    have position : j = rounds.length := by
      rw [List.length_append, List.length_singleton] at bound
      omega
    subst position
    rw [List.getElem?_concat_length] at found
    exact .inl ⟨rfl, (Option.some.inj found).symm⟩

/-- In a session that is compacted any number of times, what a round touched is on the lists of every later one, as long
as no hook supplied one of the compactions from the one to the other; no path is on both lists. -/
theorem cumulative (grown : Compacts entries rounds) {i j : ℕ} (order : i ≤ j) (first : rounds[i]? = some round)
    (last : rounds[j]? = some later)
    (own : ∀ k between, i ≤ k → k ≤ j → rounds[k]? = some between → between.fromHook = false) :
    Tracked round later ∧ List.Disjoint later.readFiles later.modifiedFiles := by
  induction grown generalizing i j round later with
  | empty => cases last
  | append _ _ ih => exact ih order first last own
  | @supplied entries rounds settings preparation entry id timestamp summary kept parentId tokens details grown prepared
      appended ih =>
    rcases getElem?_concat last with ⟨rfl, rfl⟩ | ⟨inside, known⟩
    · have hooked := own _ _ order le_rfl last
      subst appended
      cases hooked
    · refine ih order ?_ known fun k between lower upper found => own k between lower upper ?_
      · rwa [List.getElem?_append_left (order.trans_lt inside)] at first
      · rwa [List.getElem?_append_left (upper.trans_lt inside)]
  | @generated entries rounds settings preparation summarizer compacted entry id timestamp parentId grown prepared done
      said appended ih =>
    rcases getElem?_concat last with ⟨rfl, rfl⟩ | ⟨inside, known⟩
    · subst appended
      have lists := @generated_lists entries rounds _ _ _ _ id timestamp parentId grown prepared done
      refine ⟨?_, lists.disjoint⟩
      rcases getElem?_concat first with ⟨_, rfl⟩ | ⟨inside, known⟩
      · exact lists.tracked_self
      · obtain ⟨previous, isLast⟩ : ∃ previous, rounds.getLast? = some previous :=
          Option.ne_none_iff_exists'.mp fun none =>
            List.ne_nil_of_length_pos (Nat.zero_lt_of_lt inside) (List.getLast?_eq_none_iff.mp none)
        have position : rounds[rounds.length - 1]? = some previous := by rw [← List.getLast?_eq_getElem?, isLast]
        have shorter : rounds.length - 1 < rounds.length := by omega
        have ownPrevious : previous.fromHook = false :=
          own (rounds.length - 1) previous (by omega) (Nat.sub_le _ _) (by rwa [List.getElem?_append_left shorter])
        refine lists.tracked (ih (by omega) known position fun k between lower upper found => ?_).1
          (by rw [isLast, Option.map_some]) ownPrevious
        refine own k between lower (upper.trans (Nat.sub_le _ _)) ?_
        rwa [List.getElem?_append_left (upper.trans_lt shorter)]
    · refine ih order ?_ known fun k between lower upper found => own k between lower upper ?_
      · rwa [List.getElem?_append_left (order.trans_lt inside)] at first
      · rwa [List.getElem?_append_left (upper.trans_lt inside)]

section Sample

private def answering : Summarizer where
  model := { maxTokens := 4096, contextWindow := 200000, reasoning := false }
  thinkingLevel := none
  customInstructions := none
  now := 0
  isContextOverflow _ _ := false
  respond _ _ _ := .ok
    { content := [.text { text := js "x" }], api := js "api", provider := js "provider", model := js "model"
      usage := ⟨1, 1, 0, 0, 2⟩, stopReason := .stop, timestamp := .millis 0 }

/-- The summary of a history. -/
private theorem compact_answering {preparation : CompactionPreparation} (identified : preparation.firstKeptEntryId ≠ [])
    (history : preparation.messagesToSummarize ≠ []) (whole : preparation.isSplitTurn = false) :
    ∃ requests, AgentCore.compact answering preparation =
      .ok (preparation.finish (js "x" ++ formatFileOperations preparation.details) requests) := by
  have answers (reserveTokens : ℤ) (messages : List AgentMessage) (previous : Option JsString) :
      ∃ accepted, AgentCore.generateSummary answering reserveTokens messages previous = .ok accepted ∧
        accepted.text = js "x" := ⟨_, rfl, rfl⟩
  obtain ⟨accepted, accepts, text⟩ :=
    answers preparation.settings.reserveTokens preparation.messagesToSummarize preparation.previousSummary
  refine ⟨[accepted.request], ?_⟩
  rw [AgentCore.compact, compactWith, if_neg (by simpa using identified), if_neg (by simp [history]),
    if_neg (by simp [whole]), accepts, ← text]
  rfl

private def question (id : String) : SessionTreeEntry :=
  ⟨js id, none, js "t", .message (.user ⟨.plain (js "q"), .millis 0⟩)⟩

private def readCall : ToolCall := ⟨js "c", js "read", .obj [(js "path", .str (js "p"))], none⟩

private def readingAnswer : AssistantMessage where
  content := [.toolCall readCall]
  api := js "api"
  provider := js "provider"
  model := js "model"
  usage := ⟨1, 1, 0, 0, 2⟩
  stopReason := .toolUse
  timestamp := .millis 0

private def reading : SessionTreeEntry := ⟨js "b", none, js "t", .message (.assistant readingAnswer)⟩

private theorem reads_sample {messages : List AgentMessage} (member : .assistant readingAnswer ∈ messages) :
    Reads messages (js "p") :=
  ⟨_, member, readingAnswer, rfl, readCall, List.mem_singleton_self _, rfl, by decide, rfl⟩

private def tight : CompactionSettings := { enabled := true, reserveTokens := 16384, keepRecentTokens := (1 : ℤ) }

private def fileLists (readFiles : List JsString) : CompactionDetails := ⟨readFiles, []⟩

private def generatedEntry (id kept : String) (readFiles : List JsString) (tokens : ℕ) : SessionTreeEntry :=
  compactionEntry (js id) none (js "t") (js "x" ++ formatFileOperations (fileLists readFiles)) (js kept) tokens
    (some (storedDetails (fileLists readFiles))) false

private def samplePreparation (kept : String) (messages : List AgentMessage) (readFiles : List JsString) (tokens : ℕ)
    (previousSummary : Option JsString) : CompactionPreparation where
  firstKeptEntryId := js kept
  messagesToSummarize := messages
  turnPrefixMessages := []
  isSplitTurn := false
  tokensBefore := tokens
  previousSummary := previousSummary
  fileOps := { read := readFiles }
  settings := tight

/-- A generated compaction of a branch whose preparation is known. -/
private theorem Compacts.next {id kept : String} {messages : List AgentMessage} {readFiles : List JsString} {tokens : ℕ}
    {previousSummary : Option JsString} (grown : Compacts entries rounds)
    (prepared : AgentCore.prepareCompaction entries tight =
      .prepared (samplePreparation kept messages readFiles tokens previousSummary))
    (identified : js kept ≠ []) (history : messages ≠ []) (few : sortPaths readFiles = readFiles) :
    Compacts (entries ++ [generatedEntry id kept readFiles tokens])
      (rounds ++ [⟨generatedEntry id kept readFiles tokens, messages⟩]) := by
  have lists : (samplePreparation kept messages readFiles tokens previousSummary).details = fileLists readFiles := by
    simp only [CompactionPreparation.details, computeFileLists, samplePreparation, List.append_nil, List.foldl_nil,
      List.not_mem_nil, not_false_eq_true, decide_true, List.filter_true, few, fileLists]
    simp [sortPaths]
  obtain ⟨requests, done⟩ :=
    @compact_answering (samplePreparation kept messages readFiles tokens previousSummary) identified history rfl
  rw [lists] at done
  have appended : generatedEntry id kept readFiles tokens = compactionEntry (js id) none (js "t")
      (js "x" ++ formatFileOperations (fileLists readFiles)) (js kept) tokens
      (some (storedDetails (samplePreparation kept messages readFiles tokens previousSummary).details)) false := by
    rw [lists]
    rfl
  have compacts := grown.generated prepared done (List.append_ne_nil_of_left_ne_nil (by decide) _) appended
  rwa [show (samplePreparation kept messages readFiles tokens previousSummary).messagesToSummarize ++
    (samplePreparation kept messages readFiles tokens previousSummary).turnPrefixMessages = messages from
      List.append_nil _] at compacts

private def asks : AgentMessage := .user ⟨.plain (js "q"), .millis 0⟩

private def firstRound : Round := ⟨generatedEntry "d" "c" [js "p"] 3, [asks, .assistant readingAnswer]⟩

private def firstBranch : List SessionTreeEntry :=
  [question "a", reading, question "c"] ++ [firstRound.entry] ++ [question "e"]

private theorem compacts_first : Compacts firstBranch [firstRound] := by
  have grown : Compacts [question "a", reading, question "c"] [] := .append (.append (.append .empty rfl) rfl) rfl
  have prepared : AgentCore.prepareCompaction [question "a", reading, question "c"] tight =
      .prepared (samplePreparation "c" [asks, .assistant readingAnswer] [js "p"] 3 none) := by decide
  exact (grown.next prepared (by decide) (by decide) (by simp [sortPaths])).append rfl

private def secondRound : Round := ⟨generatedEntry "f" "e" [js "p"] 10, [asks]⟩

private theorem compacts_second : Compacts (firstBranch ++ [secondRound.entry]) [firstRound, secondRound] := by
  have prepared : AgentCore.prepareCompaction firstBranch tight = .prepared (samplePreparation "e" [asks] [js "p"] 10
      (some (js "x" ++ formatFileOperations (fileLists [js "p"])))) := by decide
  exact (compacts_first).next prepared (by decide) (by decide) (by simp [sortPaths])

/-- A path that the first round read is on the lists of the second, whose messages do not read it. -/
theorem cumulative_second : Tracked firstRound secondRound ∧ Reads firstRound.summarized (js "p") ∧
    ¬ Reads secondRound.summarized (js "p") := by
  have own : ∀ k (between : Round), 0 ≤ k → k ≤ 1 → [firstRound, secondRound][k]? = some between →
      between.fromHook = false := by
    intro k between _ upper found
    have listed := List.mem_of_getElem? found
    simp only [List.mem_cons, List.not_mem_nil, or_false] at listed
    rcases listed with rfl | rfl <;> rfl
  refine ⟨(@cumulative _ _ _ _ compacts_second 0 1 (by decide) rfl rfl own).1, reads_sample (by simp [firstRound]), ?_⟩
  rintro ⟨message, member, answer, rfl, _⟩
  simp [secondRound, asks] at member

private def suppliedEntry : SessionTreeEntry := compactionEntry (js "f") none (js "t") (js "s") (js "e") 1 none true

private def thirdRound : Round := ⟨generatedEntry "h" "g" [] 3, [asks]⟩

/-- A hook supplies the second of three compactions, and the third does not list what the first round read. -/
theorem not_tracked_behind_hook : ¬ ∀ entries rounds, Compacts entries rounds → ∀ (i j : ℕ) round later,
    i ≤ j → rounds[i]? = some round → rounds[j]? = some later → Tracked round later := by
  intro always
  have prepared : AgentCore.prepareCompaction firstBranch tight = .prepared (samplePreparation "e" [asks] [js "p"] 10
      (some (js "x" ++ formatFileOperations (fileLists [js "p"])))) := by decide
  have supplied := (compacts_first).supplied prepared (show suppliedEntry = _ from rfl)
  have grown := supplied.append (show (question "g").body.isCompaction = false from rfl)
  have again : AgentCore.prepareCompaction (firstBranch ++ [suppliedEntry] ++ [question "g"]) tight =
      .prepared (samplePreparation "g" [asks] [] 3 (some (js "s"))) := by decide
  have compacts := @Compacts.next _ _ "h" _ _ _ _ _ grown again (by decide) (by decide) (by simp [sortPaths])
  have tracked := always _ _ compacts 0 2 firstRound thirdRound (by decide) rfl rfl
  rcases tracked.read (js "p") (reads_sample (by simp [firstRound])) with listed | listed <;> cases listed

end Sample

end PieAgent.Soundness.FileTracking
