import PieAgent.Model.Compaction.AgentCore
import PieAgent.Proofs.Compaction.Preparation

/-! # Compaction partitions the messages of a branch

A compaction of the agent core replaces the history and the turn prefix of a branch by a summary.
Together with the messages that the rebuilt context keeps they are the context-bearing messages
since the previous boundary, in order and each once, unless a branch summary without text lies
before the cut: the preparation hands such an entry to the summarizer, the context never holds it.
-/

namespace PieAgent.Soundness

open JavaScript Model

/-- Every branch summary from the previous boundary up to the cut has a text. -/
def SummariesBeforeCutHaveText (estimateTokens : AgentMessage → ℕ) (keepRecentTokens : WithTop ℤ)
    (entries : List SessionTreeEntry) : Prop :=
  ∀ cut, KeptFrom estimateTokens keepRecentTokens entries (boundaryStart entries) cut →
    ∀ index entry, boundaryStart entries ≤ index → index < cut → entries[index]? = some entry →
      entry.body.isEmptyBranchSummary = false

private theorem messagesBetween_eq_iff {entries : List SessionTreeEntry} {first last : ℕ} :
    messagesBetween entries first last = contextMessages ((entries.take last).drop first) ↔
      ∀ index entry, first ≤ index → index < last → entries[index]? = some entry →
        entry.body.isEmptyBranchSummary = false := by
  unfold messagesBetween
  rw [messages_eq_contextMessages_iff]
  constructor
  · exact fun texts index entry lower upper found => texts entry (mem_drop_take.mpr ⟨index, lower, upper, found⟩)
  · intro texts entry member
    obtain ⟨index, lower, upper, found⟩ := mem_drop_take.mp member
    exact texts index entry lower upper found

/-- After the compaction entry of a preparation is appended, the context is the summary followed by
the kept messages, and summarized and kept messages together are the messages since the previous
boundary exactly when the branch summaries before the cut have a text. -/
theorem prepareCompaction_partition_iff (estimateTokens : AgentMessage → ℕ) (branch : Branch)
    (settings : CompactionSettings) (preparation : CompactionPreparation) (id timestamp summary : JsString)
    (parentId : Option JsString) (details : Option Json) (fromHook : Bool)
    (prepared : AgentCore.prepareCompactionWith estimateTokens branch.entries settings = .prepared preparation)
    (fresh : ∀ entry ∈ branch.entries, entry.id ≠ id) :
    ∃ kept,
      (buildSessionContext (branch.entries ++
          [compactionEntry id parentId timestamp summary preparation.firstKeptEntryId preparation.tokensBefore
            details fromHook])).messages =
        .compactionSummary (createCompactionSummaryMessage summary preparation.tokensBefore timestamp) :: kept ∧
      (preparation.messagesToSummarize ++ preparation.turnPrefixMessages ++ kept =
          contextMessages (branch.entries.drop (boundaryStart branch.entries)) ↔
        SummariesBeforeCutHaveText estimateTokens settings.keepRecentTokens branch.entries) := by
  unfold AgentCore.prepareCompactionWith at prepared
  split at prepared
  · cases prepared
  · obtain ⟨entry, found, _, rfl⟩ := prepareBranch_eq prepared
    have keptFrom := branchCut_keptFrom estimateTokens branch.entries settings
    refine ⟨_, buildSessionContext_concat branch.unique found fresh, ?_⟩
    rw [preparationAt_messages, contextMessages_drop keptFrom.lower, List.append_left_inj, messagesBetween_eq_iff]
    constructor
    · intro texts cut other
      cases keptFrom.unique other
      exact texts
    · exact fun texts => texts _ keptFrom

private def noon : JsString := js "2026-01-01T12:00:00.000Z"

private def userEntry (id text : String) : SessionTreeEntry :=
  { id := js id, parentId := none, timestamp := noon, body := .message (.user ⟨.plain (js text), .millis 0⟩) }

/-- Two turns after a branch summary with the given text. -/
private def summarizedBranch (text : String) : List SessionTreeEntry :=
  [{ id := js "a", parentId := none, timestamp := noon, body := .branchSummary (js "root") (js text) none false },
    userEntry "b" "first", userEntry "c" "second"]

private def smallBudget : CompactionSettings :=
  { enabled := true, reserveTokens := 16384, keepRecentTokens := (1 : ℤ) }

/-- What the agent core prepares for that branch: the second turn is kept. -/
private def smallPreparation (text : String) (tokensBefore : ℕ) : CompactionPreparation :=
  { firstKeptEntryId := js "c"
    messagesToSummarize :=
      [.branchSummary (createBranchSummaryMessage (js text) (js "root") noon),
        .user ⟨.plain (js "first"), .millis 0⟩]
    turnPrefixMessages := []
    isSplitTurn := false
    tokensBefore
    previousSummary := none
    fileOps := {}
    settings := smallBudget }

/-- The law applied to a branch summary with a text, which no part loses or repeats. -/
theorem prepareCompaction_partition_summarizedBranch :
    AgentCore.prepareCompactionWith AgentCore.estimateTokens (summarizedBranch "done") smallBudget =
        .prepared (smallPreparation "done" 5) ∧
      ∃ kept,
        (buildSessionContext (summarizedBranch "done" ++
            [compactionEntry (js "d") (some (js "c")) noon (js "summary") (js "c") 5 none false])).messages =
          .compactionSummary (createCompactionSummaryMessage (js "summary") 5 noon) :: kept ∧
        ((smallPreparation "done" 5).messagesToSummarize ++ (smallPreparation "done" 5).turnPrefixMessages ++ kept =
            contextMessages ((summarizedBranch "done").drop (boundaryStart (summarizedBranch "done"))) ↔
          SummariesBeforeCutHaveText AgentCore.estimateTokens (1 : ℤ) (summarizedBranch "done")) :=
  have prepared : AgentCore.prepareCompactionWith AgentCore.estimateTokens (summarizedBranch "done") smallBudget =
      .prepared (smallPreparation "done" 5) := by decide
  ⟨prepared, prepareCompaction_partition_iff AgentCore.estimateTokens ⟨summarizedBranch "done", by decide⟩ smallBudget
    (smallPreparation "done" 5) (js "d") noon (js "summary") (some (js "c")) none false prepared (by decide)⟩

/-- A branch summary without text before the cut is summarized although no context ever holds it. -/
theorem emptyBranchSummary_breaks_partition :
    AgentCore.prepareCompaction (summarizedBranch "") smallBudget = .prepared (smallPreparation "" 4) ∧
      (smallPreparation "" 4).messagesToSummarize ++ (smallPreparation "" 4).turnPrefixMessages ++
          (buildSessionContext (summarizedBranch "" ++
            [compactionEntry (js "d") (some (js "c")) noon (js "summary") (js "c") 4 none false])).messages.tail ≠
        contextMessages ((summarizedBranch "").drop (boundaryStart (summarizedBranch ""))) := by
  decide

end PieAgent.Soundness
