import PieAgent.Proofs.Compaction.CutPoint

/-! # What a preparation holds

History and turn prefix together are the messages between the boundary and the cut, and a context
rebuilt after the compaction keeps exactly the entries from the cut on. The message rule of the
preparation and that of the context differ on one kind of entry only, a branch summary without text.
-/

namespace PieAgent.Model

open JavaScript

/-- A branch summary whose text is empty. -/
def EntryBody.isEmptyBranchSummary : EntryBody → Bool
  | .branchSummary _ summary _ _ => summary.isEmpty
  | _ => false

theorem contextMessage?_eq (entry : SessionTreeEntry) :
    contextMessage? entry =
      if entry.body.isEmptyBranchSummary then none else getMessageFromEntryForCompaction entry := by
  obtain ⟨id, parentId, timestamp, body⟩ := entry
  cases body <;> rfl

theorem getMessageFromEntryForCompaction_isSome {entry : SessionTreeEntry}
    (empty : entry.body.isEmptyBranchSummary) : (getMessageFromEntryForCompaction entry).isSome := by
  obtain ⟨id, parentId, timestamp, body⟩ := entry
  cases body <;> simp_all [EntryBody.isEmptyBranchSummary, getMessageFromEntryForCompaction, EntryBody.isCompaction,
    getMessageFromEntry]

/-- An entry that a compaction turns into a message. -/
def EntryBody.carriesMessage : EntryBody → Bool
  | .message _ => true
  | .customMessage .. => true
  | .branchSummary .. => true
  | _ => false

theorem getMessageFromEntryForCompaction_eq_none {entry : SessionTreeEntry} :
    getMessageFromEntryForCompaction entry = none ↔ entry.body.carriesMessage = false := by
  obtain ⟨id, parentId, timestamp, body⟩ := entry
  cases body <;> simp [getMessageFromEntryForCompaction, getMessageFromEntry, EntryBody.isCompaction,
    EntryBody.carriesMessage]

theorem EntryBody.carriesMessage_of_startsTurn (body : EntryBody) (starts : body.startsTurn) : body.carriesMessage := by
  cases body <;> simp_all [startsTurn, carriesMessage]

private theorem length_contextMessages_le (entries : List SessionTreeEntry) :
    (contextMessages entries).length ≤ (entries.filterMap getMessageFromEntryForCompaction).length := by
  induction entries with
  | nil => rfl
  | cons entry rest ih =>
    unfold contextMessages at ih ⊢
    rw [List.filterMap_cons, List.filterMap_cons, contextMessage?_eq]
    split_ifs
    · cases getMessageFromEntryForCompaction entry <;> simp only [List.length_cons] <;> omega
    · cases getMessageFromEntryForCompaction entry <;> simp only [List.length_cons] <;> omega

/-- The two message rules agree on a list of entries exactly when it holds no empty branch summary. -/
theorem messages_eq_contextMessages_iff (entries : List SessionTreeEntry) :
    entries.filterMap getMessageFromEntryForCompaction = contextMessages entries ↔
      ∀ entry ∈ entries, entry.body.isEmptyBranchSummary = false := by
  induction entries with
  | nil => simp [contextMessages]
  | cons entry rest ih =>
    rw [List.forall_mem_cons, ← ih, contextMessages, List.filterMap_cons, List.filterMap_cons, contextMessage?_eq]
    cases empty : entry.body.isEmptyBranchSummary with
    | true =>
      obtain ⟨message, produced⟩ := Option.isSome_iff_exists.mp (getMessageFromEntryForCompaction_isSome empty)
      have shorter := length_contextMessages_le rest
      simp only [produced, ↓reduceIte, Bool.true_eq_false, false_and, iff_false]
      intro same
      have := congrArg List.length same
      simp only [List.length_cons] at this
      unfold contextMessages at shorter
      omega
    | false =>
      simp only [Bool.false_eq_true, ↓reduceIte, true_and]
      cases getMessageFromEntryForCompaction entry <;> simp [contextMessages]

theorem messagesBetween_append {entries : List SessionTreeEntry} {first middle last : ℕ} (lower : first ≤ middle)
    (upper : middle ≤ last) :
    messagesBetween entries first middle ++ messagesBetween entries middle last = messagesBetween entries first last := by
  unfold messagesBetween
  rw [← List.filterMap_append, List.drop_take, List.drop_take, List.drop_take]
  have split := List.take_add (l := entries.drop first) (i := middle - first) (j := last - middle)
  rw [List.drop_drop] at split
  rw [show last - first = middle - first + (last - middle) by omega, split,
    show first + (middle - first) = middle by omega]

theorem mem_drop_take {entries : List SessionTreeEntry} {first last : ℕ} {entry : SessionTreeEntry} :
    entry ∈ (entries.take last).drop first ↔ ∃ index, first ≤ index ∧ index < last ∧ entries[index]? = some entry := by
  rw [List.mem_iff_getElem?]
  constructor
  · rintro ⟨offset, found⟩
    rw [List.getElem?_drop, List.getElem?_take] at found
    split at found
    · next inside => exact ⟨first + offset, Nat.le_add_right _ _, inside, found⟩
    · cases found
  · rintro ⟨index, lower, upper, found⟩
    refine ⟨index - first, ?_⟩
    rw [List.getElem?_drop, Nat.add_sub_cancel' lower, List.getElem?_take, if_pos upper, found]

theorem contextMessages_drop {entries : List SessionTreeEntry} {first last : ℕ} (order : first ≤ last) :
    contextMessages (entries.drop first) =
      contextMessages ((entries.take last).drop first) ++ contextMessages (entries.drop last) := by
  unfold contextMessages
  rw [← List.filterMap_append, List.drop_take]
  have split := List.take_append_drop (last - first) (entries.drop first)
  rw [List.drop_drop, show first + (last - first) = last by omega] at split
  rw [split]

theorem testAt_eq_false_iff {entries : List SessionTreeEntry} {test : EntryBody → Bool} {index : ℕ} :
    testAt entries test index = false ↔ ∀ entry, entries[index]? = some entry → test entry.body = false := by
  cases found : entries[index]? <;> simp [testAt, found]

/-- A range of entries yields no message exactly when none of its entries carries one. -/
theorem messagesBetween_eq_nil_iff {entries : List SessionTreeEntry} {first last : ℕ} :
    messagesBetween entries first last = [] ↔
      ∀ index, first ≤ index → index < last → testAt entries EntryBody.carriesMessage index = false := by
  unfold messagesBetween
  rw [List.filterMap_eq_nil_iff]
  constructor
  · intro none index lower upper
    refine (testAt_eq_false_iff).mpr fun entry found => ?_
    exact (getMessageFromEntryForCompaction_eq_none).mp (none entry ((mem_drop_take).mpr ⟨index, lower, upper, found⟩))
  · intro none entry member
    obtain ⟨index, lower, upper, found⟩ := (mem_drop_take).mp member
    exact (getMessageFromEntryForCompaction_eq_none).mpr ((testAt_eq_false_iff).mp (none index lower upper) entry found)

theorem boundaryStart_le (entries : List SessionTreeEntry) : boundaryStart entries ≤ entries.length := by
  unfold boundaryStart
  split
  · exact Nat.zero_le _
  · next index found =>
    split
    · next firstKeptEntryId _ _ _ read =>
      have inside : index < entries.length := by
        have := List.mem_of_find?_eq_some found
        simpa using this
      cases search : (List.range entries.length).find? fun i =>
          (entries[i]?).any fun entry => entry.id == firstKeptEntryId with
      | none => exact inside
      | some kept =>
        have := List.mem_of_find?_eq_some search
        simp only [List.mem_range] at this
        simpa using this.le
    · exact Nat.zero_le _

section Prepared

variable {estimateTokens : AgentMessage → ℕ} {tokensBefore : ℕ} {entries : List SessionTreeEntry}
variable {settings : CompactionSettings} {preparation : CompactionPreparation}

/-- The cut that the preparation of a branch works with. -/
def branchCut (estimateTokens : AgentMessage → ℕ) (entries : List SessionTreeEntry) (settings : CompactionSettings) :
    CutPointResult :=
  findCutPoint estimateTokens entries (boundaryStart entries) entries.length settings.keepRecentTokens

/-- A preparation is made for the computed cut, whose first entry has the recorded, nonempty id. -/
theorem prepareBranch_eq (prepared : prepareBranch estimateTokens tokensBefore entries settings = .prepared preparation) :
    ∃ entry, entries[(branchCut estimateTokens entries settings).firstKeptEntryIndex]? = some entry ∧ entry.id ≠ [] ∧
      preparation =
        preparationAt tokensBefore entries settings (branchCut estimateTokens entries settings) entry.id := by
  unfold prepareBranch at prepared
  dsimp only at prepared
  split at prepared
  · next unit rest found =>
    obtain ⟨entry, read, same⟩ := Option.map_eq_some_iff.mp found
    cases prepared
    exact ⟨entry, read, by simp [same], by rw [same]; rfl⟩
  · cases prepared

theorem branchCut_keptFrom (estimateTokens : AgentMessage → ℕ) (entries : List SessionTreeEntry)
    (settings : CompactionSettings) :
    KeptFrom estimateTokens settings.keepRecentTokens entries (boundaryStart entries)
      (branchCut estimateTokens entries settings).firstKeptEntryIndex :=
  findCutPoint_keptFrom (boundaryStart_le entries)

theorem branchCut_turnStart {turnStart : ℕ}
    (split : (branchCut estimateTokens entries settings).turnStartIndex = some turnStart) :
    boundaryStart entries ≤ turnStart ∧
      turnStart ≤ (branchCut estimateTokens entries settings).firstKeptEntryIndex := by
  unfold branchCut at split ⊢
  by_cases points : findValidCutPoints entries (boundaryStart entries) entries.length = []
  · simp [findCutPoint_turnStartIndex_nil points] at split
  · obtain ⟨_, ⟨⟨lower, _⟩, upper⟩, _⟩ := (findCutPoint_turnStartIndex points).mp split
    exact ⟨lower, upper⟩

/-- History and turn prefix are the messages from the boundary up to the cut. -/
theorem preparationAt_messages (firstKeptEntryId : JsString) :
    (preparationAt tokensBefore entries settings (branchCut estimateTokens entries settings)
          firstKeptEntryId).messagesToSummarize ++
        (preparationAt tokensBefore entries settings (branchCut estimateTokens entries settings)
          firstKeptEntryId).turnPrefixMessages =
      messagesBetween entries (boundaryStart entries)
        (branchCut estimateTokens entries settings).firstKeptEntryIndex := by
  have flag : (branchCut estimateTokens entries settings).isSplitTurn =
      (branchCut estimateTokens entries settings).turnStartIndex.isSome := findCutPoint_isSplitTurn
  unfold preparationAt
  dsimp only
  cases split : (branchCut estimateTokens entries settings).turnStartIndex with
  | none => simp [flag, split]
  | some turnStart =>
    obtain ⟨lower, upper⟩ := branchCut_turnStart split
    simpa [flag, split] using messagesBetween_append lower upper

end Prepared

/-- Dropping entries up to the first kept one drops exactly those before its index. -/
theorem fromFirstKept_eq_drop {entries : List SessionTreeEntry} (unique : (entries.map (·.id)).Nodup) {index : ℕ}
    {entry : SessionTreeEntry} (found : entries[index]? = some entry) :
    fromFirstKept entry.id entries = entries.drop index := by
  induction entries generalizing index with
  | nil => simp at found
  | cons head rest ih =>
    obtain ⟨absent, unique⟩ := List.nodup_cons.mp unique
    cases index with
    | zero =>
      cases found
      simp [fromFirstKept]
    | succ index =>
      rw [List.getElem?_cons_succ] at found
      have member : entry ∈ rest := List.mem_of_getElem? found
      have other : head.id ≠ entry.id := by
        intro same
        exact absent (List.mem_map.mpr ⟨entry, member, same.symm⟩)
      simpa [fromFirstKept, other] using ih unique found

theorem lastCompaction?_concat (entries : List SessionTreeEntry) (compaction : SessionTreeEntry)
    (kind : compaction.body.isCompaction) : lastCompaction? (entries ++ [compaction]) = some compaction := by
  simp [lastCompaction?, kind]

/-- The context after a fresh compaction entry: its summary, then the entries from the first kept one on. -/
theorem buildSessionContext_concat {entries : List SessionTreeEntry} (unique : (entries.map (·.id)).Nodup)
    {index : ℕ} {kept : SessionTreeEntry} (found : entries[index]? = some kept) {id timestamp summary : JsString}
    {parentId : Option JsString} {tokensBefore : ℕ} {details : Option Json} {fromHook : Bool}
    (fresh : ∀ entry ∈ entries, entry.id ≠ id) :
    (buildSessionContext
        (entries ++ [compactionEntry id parentId timestamp summary kept.id tokensBefore details fromHook])).messages =
      .compactionSummary (createCompactionSummaryMessage summary tokensBefore timestamp) ::
        contextMessages (entries.drop index) := by
  have absent : entries.findIdx (fun entry => entry.body.isCompaction && entry.id == id) = entries.length :=
    List.findIdx_eq_length.mpr fun entry member => by simp [fresh entry member]
  have position : (entries ++ [compactionEntry id parentId timestamp summary kept.id tokensBefore details fromHook]).findIdx
      (fun entry => entry.body.isCompaction && entry.id == id) = entries.length := by
    rw [List.findIdx_append, absent, if_neg (lt_irrefl _)]
    simp [EntryBody.isCompaction, compactionEntry]
  have last := lastCompaction?_concat entries
    (compactionEntry id parentId timestamp summary kept.id tokensBefore details fromHook) rfl
  unfold buildSessionContext
  rw [last]
  simp only [compactionEntry] at position ⊢
  rw [position, List.take_left' rfl, fromFirstKept_eq_drop unique found]
  simp [contextMessages]

end PieAgent.Model
