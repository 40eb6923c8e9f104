import PieAgent.Model.Compaction.AgentCore
import PieAgent.Proofs.Compaction.Preparation

/-! # Where the kept messages begin

A session grows by entries and compactions, and its leaf moves back. No cut ever falls on a tool result, and later
compactions keep a cut that an earlier one has made. Still the kept messages can begin with a tool result: a cut may fall
on a branch summary, and one without text is no message of the context.
-/

namespace PieAgent.Soundness.KeptSuffix

open JavaScript Model

/-- Every tool result stands behind the assistant message with its call. -/
def Answered (entries : List SessionTreeEntry) : Prop :=
  ∀ front (entry : SessionTreeEntry) back result, entries = front ++ entry :: back →
    entry.body = .message (.toolResult result) →
    ∃ asked ∈ front, ∃ message, asked.body = .message (.assistant message) ∧
      ∃ call ∈ message.toolCalls, call.id = result.toolCallId

/-- The branches of a session that is compacted any number of times, each time with its own settings. -/
inductive Grows (estimateTokens : AgentMessage → ℕ) : List SessionTreeEntry → Prop
  | empty : Grows estimateTokens []
  | append {entries : List SessionTreeEntry} {entry : SessionTreeEntry} (grown : Grows estimateTokens entries)
      (kind : entry.body.isCompaction = false) (fresh : ∀ other ∈ entries, other.id ≠ entry.id)
      (answered : Answered (entries ++ [entry])) : Grows estimateTokens (entries ++ [entry])
  | compact {entries : List SessionTreeEntry} {settings : CompactionSettings} {preparation : CompactionPreparation}
      {id timestamp summary : JsString} {parentId : Option JsString} {details : Option Json} {fromHook : Bool}
      (grown : Grows estimateTokens entries)
      (prepared : AgentCore.prepareCompactionWith estimateTokens entries settings = .prepared preparation)
      (fresh : ∀ other ∈ entries, other.id ≠ id) :
      Grows estimateTokens (entries ++ [compactionEntry id parentId timestamp summary preparation.firstKeptEntryId
        preparation.tokensBefore details fromHook])
  | rewind {entries : List SessionTreeEntry} (n : ℕ) (grown : Grows estimateTokens entries) :
      Grows estimateTokens (entries.take n)

/-- The messages of the context behind the summary of the last compaction. -/
def keptMessages (entries : List SessionTreeEntry) : List AgentMessage :=
  if (lastCompaction? entries).isSome then (buildSessionContext entries).messages.tail
  else (buildSessionContext entries).messages

def OpensWithResult (messages : List AgentMessage) : Prop := ∃ result, messages.head? = some (.toolResult result)

/-- No tool result is the next message behind a branch summary without text. -/
def Spoken (entries : List SessionTreeEntry) : Prop :=
  ∀ i, testAt entries EntryBody.isEmptyBranchSummary i → ¬ OpensWithResult (contextMessages (entries.drop i))

/-- Nothing stands before the cut, or it has moved back over silent entries from an entry that a cut may fall on. -/
def SafeCut (entries : List SessionTreeEntry) (cut : ℕ) : Prop :=
  contextMessages (entries.take cut) = [] ∨
    ∃ raw, cut ≤ raw ∧ testAt entries EntryBody.isCutPoint raw ∧
      ∀ j, cut ≤ j → j < raw → testAt entries EntryBody.isMessage j = false

variable {estimateTokens : AgentMessage → ℕ} {entries front back rest : List SessionTreeEntry}
  {entry : SessionTreeEntry} {cut : ℕ} {messages : List AgentMessage}

section Opening

/-- The entry behind the first message of the context. -/
private theorem opensWithResult_iff : OpensWithResult (contextMessages entries) ↔
    ∃ front entry back result, entries = front ++ entry :: back ∧ contextMessages front = [] ∧
      contextMessage? entry = some (.toolResult result) := by
  simp only [OpensWithResult, contextMessages, List.head?_filterMap, List.findSome?_eq_some_iff,
    List.filterMap_eq_nil_iff]
  constructor
  · rintro ⟨result, front, entry, back, split, pushes, silent⟩
    exact ⟨front, entry, back, result, split, silent, pushes⟩
  · rintro ⟨front, entry, back, result, split, silent, pushes⟩
    exact ⟨result, front, entry, back, split, pushes, silent⟩

private theorem body_of_toolResult {result : ToolResultMessage} (pushes : contextMessage? entry = some (.toolResult result)) :
    entry.body = .message (.toolResult result) := by
  obtain ⟨id, parentId, timestamp, body⟩ := entry
  cases body with
  | message message => exact congrArg _ (Option.some.inj pushes)
  | branchSummary fromId summary details fromHook =>
    dsimp only [contextMessage?] at pushes
    split_ifs at pushes
    cases pushes
  | _ => cases pushes

/-- An answered branch does not begin with a tool result. -/
private theorem Answered.opening (answered : Answered entries) : ¬ OpensWithResult (contextMessages entries) := by
  rw [opensWithResult_iff]
  rintro ⟨front, entry, back, result, split, silent, pushes⟩
  obtain ⟨asked, member, message, body, _⟩ := answered front entry back result split (body_of_toolResult pushes)
  have absent := List.filterMap_eq_nil_iff.mp silent asked member
  rw [contextMessage?, body] at absent
  cases absent

/-- Entries that are no messages do not open with a tool result. -/
private theorem not_opens_of_silent (silent : ∀ entry ∈ front, entry.body.isMessage = false)
    (behind : ¬ OpensWithResult (contextMessages back)) : ¬ OpensWithResult (contextMessages (front ++ back)) := by
  induction front with
  | nil => exact behind
  | cons entry front ih =>
    obtain ⟨first, others⟩ := List.forall_mem_cons.mp silent
    rw [List.cons_append, contextMessages, List.filterMap_cons]
    cases pushes : contextMessage? entry with
    | none => exact ih others
    | some message =>
      rintro ⟨result, opens⟩
      obtain rfl := Option.some.inj opens
      rw [body_of_toolResult pushes] at first
      cases first

/-- What a cut may fall on is no tool result, and a message unless it is a branch summary without text. -/
private theorem contextMessage?_of_isCutPoint (point : entry.body.isCutPoint = true)
    (text : entry.body.isEmptyBranchSummary = false) :
    ∃ message, contextMessage? entry = some message ∧ ∀ result, message ≠ .toolResult result := by
  obtain ⟨id, parentId, timestamp, body⟩ := entry
  cases body with
  | message message =>
    refine ⟨message, rfl, ?_⟩
    rintro result rfl
    cases point
  | customMessage customType content details display => exact ⟨_, rfl, nofun⟩
  | branchSummary fromId summary details fromHook =>
    refine ⟨.branchSummary (createBranchSummaryMessage summary fromId timestamp), ?_, nofun⟩
    exact if_neg (by rw [show summary.isEmpty = false from text]; exact Bool.false_ne_true)
  | _ => cases point

/-- The messages from a safe cut on do not begin with a tool result. -/
private theorem SafeCut.opening (answered : Answered entries) (spoken : Spoken entries) (safe : SafeCut entries cut) :
    ¬ OpensWithResult (contextMessages (entries.drop cut)) := by
  rcases safe with silent | ⟨raw, order, point, between⟩
  · have whole := @contextMessages_drop entries 0 cut (Nat.zero_le cut)
    rw [List.drop_zero, List.drop_zero, silent, List.nil_append] at whole
    rw [← whole]
    exact answered.opening
  · have split : entries.drop cut = (entries.take raw).drop cut ++ entries.drop raw := by
      rw [List.drop_take, ← Nat.add_sub_cancel' order, ← List.drop_drop, Nat.add_sub_cancel_left, List.take_append_drop]
    rw [split]
    apply not_opens_of_silent
    · intro entry member
      obtain ⟨j, lower, upper, found⟩ := mem_drop_take.mp member
      exact testAt_eq_false_iff.mp (between j lower upper) entry found
    · obtain ⟨entry, found, passes⟩ := (Option.any_eq_true _ _).mp point
      cases text : entry.body.isEmptyBranchSummary with
      | true => exact spoken raw ((Option.any_eq_true _ _).mpr ⟨entry, found, text⟩)
      | false =>
        obtain ⟨message, pushes, other⟩ := contextMessage?_of_isCutPoint passes text
        obtain ⟨bound, rfl⟩ := List.getElem?_eq_some_iff.mp found
        rw [List.drop_eq_getElem_cons bound, contextMessages, List.filterMap_cons, pushes]
        rintro ⟨result, opens⟩
        exact other result (Option.some.inj opens)

end Opening

section Invariant

/-- Every compaction on the branch keeps it from a safe cut on. -/
def CutsSafely (entries : List SessionTreeEntry) : Prop :=
  ∀ front entry back summary firstKeptEntryId tokensBefore details fromHook, entries = front ++ entry :: back →
    entry.body = .compaction summary firstKeptEntryId tokensBefore details fromHook →
    ∃ cut kept, front[cut]? = some kept ∧ kept.id = firstKeptEntryId ∧ SafeCut front cut

structure Sound (entries : List SessionTreeEntry) : Prop where
  unique : (entries.map (·.id)).Nodup
  answered : Answered entries
  cuts : CutsSafely entries

private theorem testAt_append {test : EntryBody → Bool} {j : ℕ} (inside : j < front.length) :
    testAt (front ++ back) test j = testAt front test j := by
  rw [testAt, testAt, List.getElem?_append_left inside]

private theorem SafeCut.append (safe : SafeCut front cut) (inside : cut < front.length) : SafeCut (front ++ back) cut := by
  refine safe.imp (fun silent => by rwa [List.take_append_of_le_length inside.le]) ?_
  rintro ⟨raw, order, point, between⟩
  have bound := testAt_lt point
  refine ⟨raw, order, by rwa [testAt_append bound], ?_⟩
  intro j lower upper
  rw [testAt_append (upper.trans bound)]
  exact between j lower upper

private theorem unique_concat (unique : (entries.map (·.id)).Nodup) (fresh : ∀ other ∈ entries, other.id ≠ entry.id) :
    ((entries ++ [entry]).map (·.id)).Nodup := by
  rw [List.map_append, List.nodup_append]
  refine ⟨unique, List.pairwise_singleton _ _, ?_⟩
  intro id member other single
  obtain ⟨known, listed, rfl⟩ := List.mem_map.mp member
  obtain rfl := List.mem_singleton.mp single
  exact fresh known listed

/-- The last entry of a branch, or one before it. -/
private theorem concat_cases {other : SessionTreeEntry} (split : entries ++ [entry] = front ++ other :: back) :
    (back = [] ∧ front = entries ∧ other = entry) ∨ ∃ behind, back = behind ++ [entry] ∧ entries = front ++ other :: behind := by
  rcases List.eq_nil_or_concat' back with rfl | ⟨behind, last, rfl⟩
  · obtain ⟨same, last⟩ := List.append_inj' split rfl
    exact .inl ⟨rfl, same.symm, (List.singleton_inj.mp last).symm⟩
  · have shape : front ++ other :: (behind ++ [last]) = (front ++ other :: behind) ++ [last] := by simp
    rw [shape] at split
    obtain ⟨same, last⟩ := List.append_inj' split rfl
    obtain rfl := List.singleton_inj.mp last
    exact .inr ⟨behind, rfl, same⟩

private theorem CutsSafely.concat (cuts : CutsSafely entries)
    (last : ∀ summary firstKeptEntryId tokensBefore details fromHook,
      entry.body = .compaction summary firstKeptEntryId tokensBefore details fromHook →
      ∃ cut kept, entries[cut]? = some kept ∧ kept.id = firstKeptEntryId ∧ SafeCut entries cut) :
    CutsSafely (entries ++ [entry]) := by
  intro front other back summary firstKeptEntryId tokensBefore details fromHook split kind
  rcases concat_cases split with ⟨rfl, rfl, rfl⟩ | ⟨behind, rfl, inner⟩
  · exact last _ _ _ _ _ kind
  · exact cuts front other behind _ _ _ _ _ inner kind

private theorem Answered.concat (answered : Answered entries) (kind : ∀ result, entry.body ≠ .message (.toolResult result)) :
    Answered (entries ++ [entry]) := by
  intro front other back result split body
  rcases concat_cases split with ⟨rfl, rfl, rfl⟩ | ⟨behind, rfl, inner⟩
  · exact absurd body (kind result)
  · exact answered front other behind result inner body

private theorem Answered.concat_result {asked : SessionTreeEntry} {message : AssistantMessage} {call : ToolCall}
    {result : ToolResultMessage} (answered : Answered entries) (member : asked ∈ entries)
    (body : asked.body = .message (.assistant message)) (calls : call ∈ message.toolCalls)
    (kind : entry.body = .message (.toolResult result)) (same : call.id = result.toolCallId) :
    Answered (entries ++ [entry]) := by
  intro front other back found split other_
  rcases concat_cases split with ⟨rfl, rfl, rfl⟩ | ⟨behind, rfl, inner⟩
  · rw [kind] at other_
    cases other_
    exact ⟨asked, member, message, body, call, calls, same⟩
  · exact answered front other behind found inner other_

private theorem Sound.take (sound : Sound entries) (n : ℕ) : Sound (entries.take n) where
  unique := (List.Sublist.map _ (List.take_sublist n entries)).nodup sound.unique
  answered := by
    intro front entry back result split body
    have whole := List.take_append_drop n entries
    rw [split, List.append_assoc, List.cons_append] at whole
    exact sound.answered front entry _ result whole.symm body
  cuts := by
    intro front entry back summary firstKeptEntryId tokensBefore details fromHook split kind
    have whole := List.take_append_drop n entries
    rw [split, List.append_assoc, List.cons_append] at whole
    exact sound.cuts front entry _ _ _ _ _ _ whole.symm kind

private theorem find?_id (unique : (entries.map (·.id)).Nodup) (found : entries[cut]? = some entry) :
    (List.range entries.length).find? (fun i => (entries[i]?).any fun other => other.id == entry.id) = some cut := by
  obtain ⟨bound, rfl⟩ := List.getElem?_eq_some_iff.mp found
  rw [List.find?_range_eq_some]
  refine ⟨by simp [found], List.mem_range.mpr bound, ?_⟩
  intro j before
  have other := List.pairwise_iff_getElem.mp unique j cut (by simpa using before.trans bound) (by simpa using bound) before
  rw [List.getElem_map, List.getElem_map] at other
  simp [before.trans bound, other]

/-- Where the previous compaction keeps the branch is a safe cut. -/
private theorem boundaryStart_safe (sound : Sound entries) : SafeCut entries (boundaryStart entries) := by
  unfold boundaryStart
  split
  · exact .inl rfl
  · next index found =>
    split
    · next summary firstKeptEntryId tokensBefore details fromHook read =>
      obtain ⟨entry, here, kind⟩ := Option.map_eq_some_iff.mp read
      obtain ⟨bound, rfl⟩ := List.getElem?_eq_some_iff.mp here
      have split : entries = entries.take index ++ entries[index] :: entries.drop (index + 1) := by
        rw [List.getElem_cons_drop, List.take_append_drop]
      obtain ⟨cut, kept, keeps, rfl, safe⟩ := sound.cuts _ _ _ _ _ _ _ _ split kind
      have inside := (List.getElem?_eq_some_iff.mp keeps).1
      have there : entries[cut]? = some kept := by
        rw [split, List.getElem?_append_left inside]
        exact keeps
      rw [find?_id sound.unique there, Option.getD_some]
      have longer : SafeCut (entries.take index ++ entries.drop index) cut := safe.append inside
      rwa [List.take_append_drop] at longer
    · exact .inl rfl

/-- A compaction cuts safely if the earlier ones have. -/
private theorem branchCut_safe (sound : Sound entries) (settings : CompactionSettings) :
    SafeCut entries (branchCut estimateTokens entries settings).firstKeptEntryIndex := by
  rcases branchCut_keptFrom estimateTokens entries settings with ⟨_, same⟩ | ⟨raw, cut, moves⟩
  · rw [same]
    exact boundaryStart_safe sound
  · obtain ⟨lower, upper, between⟩ := moves.1
    refine .inr ⟨raw, upper, cut.admits.2, ?_⟩
    intro j after before
    have clear := testAt_eq_false_iff.mp (between j after before)
    refine testAt_eq_false_iff.mpr fun entry found => ?_
    exact (Bool.or_eq_false_iff.mp (clear entry found)).2

theorem Grows.sound (grown : Grows estimateTokens entries) : Sound entries := by
  induction grown with
  | empty => exact ⟨List.nodup_nil, fun front _ _ _ split => by simp at split, fun front _ _ _ _ _ _ _ split => by simp at split⟩
  | append grown kind fresh answered ih =>
    refine ⟨unique_concat ih.unique fresh, answered, ih.cuts.concat ?_⟩
    intro summary firstKeptEntryId tokensBefore details fromHook body
    rw [body] at kind
    cases kind
  | compact grown prepared fresh ih =>
    refine ⟨unique_concat ih.unique fresh, ih.answered.concat nofun, ih.cuts.concat ?_⟩
    rintro summary firstKeptEntryId tokensBefore details fromHook same
    cases same
    unfold AgentCore.prepareCompactionWith at prepared
    split at prepared
    · cases prepared
    · obtain ⟨kept, found, _, rfl⟩ := prepareBranch_eq prepared
      exact ⟨_, kept, found, rfl, branchCut_safe ih _⟩
  | rewind n grown ih => exact ih.take n

end Invariant

section Kept

private theorem lastCompaction?_cases (entries : List SessionTreeEntry) :
    (lastCompaction? entries = none ∧ ∀ entry ∈ entries, entry.body.isCompaction = false) ∨
      ∃ front compaction back, entries = front ++ compaction :: back ∧ compaction.body.isCompaction = true ∧
        lastCompaction? entries = some compaction := by
  induction entries using List.reverseRecOn with
  | nil => exact .inl ⟨rfl, List.forall_mem_nil _⟩
  | append_singleton entries entry ih =>
    have step : lastCompaction? (entries ++ [entry]) =
        if entry.body.isCompaction then some entry else lastCompaction? entries := by simp [lastCompaction?]
    rw [step]
    cases kind : entry.body.isCompaction with
    | true => exact .inr ⟨entries, entry, [], rfl, kind, rfl⟩
    | false =>
      rw [if_neg Bool.false_ne_true]
      refine ih.imp (And.imp_right fun none_ => ?_) ?_
      · exact List.forall_mem_append.mpr ⟨none_, List.forall_mem_singleton.mpr kind⟩
      · rintro ⟨front, compaction, back, rfl, kind, last⟩
        exact ⟨front, compaction, back ++ [entry], by simp, kind, last⟩

/-- What is kept behind the last compaction. -/
private theorem keptMessages_eq (sound : Sound entries) :
    ∃ cut, SafeCut entries cut ∧ keptMessages entries = contextMessages (entries.drop cut) := by
  rcases lastCompaction?_cases entries with ⟨none_, _⟩ | ⟨front, ⟨id, parentId, timestamp, body⟩, back, rfl, kind, last⟩
  · refine ⟨0, .inl rfl, ?_⟩
    rw [keptMessages, none_, if_neg (by simp), buildSessionContext, none_]
    rfl
  · cases body with
    | compaction summary firstKeptEntryId tokensBefore details fromHook =>
      obtain ⟨cut, kept, found, rfl, safe⟩ := sound.cuts _ _ _ _ _ _ _ _ rfl rfl
      have inside := (List.getElem?_eq_some_iff.mp found).1
      refine ⟨cut, safe.append inside, ?_⟩
      have unique := sound.unique
      rw [List.map_append, List.nodup_append] at unique
      obtain ⟨own, _, apart⟩ := unique
      have absent : front.findIdx (fun entry => entry.body.isCompaction && entry.id == id) = front.length :=
        List.findIdx_eq_length.mpr fun entry member => by
          simp [apart entry.id (List.mem_map_of_mem member) id (by simp)]
      have position : (front ++ ⟨id, parentId, timestamp, .compaction summary kept.id tokensBefore details fromHook⟩ ::
          back).findIdx (fun entry => entry.body.isCompaction && entry.id == id) = front.length := by
        rw [List.findIdx_append, absent, if_neg (lt_irrefl _), List.findIdx_cons]
        simp [EntryBody.isCompaction]
      rw [keptMessages, last, if_pos Option.isSome_some, buildSessionContext, last]
      dsimp only
      rw [position, List.take_left' rfl, fromFirstKept_eq_drop own found, List.drop_append_of_le_length inside.le,
        List.cons_append, List.tail_cons, ← List.drop_drop, List.drop_left' rfl, List.drop_one, List.tail_cons]
      unfold contextMessages
      rw [List.filterMap_append]
      rfl
    | _ => cases kind

/-- In every session that grows, the messages kept after compaction do not begin with a tool result, if none stands
directly behind a branch summary without text. -/
theorem kept_begins (grown : Grows estimateTokens entries) (spoken : Spoken entries) :
    ¬ OpensWithResult (keptMessages entries) := by
  obtain ⟨cut, safe, kept⟩ := keptMessages_eq grown.sound
  rw [kept]
  exact safe.opening grown.sound.answered spoken

end Kept

section Sample

private def sampleTime : JsString := js "2026-01-01T12:00:00.000Z"

private def sampleEntry (id : String) (body : EntryBody) : SessionTreeEntry := ⟨js id, none, sampleTime, body⟩

private def question : SessionTreeEntry := sampleEntry "a" (.message (.user ⟨.plain (js "list"), .millis 0⟩))

private def asking : AssistantMessage where
  content := [.toolCall ⟨js "c", js "ls", .obj [], none⟩]
  api := js "api"
  provider := js "provider"
  model := js "model"
  usage := ⟨1, 1, 0, 0, 2⟩
  stopReason := .toolUse
  timestamp := .millis 0

private def asked : SessionTreeEntry := sampleEntry "b" (.message (.assistant asking))

private def silentSummary : SessionTreeEntry := sampleEntry "d" (.branchSummary (js "b") [] none false)

private def sampleResult : ToolResultMessage := ⟨js "c", js "ls", [], none, false, .millis 0⟩

private def answer : SessionTreeEntry := sampleEntry "e" (.message (.toolResult sampleResult))

private def keepAll : CompactionSettings := { enabled := true, reserveTokens := 16384, keepRecentTokens := ⊤ }

private theorem answered_asked : Answered [question, asked] :=
  Answered.concat (Answered.concat (fun front _ _ _ split => by simp at split) nofun : Answered ([] ++ [question])) nofun

private theorem grows_asked : Grows AgentCore.estimateTokens [question, asked] :=
  have first : Grows AgentCore.estimateTokens ([] ++ [question]) :=
    .append .empty rfl (List.forall_mem_nil _) (Answered.concat (fun front _ _ _ split => by simp at split) nofun)
  .append first rfl (by decide) answered_asked

private theorem compacted (entries : List SessionTreeEntry) (grown : Grows AgentCore.estimateTokens entries)
    {preparation : CompactionPreparation}
    (prepared : AgentCore.prepareCompactionWith AgentCore.estimateTokens entries keepAll = .prepared preparation)
    (fresh : ∀ other ∈ entries, other.id ≠ js "f") :
    Grows AgentCore.estimateTokens (entries ++ [compactionEntry (js "f") none sampleTime (js "s")
      preparation.firstKeptEntryId preparation.tokensBefore none false]) :=
  .compact grown prepared fresh

private def followUp : SessionTreeEntry := sampleEntry "g" (.message (.user ⟨.plain (js "next"), .millis 0⟩))

/-- The answered call is summarized, and the next question is kept. -/
theorem kept_begins_question : ∃ entries, Grows AgentCore.estimateTokens entries ∧
    keptMessages entries = [.user ⟨.plain (js "next"), .millis 0⟩] ∧ ¬ OpensWithResult (keptMessages entries) := by
  have answered : Answered ([question, asked] ++ [answer]) :=
    (answered_asked).concat_result (List.mem_cons_of_mem _ List.mem_cons_self) rfl (List.mem_singleton_self _) rfl rfl
  have told : Grows AgentCore.estimateTokens ([question, asked] ++ [answer]) :=
    .append grows_asked rfl (by decide) answered
  have grown : Grows AgentCore.estimateTokens ([question, asked] ++ [answer] ++ [followUp]) :=
    .append told rfl (by decide) (answered.concat nofun)
  obtain ⟨preparation, prepared, kept⟩ : ∃ preparation, AgentCore.prepareCompactionWith AgentCore.estimateTokens
      ([question, asked] ++ [answer] ++ [followUp]) keepAll = .prepared preparation ∧
        preparation.firstKeptEntryId = js "g" :=
    ⟨_, rfl, by decide⟩
  have all := compacted _ grown prepared (by decide)
  rw [kept] at all
  refine ⟨_, all, rfl, kept_begins all ?_⟩
  intro i silent
  obtain ⟨entry, found, empty⟩ := (Option.any_eq_true _ _).mp silent
  have listed := List.mem_of_getElem? found
  simp only [List.cons_append, List.nil_append, List.mem_cons, List.not_mem_nil, or_false] at listed
  rcases listed with rfl | rfl | rfl | rfl | rfl <;> cases empty

/-- The question and the call are summarized, and what is kept begins with the answer to the call. -/
theorem kept_begins_with_result : ∃ entries, Grows AgentCore.estimateTokens entries ∧
    keptMessages entries = [.toolResult sampleResult] := by
  have answered : Answered ([question, asked] ++ [silentSummary]) := (answered_asked).concat nofun
  have summarized : Grows AgentCore.estimateTokens ([question, asked] ++ [silentSummary]) :=
    .append grows_asked rfl (by decide) answered
  have calls : asked ∈ [question, asked] ++ [silentSummary] := by decide
  have grown : Grows AgentCore.estimateTokens ([question, asked] ++ [silentSummary] ++ [answer]) :=
    .append summarized rfl (by decide) (answered.concat_result calls rfl (List.mem_singleton_self _) rfl rfl)
  obtain ⟨preparation, prepared, kept⟩ : ∃ preparation, AgentCore.prepareCompactionWith AgentCore.estimateTokens
      ([question, asked] ++ [silentSummary] ++ [answer]) keepAll = .prepared preparation ∧
        preparation.firstKeptEntryId = js "d" :=
    ⟨_, rfl, by decide⟩
  have all := compacted _ grown prepared (by decide)
  rw [kept] at all
  exact ⟨_, all, rfl⟩

end Sample

end PieAgent.Soundness.KeptSuffix
