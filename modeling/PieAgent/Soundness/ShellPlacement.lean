import Mathlib.Data.List.Nodup
import PieAgent.Machine.Core.Labeled
import PieAgent.Model.Session.ShellResults

/-! # Where the results of shell commands end up

Each result is once in the session and once among the messages of the agent, and never between a tool call and its
result. A failed answer is removed for its retry as long as no result is recorded while the compaction before the retry
is under way: the messages are built anew from the session, which has the answer, and only the last message is looked at.
-/

namespace PieAgent.Soundness.ShellPlacement

open JavaScript Machine Model.ShellResults Model.ShellResults.ShellSession
open Model (AgentMessage AssistantMessage BashExecutionMessage CompactionSummaryMessage)

/-- The serial numbers of some messages. -/
def serials (messages : List Item) : List ℕ := messages.map (·.serial)

/-- No result of a shell command stands between a tool call and its result. -/
def Legal (messages : List Item) : Prop :=
  ∀ before (shell : Item) front (result : Item) message, before ++ shell :: (front ++ [result]) <+: messages →
    shell.isShell = true → result.message = .toolResult message →
    (∃ answer ∈ before, answer.calls message.toolCallId = true) → ∃ answer ∈ front, answer.calls message.toolCallId = true

/-- The entry is a compaction. -/
def IsCompaction (entry : Entry) : Prop := entry.item? = none

/-- A message stands in front of a compaction. -/
def Compacted (branch : List Entry) (n : ℕ) : Prop :=
  ∃ front back, branch = front ++ back ∧ n ∈ serials (items front) ∧ ∃ entry ∈ back, IsCompaction entry

/-- A result is kept back, or it is once in the session and once among the messages, unless it was compacted. -/
def PlacedOnce (st : ShellSession) (n : ℕ) : Prop :=
  (serials (items st.branch) ++ serials st.pendingBashMessages).count n = 1 ∧
    (Compacted st.branch n ∧ n ∉ serials st.messages ∨
      (serials st.messages ++ serials st.pendingBashMessages).count n = 1)

/-- What should hold of every state. -/
structure Placed (st : ShellSession) : Prop where
  once : ∀ n ∈ st.recorded, PlacedOnce st n
  flushed : st.phase = .idle → st.pendingBashMessages = []
  legal : Legal st.messages
  legalBranch : Legal (items st.branch)
  removed : ∀ emitted n, st.phase = .running emitted → st.retried = some n → n ∉ serials st.messages

/-- No result is recorded while the compaction before a retry of a failed answer is under way, and when such a compaction
comes before a prompt, the failed answer is the leaf of the session. -/
def Undisturbed (st : ShellSession) : ShellEvent → Prop
  | .shell _ => st.phase ∈ [.compacting true, .compacted true] → st.retried = none
  | .checkBeforePrompt true => ∀ answer, st.messages.findRev? Item.isAssistant = some answer → answer.failed = true →
    st.branch.getLast? = some (.message answer)
  | _ => True

/-- A session that is new or was read from its file, between two prompts. -/
structure Resumed (st : ShellSession) : Prop where
  phase : st.phase = .idle
  pending : st.pendingBashMessages = []
  retried : st.retried = none
  recorded : st.recorded = []
  messages : st.messages = buildSessionContext st.branch
  distinct : (st.branch.map Entry.serial).Nodup
  below : ∀ n ∈ st.branch.map Entry.serial, n < st.nextSerial
  legal : Legal (items st.branch)

section Lists

variable {messages more : List Item} {branch : List Entry} {item : Item} {entry : Entry}

@[simp] private theorem items_append (front back : List Entry) : items (front ++ back) = items front ++ items back :=
  List.filterMap_append ..

@[simp] private theorem items_map (added : List Item) : items (added.map .message) = added := by
  rw [items, List.filterMap_map]
  exact List.filterMap_some

@[simp] private theorem items_message (item : Item) : items [.message item] = [item] := rfl

@[simp] private theorem serials_append (front back : List Item) :
    serials (front ++ back) = serials front ++ serials back :=
  List.map_append ..

private theorem Legal.of_prefix (legal : Legal messages) (sub : more <+: messages) : Legal more :=
  fun before shell front result message here => legal before shell front result message (here.trans sub)

/-- A suffix has the same order. -/
private theorem Legal.of_suffix (legal : Legal messages) (sub : more <:+ messages) : Legal more := by
  obtain ⟨earlier, rfl⟩ := sub
  rintro before shell front result message ⟨rest, rfl⟩ isShell isResult ⟨answer, listed, called⟩
  refine legal (earlier ++ before) shell front result message ⟨rest, by simp⟩ isShell isResult
    ⟨answer, List.mem_append_right _ listed, called⟩

private theorem calls_of_not_assistant (other : item.isAssistant = false) (id : JsString) : item.calls id = false := by
  rw [Item.isAssistant] at other
  rw [Item.calls]
  split at other <;> simp_all

private theorem legal_cons (legal : Legal messages) (plain : item.isShell = false) (other : item.isAssistant = false) :
    Legal (item :: messages) := by
  rintro before shell front result message ⟨rest, same⟩ isShell isResult ⟨answer, listed, called⟩
  cases before with
  | nil =>
    obtain ⟨rfl, -⟩ := List.cons.inj same
    exact absurd (isShell.symm.trans plain) (by decide)
  | cons first before =>
    obtain ⟨rfl, same'⟩ := List.cons.inj same
    refine legal before shell front result message ⟨rest, same'⟩ isShell isResult ⟨answer, ?_, called⟩
    rcases List.mem_cons.mp listed with rfl | later
    · exact absurd (called.symm.trans (calls_of_not_assistant other _)) (by decide)
    · exact later

/-- A message may be appended unless it is a tool result that is cut off from its call. -/
private theorem legal_concat (legal : Legal messages)
    (fits : ∀ message, item.message = .toolResult message → ∀ before (shell : Item) front,
      messages = before ++ shell :: front → shell.isShell = true →
        ∃ answer ∈ front, answer.calls message.toolCallId = true) :
    Legal (messages ++ [item]) := by
  rintro before shell front result message ⟨rest, same⟩ isShell isResult called
  rcases List.eq_nil_or_concat rest with rfl | ⟨init, last, rfl⟩
  · rw [List.append_nil, ← List.cons_append, ← List.append_assoc] at same
    obtain ⟨same', alone⟩ := List.append_inj' same rfl
    obtain rfl := List.singleton_inj.mp alone
    exact fits message isResult before shell front same'.symm isShell
  · rw [List.concat_eq_append, ← List.append_assoc] at same
    obtain ⟨same', -⟩ := List.append_inj' same rfl
    exact legal before shell front result message ⟨init, same'⟩ isShell isResult called

private theorem legal_shell (legal : Legal messages) (isShell : item.isShell = true) : Legal (messages ++ [item]) := by
  refine legal_concat legal fun message isResult => ?_
  rw [Item.isShell, isResult] at isShell
  cases isShell

private theorem legal_shells (legal : Legal messages) (added : List Item) (shells : ∀ item ∈ added, item.isShell = true) :
    Legal (messages ++ added) := by
  induction added generalizing messages with
  | nil => rwa [List.append_nil]
  | cons item added ih =>
    obtain ⟨isShell, shells⟩ := List.forall_mem_cons.mp shells
    rw [List.append_cons]
    exact ih (legal_shell legal isShell) shells

private theorem lastCompaction?_concat (branch : List Entry) (serial : ℕ) (summary : CompactionSummaryMessage)
    (firstKept : ℕ) : lastCompaction? (branch ++ [Entry.compaction serial summary firstKept]) =
      some (branch, (serial, summary, firstKept), []) := by
  induction branch with
  | nil => rfl
  | cons entry rest ih => simp only [List.cons_append, lastCompaction?, ih]

private theorem split_of_lastCompaction? {before after : List Entry} {serial : ℕ} {summary : CompactionSummaryMessage}
    {firstKept : ℕ} (last : lastCompaction? branch = some (before, (serial, summary, firstKept), after)) :
    branch = before ++ .compaction serial summary firstKept :: after := by
  induction branch generalizing before with
  | nil => cases last
  | cons entry rest ih =>
    simp only [lastCompaction?] at last
    split at last
    · next behind =>
      cases last
      exact congrArg (_ :: ·) (ih behind)
    · cases last
      rfl
    · cases last

private theorem suffix_append_right {α : Type} {first second : List α} (sub : first <:+ second) (more : List α) :
    first ++ more <:+ second ++ more := by
  obtain ⟨front, rfl⟩ := sub
  exact ⟨front, (List.append_assoc ..).symm⟩

private theorem dropLastIf_shorter (kind : Item → Bool) (messages : List Item) :
    dropLastIf kind messages <+: messages := by
  rw [dropLastIf]
  split
  · exact List.dropLast_prefix messages
  · exact List.prefix_refl messages

end Lists

section Kept

/-- What every step keeps of the messages, the branch and the results that are kept back. -/
private structure Kept (messages : List Item) (branch : List Entry) (pending : List Item) (next : ℕ) (recorded : List ℕ) :
    Prop where
  below : ∀ n ∈ serials messages, n < next
  belowBranch : ∀ n ∈ branch.map Entry.serial, n < next
  belowPending : ∀ n ∈ serials pending, n < next
  once : (serials messages ++ serials pending).Nodup
  onceBranch : (branch.map Entry.serial ++ serials pending).Nodup
  shells : ∀ item ∈ pending, item.isShell = true
  recorded : ∀ n ∈ recorded, ∃ item : Item, item.serial = n ∧ item.isShell = true ∧ (item ∈ items branch ∨ item ∈ pending)
  shown : ∀ item ∈ items branch, item.isShell = true → item ∈ messages ∨ Compacted branch item.serial
  legal : Legal messages
  legalBranch : Legal (items branch)

variable {messages more pending : List Item} {branch : List Entry} {next : ℕ} {recorded : List ℕ} {item : Item}

private theorem Compacted.append {n : ℕ} (compacted : Compacted branch n) (added : List Entry) :
    Compacted (branch ++ added) n := by
  obtain ⟨front, back, rfl, listed, entry, inside, isCompaction⟩ := compacted
  exact ⟨front, back ++ added, List.append_assoc .., listed, entry, List.mem_append_left _ inside, isCompaction⟩

private theorem nodup_concat {l : List ℕ} (distinct : l.Nodup) (below : ∀ n ∈ l, n < next) : (l ++ [next]).Nodup := by
  refine List.nodup_append.mpr ⟨distinct, by simp, fun n listed m last => ?_⟩
  rw [List.mem_singleton.mp last]
  exact (below n listed).ne

private theorem below_concat {l : List ℕ} (below : ∀ n ∈ l, n < next) : ∀ n ∈ l ++ [next], n < next + 1 := by
  intro n listed
  rcases List.mem_append.mp listed with before | last
  · exact Nat.lt_succ_of_lt (below n before)
  · rw [List.mem_singleton.mp last]
    exact Nat.lt_succ_self next

/-- A new number may stand in front of those that are kept back. -/
private theorem nodup_insert {front back : List ℕ} (distinct : (front ++ back).Nodup)
    (below : ∀ n ∈ front ++ back, n < next) : (front ++ [next] ++ back).Nodup := by
  refine (List.Perm.nodup_iff ?_).mp (nodup_concat distinct below)
  rw [List.append_assoc, List.append_assoc]
  exact List.Perm.append_left _ List.perm_append_comm

private theorem Kept.all (kept : Kept messages branch pending next recorded) :
    ∀ n ∈ serials messages ++ serials pending, n < next := fun n listed =>
  (List.mem_append.mp listed).elim (kept.below n) (kept.belowPending n)

private theorem Kept.allBranch (kept : Kept messages branch pending next recorded) :
    ∀ n ∈ branch.map Entry.serial ++ serials pending, n < next := fun n listed =>
  (List.mem_append.mp listed).elim (kept.belowBranch n) (kept.belowPending n)

/-- A new message goes behind the messages and behind the leaf. -/
private theorem Kept.both {message : AgentMessage} (kept : Kept messages branch pending next recorded)
    (legal : Legal (messages ++ [⟨next, message⟩])) (legalBranch : Legal (items branch ++ [⟨next, message⟩])) :
    Kept (messages ++ [⟨next, message⟩]) (branch ++ [Entry.message ⟨next, message⟩]) pending (next + 1) recorded where
  below := by simpa [serials] using below_concat kept.below
  belowBranch := by simpa [Entry.serial] using below_concat kept.belowBranch
  belowPending n listed := Nat.lt_succ_of_lt (kept.belowPending n listed)
  once := by
    rw [serials_append]
    exact nodup_insert kept.once kept.all
  onceBranch := by
    rw [List.map_append]
    exact nodup_insert kept.onceBranch kept.allBranch
  shells := kept.shells
  recorded n listed := by
    obtain ⟨item, same, isShell, placed⟩ := kept.recorded n listed
    refine ⟨item, same, isShell, placed.imp_left fun inside => ?_⟩
    rw [items_append]
    exact List.mem_append_left _ inside
  shown item listed isShell := by
    rw [items_append, items_message] at listed
    rcases List.mem_append.mp listed with before | last
    · exact (kept.shown item before isShell).imp (List.mem_append_left _) (·.append _)
    · exact .inl (List.mem_append_right _ last)
  legal := legal
  legalBranch := by rwa [items_append, items_message]

/-- The number of a message in the branch is recorded. -/
private theorem Kept.record (kept : Kept messages branch pending next recorded) (isShell : item.isShell = true)
    (placed : item ∈ items branch ∨ item ∈ pending) : Kept messages branch pending next (recorded ++ [item.serial]) :=
  { kept with
    recorded := fun n listed => by
      rcases List.mem_append.mp listed with before | last
      · exact kept.recorded n before
      · exact ⟨item, (List.mem_singleton.mp last).symm, isShell, placed⟩ }

private theorem Kept.shell (kept : Kept messages branch pending next recorded) (result : BashExecutionMessage) :
    Kept (messages ++ [⟨next, .bashExecution result⟩]) (branch ++ [Entry.message ⟨next, .bashExecution result⟩]) pending
      (next + 1) (recorded ++ [next]) := by
  have isShell : Item.isShell ⟨next, .bashExecution result⟩ = true := rfl
  refine (kept.both (legal_shell kept.legal isShell) (legal_shell kept.legalBranch isShell)).record isShell (.inl ?_)
  rw [items_append]
  exact List.mem_append_right _ (List.mem_singleton_self _)

private theorem Kept.defer (kept : Kept messages branch pending next recorded) (result : BashExecutionMessage) :
    Kept messages branch (pending ++ [⟨next, .bashExecution result⟩]) (next + 1) (recorded ++ [next]) := by
  have isShell : Item.isShell ⟨next, .bashExecution result⟩ = true := rfl
  have deferred : Kept messages branch (pending ++ [⟨next, .bashExecution result⟩]) (next + 1) recorded := {
    below := fun n listed => Nat.lt_succ_of_lt (kept.below n listed)
    belowBranch := fun n listed => Nat.lt_succ_of_lt (kept.belowBranch n listed)
    belowPending := by simpa [serials] using below_concat kept.belowPending
    once := by
      rw [serials_append, ← List.append_assoc]
      exact nodup_concat kept.once kept.all
    onceBranch := by
      rw [serials_append, ← List.append_assoc]
      exact nodup_concat kept.onceBranch kept.allBranch
    shells := List.forall_mem_append.mpr ⟨kept.shells, List.forall_mem_singleton.mpr isShell⟩
    recorded := fun n listed => by
      obtain ⟨item, same, isShell, placed⟩ := kept.recorded n listed
      exact ⟨item, same, isShell, placed.imp_right (List.mem_append_left _)⟩
    shown := kept.shown
    legal := kept.legal
    legalBranch := kept.legalBranch }
  exact deferred.record isShell (.inr (List.mem_append_right _ (List.mem_singleton_self _)))

private theorem Kept.flush (kept : Kept messages branch pending next recorded) :
    Kept (messages ++ pending) (branch ++ pending.map .message) [] next recorded where
  below n listed := by
    rw [serials_append] at listed
    exact kept.all n listed
  belowBranch n listed := by
    rw [List.map_append, List.map_map] at listed
    exact kept.allBranch n listed
  belowPending := by simp [serials]
  once := by
    rw [serials_append, show serials [] = [] from rfl, List.append_nil]
    exact kept.once
  onceBranch := by
    rw [List.map_append, List.map_map, show serials [] = [] from rfl, List.append_nil]
    exact kept.onceBranch
  shells := by simp
  recorded n listed := by
    obtain ⟨item, same, isShell, placed⟩ := kept.recorded n listed
    refine ⟨item, same, isShell, .inl ?_⟩
    rw [items_append, items_map]
    exact List.mem_append.mpr placed
  shown item listed isShell := by
    rw [items_append, items_map] at listed
    rcases List.mem_append.mp listed with before | last
    · exact (kept.shown item before isShell).imp (List.mem_append_left _) (·.append _)
    · exact .inl (List.mem_append_right _ last)
  legal := legal_shells kept.legal pending kept.shells
  legalBranch := by
    rw [items_append, items_map]
    exact legal_shells kept.legalBranch pending kept.shells

/-- The last messages are taken away, but no results. -/
private theorem Kept.shorten (kept : Kept messages branch pending next recorded) (sub : more <+: messages)
    (shells : ∀ item ∈ messages, item.isShell = true → item ∈ more) : Kept more branch pending next recorded :=
  { kept with
    below := fun n listed => kept.below n ((sub.sublist.map _).subset listed)
    once := kept.once.sublist ((sub.sublist.map _).append_right _)
    shown := fun item listed isShell =>
      (kept.shown item listed isShell).imp_left fun inside => shells item inside isShell
    legal := kept.legal.of_prefix sub }

private theorem not_shell_of_failed (failed : item.failed = true) : item.isShell = false := by
  rw [Item.failed] at failed
  rw [Item.isShell]
  split at failed
  · next same => rw [same]
  · cases failed

private theorem not_shell_of_assistant (assistant : item.isAssistant = true) : item.isShell = false := by
  rw [Item.isAssistant] at assistant
  rw [Item.isShell]
  split at assistant
  · next same => rw [same]
  · cases assistant

/-- A message that is no result leaves the end of the branch. -/
private theorem Kept.leave (kept : Kept messages (branch ++ [Entry.message item]) pending next recorded)
    (other : item.isShell = false) : Kept messages branch pending next recorded :=
  { kept with
    belowBranch := fun n listed => kept.belowBranch n (by rw [List.map_append]; exact List.mem_append_left _ listed)
    onceBranch := by
      refine kept.onceBranch.sublist ?_
      rw [List.map_append]
      exact (List.sublist_append_left ..).append_right _
    recorded := fun n listed => by
      obtain ⟨known, same, isShell, placed⟩ := kept.recorded n listed
      refine ⟨known, same, isShell, placed.imp_left fun inside => ?_⟩
      rw [items_append, items_message] at inside
      refine (List.mem_append.mp inside).resolve_right fun last => ?_
      rw [List.mem_singleton.mp last, other] at isShell
      cases isShell
    shown := fun known listed isShell => by
      have inside : known ∈ items (branch ++ [Entry.message item]) := by
        rw [items_append]
        exact List.mem_append_left _ listed
      refine (kept.shown known inside isShell).imp_right ?_
      rintro ⟨front, back, same, before, entry, behind, isCompaction⟩
      rcases List.eq_nil_or_concat back with rfl | ⟨init, last, rfl⟩
      · exact absurd behind List.not_mem_nil
      · rw [List.concat_eq_append] at same behind
        rw [← List.append_assoc] at same
        obtain ⟨rfl, alone⟩ := List.append_inj' same rfl
        obtain rfl := List.singleton_inj.mp alone
        refine ⟨front, init, rfl, before, entry, (List.mem_append.mp behind).resolve_right fun end_ => ?_, isCompaction⟩
        rw [List.mem_singleton.mp end_] at isCompaction
        cases isCompaction
    legalBranch := by
      have legal := kept.legalBranch
      rw [items_append] at legal
      exact legal.of_prefix (List.prefix_append ..) }

private theorem rewindBranch_cases (branch : List Entry) : rewindBranch branch = branch ∨
    ∃ item : Item, item.failed = true ∧ branch = rewindBranch branch ++ [Entry.message item] := by
  rcases List.eq_nil_or_concat branch with rfl | ⟨init, entry, rfl⟩
  · exact .inl rfl
  · rw [List.concat_eq_append, rewindBranch, List.getLast?_concat]
    cases entry with
    | compaction => exact .inl rfl
    | message item =>
      by_cases failed : item.failed = true
      · simp only [if_pos failed, List.dropLast_concat]
        exact .inr ⟨item, failed, rfl⟩
      · simp only [if_neg failed]
        exact .inl trivial

private theorem Kept.rewind (kept : Kept messages branch pending next recorded) :
    Kept (messages.rdropWhile Item.failed) (rewindBranch branch) pending next recorded := by
  have shortened : Kept (messages.rdropWhile Item.failed) branch pending next recorded := by
    refine kept.shorten (List.rdropWhile_prefix ..) fun item listed isShell => ?_
    have whole : messages.rdropWhile Item.failed ++ messages.rtakeWhile Item.failed = messages :=
      List.rdropWhile_append_rtakeWhile
    rw [← whole] at listed
    refine (List.mem_append.mp listed).resolve_right fun taken => ?_
    rw [not_shell_of_failed (List.mem_rtakeWhile_imp taken)] at isShell
    cases isShell
  rcases rewindBranch_cases branch with same | ⟨item, failed, same⟩
  · rwa [same]
  · rw [same] at shortened
    exact shortened.leave (not_shell_of_failed failed)

private theorem Kept.dropLastIf (kept : Kept messages branch pending next recorded) {kind : Item → Bool}
    (other : ∀ item, kind item = true → item.isShell = false) :
    Kept (dropLastIf kind messages) branch pending next recorded := by
  refine kept.shorten (dropLastIf_shorter ..) fun item listed isShell => ?_
  rw [ShellSession.dropLastIf]
  split
  · next dropped =>
    rcases List.eq_nil_or_concat messages with rfl | ⟨init, last, rfl⟩
    · exact absurd listed List.not_mem_nil
    · rw [List.concat_eq_append] at listed dropped ⊢
      rw [List.getLast?_concat, Option.any_some] at dropped
      rw [List.dropLast_concat]
      refine (List.mem_append.mp listed).resolve_right fun end_ => ?_
      rw [List.mem_singleton.mp end_, other last dropped] at isShell
      cases isShell
  · exact listed

private theorem serials_items_sublist (entries : List Entry) :
    (serials (items entries)).Sublist (entries.map Entry.serial) := by
  induction entries with
  | nil => exact .slnil
  | cons entry rest ih =>
    cases entry with
    | message item => exact ih.cons_cons _
    | compaction => exact ih.cons _

private theorem buildSessionContext_concat (summary : CompactionSummaryMessage) (firstKept : ℕ) :
    buildSessionContext (branch ++ [Entry.compaction next summary firstKept]) =
      ⟨next, .compactionSummary summary⟩ :: items (branch.dropWhile (·.serial ≠ firstKept)) := by
  rw [buildSessionContext, lastCompaction?_concat]
  exact List.append_nil _

private theorem Kept.compact (kept : Kept messages branch pending next recorded) (summary : CompactionSummaryMessage)
    (firstKept : ℕ) : Kept (buildSessionContext (branch ++ [Entry.compaction next summary firstKept]))
      (branch ++ [Entry.compaction next summary firstKept]) pending (next + 1) recorded := by
  have suffix : items (branch.dropWhile (·.serial ≠ firstKept)) <:+ items branch :=
    (List.dropWhile_suffix _).filterMap _
  have inside : (serials (items (branch.dropWhile (·.serial ≠ firstKept)))).Sublist (branch.map Entry.serial) :=
    (suffix.sublist.map _).trans (serials_items_sublist branch)
  rw [buildSessionContext_concat]
  constructor
  case below =>
    intro n listed
    rcases List.mem_cons.mp listed with rfl | later
    · exact Nat.lt_succ_self _
    · exact Nat.lt_succ_of_lt (kept.belowBranch n (inside.subset later))
  case belowBranch => simpa [Entry.serial] using below_concat kept.belowBranch
  case belowPending => exact fun n listed => Nat.lt_succ_of_lt (kept.belowPending n listed)
  case once =>
    refine List.nodup_cons.mpr ⟨fun listed => ?_, kept.onceBranch.sublist (inside.append_right _)⟩
    rcases List.mem_append.mp listed with before | last
    · exact absurd (kept.belowBranch _ (inside.subset before)) (lt_irrefl next)
    · exact absurd (kept.belowPending _ last) (lt_irrefl next)
  case onceBranch =>
    rw [List.map_append]
    exact nodup_insert kept.onceBranch kept.allBranch
  case shells => exact kept.shells
  case recorded =>
    intro n listed
    obtain ⟨item, same, isShell, placed⟩ := kept.recorded n listed
    refine ⟨item, same, isShell, placed.imp_left fun known => ?_⟩
    rw [items_append]
    exact List.mem_append_left _ known
  case shown =>
    intro item listed _
    rw [items_append] at listed
    have known := (List.mem_append.mp listed).resolve_right List.not_mem_nil
    exact .inr ⟨branch, _, rfl, List.mem_map_of_mem known, _, List.mem_singleton_self _, rfl⟩
  case legal => exact legal_cons (kept.legalBranch.of_suffix suffix) rfl rfl
  case legalBranch =>
    have same : items (branch ++ [Entry.compaction next summary firstKept]) = items branch := by
      rw [items_append]
      exact List.append_nil _
    rw [same]
    exact kept.legalBranch

private theorem kept_buildSessionContext (distinct : (branch.map Entry.serial).Nodup)
    (below : ∀ n ∈ branch.map Entry.serial, n < next) (legal : Legal (items branch)) :
    Kept (buildSessionContext branch) branch [] next [] := by
  have empty (l : List ℕ) : l ++ serials [] = l := List.append_nil l
  rw [buildSessionContext]
  split
  · refine ⟨?_, below, List.forall_mem_nil _, ?_, ?_, List.forall_mem_nil _, List.forall_mem_nil _,
      fun item listed _ => .inl listed, legal, legal⟩
    · exact fun n listed => below n ((serials_items_sublist branch).subset listed)
    · rw [empty]
      exact distinct.sublist (serials_items_sublist branch)
    · rwa [empty]
  · next before serial summary firstKept after last =>
    obtain rfl := split_of_lastCompaction? last
    have all : items (before ++ .compaction serial summary firstKept :: after) = items before ++ items after :=
      items_append ..
    have suffix : items (before.dropWhile (·.serial ≠ firstKept)) <:+ items before :=
      (List.dropWhile_suffix _).filterMap _
    have inside : (serials (items (before.dropWhile (·.serial ≠ firstKept)) ++ items after)).Sublist
        (before.map Entry.serial ++ after.map Entry.serial) := by
      rw [serials_append]
      exact ((suffix.sublist.map _).trans (serials_items_sublist before)).append (serials_items_sublist after)
    have numbers : ((before ++ .compaction serial summary firstKept :: after).map Entry.serial).Perm
        (serial :: (before.map Entry.serial ++ after.map Entry.serial)) := by
      rw [List.map_append]
      exact List.perm_middle
    refine ⟨?_, below, List.forall_mem_nil _, ?_, ?_, List.forall_mem_nil _, List.forall_mem_nil _,
      fun item listed _ => ?_, ?_, legal⟩
    · intro n listed
      refine below n (numbers.symm.subset ?_)
      exact (inside.cons_cons serial).subset listed
    · rw [empty]
      exact (numbers.nodup_iff.mp distinct).sublist (inside.cons_cons serial)
    · rwa [empty]
    · rw [all] at listed
      rcases List.mem_append.mp listed with early | late
      · exact .inr ⟨before, _, rfl, List.mem_map_of_mem early, _, List.mem_cons_self, rfl⟩
      · exact .inl (List.mem_append_right _ late)
    · refine legal_cons ?_ rfl rfl
      rw [all] at legal
      exact legal.of_suffix (suffix_append_right suffix _)

end Kept

section Steps

variable {st next : ShellSession} {emitted : List Item} {event : ShellEvent}

/-- What a phase adds: what the run has emitted stands at the end, and the failed answer that is retried is removed or
will be. -/
private def InPhase (st : ShellSession) : Phase → Prop
  | .idle => st.pendingBashMessages = [] ∧ st.retried = none
  | .running emitted => (emitted <:+ st.messages ∧ emitted.map .message <:+ st.branch ∧
      ∀ item ∈ emitted, item.isShell = false) ∧ ∀ n, st.retried = some n → n ∉ serials st.messages
  | .waiting => ∀ n, st.retried = some n → n ∉ serials st.messages
  | .compacting true => ∀ n, st.retried = some n →
      ∃ answer : Item, answer.serial = n ∧ answer.failed = true ∧ st.branch.getLast? = some (.message answer)
  | .compacted true => ∀ n, st.retried = some n → n ∉ serials (dropLastIf Item.failed st.messages)
  | .compacting false | .compacted false => st.retried = none

private structure Sound (st : ShellSession) : Prop where
  kept : Kept st.messages st.branch st.pendingBashMessages st.nextSerial st.recorded
  phase : InPhase st st.phase
  /-- The number of a failed answer is not new. -/
  known : ∀ n, st.retried = some n → n < st.nextSerial

private theorem Sound.endPrompt (sound : Sound st) : Sound st.endPrompt where
  kept := sound.kept.flush
  phase := ⟨rfl, rfl⟩
  known := nofun

private theorem sound_prompt (sound : Sound st) :
    Sound { st.flushPendingBashMessages with phase := .running [], retried := none } where
  kept := sound.kept.flush
  phase := ⟨⟨List.nil_suffix, List.nil_suffix, by simp⟩, nofun⟩
  known := nofun

private theorem Sound.not_mem_concat (sound : Sound st) (message : AgentMessage)
    (removed : ∀ n, st.retried = some n → n ∉ serials st.messages) (n : ℕ) (retried : st.retried = some n) :
    n ∉ serials (st.messages ++ [⟨st.nextSerial, message⟩]) := by
  rw [serials_append]
  intro listed
  rcases List.mem_append.mp listed with before | last
  · exact removed n retried before
  · exact absurd (List.mem_singleton.mp last) (sound.known n retried).ne

private theorem sound_shell (sound : Sound st) (result : BashExecutionMessage)
    (undisturbed : Undisturbed st (.shell result)) : Sound (st.recordBashResult result) := by
  have phase := sound.phase
  have known : ∀ n, st.retried = some n → n < st.nextSerial + 1 := fun n retried =>
    Nat.lt_succ_of_lt (sound.known n retried)
  rw [recordBashResult]
  split
  · next streaming =>
    refine ⟨sound.kept.defer result, ?_, known⟩
    cases position : st.phase with
    | running emitted =>
      rw [position] at phase
      exact phase
    | _ =>
      rw [position] at streaming
      cases streaming
  · next quiet =>
    refine ⟨sound.kept.shell result, ?_, known⟩
    cases position : st.phase with
    | running emitted =>
      rw [position] at quiet
      exact absurd rfl quiet
    | idle =>
      rw [position] at phase
      exact phase
    | waiting =>
      rw [position] at phase
      exact sound.not_mem_concat _ phase
    | compacting willRetry =>
      rw [position] at phase
      cases willRetry with
      | false => exact phase
      | true =>
        have none_ : st.retried = none := undisturbed (by simp [position])
        exact fun n retried => by cases none_.symm.trans retried
    | compacted willRetry =>
      rw [position] at phase
      cases willRetry with
      | false => exact phase
      | true =>
        have none_ : st.retried = none := undisturbed (by simp [position])
        exact fun n retried => by cases none_.symm.trans retried

/-- What was emitted stands behind every result. -/
private theorem suffix_behind {messages before front : List Item} {shell : Item} (emitted_ : emitted <:+ messages)
    (split : messages = before ++ shell :: front) (plain : ∀ item ∈ emitted, item.isShell = false)
    (isShell : shell.isShell = true) : emitted <:+ front := by
  have outside : shell ∉ emitted := fun listed => absurd (isShell.symm.trans (plain shell listed)) (by decide)
  have behind : shell :: front <:+ messages := ⟨before, split.symm⟩
  rcases List.suffix_or_suffix_of_suffix emitted_ behind with inside | around
  · rcases List.suffix_cons_iff.mp inside with rfl | inner
    · exact absurd List.mem_cons_self outside
    · exact inner
  · exact absurd (around.subset List.mem_cons_self) outside

private theorem legal_emit {messages : List Item} {message : AgentMessage} {serial : ℕ} (legal : Legal messages)
    (emitted_ : emitted <:+ messages) (plain : ∀ item ∈ emitted, item.isShell = false)
    (accepted : mayEmit emitted message = true) : Legal (messages ++ [⟨serial, message⟩]) := by
  refine legal_concat legal fun result isResult before shell front split isShell => ?_
  have own : emitted.any (·.calls result.toolCallId) = true := by
    obtain rfl : message = .toolResult result := isResult
    exact (Bool.and_eq_true_iff.mp accepted).1
  obtain ⟨answer, listed, called⟩ := List.any_eq_true.mp own
  exact ⟨answer, (suffix_behind emitted_ split plain isShell).subset listed, called⟩

private theorem suffix_items {branch : List Entry} (emitted_ : emitted.map .message <:+ branch) :
    emitted <:+ items branch := by
  have inside := emitted_.filterMap Entry.item?
  rwa [show (emitted.map Entry.message).filterMap Entry.item? = emitted from items_map emitted] at inside

private theorem leaf_of_emitted {branch : List Entry} {answer : Item} (emitted_ : emitted.map .message <:+ branch)
    (last : emitted.getLast? = some answer) : branch.getLast? = some (.message answer) := by
  obtain ⟨front, rfl⟩ := emitted_
  obtain ⟨init, rfl⟩ := List.getLast?_eq_some_iff.mp last
  rw [List.map_append, ← List.append_assoc]
  exact List.getLast?_concat ..

private theorem sound_message (sound : Sound st) (running : st.phase = .running emitted) {message : AgentMessage}
    (accepted : mayEmit emitted message = true) : Sound (st.emit emitted message) := by
  have phase := sound.phase
  rw [running] at phase
  obtain ⟨⟨behind, behindBranch, plain⟩, removed⟩ := phase
  have other : Item.isShell ⟨st.nextSerial, message⟩ = false := by
    cases message with
    | bashExecution => cases accepted
    | _ => rfl
  refine ⟨sound.kept.both (legal_emit sound.kept.legal behind plain accepted)
    (legal_emit sound.kept.legalBranch (suffix_items behindBranch) plain accepted), ?_, ?_⟩
  · refine ⟨⟨suffix_append_right behind _, ?_, ?_⟩, sound.not_mem_concat message removed⟩
    · rw [List.map_append]
      exact suffix_append_right behindBranch _
    · exact List.forall_mem_append.mpr ⟨plain, List.forall_mem_singleton.mpr other⟩
  · exact fun n retried => Nat.lt_succ_of_lt (sound.known n retried)

private theorem failure?_eq_some {answer : Option Item} {n : ℕ} :
    failure? answer = some n ↔ ∃ failed, answer = some failed ∧ failed.failed = true ∧ failed.serial = n := by
  rw [failure?, Option.map_eq_some_iff]
  constructor
  · rintro ⟨failed, kept, same⟩
    exact ⟨failed, (Option.filter_eq_some_iff.mp kept).1, (Option.filter_eq_some_iff.mp kept).2, same⟩
  · rintro ⟨failed, same, isFailed, serial⟩
    exact ⟨failed, Option.filter_eq_some_iff.mpr ⟨same, isFailed⟩, serial⟩

private theorem serial_lt_of_leaf (sound : Sound st) {answer : Item}
    (leaf : st.branch.getLast? = some (.message answer)) :
    answer.serial < st.nextSerial :=
  sound.kept.belowBranch _ (List.mem_map_of_mem (List.mem_of_getLast? leaf))

private theorem sound_startCompaction (sound : Sound st) (willRetry : Bool) (answer : Option Item)
    (leaf : ∀ failed, willRetry = true → answer = some failed → failed.failed = true →
      st.branch.getLast? = some (.message failed)) : Sound (st.startCompaction willRetry answer) := by
  cases willRetry with
  | false => exact ⟨sound.kept, rfl, nofun⟩
  | true =>
    refine ⟨sound.kept.dropLastIf fun _ => not_shell_of_assistant, fun n retried => ?_, fun n retried => ?_⟩
    · obtain ⟨failed, same, isFailed, serial⟩ := (failure?_eq_some).mp retried
      exact ⟨failed, serial, isFailed, leaf failed rfl same isFailed⟩
    · obtain ⟨failed, same, isFailed, rfl⟩ := (failure?_eq_some).mp retried
      exact serial_lt_of_leaf sound (leaf failed rfl same isFailed)

private theorem serial_not_mem_of_concat {front : List Item} {last : Item}
    (distinct : (serials (front ++ [last])).Nodup) :
    last.serial ∉ serials front := by
  rw [serials_append, List.nodup_append] at distinct
  exact fun listed => distinct.2.2 _ listed _ (List.mem_singleton_self _) rfl

private theorem sound_retry (sound : Sound st) (running : st.phase = .running emitted)
    (failed : emitted.getLast?.any Item.failed = true) :
    Sound { st.rewindFailedAssistant with phase := .waiting, retried := failure? emitted.getLast? } := by
  have phase := sound.phase
  rw [running] at phase
  obtain ⟨⟨behind, behindBranch, -⟩, -⟩ := phase
  refine ⟨sound.kept.rewind, fun n retried => ?_, fun n retried => ?_⟩
  · obtain ⟨answer, last, isFailed, rfl⟩ := (failure?_eq_some).mp retried
    obtain ⟨init, rfl⟩ := List.getLast?_eq_some_iff.mp last
    obtain ⟨front, whole⟩ := behind
    have distinct := (List.nodup_append.mp sound.kept.once).1
    rw [← whole, ← List.append_assoc] at distinct
    have shorter : serials (st.messages.rdropWhile Item.failed) ⊆ serials (front ++ init) := by
      rw [← whole, ← List.append_assoc, List.rdropWhile_concat_pos _ _ _ isFailed]
      exact ((List.rdropWhile_prefix ..).sublist.map _).subset
    exact fun listed => serial_not_mem_of_concat distinct (shorter listed)
  · obtain ⟨answer, last, -, rfl⟩ := (failure?_eq_some).mp retried
    exact serial_lt_of_leaf sound (leaf_of_emitted behindBranch last)

/-- The failed answer is the last of the messages that are built anew, if it is one of them. -/
private theorem answer_removed (sound : Sound st) {answer : Item} (leaf : st.branch.getLast? = some (.message answer))
    (isFailed : answer.failed = true) {summary : CompactionSummaryMessage} {firstKept : ℕ} :
    answer.serial ∉ serials (dropLastIf Item.failed
      (buildSessionContext (st.branch ++ [Entry.compaction st.nextSerial summary firstKept]))) := by
  have new := serial_lt_of_leaf sound leaf
  have distinct := (List.nodup_append.mp sound.kept.onceBranch).1
  rw [buildSessionContext_concat]
  have suffix : st.branch.dropWhile (·.serial ≠ firstKept) <:+ st.branch := List.dropWhile_suffix _
  generalize st.branch.dropWhile (·.serial ≠ firstKept) = shown at suffix
  obtain ⟨front, whole⟩ := suffix
  rcases List.eq_nil_or_concat shown with rfl | ⟨init, last, rfl⟩
  · intro listed
    have inside := ((dropLastIf_shorter ..).sublist.map _).subset listed
    exact absurd (List.mem_singleton.mp inside) new.ne
  · rw [List.concat_eq_append, ← List.append_assoc] at whole
    rw [← whole, List.getLast?_concat, Option.some_inj] at leaf
    subst leaf
    rw [List.concat_eq_append, items_append, items_message, ← List.cons_append, dropLastIf, List.getLast?_concat,
      Option.any_some, if_pos isFailed, List.dropLast_concat]
    rw [← whole, List.map_append, List.map_append, List.append_assoc] at distinct
    have apart := (List.nodup_append.mp (List.nodup_append.mp distinct).2.1).2.2
    intro listed
    rcases List.mem_cons.mp listed with same | inside
    · exact new.ne same
    · exact apart _ ((serials_items_sublist init).subset inside) _ (List.mem_singleton_self _) rfl

private theorem sound_compact (sound : Sound st) {willRetry : Bool} (compacting : st.phase = .compacting willRetry)
    (summary : CompactionSummaryMessage) (firstKept : ℕ) : Sound (st.compact willRetry summary firstKept) := by
  have phase := sound.phase
  rw [compacting] at phase
  refine ⟨sound.kept.compact summary firstKept, ?_, fun n retried => Nat.lt_succ_of_lt (sound.known n retried)⟩
  cases willRetry with
  | false => exact phase
  | true =>
    intro n retried
    obtain ⟨answer, rfl, isFailed, leaf⟩ := phase n retried
    exact answer_removed sound leaf isFailed

private theorem sound_step (sound : Sound st) (undisturbed : Undisturbed st event)
    (stepped : st.step? event = some next) : Sound next := by
  cases event with
  | prompt =>
    rw [step?] at stepped
    split at stepped
    · cases stepped
      exact sound_prompt sound
    · cases stepped
  | message message =>
    rw [step?] at stepped
    split at stepped
    · next emitted running =>
      split at stepped
      · next accepted =>
        cases stepped
        exact sound_message sound running accepted
      · cases stepped
    · cases stepped
  | shell result =>
    cases stepped
    exact sound_shell sound result undisturbed
  | finish after =>
    simp only [step?] at stepped
    split at stepped
    · cases stepped
      exact sound.endPrompt
    · next emitted running =>
      split at stepped
      · next failed =>
        cases stepped
        exact sound_retry sound running failed
      · cases stepped
    · next emitted willRetry running =>
      cases stepped
      refine sound_startCompaction sound _ _ fun failed _ last _ => ?_
      have phase := sound.phase
      rw [running] at phase
      exact leaf_of_emitted phase.1.2.1 last
    · cases stepped
  | checkBeforePrompt willRetry =>
    rw [step?] at stepped
    split at stepped
    · cases stepped
      refine sound_startCompaction sound _ _ fun failed retry last isFailed => ?_
      subst retry
      exact undisturbed failed last isFailed
    · cases stepped
  | resume =>
    rw [step?] at stepped
    split at stepped
    · next waiting =>
      cases stepped
      have phase := sound.phase
      rw [waiting] at phase
      exact ⟨sound.kept, ⟨⟨List.nil_suffix, List.nil_suffix, by simp⟩, phase⟩, sound.known⟩
    · cases stepped
  | cancelled after =>
    simp only [step?] at stepped
    split at stepped
    · cases stepped
      exact sound.endPrompt
    · cases stepped
      exact sound_startCompaction sound _ _ fun _ retry => by cases retry
    · cases stepped
  | compact summary firstKept =>
    rw [step?] at stepped
    split at stepped
    · next willRetry compacting =>
      cases stepped
      exact sound_compact sound compacting summary firstKept
    · cases stepped
  | compactionFails =>
    rw [step?] at stepped
    split at stepped
    · cases stepped
      exact sound.endPrompt
    · cases stepped
  | settle hasQueuedMessages =>
    rw [step?] at stepped
    have phase := sound.phase
    split at stepped
    · next compacted =>
      cases stepped
      rw [compacted] at phase
      exact ⟨sound.kept.dropLastIf fun _ => not_shell_of_failed, ⟨⟨List.nil_suffix, List.nil_suffix, by simp⟩, phase⟩,
        sound.known⟩
    · next compacted =>
      rw [compacted] at phase
      split at stepped
      · cases stepped
        refine ⟨sound.kept, ⟨⟨List.nil_suffix, List.nil_suffix, by simp⟩, fun n retried => ?_⟩, sound.known⟩
        rw [show st.retried = none from phase] at retried
        cases retried
      · cases stepped
        exact sound.endPrompt
    · cases stepped

private theorem Resumed.sound (resumed : Resumed st) : Sound st where
  kept := by
    rw [resumed.pending, resumed.recorded, resumed.messages]
    exact kept_buildSessionContext resumed.distinct resumed.below resumed.legal
  phase := by
    rw [resumed.phase]
    exact ⟨resumed.pending, resumed.retried⟩
  known n retried := by
    rw [resumed.retried] at retried
    cases retried

private theorem placedOnce_of_kept (kept : Kept st.messages st.branch st.pendingBashMessages st.nextSerial st.recorded)
    {n : ℕ} (recorded : n ∈ st.recorded) : PlacedOnce st n := by
  obtain ⟨item, rfl, isShell, placed⟩ := kept.recorded n recorded
  have distinct : (serials (items st.branch) ++ serials st.pendingBashMessages).Nodup :=
    kept.onceBranch.sublist ((serials_items_sublist st.branch).append_right _)
  have listed : item.serial ∈ serials (items st.branch) ++ serials st.pendingBashMessages :=
    List.mem_append.mpr (placed.imp List.mem_map_of_mem List.mem_map_of_mem)
  refine ⟨List.count_eq_one_of_mem distinct listed, ?_⟩
  have shown (inside : item ∈ st.messages ∨ item ∈ st.pendingBashMessages) :
      (serials st.messages ++ serials st.pendingBashMessages).count item.serial = 1 :=
    List.count_eq_one_of_mem kept.once (List.mem_append.mpr (inside.imp List.mem_map_of_mem List.mem_map_of_mem))
  by_cases there : item.serial ∈ serials st.messages
  · exact .inr (List.count_eq_one_of_mem kept.once (List.mem_append_left _ there))
  · rcases placed with inBranch | pending
    · rcases kept.shown item inBranch isShell with inside | compacted
      · exact .inr (shown (.inl inside))
      · exact .inl ⟨compacted, there⟩
    · exact .inr (shown (.inr pending))

private theorem Sound.placed (sound : Sound st) : Placed st where
  once _ recorded := placedOnce_of_kept sound.kept recorded
  flushed idle := by
    have phase := sound.phase
    rw [idle] at phase
    exact phase.1
  legal := sound.kept.legal
  legalBranch := sound.kept.legalBranch
  removed emitted n running retried := by
    have phase := sound.phase
    rw [running] at phase
    exact phase.2 n retried

/-- In a run in which no result disturbs a retry, every result is placed once and legally and every failed answer is
removed. -/
theorem shell_results_placed {start : ShellSession} {events : List ShellEvent} (resumed : Resumed start)
    (undisturbed : Meets ShellSession.step? Undisturbed start events)
    (run : run? ShellSession.step? start events = some st) : Placed st :=
  (run?_invariant Sound (fun _ _ _ sound meets stepped => sound_step sound meets stepped) resumed.sound undisturbed
    run).placed

end Steps

private theorem resumed_new : Resumed {} where
  phase := rfl
  pending := rfl
  retried := rfl
  recorded := rfl
  messages := rfl
  distinct := List.nodup_nil
  below := nofun
  legal before shell front result message here := by
    have none_ := List.prefix_nil.mp here
    exact absurd none_ (by simp)

def failedAnswer : AssistantMessage where
  content := []
  api := js "api"
  provider := js "p"
  model := js "m"
  usage := ⟨0, 0, 0, 0, 0⟩
  stopReason := .error
  timestamp := .millis 0

def listing : BashExecutionMessage where
  command := js "ls"
  output := js "a"
  exitCode := some 0
  cancelled := false
  truncated := false
  timestamp := .millis 0

def digest : CompactionSummaryMessage := ⟨js "s", 9, .millis 0⟩

/-- A prompt that the provider refuses as too long. -/
def overflowing : List ShellEvent :=
  [.prompt, .message (.user ⟨.plain (js "hi"), .millis 0⟩), .message (.assistant failedAnswer),
    .finish (.compaction true)]

theorem shell_results_placed_behind_retry :
    Placed ((run? ShellSession.step? {}
      (overflowing ++ [.compact digest 0, .settle false, .shell listing, .finish .done])).get rfl) := by
  refine shell_results_placed resumed_new ?_ (Option.some_get _).symm
  -- The command finishes while the agent runs again.
  refine .cons trivial rfl (.cons trivial rfl (.cons trivial rfl (.cons trivial rfl (.cons trivial rfl
    (.cons trivial rfl (.cons ?_ rfl (.cons trivial rfl meets_nil)))))))
  exact fun compacting => absurd compacting (by decide)

/-- A command that finishes while the session is compacted for a retry keeps the failed answer in the context. -/
theorem failed_answer_is_resent :
    ∃ st, run? ShellSession.step? {} (overflowing ++ [.shell listing, .compact digest 0, .settle false]) = some st ∧
      ¬Placed st :=
  ⟨_, rfl, fun placed => placed.removed [] 1 rfl rfl (by decide)⟩

end PieAgent.Soundness.ShellPlacement
