import Mathlib.Data.Rat.Floor
import PieAgent.Machine.Core.Labeled
import PieAgent.Model.Ui.RetryPrompt

/-! # What a retried prompt leaves in the session

Two calls submit the text: the first one, and the one behind the switch to the fallback model. So the branch holds the text
once for each of them that records it. A rewind takes back the failed assistant at the leaf; when no call buries one
beneath what it records, none is left.
-/

namespace PieAgent.Soundness.RetriedPrompts

open JavaScript Machine Model Model.Ui

/-- An entry with the text of the user. -/
def isText (text : JsString) : EntryBody → Bool
  | .message (.user message) => message.content = .blocks [.text { text }]
  | _ => false

def isAssistant : EntryBody → Bool
  | .message (.assistant _) => true
  | _ => false

/-- The entries that the harness recorded for this prompt, of those on the branch. -/
def ours (branch : List BranchEntry) : List EntryBody := (branch.filter (·.ours)).map (·.body)

/-- What a call of the harness does: only one that submits records the text, and at most once. One that resolves has
recorded its assistant, behind the text if it submits, and no other assistant behind that. -/
structure Follows (text : JsString) (submits : Prop) (call : HarnessCall) : Prop where
  once : call.recorded.countP (isText text) ≤ 1
  continues : ¬ submits → call.recorded.countP (isText text) = 0
  resolves : ∀ message, call.outcome = .ok message → ∃ (front : List EntryBody) (back : _),
    call.recorded = front ++ .message (.assistant message) :: back ∧ (submits → front.any (isText text) = true) ∧
      ∀ body ∈ back, isAssistant body = false

/-- The failed assistant of a call, if there is one, is the last entry that it records. -/
def LeavesAtLeaf (call : HarnessCall) : Prop := ∀ body ∈ call.recorded.dropLast, failed body = false

/-- The calls of one model. -/
def perModel (policy : RetryPolicy) : ℕ := ⌈policy.maxRetries⌉₊ + 1

/-- The calls that submit the text: the first, and the first behind the switch to the fallback model. -/
def submitting (policy : RetryPolicy) (attempts : List RetryAttempt) : List RetryAttempt :=
  attempts.take 1 ++ (attempts.drop (perModel policy)).take 1

def recordsText (text : JsString) (answers : RetryAttempt) : Bool := answers.call.recorded.any (isText text)

/-- The error that the last attempt ends with: of its call, of the rewind behind it, or of the switch. -/
def EndsWith (last : RetryAttempt) (error : RetryError) : Prop :=
  last.call.error? = some error ∨ (∃ branch, rewindFailedAssistant branch last.rewind = .error error) ∨
    ∃ text, last.setModel = some text ∧ error = .setModel text

variable {policy : RetryPolicy} {findModel : JsString × JsString → Bool} {text : JsString} {run next : RetryRun}
  {answers : RetryAttempt}

section Branches

variable {branch rewound : List BranchEntry} {recorded : List EntryBody}

/-- A rewind that succeeds has taken a failed assistant from the leaf, or there was none. -/
private theorem rewind_cases {faults : RewindFaults} (ok : rewindFailedAssistant branch faults = .ok rewound) :
    (rewound = branch ∧ ∀ leaf : BranchEntry, branch.getLast? = some leaf → failed leaf.body = false) ∨
      ∃ leaf : BranchEntry, branch = rewound ++ [leaf] ∧ failed leaf.body = true := by
  unfold rewindFailedAssistant at ok
  split at ok
  · cases ok
  · next none_ =>
    cases ok
    exact .inl ⟨rfl, fun leaf found => nomatch none_.symm.trans found⟩
  · next leaf _ last =>
    split at ok
    · cases ok
    · split_ifs at ok with bad
      · split at ok
        · cases ok
        · cases ok
          exact .inr ⟨leaf, (List.dropLast_append_getLast? leaf last).symm, bad⟩
      · cases ok
        refine .inl ⟨rfl, fun other found => ?_⟩
        cases last.symm.trans found
        exact Bool.eq_false_iff.mpr bad

@[simp] private theorem ours_append (front back : List BranchEntry) : ours (front ++ back) = ours front ++ ours back := by
  simp [ours]

@[simp] private theorem ours_recorded (recorded : List EntryBody) :
    ours (recorded.map (BranchEntry.mk · true)) = recorded := by
  simp [ours, List.filter_map, Function.comp_def]

private theorem not_isText_of_failed {body : EntryBody} (bad : failed body = true) : isText text body = false := by
  unfold failed at bad
  split at bad
  · rfl
  · cases bad

private theorem countP_rewind {faults : RewindFaults} (ok : rewindFailedAssistant branch faults = .ok rewound) :
    (ours rewound).countP (isText text) = (ours branch).countP (isText text) := by
  rcases rewind_cases ok with ⟨rfl, _⟩ | ⟨leaf, rfl, bad⟩
  · rfl
  · have none_ : (ours [leaf]).countP (isText text) = 0 := by
      apply List.countP_eq_zero.mpr
      intro body member
      obtain ⟨entry, listed, rfl⟩ := List.mem_map.mp member
      cases List.mem_singleton.mp (List.mem_filter.mp listed).1
      rw [not_isText_of_failed bad]
      exact Bool.false_ne_true
    rw [ours_append, List.countP_append, none_, Nat.add_zero]

/-- A rewind clears what a call leaves at the leaf. -/
private theorem cleared_rewind {faults : RewindFaults}
    (ok : rewindFailedAssistant (branch ++ recorded.map (BranchEntry.mk · true)) faults = .ok rewound)
    (clear : ∀ body ∈ ours branch, failed body = false) (tidy : ∀ body ∈ recorded.dropLast, failed body = false) :
    ∀ body ∈ ours rewound, failed body = false := by
  rcases List.eq_nil_or_concat recorded with rfl | ⟨front, last, rfl⟩
  · rw [List.map_nil, List.append_nil] at ok
    intro body member
    refine clear body ?_
    rcases rewind_cases ok with ⟨rfl, _⟩ | ⟨leaf, rfl, _⟩
    · exact member
    · rw [ours_append]
      exact List.mem_append_left _ member
  · rw [List.concat_eq_append, List.dropLast_concat] at tidy
    rw [List.concat_eq_append, List.map_append, List.map_singleton, ← List.append_assoc] at ok
    intro body member
    rcases rewind_cases ok with ⟨rfl, healthy⟩ | ⟨leaf, same, _⟩
    · rw [ours_append, ours_append, ours_recorded] at member
      rcases List.mem_append.mp member with member | member
      · exact (List.mem_append.mp member).elim (clear body) (tidy body)
      · obtain rfl : body = last := by simpa [ours] using member
        exact healthy ⟨body, true⟩ List.getLast?_concat
    · obtain ⟨rfl, _⟩ := List.append_inj' same rfl
      rw [ours_append, ours_recorded] at member
      exact (List.mem_append.mp member).elim (clear body) (tidy body)

end Branches

section Steps

/-- The branch once the call is over. -/
private def called (run : RetryRun) (answers : RetryAttempt) : List BranchEntry :=
  run.branch ++ answers.call.recorded.map (BranchEntry.mk · true)

/-- What comes of an attempt: the prompt returns or throws, or the run goes on from a branch that is rewound. -/
private inductive Outcome (policy : RetryPolicy) (run next : RetryRun) (answers : RetryAttempt) : Prop
  | returned (ok : answers.call.error? = none) (status : next.status = .returned) (branch : next.branch = called run answers)
  | threw (error : RetryError) (status : next.status = .threw error) (ends : EndsWith answers error)
      (branch : next.branch = called run answers ∨
        rewindFailedAssistant (called run answers) answers.rewind = .ok next.branch)
  | retried (status : next.status = .running)
      (branch : rewindFailedAssistant (called run answers) answers.rewind = .ok next.branch)
      (left : run.attempt < policy.maxRetries) (attempt : next.attempt = run.attempt + 1)
      (fallback : next.fallbackUsed = run.fallbackUsed)
  | switched (status : next.status = .running)
      (branch : rewindFailedAssistant (called run answers) answers.rewind = .ok next.branch)
      (exhausted : policy.maxRetries ≤ run.attempt) (attempt : next.attempt = 0)
      (fallback : run.fallbackUsed = false ∧ next.fallbackUsed = true)

private theorem rewound_cases (run : RetryRun) (faults : RewindFaults) :
    (∃ branch, rewindFailedAssistant run.branch faults = .ok branch ∧ run.rewound faults = { run with branch }) ∨
      ∃ error, rewindFailedAssistant run.branch faults = .error error ∧
        run.rewound faults = { run with status := .threw error } := by
  unfold RetryRun.rewound
  cases rewindFailedAssistant run.branch faults with
  | ok branch => exact .inl ⟨branch, rfl, rfl⟩
  | error error => exact .inr ⟨error, rfl, rfl⟩

private theorem step?_running (stepped : run.step? policy findModel answers = some next) : run.status = .running := by
  unfold RetryRun.step? at stepped
  split_ifs at stepped with running
  exact not_not.mp running

private theorem recover_outcome {error : RetryError} {made : RetryRun} (running : made.status = .running)
    (branch : made.branch = called run answers) (attempt : made.attempt = run.attempt)
    (fallback : made.fallbackUsed = run.fallbackUsed) (raised : answers.call.error? = some error) :
    (made.recover policy findModel answers error).calls = made.calls ∧
      Outcome policy run (made.recover policy findModel answers error) answers := by
  have ends : EndsWith answers error := .inl raised
  unfold RetryRun.recover
  by_cases hopeless : (!policy.enabled || !isRetryableErrorMessage error.text) = true
  · rw [if_pos hopeless]
    exact ⟨rfl, .threw error rfl ends (.inl branch)⟩
  rw [if_neg hopeless]
  by_cases exhausted : policy.maxRetries ≤ made.attempt
  · rw [if_pos exhausted]
    rw [attempt] at exhausted
    cases policy.fallbackModel with
    | none => exact ⟨rfl, .threw error rfl ends (.inl branch)⟩
    | some model =>
      dsimp only
      split_ifs with used found
      · exact ⟨rfl, .threw error rfl ends (.inl branch)⟩
      · unfold RetryRun.switch
        rcases rewound_cases { made with fallbackUsed := true } answers.rewind with ⟨after, ok, same⟩ | ⟨wrong, bad, same⟩
        · rw [same, running]
          cases switched : answers.setModel with
          | none => exact ⟨rfl, .switched rfl (branch ▸ ok) exhausted rfl ⟨fallback ▸ Bool.eq_false_iff.mpr used, rfl⟩⟩
          | some text => exact ⟨rfl, .threw _ rfl (.inr (.inr ⟨text, switched, rfl⟩)) (.inr (branch ▸ ok))⟩
        · rw [same]
          exact ⟨rfl, .threw wrong rfl (.inr (.inl ⟨_, bad⟩)) (.inl branch)⟩
      · exact ⟨rfl, .threw error rfl ends (.inl branch)⟩
  · rw [if_neg exhausted]
    rcases rewound_cases { made with attempt := made.attempt + 1 } answers.rewind with ⟨after, ok, same⟩ | ⟨wrong, bad, same⟩
    · rw [same]
      refine ⟨rfl, .retried running (branch ▸ ok) (attempt ▸ lt_of_not_ge exhausted) ?_ fallback⟩
      exact congrArg (· + 1) attempt
    · rw [same]
      exact ⟨rfl, .threw wrong rfl (.inr (.inl ⟨_, bad⟩)) (.inl branch)⟩

private theorem step?_outcome (stepped : run.step? policy findModel answers = some next) :
    next.calls = run.calls + 1 ∧ Outcome policy run next answers := by
  have running := step?_running stepped
  unfold RetryRun.step? at stepped
  rw [if_neg (not_not.mpr running)] at stepped
  dsimp only at stepped
  split at stepped
  · next ok =>
    obtain rfl := Option.some.inj stepped
    exact ⟨rfl, .returned ok rfl rfl⟩
  · next error raised =>
    obtain rfl := Option.some.inj stepped
    exact recover_outcome running rfl rfl rfl raised

end Steps

section Runs

/-- The last assistant of this prompt is no failed one, and the text stands before it. -/
def Answered (text : JsString) (entries : List EntryBody) : Prop :=
  ∃ front message back, entries = front ++ .message (.assistant message) :: back ∧ message.stopReason ≠ .error ∧
    ∀ body ∈ back, isAssistant body = false ∧ isText text body = false

/-- What holds after the attempts of the past. -/
structure Held (policy : RetryPolicy) (text : JsString) (past : List RetryAttempt) (run : RetryRun) : Prop where
  calls : run.calls = past.length
  bound : past.length ≤ 2 * perModel policy
  phase : run.status = .running → run.attempt < perModel policy ∧
    past.length = run.attempt + if run.fallbackUsed then perModel policy else 0
  texts : (ours run.branch).countP (isText text) = (submitting policy past).countP (recordsText text)
  tidy : (∀ answers ∈ past, LeavesAtLeaf answers.call) → (∀ error, run.status ≠ .threw error) →
    ∀ body ∈ ours run.branch, failed body = false
  returned : run.status = .returned → Answered text (ours run.branch)
  threw : ∀ error, run.status = .threw error → ∃ last, past.getLast? = some last ∧ EndsWith last error

variable {past : List RetryAttempt}

/-- One more attempt submits if it is the first of a model. -/
private theorem countP_submitting (past : List RetryAttempt) (answers : RetryAttempt) (records : RetryAttempt → Bool) :
    (submitting policy (past ++ [answers])).countP records = (submitting policy past).countP records +
      if past.length = 0 ∨ past.length = perModel policy then [answers].countP records else 0 := by
  unfold submitting
  have some_ : 0 < perModel policy := Nat.succ_pos _
  rcases Nat.lt_trichotomy past.length (perModel policy) with early | here | late
  · rw [List.drop_eq_nil_of_le early.le, List.drop_eq_nil_of_le (by simp only [List.length_append, List.length_singleton]; omega)]
    cases past with
    | nil => simp
    | cons first rest =>
      rw [if_neg (by simp only [List.length_cons] at early ⊢; omega)]
      simp
  · rw [if_pos (.inr here), ← here, List.drop_left, List.drop_length]
    cases past with
    | nil => exact absurd here (by simp only [List.length_nil]; omega)
    | cons first rest => simp [List.countP_cons, Nat.add_comm]
  · rw [if_neg (by omega)]
    cases past with
    | nil => exact absurd late (Nat.not_lt_zero _)
    | cons first rest =>
      obtain ⟨k, same⟩ : ∃ k, perModel policy = k + 1 := ⟨_, rfl⟩
      rw [same] at late ⊢
      have inside : k < rest.length := by simpa using late
      rw [List.cons_append, List.drop_succ_cons, List.drop_succ_cons, List.drop_append_of_le_length inside.le]
      rw [List.take_append_of_le_length (by simp only [List.length_drop]; omega)]
      rfl

/-- A call records the text if it submits it and the harness gets so far. -/
private theorem countP_recorded {submits : Prop} [Decidable submits] (follows : Follows text submits answers.call) :
    answers.call.recorded.countP (isText text) = if submits then [answers].countP (recordsText text) else 0 := by
  split_ifs with here
  · rw [List.countP_singleton, recordsText]
    cases recorded : answers.call.recorded.any (isText text) with
    | true =>
      have found : 0 < answers.call.recorded.countP (isText text) := by
        apply List.countP_pos_iff.mpr
        simpa using recorded
      rw [if_pos rfl]
      exact le_antisymm follows.once found
    | false =>
      rw [if_neg Bool.false_ne_true]
      apply List.countP_eq_zero.mpr
      simpa using recorded
  · exact follows.continues here

/-- The attempt is the first of a model exactly if the call submits. -/
private theorem attempt_eq_zero_iff (held : Held policy text past run) (running : run.status = .running) :
    run.attempt = 0 ↔ past.length = 0 ∨ past.length = perModel policy := by
  obtain ⟨left, phase⟩ := held.phase running
  have some_ : 0 < perModel policy := Nat.succ_pos _
  cases used : run.fallbackUsed with
  | true =>
    rw [used, if_pos rfl] at phase
    omega
  | false =>
    rw [used, if_neg Bool.false_ne_true] at phase
    omega

private theorem ours_called (run : RetryRun) (answers : RetryAttempt) :
    ours (called run answers) = ours run.branch ++ answers.call.recorded := by
  rw [called, ours_append, ours_recorded]

private theorem texts_called (held : Held policy text past run) (running : run.status = .running)
    (follows : Follows text (run.attempt = 0) answers.call) : (ours (called run answers)).countP (isText text) =
      (submitting policy (past ++ [answers])).countP (recordsText text) := by
  rw [ours_called, List.countP_append, held.texts, countP_submitting, countP_recorded follows]
  simp only [attempt_eq_zero_iff held running]

private theorem tidy_called (held : Held policy text past run) (running : run.status = .running)
    (atLeaf : ∀ answers ∈ past, LeavesAtLeaf answers.call) : ∀ body ∈ ours run.branch, failed body = false :=
  held.tidy atLeaf fun _ threw => nomatch running.symm.trans threw

/-- A call that does not fail answers the text. -/
private theorem answered_called (follows : Follows text (run.attempt = 0) answers.call) (ok : answers.call.error? = none) :
    Answered text (ours (called run answers)) ∧
      (LeavesAtLeaf answers.call → ∀ body ∈ answers.call.recorded, failed body = false) := by
  have resolved : ∃ message, answers.call.outcome = .ok message ∧ message.stopReason ≠ .error := by
    unfold HarnessCall.error? at ok
    split at ok
    · next message outcome =>
      refine ⟨message, outcome, fun bad => ?_⟩
      rw [assistantErrorMessage, if_neg (not_not.mpr bad)] at ok
      cases ok
    · cases ok
  obtain ⟨message, outcome, good⟩ := resolved
  obtain ⟨front, back, recorded, text_, last⟩ := follows.resolves message outcome
  have none_ : back.countP (isText text) = 0 := by
    by_cases submits : run.attempt = 0
    · have once := follows.once
      have found : 0 < front.countP (isText text) := by
        apply List.countP_pos_iff.mpr
        simpa using text_ submits
      rw [recorded, List.countP_append, List.countP_cons] at once
      omega
    · have silent := follows.continues submits
      rw [recorded, List.countP_append, List.countP_cons] at silent
      omega
  constructor
  · refine ⟨ours run.branch ++ front, message, back, ?_, good, fun body member => ⟨last body member, ?_⟩⟩
    · rw [ours_called, recorded, List.append_assoc]
    · simpa using List.countP_eq_zero.mp none_ body member
  · intro atLeaf body member
    rcases List.eq_nil_or_concat back with rfl | ⟨rest, other, rfl⟩
    · rw [LeavesAtLeaf, recorded, List.dropLast_concat] at atLeaf
      rw [recorded] at member
      rcases List.mem_append.mp member with member | member
      · exact atLeaf body member
      · cases List.mem_singleton.mp member
        exact decide_eq_false good
    · have split : answers.call.recorded = (front ++ .message (.assistant message) :: rest) ++ [other] := by
        rw [recorded, List.concat_eq_append]
        simp
      rw [LeavesAtLeaf, split, List.dropLast_concat] at atLeaf
      rw [split] at member
      rcases List.mem_append.mp member with member | member
      · exact atLeaf body member
      · cases List.mem_singleton.mp member
        have other_ := last body (by simp)
        cases body with
        | message message => cases message <;> first | rfl | cases other_
        | _ => rfl

/-- Attempts keep what holds of the past. -/
private theorem held_step (held : Held policy text past run) (follows : Follows text (run.attempt = 0) answers.call)
    (stepped : run.step? policy findModel answers = some next) : Held policy text (past ++ [answers]) next := by
  have running := step?_running stepped
  obtain ⟨counted, outcome⟩ := step?_outcome stepped
  have texts := texts_called held running follows
  obtain ⟨left, phase⟩ := held.phase running
  have calls : next.calls = (past ++ [answers]).length := by
    rw [counted, held.calls, List.length_append, List.length_singleton]
  have bound : (past ++ [answers]).length ≤ 2 * perModel policy := by
    rw [List.length_append, List.length_singleton, phase]
    split_ifs <;> omega
  have rewound (branch : rewindFailedAssistant (called run answers) answers.rewind = .ok next.branch) :
      (ours next.branch).countP (isText text) = (submitting policy (past ++ [answers])).countP (recordsText text) ∧
        ((∀ before ∈ past ++ [answers], LeavesAtLeaf before.call) → ∀ body ∈ ours next.branch, failed body = false) := by
    refine ⟨(countP_rewind branch).trans texts, fun atLeaf => ?_⟩
    refine cleared_rewind branch (tidy_called held running fun before member => ?_) (atLeaf answers (by simp))
    exact atLeaf before (List.mem_append_left _ member)
  cases outcome with
  | returned ok status branch =>
    obtain ⟨answered, whole⟩ := answered_called follows ok
    refine ⟨calls, bound, fun goes => (nomatch status.symm.trans goes), branch ▸ texts, fun atLeaf _ => ?_,
      fun _ => branch ▸ answered, fun error threw => nomatch status.symm.trans threw⟩
    rw [branch, ours_called]
    intro body member
    rcases List.mem_append.mp member with member | member
    · exact tidy_called held running (fun before member => atLeaf before (List.mem_append_left _ member)) body member
    · exact whole (atLeaf answers (by simp)) body member
  | threw error status ends branch =>
    refine ⟨calls, bound, fun goes => (nomatch status.symm.trans goes), ?_, fun _ other => absurd status (other error),
      fun returned => (nomatch status.symm.trans returned), fun other threw => ⟨answers, List.getLast?_concat, ?_⟩⟩
    · rcases branch with same | rewinds
      · rw [same]
        exact texts
      · exact (rewound rewinds).1
    · cases status.symm.trans threw
      exact ends
  | retried status branch more attempt fallback =>
    refine ⟨calls, bound, fun _ => ⟨?_, ?_⟩, (rewound branch).1, fun atLeaf _ => (rewound branch).2 atLeaf,
      fun returned => (nomatch status.symm.trans returned), fun error threw => nomatch status.symm.trans threw⟩
    · rw [attempt, perModel]
      exact Nat.succ_lt_succ (Nat.lt_ceil.mpr more)
    · rw [attempt, fallback, List.length_append, List.length_singleton, phase]
      omega
  | switched status branch exhausted attempt fallback =>
    refine ⟨calls, bound, fun _ => ⟨?_, ?_⟩, (rewound branch).1, fun atLeaf _ => (rewound branch).2 atLeaf,
      fun returned => (nomatch status.symm.trans returned), fun error threw => nomatch status.symm.trans threw⟩
    · rw [attempt]
      exact Nat.succ_pos _
    · have last := Nat.ceil_le.mpr exhausted
      rw [fallback.1, if_neg Bool.false_ne_true] at phase
      rw [attempt, fallback.2, if_pos rfl, List.length_append, List.length_singleton, phase]
      unfold perModel at left ⊢
      omega

end Runs

private def said (stopReason : StopReason) : AssistantMessage where
  content := []
  api := []
  provider := []
  model := []
  usage := ⟨0, 0, 0, 0, 0⟩
  stopReason
  errorMessage := some (js "timeout")
  timestamp := .millis 0

private def asked : EntryBody := .message (.user ⟨.blocks [.text { text := js "hi" }], .millis 0⟩)

private def replied (stopReason : StopReason) : EntryBody := .message (.assistant (said stopReason))

/-- A call that submits the text and gets an assistant. -/
private def submitted (stopReason : StopReason) : RetryAttempt :=
  { call := { recorded := [asked, replied stopReason], outcome := .ok (said stopReason) } }

private def continued : RetryAttempt := { call := { recorded := [replied .stop], outcome := .ok (said .stop) } }

/-- A call that throws before it records the text. -/
private def refused : RetryAttempt := { call := { recorded := [], outcome := .error (js "timeout") } }

private def policyWith (maxRetries : ℚ) : RetryPolicy where
  enabled := true
  maxRetries
  fallbackModel := some (js "p", js "m")

private theorem follows_submitted {submits : Prop} (here : submits) (stopReason : StopReason) :
    Follows (js "hi") submits (submitted stopReason).call where
  once := by
    cases stopReason <;> decide
  continues := fun other => absurd here other
  resolves := by
    rintro message ⟨⟩
    exact ⟨[asked], [], rfl, fun _ => by decide, List.forall_mem_nil _⟩

private theorem follows_continued {submits : Prop} (other : ¬ submits) : Follows (js "hi") submits continued.call where
  once := by decide
  continues := fun _ => by decide
  resolves := by
    rintro message ⟨⟩
    exact ⟨[], [], rfl, fun here => absurd here other, List.forall_mem_nil _⟩

private theorem follows_refused {submits : Prop} : Follows (js "hi") submits refused.call where
  once := Nat.zero_le 1
  continues := fun _ => rfl
  resolves := nofun

/-- The harness does what it may in a run of these attempts. -/
private def Plausible (policy : RetryPolicy) (attempts : List RetryAttempt) : Prop :=
  Meets (RetryRun.step? policy fun _ => true) (fun run answers => Follows (js "hi") (run.attempt = 0) answers.call)
    { branch := [] } attempts

private theorem plausible_two {policy : RetryPolicy} {first second : RetryAttempt} {attempt : ℕ}
    (before : Follows (js "hi") (0 = 0) first.call) (after : Follows (js "hi") (attempt = 0) second.call)
    (between : ((RetryRun.step? policy (fun _ => true) { branch := [] } first).map (·.attempt)) = some attempt) :
    Plausible policy [first, second] := by
  refine ⟨before, fun next stepped => ⟨?_, fun _ _ => trivial⟩⟩
  rw [stepped] at between
  cases Option.some.inj between
  exact after

end PieAgent.Soundness.RetriedPrompts
