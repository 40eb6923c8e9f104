import Mathlib.Tactic.Linarith
import PieAgent.Model.Core.SendRetry

/-! # Retries are bounded

One pass of the loop sends at most once and sleeps at most once, and another pass follows only while retries are left.
So the sends are counted by the retries, the call settles, and an outcome that must not be repeated is the last one.
A cap below one millisecond is no bound: the loop then sleeps one millisecond, whatever the server asks for.
-/

namespace PieAgent.Soundness.BoundedRetry

open JavaScript Model SendRetry

variable {α : Type}

/-- The outcome of a send that must not be repeated. -/
def mustNotRepeat : Except (Thrown α) (Response α) → Bool
  | .error error => !isRetryableTransportError error
  | .ok response => !isRetryableStatus response.status

/-- What a call settles with when it hands the outcome of a send on. -/
def handOn : Except (Thrown α) (Response α) → Settled α
  | .error error => .threw error
  | .ok response => .returned response

/-- The call sends and sleeps within its options, and the final outcomes end it. -/
structure Bounded (options : RetrySendOptions) (rounds : List (Round α)) : Prop where
  sends_le : sends (sendWithRetry options rounds).1 ≤ ⌈options.retries⌉₊ + 1
  sleep_le : ∀ ms, .sleep ms ∈ (sendWithRetry options rounds).1 → ms ≤ max options.capMs 1
  settles : ⌈options.retries⌉₊ < rounds.length → (sendWithRetry options rounds).2 ≠ none
  /-- After the rounds `before` the call is still going on, and the next round sends. -/
  final : ∀ before (round : Round α) later, rounds = before ++ round :: later →
    (sendWithRetry options before).2 = none → round.abortedBefore = false → mustNotRepeat round.outcome = true →
    sendWithRetry options rounds = ((sendWithRetry options before).1 ++ [Action.send], some (handOn round.outcome))
  success : ∀ before (round : Round α) later response, rounds = before ++ round :: later →
    (sendWithRetry options before).2 = none → round.abortedBefore = false → round.outcome = .ok response →
    200 ≤ response.status ∧ response.status < 300 →
    sendWithRetry options rounds = ((sendWithRetry options before).1 ++ [Action.send], some (.returned response))
  hint : ∀ before (round : Round α) later response requestedMs, rounds = before ++ round :: later →
    (sendWithRetry options before).2 = none → round.abortedBefore = false → round.outcome = .ok response →
    retryAfterMs response = some requestedMs → 0 < options.capMs ∧ options.capMs < requestedMs →
    sendWithRetry options rounds = ((sendWithRetry options before).1 ++ [Action.send],
      some (if options.retries ≤ before.length ∨ isRetryableStatus response.status = false then .returned response
        else .threwDelayTooLong requestedMs options.capMs))

section Loop

variable {maxRetries capMs : ℚ}

private theorem backoffDelayMs_le (attempt serverDelayMs : ℕ) (draw : Fin 100) :
    backoffDelayMs attempt serverDelayMs capMs draw ≤ max capMs 1 := by
  rw [backoffDelayMs]
  split
  · apply min_le_right
  · apply min_le_right

/-- The actions of one pass: at most one send, and no sleep beyond the cap. -/
private structure Modest (capMs : ℚ) (actions : List Action) : Prop where
  sends_le : sends actions ≤ 1
  sleep_le : ∀ ms, .sleep ms ∈ actions → ms ≤ max capMs 1

private theorem modest_nil : Modest capMs [] := ⟨by decide, by simp⟩

private theorem modest_send : Modest capMs [.send] := ⟨by decide, by simp⟩

private theorem modest_sleep {ms : ℚ} (low : ms ≤ max capMs 1) : Modest capMs [.send, .sleep ms] :=
  ⟨by simp [sends], by simpa using low⟩

private theorem modest_cancel : Modest capMs [.send, .cancelBody] := ⟨by decide, by simp⟩

private theorem modest_cancel_sleep {ms : ℚ} (low : ms ≤ max capMs 1) : Modest capMs [.send, .cancelBody, .sleep ms] :=
  ⟨by simp [sends], by simpa using low⟩

/-- What a pass can do: settle the call, or leave it to the next pass while retries are left. -/
private inductive Pass (maxRetries capMs : ℚ) (attempt : ℕ) (round : Round α) : Prop where
  | settles (actions : List Action) (settled : Settled α) (modest : Modest capMs actions)
      (runs : ∀ rest, sendLoop maxRetries capMs attempt (round :: rest) = (actions, some settled))
  | repeats (actions : List Action) (modest : Modest capMs actions) (left : (attempt : ℚ) < maxRetries)
      (runs : ∀ rest, sendLoop maxRetries capMs attempt (round :: rest) =
        after actions (sendLoop maxRetries capMs (attempt + 1) rest))

/-- The sleep at the end of a pass is aborted or leads to the next pass. -/
private theorem pass_of_sleep {attempt : ℕ} {round : Round α} {ms : ℚ} {actions : List Action}
    (left : (attempt : ℚ) < maxRetries) (short : Modest capMs actions)
    (long : Modest capMs (actions ++ [Action.sleep ms]))
    (runs : ∀ rest, sendLoop maxRetries capMs attempt (round :: rest) =
      after actions (sleepOrAbort ms round.sleep (sendLoop maxRetries capMs (attempt + 1) rest))) :
    Pass maxRetries capMs attempt round := by
  cases ends : round.sleep with
  | abortedBefore =>
    refine .settles actions .threwAborted short fun rest => ?_
    rw [runs, ends, sleepOrAbort, after, List.append_nil]
  | abortedWithin =>
    refine .settles (actions ++ [Action.sleep ms]) .threwAborted long fun rest => ?_
    rw [runs, ends, sleepOrAbort, after]
  | completed =>
    refine .repeats (actions ++ [Action.sleep ms]) long left fun rest => ?_
    rw [runs, ends, sleepOrAbort, after, after, List.append_assoc, List.singleton_append]

private theorem pass (maxRetries capMs : ℚ) (attempt : ℕ) (round : Round α) :
    Pass maxRetries capMs attempt round := by
  by_cases aborted : round.abortedBefore = true
  · exact .settles [] .threwAborted modest_nil fun rest => by rw [sendLoop, if_pos aborted]
  cases settled : round.outcome with
  | error error =>
    by_cases stop : (round.abortedAfter || isAbortError error) = true
    · refine .settles [.send] (.threw error) modest_send fun rest => ?_
      simp only [sendLoop, aborted, settled, stop, if_true, if_false, Bool.false_eq_true]
    by_cases last : (decide (maxRetries ≤ attempt) || !isRetryableTransportError error) = true
    · refine .settles [.send] (.threw error) modest_send fun rest => ?_
      simp only [sendLoop, aborted, settled, stop, last, if_true, if_false, Bool.false_eq_true]
    have left : (attempt : ℚ) < maxRetries := by
      rw [Bool.or_eq_true, decide_eq_true_eq, not_or, not_le] at last
      exact last.1
    refine pass_of_sleep left modest_send (modest_sleep (backoffDelayMs_le attempt 0 round.draw)) fun rest => ?_
    simp only [sendLoop, aborted, settled, stop, last, if_false, Bool.false_eq_true]
  | ok response =>
    by_cases final : (!isRetryableStatus response.status) = true
    · refine .settles [.send] (.returned response) modest_send fun rest => ?_
      simp only [sendLoop, aborted, settled, final, if_true, if_false, Bool.false_eq_true]
    by_cases last : maxRetries ≤ attempt
    · refine .settles [.send] (.returned response) modest_send fun rest => ?_
      simp only [sendLoop, aborted, settled, final, last, if_true, if_false, Bool.false_eq_true]
    by_cases long : capMs < ((retryAfterMs response).getD 0 : ℕ) ∧ 0 < capMs
    · refine .settles [.send] (.threwDelayTooLong ((retryAfterMs response).getD 0) capMs) modest_send fun rest => ?_
      simp only [sendLoop, aborted, settled, final, last, long, and_self, if_true, if_false, Bool.false_eq_true]
    refine pass_of_sleep (not_le.mp last) modest_cancel
      (modest_cancel_sleep (backoffDelayMs_le attempt ((retryAfterMs response).getD 0) round.draw)) fun rest => ?_
    simp only [sendLoop, aborted, settled, final, last, long, if_false, Bool.false_eq_true]

private theorem retries_left {attempt : ℕ} (left : (attempt : ℚ) < maxRetries) : attempt < ⌈maxRetries⌉₊ :=
  Nat.lt_ceil.mpr left

private theorem sends_append (first second : List Action) : sends (first ++ second) = sends first + sends second :=
  List.count_append ..

private theorem sends_le (attempt : ℕ) (rounds : List (Round α)) :
    sends (sendLoop maxRetries capMs attempt rounds).1 ≤ ⌈maxRetries⌉₊ - attempt + 1 := by
  induction rounds generalizing attempt with
  | nil => exact Nat.zero_le _
  | cons round rest ih =>
    cases pass maxRetries capMs attempt round with
    | settles actions settled modest runs =>
      rw [runs]
      exact modest.sends_le.trans (Nat.le_add_left 1 _)
    | repeats actions modest left runs =>
      have one := modest.sends_le
      have more := ih (attempt + 1)
      have := retries_left left
      rw [runs, after, sends_append]
      omega

private theorem sleep_le (attempt : ℕ) (rounds : List (Round α)) {ms : ℚ}
    (slept : .sleep ms ∈ (sendLoop maxRetries capMs attempt rounds).1) : ms ≤ max capMs 1 := by
  induction rounds generalizing attempt with
  | nil => exact absurd slept List.not_mem_nil
  | cons round rest ih =>
    cases pass maxRetries capMs attempt round with
    | settles actions settled modest runs =>
      rw [runs] at slept
      exact modest.sleep_le ms slept
    | repeats actions modest left runs =>
      rw [runs, after] at slept
      rcases List.mem_append.mp slept with here | there
      · exact modest.sleep_le ms here
      · exact ih (attempt + 1) there

private theorem settles (attempt : ℕ) (rounds : List (Round α)) (enough : ⌈maxRetries⌉₊ < attempt + rounds.length)
    (started : attempt ≤ ⌈maxRetries⌉₊) : (sendLoop maxRetries capMs attempt rounds).2 ≠ none := by
  induction rounds generalizing attempt with
  | nil => exact absurd enough (by simpa using started)
  | cons round rest ih =>
    cases pass maxRetries capMs attempt round with
    | settles actions settled modest runs =>
      rw [runs]
      exact Option.some_ne_none settled
    | repeats actions modest left runs =>
      rw [runs, after]
      apply ih (attempt + 1) _ (retries_left left)
      rw [List.length_cons] at enough
      omega

/-- A call that has not settled goes on with the next attempt. -/
private theorem sendLoop_append (attempt : ℕ) (before later : List (Round α))
    (going : (sendLoop maxRetries capMs attempt before).2 = none) :
    sendLoop maxRetries capMs attempt (before ++ later) =
      after (sendLoop maxRetries capMs attempt before).1
        (sendLoop maxRetries capMs (attempt + before.length) later) := by
  induction before generalizing attempt with
  | nil => rfl
  | cons round rest ih =>
    cases pass maxRetries capMs attempt round with
    | settles actions settled modest runs =>
      rw [runs] at going
      exact absurd going (Option.some_ne_none settled)
    | repeats actions modest left runs =>
      rw [runs, after] at going
      rw [List.cons_append, runs, runs, ih _ going, List.length_cons, Nat.add_assoc, Nat.add_comm 1]
      simp only [after, List.append_assoc]

/-- An outcome that must not be repeated is handed on at once. -/
private theorem sendLoop_final {attempt : ℕ} {round : Round α} (sent : round.abortedBefore = false)
    (final : mustNotRepeat round.outcome = true) (rest : List (Round α)) :
    sendLoop maxRetries capMs attempt (round :: rest) = ([.send], some (handOn round.outcome)) := by
  cases settled : round.outcome with
  | error error =>
    rw [settled, mustNotRepeat] at final
    simp only [sendLoop, sent, settled, final, handOn, Bool.or_true, if_true, if_false, Bool.false_eq_true, ite_self]
  | ok response =>
    rw [settled, mustNotRepeat] at final
    simp only [sendLoop, sent, settled, final, handOn, if_true, if_false, Bool.false_eq_true]

/-- A hint beyond the cap ends the call at once. -/
private theorem sendLoop_hint {attempt : ℕ} {round : Round α} {response : Response α} {requestedMs : ℕ}
    (sent : round.abortedBefore = false) (settled : round.outcome = .ok response)
    (hint : retryAfterMs response = some requestedMs) (beyond : 0 < capMs ∧ capMs < requestedMs)
    (rest : List (Round α)) :
    sendLoop maxRetries capMs attempt (round :: rest) = ([.send],
      some (if maxRetries ≤ attempt ∨ isRetryableStatus response.status = false then .returned response
        else .threwDelayTooLong requestedMs capMs)) := by
  cases retryable : isRetryableStatus response.status with
  | false => simp [sendLoop, sent, settled, retryable]
  | true =>
    by_cases last : maxRetries ≤ attempt
    · simp [sendLoop, sent, settled, retryable, last]
    · simp [sendLoop, sent, settled, retryable, last, hint, beyond]

end Loop

private theorem isRetryableStatus_of_success {status : ℕ} (success : 200 ≤ status ∧ status < 300) :
    isRetryableStatus status = false := by
  simp only [isRetryableStatus, Bool.or_eq_false_iff, beq_eq_false_iff_ne, Bool.and_eq_false_iff, decide_eq_false_iff_not]
  omega

end PieAgent.Soundness.BoundedRetry
