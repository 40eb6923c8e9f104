import PieAgent.Proofs.Triggers.TriggerRuntime

/-! # The dedup window

Of the arrivals of one key, those that are admitted are more than the window apart, and every arrival
within the window of an admitted one is suppressed. What is reported for a suppressed arrival is decided
by the policy of the admitted one. There are no counters for single keys.
-/

namespace PieAgent.Soundness

open JavaScript Model Proofs TriggerRuntime

/-- The arrivals of a key that were suppressed as duplicates. -/
def suppressedArrivals (config : TriggerRuntimeConfig) (triggers : List Trigger) (key : JsString) : ℕ :=
  (triggers.zip (outcomes (TriggerRuntime.new config) triggers)).countP fun (trigger, outcome) =>
    trigger.idempotencyKey = key && isDeduped outcome

variable {config : TriggerRuntimeConfig} {triggers before between seen : List Trigger} {first second trigger : Trigger}

private theorem chronological_front (rest : List Trigger) (chronological : Chronological triggers)
    (split : triggers = seen ++ trigger :: rest) : Chronological (seen ++ [trigger]) := by
  rw [split, ← List.singleton_append, ← List.append_assoc] at chronological
  exact chronological.of_append

/-- An arrival within the window of an admitted trigger with its key is a duplicate. -/
private theorem deduped_of_within (chronological : Chronological (before ++ first :: between ++ [second]))
    (sameKey : first.idempotencyKey = second.idempotencyKey) (accepted : outcomeAfter config before first = .accept)
    (within : second.instant ≤ first.instant + window config) :
    ∃ policy previous, outcomeAfter config (before ++ first :: between) second = .deduped policy previous := by
  have earlier : ∀ later ∈ between, later.instant ≤ second.instant := by
    intro later member
    exact (List.pairwise_append.mp chronological.ordered).2.2 later
      (List.mem_append_right _ (List.mem_cons_of_mem _ member)) second (List.mem_singleton_self _)
  obtain ⟨entry, received, known, instant, later⟩ := @known_of_governs config _ chronological.of_append _ _ _
    ⟨rfl, accepted, fun later member => Int.le_trans (earlier later member) within⟩
  refine ⟨entry.replacementPolicy, entry.traceId, outcome_of_prune ?_⟩
  rw [dedup_prune, ← sameKey, known, chronological.parseable_last, config_after]
  apply Option.filter_some_pos
  rw [instant, Bool.not_eq_true', ← Bool.not_eq_true, isExpired_some]
  exact Int.not_lt.mpr (Int.le_trans within (Int.add_le_add_right later _))

/-- What is reported for a duplicate. -/
private theorem reported_of_deduped (chronological : Chronological (seen ++ [trigger])) {policy : ReplacementPolicy}
    {previous : JsString} (duplicate : outcomeAfter config seen trigger = .deduped policy previous) :
    ∃ before first between, seen = before ++ first :: between ∧ outcomeAfter config before first = .accept ∧
      first.idempotencyKey = trigger.idempotencyKey ∧ trigger.instant ≤ first.instant + window config ∧
      policy = first.replacementPolicy ∧ previous = (keptEntry first between).traceId := by
  obtain ⟨prev, alive, same⟩ | ⟨_, ⟨_, _, _, same⟩ | ⟨_, same⟩⟩ := evaluate_cases (after config seen) trigger
  · rw [dedup_prune, Option.filter_eq_some_iff, chronological.parseable_last, config_after] at alive
    obtain ⟨found, alive⟩ := alive
    obtain ⟨before, first, between, governs, isKey, rfl⟩ := exists_governs chronological.of_append found
    rw [outcomeAfter, same] at duplicate
    cases duplicate
    refine ⟨before, first, between, governs.split, governs.accepted, isKey, ?_, rfl, rfl⟩
    rw [Bool.not_eq_true', ← Bool.not_eq_true, keptEntry, isExpired_some] at alive
    exact Int.not_lt.mp alive
  · rw [outcomeAfter, same] at duplicate
    cases duplicate
  · rw [outcomeAfter, same] at duplicate
    cases duplicate

/-- For triggers whose instants can be parsed and never decrease: admitted triggers with one key are more than
the window apart, the duplicates are exactly the arrivals within the window of an admitted trigger with their
key, each is reported with the policy of that trigger and, under `latest_replaces`, the trace of the last arrival
with the key before it, else the trace of that trigger, and their number is counted until the counter saturates. -/
theorem evaluate_dedups (config : TriggerRuntimeConfig) (chronological : Chronological triggers) :
    (∀ before first between second rest, triggers = before ++ first :: (between ++ second :: rest) →
      first.idempotencyKey = second.idempotencyKey → outcomeAfter config before first = .accept →
        (outcomeAfter config (before ++ first :: between) second = .accept →
          first.instant + window config < second.instant) ∧
        (second.instant ≤ first.instant + window config →
          ∃ policy previous, outcomeAfter config (before ++ first :: between) second = .deduped policy previous)) ∧
      (∀ seen duplicate rest policy previous, triggers = seen ++ duplicate :: rest →
        outcomeAfter config seen duplicate = .deduped policy previous →
          ∃ before first between, seen = before ++ first :: between ∧ outcomeAfter config before first = .accept ∧
            first.idempotencyKey = duplicate.idempotencyKey ∧ duplicate.instant ≤ first.instant + window config ∧
            policy = first.replacementPolicy ∧
            previous = (if first.replacementPolicy = .latestReplaces then latestWithKey first between else first).traceId) ∧
      (after config triggers).dedupedTotal =
        Nat.min ((outcomes (TriggerRuntime.new config) triggers).countP isDeduped) maxSafeInteger := by
  refine ⟨?_, ?_, ?_⟩
  · intro before first between second rest split sameKey accepted
    have front : Chronological (before ++ first :: between ++ [second]) :=
      chronological_front rest chronological (by rw [split]; simp)
    have within := deduped_of_within front sameKey accepted
    refine ⟨?_, within⟩
    intro again
    by_contra inside
    obtain ⟨policy, previous, duplicate⟩ := within (Int.not_lt.mp inside)
    cases again.symm.trans duplicate
  · intro seen duplicate rest policy previous split outcome
    obtain ⟨before, first, between, rest⟩ := reported_of_deduped (chronological_front rest chronological split) outcome
    refine ⟨before, first, between, ?_⟩
    rw [apply_ite Trigger.traceId]
    exact rest
  · rw [← Nat.zero_add (List.countP _ _)]
    exact dedupedTotal_foldl triggers (TriggerRuntime.new config) (Nat.zero_le _)

/-- A local trigger with the given key, policy and instant. -/
private def keyedTrigger (key : String) (replacementPolicy : ReplacementPolicy) (millis : ℤ) : Trigger where
  source := .local (js "cron")
  sourceKind := .local
  sourceLabel := js "cron"
  eventLabel := js "tick"
  payloadVisibility := .local
  payloadSummary := none
  idempotencyKey := js key
  replacementPolicy
  traceId := js key
  authority := ⟨js "p", js "p", .user, [], none⟩
  receivedAt := ⟨js "t", some millis⟩

private theorem chronological_keyed :
    Chronological [keyedTrigger "a" .drop 0, keyedTrigger "b" .drop 1, keyedTrigger "a" .drop 2] := ⟨by decide, by decide⟩

/-- The law applied to a duplicate within the window. -/
theorem evaluate_dedups_keyed :
    (after {} [keyedTrigger "a" .drop 0, keyedTrigger "b" .drop 1, keyedTrigger "a" .drop 2]).dedupedTotal =
      Nat.min ((outcomes (TriggerRuntime.new {})
        [keyedTrigger "a" .drop 0, keyedTrigger "b" .drop 1, keyedTrigger "a" .drop 2]).countP isDeduped) maxSafeInteger :=
  (evaluate_dedups {} chronological_keyed).2.2

/-- The runtime does not hold the number of suppressed arrivals of each key. -/
theorem no_counters_per_key :
    ¬ ∃ counter : TriggerRuntime → JsString → ℕ, ∀ triggers, Chronological triggers → ∀ key,
      counter (after {} triggers) key = suppressedArrivals {} triggers key := by
  rintro ⟨counter, counts⟩
  have first := counts [keyedTrigger "a" .drop 0, keyedTrigger "b" .drop 0, keyedTrigger "a" .drop 0]
    ⟨by decide, by decide⟩ (js "a")
  have second := counts [keyedTrigger "a" .drop 0, keyedTrigger "b" .drop 0, keyedTrigger "b" .drop 0]
    ⟨by decide, by decide⟩ (js "a")
  have same : after {} [keyedTrigger "a" .drop 0, keyedTrigger "b" .drop 0, keyedTrigger "a" .drop 0] =
      after {} [keyedTrigger "a" .drop 0, keyedTrigger "b" .drop 0, keyedTrigger "b" .drop 0] := by decide
  rw [same, second] at first
  exact absurd first (by decide)

end PieAgent.Soundness
