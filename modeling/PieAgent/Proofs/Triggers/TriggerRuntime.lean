import PieAgent.Model.Triggers.TriggerRuntime

/-! # What one evaluation does to the registries

An evaluation collapses, suppresses or admits its trigger after both registries are pruned. From these
three cases follow what the dedup registry holds of a key after any sequence of triggers, and how the hop
count of a trace grows from one admitted trigger to the next.
-/

namespace PieAgent.Proofs

open JavaScript PieAgent.Model TriggerRuntime

variable {config : TriggerRuntimeConfig} {runtime : TriggerRuntime} {trigger : Trigger} {seen : List Trigger}

/-- The window that a runtime applies. -/
def window (config : TriggerRuntimeConfig) : ℤ := (TriggerRuntime.new config).runtimeConfig.dedupWindowMs

section Evaluate

/-- The three outcomes of an evaluation. -/
theorem evaluate_cases (runtime : TriggerRuntime) (trigger : Trigger) :
    let pruned := runtime.prune trigger.receivedAt.millis
    (∃ prev, pruned.dedup.get? trigger.idempotencyKey = some prev ∧
        runtime.evaluate trigger = pruned.collapse trigger prev) ∨
      (pruned.dedup.get? trigger.idempotencyKey = none ∧
        ((∃ existing, pruned.cycle.get? trigger.traceId = some existing ∧
            runtime.runtimeConfig.cycleHopLimit ≤ existing.hopCount ∧
            runtime.evaluate trigger = pruned.suppress existing) ∨
          ((∀ existing, pruned.cycle.get? trigger.traceId = some existing →
              (existing.hopCount : ℤ) < runtime.runtimeConfig.cycleHopLimit) ∧
            runtime.evaluate trigger = pruned.admitTrigger trigger))) := by
  intro pruned
  simp only [evaluate]
  cases known : pruned.dedup.get? trigger.idempotencyKey with
  | some prev => exact .inl ⟨prev, rfl, rfl⟩
  | none =>
    refine .inr ⟨rfl, ?_⟩
    cases hops : pruned.cycle.get? trigger.traceId with
    | none => exact .inr ⟨fun _ held => (by cases held), rfl⟩
    | some existing =>
      by_cases used : runtime.runtimeConfig.cycleHopLimit ≤ existing.hopCount
      · exact .inl ⟨existing, rfl, used, if_pos used⟩
      · refine .inr ⟨?_, if_neg used⟩
        rintro _ ⟨⟩
        exact Int.not_le.mp used

@[simp] theorem config_evaluate (runtime : TriggerRuntime) (trigger : Trigger) :
    (runtime.evaluate trigger).1.runtimeConfig = runtime.runtimeConfig := by
  obtain ⟨_, _, same⟩ | ⟨_, ⟨_, _, _, same⟩ | ⟨_, same⟩⟩ := evaluate_cases runtime trigger
  · rw [same]
    rfl
  · rw [same]
    rfl
  · rw [same]
    rfl

theorem after_concat (config : TriggerRuntimeConfig) (seen : List Trigger) (trigger : Trigger) :
    after config (seen ++ [trigger]) = ((after config seen).evaluate trigger).1 := by
  simp [after]

theorem config_after (config : TriggerRuntimeConfig) (seen : List Trigger) :
    (after config seen).runtimeConfig = (TriggerRuntime.new config).runtimeConfig := by
  induction seen using List.reverseRecOn with
  | nil => rfl
  | append_singleton seen trigger ih => rw [after_concat, config_evaluate, ih]

end Evaluate

section Prune

variable {nowMs : Option ℤ} {key trace : JsString}

theorem dedup_prune : (runtime.prune nowMs).dedup.get? key =
    (runtime.dedup.get? key).filter fun entry => !isExpired runtime.runtimeConfig.dedupWindowMs nowMs entry.receivedAtMs :=
  JsMap.get?_filter ..

theorem cycle_prune : (runtime.prune nowMs).cycle.get? trace =
    (runtime.cycle.get? trace).filter fun entry => !isExpired runtime.runtimeConfig.dedupWindowMs nowMs entry.lastSeenAtMs :=
  JsMap.get?_filter ..

theorem isExpired_some {windowMs now entry : ℤ} : isExpired windowMs (some now) (some entry) = true ↔ entry + windowMs < now := by
  simp only [isExpired, decide_eq_true_eq]
  omega

end Prune

section DedupStep

variable {key : JsString} {entry prev : DedupEntry}

/-- A known entry after another arrival. -/
def afterArrival (prev : DedupEntry) (key : JsString) (trigger : Trigger) : DedupEntry :=
  if trigger.idempotencyKey = key ∧ prev.replacementPolicy = .latestReplaces then
    { prev with traceId := trigger.traceId }
  else prev

private theorem afterArrival_of_ne (differ : key ≠ trigger.idempotencyKey) : afterArrival prev key trigger = prev := by
  apply if_neg
  rintro ⟨same, _⟩
  exact differ same.symm

theorem receivedAtMs_afterArrival : (afterArrival prev key trigger).receivedAtMs = prev.receivedAtMs := by
  unfold afterArrival
  split
  · rfl
  · rfl

private theorem get?_collapse {pruned : TriggerRuntime} (found : pruned.dedup.get? trigger.idempotencyKey = some prev)
    (key : JsString) :
    (pruned.collapse trigger prev).1.dedup.get? key = (pruned.dedup.get? key).map (afterArrival · key trigger) := by
  by_cases replaces : prev.replacementPolicy = .latestReplaces
  · rw [collapse, if_pos replaces]
    by_cases same : key = trigger.idempotencyKey
    · subst same
      rw [JsMap.get?_set_self, found]
      simp [afterArrival, replaces]
    · rw [JsMap.get?_set_of_ne _ _ same]
      simp [afterArrival_of_ne same]
  · rw [collapse, if_neg replaces]
    by_cases same : key = trigger.idempotencyKey
    · subst same
      rw [found]
      simp [afterArrival, replaces]
    · simp [afterArrival_of_ne same]

/-- What an evaluation leaves in the dedup registry is the entry of the admitted trigger or an older one. -/
theorem get?_dedup_evaluate (known : (runtime.evaluate trigger).1.dedup.get? key = some entry) :
    (trigger.idempotencyKey = key ∧ (runtime.evaluate trigger).2 = .accept ∧
        entry = ⟨trigger.receivedAt.millis, trigger.replacementPolicy, trigger.traceId⟩) ∨
      ∃ prev, (runtime.prune trigger.receivedAt.millis).dedup.get? key = some prev ∧
        entry = afterArrival prev key trigger := by
  obtain ⟨prev, found, same⟩ | ⟨fresh, ⟨existing, _, _, same⟩ | ⟨_, same⟩⟩ := evaluate_cases runtime trigger
  · rw [same, get?_collapse found] at known
    obtain ⟨prev, older, rfl⟩ := Option.map_eq_some_iff.mp known
    exact .inr ⟨prev, older, rfl⟩
  · rw [same] at known
    have differ : key ≠ trigger.idempotencyKey := by
      rintro rfl
      cases known.symm.trans fresh
    exact .inr ⟨entry, known, (afterArrival_of_ne differ).symm⟩
  · rw [same] at known ⊢
    by_cases isKey : key = trigger.idempotencyKey
    · subst isKey
      have set := known.symm.trans (JsMap.get?_set_self ..)
      cases set
      exact .inl ⟨rfl, rfl, rfl⟩
    · have older := known.symm.trans (JsMap.get?_set_of_ne _ _ isKey)
      exact .inr ⟨entry, older.symm, (afterArrival_of_ne isKey).symm⟩

/-- An entry that survives the pruning keeps its instant. -/
theorem get?_dedup_of_prune (alive : (runtime.prune trigger.receivedAt.millis).dedup.get? key = some prev) :
    ∃ entry, (runtime.evaluate trigger).1.dedup.get? key = some entry ∧ entry.receivedAtMs = prev.receivedAtMs := by
  obtain ⟨first, found, same⟩ | ⟨fresh, ⟨existing, _, _, same⟩ | ⟨_, same⟩⟩ := evaluate_cases runtime trigger
  · refine ⟨afterArrival prev key trigger, ?_, receivedAtMs_afterArrival⟩
    rw [same, get?_collapse found, alive]
    rfl
  · exact ⟨prev, by rw [same]; exact alive, rfl⟩
  · have differ : key ≠ trigger.idempotencyKey := by
      rintro rfl
      cases alive.symm.trans fresh
    refine ⟨prev, ?_, rfl⟩
    rw [same]
    exact (JsMap.get?_set_of_ne _ _ differ).trans alive

/-- A key that survives the pruning is never evaluated otherwise than as a duplicate. -/
theorem outcome_of_prune (alive : (runtime.prune trigger.receivedAt.millis).dedup.get? trigger.idempotencyKey = some prev) :
    (runtime.evaluate trigger).2 = .deduped prev.replacementPolicy prev.traceId := by
  obtain ⟨first, found, same⟩ | ⟨fresh, _⟩ := evaluate_cases runtime trigger
  · rw [same]
    cases found.symm.trans alive
    rfl
  · cases fresh.symm.trans alive

/-- An admitted trigger leaves its entry. -/
theorem get?_dedup_of_accept (accepted : (runtime.evaluate trigger).2 = .accept) :
    (runtime.evaluate trigger).1.dedup.get? trigger.idempotencyKey =
      some ⟨trigger.receivedAt.millis, trigger.replacementPolicy, trigger.traceId⟩ := by
  obtain ⟨_, _, same⟩ | ⟨_, ⟨_, _, _, same⟩ | ⟨_, same⟩⟩ := evaluate_cases runtime trigger
  · rw [same] at accepted
    cases accepted
  · rw [same] at accepted
    cases accepted
  · rw [same]
    exact JsMap.get?_set_self ..

end DedupStep

section Dedup

/-- Every instant can be parsed, and none is before an earlier one. -/
structure Chronological (triggers : List Trigger) : Prop where
  parseable : ∀ trigger ∈ triggers, trigger.receivedAt.millis = some trigger.instant
  ordered : triggers.Pairwise fun earlier later => earlier.instant ≤ later.instant

theorem Chronological.of_append {front back : List Trigger} (chronological : Chronological (front ++ back)) :
    Chronological front where
  parseable trigger member := chronological.parseable trigger (List.mem_append_left _ member)
  ordered := (List.pairwise_append.mp chronological.ordered).1

theorem Chronological.parseable_last (chronological : Chronological (seen ++ [trigger])) :
    trigger.receivedAt.millis = some trigger.instant :=
  chronological.parseable trigger (List.mem_append_right _ (List.mem_singleton_self _))

/-- The last of these triggers that has the key of the first one. -/
def latestWithKey (first : Trigger) (between : List Trigger) : Trigger :=
  (between.filter fun later => later.idempotencyKey = first.idempotencyKey).getLastD first

/-- The entry that an admitted trigger leaves behind after the triggers that follow it. -/
def keptEntry (first : Trigger) (between : List Trigger) : DedupEntry where
  receivedAtMs := some first.instant
  replacementPolicy := first.replacementPolicy
  traceId := if first.replacementPolicy = .latestReplaces then (latestWithKey first between).traceId else first.traceId

theorem keptEntry_concat (first : Trigger) (between : List Trigger) (trigger : Trigger) :
    keptEntry first (between ++ [trigger]) = afterArrival (keptEntry first between) first.idempotencyKey trigger := by
  by_cases same : trigger.idempotencyKey = first.idempotencyKey
  · by_cases replaces : first.replacementPolicy = .latestReplaces
    · simp [keptEntry, afterArrival, latestWithKey, same, replaces]
    · simp [keptEntry, afterArrival, replaces]
  · simp [keptEntry, afterArrival, latestWithKey, same]

/-- An admitted trigger in a sequence and the triggers after it, all of them within its window. -/
structure Governs (config : TriggerRuntimeConfig) (seen before : List Trigger) (first : Trigger)
    (between : List Trigger) : Prop where
  split : seen = before ++ first :: between
  accepted : outcomeAfter config before first = .accept
  within : ∀ later ∈ between, later.instant ≤ first.instant + window config

private theorem not_expired_iff {runtimeEntry now : ℤ} :
    (!isExpired (window config) (some now) (some runtimeEntry)) = true ↔ now ≤ runtimeEntry + window config := by
  rw [Bool.not_eq_true', ← Bool.not_eq_true, isExpired_some]
  exact Int.not_lt

/-- What the registry holds of a key was left by an admitted trigger whose window is still open. -/
theorem exists_governs (chronological : Chronological seen) {key : JsString} {entry : DedupEntry}
    (known : (after config seen).dedup.get? key = some entry) :
    ∃ before first between, Governs config seen before first between ∧ first.idempotencyKey = key ∧
      entry = keptEntry first between := by
  induction seen using List.reverseRecOn generalizing entry with
  | nil => cases known
  | append_singleton seen trigger ih =>
    have now := chronological.parseable_last
    rw [after_concat] at known
    obtain ⟨isKey, accepted, rfl⟩ | ⟨prev, alive, rfl⟩ := get?_dedup_evaluate known
    · refine ⟨seen, trigger, [], ⟨rfl, accepted, List.forall_mem_nil _⟩, isKey, ?_⟩
      simp [keptEntry, latestWithKey, now]
    · rw [dedup_prune, Option.filter_eq_some_iff, now, config_after] at alive
      obtain ⟨found, alive⟩ := alive
      obtain ⟨before, first, between, governs, rfl, rfl⟩ := ih chronological.of_append found
      refine ⟨before, first, between ++ [trigger], ⟨?_, governs.accepted, ?_⟩, rfl, (keptEntry_concat ..).symm⟩
      · rw [governs.split, List.append_assoc, List.cons_append]
      · intro later member
        rcases List.mem_append.mp member with earlier | last
        · exact governs.within later earlier
        · obtain rfl := List.mem_singleton.mp last
          exact (not_expired_iff).mp alive

/-- As long as the window of an admitted trigger is open, the registry knows its key. -/
theorem known_of_governs (chronological : Chronological seen) {before between : List Trigger} {first : Trigger}
    (governs : Governs config seen before first between) :
    ∃ entry received, (after config seen).dedup.get? first.idempotencyKey = some entry ∧
      entry.receivedAtMs = some received ∧ first.instant ≤ received := by
  induction between using List.reverseRecOn generalizing seen with
  | nil =>
    obtain ⟨rfl, accepted, _⟩ := governs
    refine ⟨⟨first.receivedAt.millis, first.replacementPolicy, first.traceId⟩, first.instant, ?_,
      chronological.parseable_last, Int.le_refl _⟩
    rw [after_concat]
    exact get?_dedup_of_accept accepted
  | append_singleton between trigger ih =>
    obtain ⟨rfl, accepted, within⟩ := governs
    rw [← List.cons_append, ← List.append_assoc] at chronological ⊢
    obtain ⟨entry, received, found, instant, later⟩ := ih chronological.of_append
      ⟨rfl, accepted, fun later member => within later (List.mem_append_left _ member)⟩
    have inside := within trigger (List.mem_append_right _ (List.mem_singleton_self _))
    have alive : ((after config (before ++ first :: between)).prune trigger.receivedAt.millis).dedup.get?
        first.idempotencyKey = some entry := by
      rw [dedup_prune, found, chronological.parseable_last, config_after]
      apply Option.filter_some_pos
      rw [instant]
      exact (not_expired_iff).mpr (by omega)
    obtain ⟨entry', known, same⟩ := get?_dedup_of_prune alive
    exact ⟨entry', received, by rw [after_concat]; exact known, by rw [same, instant], later⟩

end Dedup

section Totals

/-- The trigger was a duplicate. -/
def isDeduped : EvaluationOutcome → Bool
  | .deduped .. => true
  | _ => false

private theorem dedupedTotal_evaluate (runtime : TriggerRuntime) (trigger : Trigger) :
    (runtime.evaluate trigger).1.dedupedTotal =
      if isDeduped (runtime.evaluate trigger).2 then saturatingIncrement runtime.dedupedTotal else runtime.dedupedTotal := by
  obtain ⟨_, _, same⟩ | ⟨_, ⟨_, _, _, same⟩ | ⟨_, same⟩⟩ := evaluate_cases runtime trigger
  · rw [same]
    rfl
  · rw [same]
    rfl
  · rw [same]
    rfl

/-- The counter of duplicates counts them until it saturates. -/
theorem dedupedTotal_foldl (triggers : List Trigger) (runtime : TriggerRuntime) (small : runtime.dedupedTotal ≤ maxSafeInteger) :
    (triggers.foldl (fun runtime trigger => (runtime.evaluate trigger).1) runtime).dedupedTotal =
      Nat.min (runtime.dedupedTotal + (outcomes runtime triggers).countP isDeduped) maxSafeInteger := by
  induction triggers generalizing runtime with
  | nil => exact (Nat.min_eq_left small).symm
  | cons trigger rest ih =>
    have total := dedupedTotal_evaluate runtime trigger
    rw [List.foldl_cons, outcomes, List.countP_cons]
    cases duplicate : isDeduped (runtime.evaluate trigger).2 with
    | true =>
      rw [duplicate, if_pos rfl, saturatingIncrement] at total
      rw [ih _ (by rw [total]; split <;> omega), total, if_pos rfl]
      split
      · congr 1
        omega
      · simp only [Nat.min_def]
        split <;> split <;> omega
    | false =>
      rw [duplicate, if_neg (by decide)] at total
      rw [ih _ (by rw [total]; exact small), total, if_neg (by decide), Nat.add_zero]

end Totals

section Cycle

variable {trace : JsString}

/-- What an evaluation leaves in the cycle registry for a trace. -/
theorem get?_cycle_evaluate (runtime : TriggerRuntime) (trigger : Trigger) (trace : JsString) :
    let alive := (runtime.prune trigger.receivedAt.millis).cycle.get? trace
    ((runtime.evaluate trigger).2 = .accept ∧ trigger.traceId = trace ∧
        (∀ existing, alive = some existing → (existing.hopCount : ℤ) < runtime.runtimeConfig.cycleHopLimit) ∧
        (runtime.evaluate trigger).1.cycle.get? trace =
          some ⟨trigger.receivedAt.millis, (alive.map (·.hopCount)).getD 0 + 1⟩) ∨
      (¬ ((runtime.evaluate trigger).2 = .accept ∧ trigger.traceId = trace) ∧
        (runtime.evaluate trigger).1.cycle.get? trace = alive) := by
  intro alive
  obtain ⟨_, _, same⟩ | ⟨_, ⟨_, _, _, same⟩ | ⟨below, same⟩⟩ := evaluate_cases runtime trigger
  · rw [same]
    refine .inr ⟨?_, rfl⟩
    rintro ⟨accepted, _⟩
    cases accepted
  · rw [same]
    refine .inr ⟨?_, rfl⟩
    rintro ⟨accepted, _⟩
    cases accepted
  · by_cases isTrace : trigger.traceId = trace
    · subst isTrace
      refine .inl ⟨by rw [same]; rfl, rfl, below, ?_⟩
      rw [same]
      exact JsMap.get?_set_self ..
    · rw [same]
      refine .inr ⟨?_, ?_⟩
      · rintro ⟨_, same⟩
        exact isTrace same
      · exact JsMap.get?_set_of_ne _ _ (Ne.symm isTrace)

end Cycle

end PieAgent.Proofs
