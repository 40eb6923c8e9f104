import PieAgent.Model.Tools.FileMutationQueue

/-! # Mutations of a file are serialised

A body has started only if the promise that its call waits for is fulfilled, and that promise follows the
one before it and the release of the call before it. So the calls of one file have started in their order,
and all but the last of these have finished. The other way round, a call that still waits when no
microtask is left has an earlier call of its file in its body.
-/

namespace PieAgent.Soundness

open JavaScript Async Model Machine

variable {T : Type} {state next : MutationState T} {call other : ℕ} {key : JsString} {phase : CallPhase T}

namespace Mutations

def key? (state : MutationState T) (call : ℕ) : Option JsString := state.calls[call]?.map (·.key)

def queue? (state : MutationState T) (call : ℕ) : Option QueuePromise := state.calls[call]?.map (·.currentQueue)

def phase? (state : MutationState T) (call : ℕ) : Option (CallPhase T) := state.calls[call]?.map (·.phase)

def Finished (state : MutationState T) (call : ℕ) : Prop := ∃ outcome, phase? state call = some (.finished outcome)

/-- The two promises that the `chainedQueue` of a call follows. -/
def links (state : MutationState T) : QueuePromise → Option (QueuePromise × QueuePromise)
  | .chained call => (queue? state call).map fun queue => (queue, .next call)
  | .resolved _ | .next _ => none

/-- A call waits for nothing, all earlier calls for its file having finished, or for the last of them. -/
def Behind (state : MutationState T) (call : ℕ) (key : JsString) (queue : QueuePromise) : Prop :=
  (queue = .resolved call ∧ ∀ earlier < call, key? state earlier = some key → Finished state earlier) ∨
    ∃ last < call, queue = .chained last ∧ key? state last = some key ∧
      ∀ between, last < between → between < call → key? state between ≠ some key

structure Serial (state : MutationState T) : Prop where
  sound : state.promises.Sound (links state)
  live : state.promises.Live (links state)
  fresh : ∀ call, state.calls.length ≤ call → state.promises.fulfilled (.next call) = false ∧
    state.promises.fulfilled (.chained call) = false
  resolved : ∀ call, queue? state call = some (.resolved call) → state.promises.fulfilled (.resolved call) = true
  resumes : ∀ promise call, (promise, .resume call) ∈ state.promises.outstanding → queue? state call = some promise
  nodup : state.promises.continuations.Nodup
  waiting : ∀ call, call ∈ state.promises.continuations ↔ phase? state call = some .waiting
  started : ∀ call queue, queue? state call = some queue → phase? state call ≠ some .waiting →
    state.promises.fulfilled queue = true
  released : ∀ call, state.promises.fulfilled (.next call) = true ↔ Finished state call
  behind : ∀ call key queue, key? state call = some key → queue? state call = some queue →
    Behind state call key queue
  entry : ∀ key queue, state.fileMutationQueues.get? key = some queue →
    ∃ last, queue = .chained last ∧ key? state last = some key ∧ ¬ Finished state last ∧
      ∀ later > last, key? state later ≠ some key
  absent : ∀ key, state.fileMutationQueues.get? key = none → ∀ call, key? state call = some key →
    Finished state call

section Records

private theorem getElem?_setPhase : (state.setPhase call phase).calls[other]? =
    state.calls[other]?.map fun found => if call = other then { found with phase } else found :=
  List.getElem?_modify ..

@[simp] private theorem key?_setPhase : key? (state.setPhase call phase) other = key? state other := by
  unfold key?
  rw [getElem?_setPhase]
  cases state.calls[other]? with
  | none => rfl
  | some found => by_cases same : call = other <;> simp [same]

@[simp] private theorem queue?_setPhase : queue? (state.setPhase call phase) other = queue? state other := by
  unfold queue?
  rw [getElem?_setPhase]
  cases state.calls[other]? with
  | none => rfl
  | some found => by_cases same : call = other <;> simp [same]

private theorem phase?_setPhase (known : (phase? state call).isSome) : phase? (state.setPhase call phase) other =
    if other = call then some phase else phase? state other := by
  unfold phase? at *
  rw [getElem?_setPhase]
  by_cases same : other = call
  · subst same
    cases found : state.calls[other]? with
    | none => simp [found] at known
    | some record => simp
  · cases state.calls[other]? with
    | none => simp [same]
    | some found => simp [same, Ne.symm same]

private theorem getElem?_concat {record : MutationCall T} {records : List (MutationCall T)} :
    (records ++ [record])[other]? = if other = records.length then some record else records[other]? := by
  rcases Nat.lt_trichotomy other records.length with earlier | same | later
  · rw [if_neg (Nat.ne_of_lt earlier), List.getElem?_append_left earlier]
  · rw [if_pos same, same, List.getElem?_concat_length]
  · rw [if_neg (Nat.ne_of_gt later), List.getElem?_eq_none (Nat.le_of_lt later), List.getElem?_eq_none]
    rw [List.length_append]
    exact later

private theorem lt_of_key? (known : key? state call = some key) : call < state.calls.length := by
  obtain ⟨record, found, _⟩ := Option.map_eq_some_iff.mp known
  exact (List.getElem?_eq_some_iff.mp found).1

end Records

/-- The calls of a file have finished before a later one of them has started. -/
private theorem Serial.earlier_finished (serial : Serial state) {earlier : ℕ} (before : earlier < call)
    (first : key? state earlier = some key) (second : key? state call = some key)
    (started : phase? state call ≠ some .waiting) : Finished state earlier := by
  induction call using Nat.strongRecOn with
  | _ call ih =>
    obtain ⟨record, found, rfl⟩ := Option.map_eq_some_iff.mp second
    have queue : queue? state call = some record.currentQueue := congrArg (Option.map _) found
    rcases serial.behind call _ _ second queue with ⟨_, finished⟩ | ⟨last, isBefore, same, ofFile, none_⟩
    · exact finished earlier before first
    · obtain ⟨lastRecord, lastFound, _⟩ := Option.map_eq_some_iff.mp ofFile
      have linked : links state (.chained last) = some (lastRecord.currentQueue, .next last) := by
        rw [links, queue?, lastFound]
        rfl
      have settled := serial.started call _ queue started
      rw [same] at settled
      have lastFinished := (serial.released last).mp (serial.sound.derives _ _ _ linked settled).2
      rcases Nat.lt_trichotomy earlier last with lower | rfl | higher
      · refine ih last isBefore lower ofFile fun waits => ?_
        obtain ⟨outcome, ended⟩ := lastFinished
        cases ended.symm.trans waits
      · exact lastFinished
      · exact absurd first (none_ earlier higher before)

/-- What happens to the calls of a state whose records stay as they are. -/
private theorem Behind.mono {queue : QueuePromise} (behind : Behind state call key queue)
    (keys : ∀ other, key? next other = key? state other)
    (finished : ∀ other, Finished state other → Finished next other) : Behind next call key queue := by
  unfold Behind at *
  simp only [keys]
  exact behind.imp_left fun ⟨own, all⟩ => ⟨own, fun earlier before known => finished _ (all earlier before known)⟩

section Steps

private theorem links_congr (queues : ∀ other, queue? next other = queue? state other) : links next = links state := by
  funext promise
  cases promise <;> simp [links, queues]

/-- What a microtask does to the calls: at most it starts the body of one that waits. -/
private theorem microtask_cases (serial : Serial state) (stepped : state.step .microtask = some next) :
    ∃ promises resumed, state.promises.next? = some (promises, resumed) ∧ next.promises = promises ∧
      next.fileMutationQueues = state.fileMutationQueues ∧ next.calls.length = state.calls.length ∧
      (∀ other, key? next other = key? state other) ∧ (∀ other, queue? next other = queue? state other) ∧
      (∀ other, phase? next other = if resumed = some other then some .running else phase? state other) ∧
      ∀ other, resumed = some other → phase? state other = some .waiting := by
  obtain ⟨⟨promises, resumed⟩, ran, rfl⟩ := Option.map_eq_some_iff.mp stepped
  have once := Promises.continuations_next ran
  refine ⟨promises, resumed, ran, ?_⟩
  cases resumed with
  | none => exact ⟨rfl, rfl, rfl, fun _ => rfl, fun _ => rfl, fun _ => rfl, nofun⟩
  | some call =>
    have waits : phase? state call = some .waiting :=
      (serial.waiting call).mp (once.mem_iff.mp List.mem_cons_self)
    refine ⟨rfl, rfl, List.length_modify .., fun _ => key?_setPhase, fun _ => queue?_setPhase, fun other => ?_, ?_⟩
    · have known : (phase? state call).isSome := by simp [waits]
      refine (phase?_setPhase known).trans ?_
      by_cases same : other = call
      · rw [if_pos same, if_pos (congrArg some same.symm)]
      · rw [if_neg same, if_neg fun equal => same (Option.some.inj equal).symm]
    · rintro other ⟨⟩
      exact waits

private theorem Serial.microtask (serial : Serial state) (stepped : state.step .microtask = some next) :
    Serial next := by
  obtain ⟨promises, resumed, ran, held, queues, size, keys, waitsFor, phases, resumes⟩ := microtask_cases serial stepped
  obtain ⟨settled, free⟩ := Promises.fulfilled_next serial.sound ran
  obtain ⟨behindAwait, onlyOld⟩ := Promises.resume_next serial.sound ran
  have once := Promises.continuations_next ran
  have finished (other : ℕ) : Finished next other ↔ Finished state other := by
    unfold Finished
    rw [phases]
    split
    next same => simp [resumes other same]
    · rfl
  have linked : links next = links state := links_congr waitsFor
  refine { sound := ?_, live := ?_, fresh := ?_, resolved := ?_, resumes := ?_, nodup := ?_, waiting := ?_,
           started := ?_, released := ?_, behind := ?_, entry := ?_, absent := ?_ }
  · rw [held, linked]
    exact serial.sound.next ran
  · rw [held, linked]
    exact serial.live.next serial.sound ran
  · intro call later
    rw [size] at later
    have unmade : queue? state call = none := by simp [queue?, List.getElem?_eq_none later]
    rw [held, free (.next call) rfl, free (.chained call) (by simp [links, unmade])]
    exact serial.fresh call later
  · intro call known
    rw [held]
    exact settled _ (serial.resolved call (waitsFor call ▸ known))
  · intro promise call listed
    rw [waitsFor]
    exact serial.resumes promise call (onlyOld promise call (held ▸ listed))
  · rw [held]
    exact (List.nodup_append.mp (once.nodup_iff.mpr serial.nodup)).2.1
  · intro call
    have nodup := once.nodup_iff.mpr serial.nodup
    have before := serial.waiting call
    rw [← once.mem_iff, List.mem_append, Option.mem_toList] at before
    rw [held, phases]
    split
    next same =>
      refine iff_of_false (fun listed => ?_) (by simp)
      exact (List.nodup_append.mp nodup).2.2 call (by simp [same]) call listed rfl
    next other => simpa [other] using before
  · intro call queue known startedNow
    rw [waitsFor] at known
    rw [held]
    apply settled
    rw [phases] at startedNow
    split at startedNow
    next same =>
      obtain ⟨promise, fulfilled, listed⟩ := behindAwait call same
      cases known.symm.trans (serial.resumes promise call listed)
      exact fulfilled
    · exact serial.started call queue known startedNow
  · intro call
    rw [held, free (.next call) rfl, finished]
    exact serial.released call
  · intro call key queue known waits
    rw [keys] at known
    rw [waitsFor] at waits
    exact (serial.behind call key queue known waits).mono keys fun other => (finished other).mpr
  · intro key queue known
    rw [queues] at known
    simpa only [keys, finished] using serial.entry key queue known
  · intro key none_ call known
    rw [queues] at none_
    rw [keys] at known
    exact (finished call).mpr (serial.absent key none_ call known)

/-- What happens when a body has ended. -/
private theorem bodyEnds_cases {outcome : Except JsString T} (stepped : state.step (.bodyEnds call outcome) = some next) :
    ∃ key, key? state call = some key ∧ phase? state call = some .running ∧
      next.promises = state.promises.fulfil (.next call) ∧
      next.fileMutationQueues = (if state.fileMutationQueues.get? key = some (.chained call) then
        state.fileMutationQueues.delete key else state.fileMutationQueues) ∧
      next.calls.length = state.calls.length ∧
      (∀ other, key? next other = key? state other) ∧ (∀ other, queue? next other = queue? state other) ∧
      ∀ other, phase? next other = if other = call then some (.finished outcome) else phase? state other := by
  rw [MutationState.step] at stepped
  split at stepped
  next key queue found =>
    cases stepped
    have running : phase? state call = some .running := by simp [phase?, found]
    have known : (phase? state call).isSome := by simp [running]
    refine ⟨key, by simp [key?, found], running, ?_⟩
    unfold MutationState.finish
    split
    · exact ⟨rfl, rfl, List.length_modify .., fun _ => key?_setPhase, fun _ => queue?_setPhase,
        fun _ => phase?_setPhase known⟩
    · exact ⟨rfl, rfl, List.length_modify .., fun _ => key?_setPhase, fun _ => queue?_setPhase,
        fun _ => phase?_setPhase known⟩
  · cases stepped

private theorem Serial.bodyEnds {outcome : Except JsString T} (serial : Serial state)
    (stepped : state.step (.bodyEnds call outcome) = some next) : Serial next := by
  obtain ⟨key, ofFile, running, held, queues, size, keys, waitsFor, phases⟩ := bodyEnds_cases stepped
  have finished {other : ℕ} : Finished next other ↔ Finished state other ∨ other = call := by
    unfold Finished
    rw [phases]
    split
    next same => simp [same]
    next differ => simp [differ]
  have phaseOther {other : ℕ} : phase? next other = some .waiting ↔ phase? state other = some .waiting := by
    rw [phases]
    split
    next same => simp [same, running]
    · rfl
  have linked : links next = links state := links_congr waitsFor
  refine { sound := ?_, live := ?_, fresh := ?_, resolved := ?_, resumes := ?_, nodup := ?_, waiting := ?_,
           started := ?_, released := ?_, behind := ?_, entry := ?_, absent := ?_ }
  · rw [held, linked]
    exact serial.sound.fulfil nofun
  · rw [held, linked]
    exact fun derived source inner linked => (serial.live derived source inner linked).fulfil
  · intro other later
    rw [size] at later
    have differ : other ≠ call := fun same => absurd (lt_of_key? ofFile) (by omega)
    obtain ⟨first, second⟩ := serial.fresh other later
    rw [held, Promises.fulfilled_fulfil, Promises.fulfilled_fulfil, first, second]
    simp [differ]
  · intro other known
    rw [held]
    exact Promises.fulfilled_fulfil_of (serial.resolved other (waitsFor other ▸ known))
  · intro promise other listed
    rw [held] at listed
    rw [waitsFor]
    exact serial.resumes promise other (Promises.outstanding_fulfil.mem_iff.mp listed)
  · rw [held]
    exact Promises.continuations_fulfil.nodup_iff.mpr serial.nodup
  · intro other
    rw [held, Promises.continuations_fulfil.mem_iff, phaseOther]
    exact serial.waiting other
  · intro other queue known startedNow
    rw [waitsFor] at known
    rw [held]
    exact Promises.fulfilled_fulfil_of (serial.started other queue known fun waits => startedNow (phaseOther.mpr waits))
  · intro other
    rw [held, Promises.fulfilled_fulfil, finished, Bool.or_eq_true, serial.released, decide_eq_true_eq]
    exact or_congr_right ⟨fun same => by cases same; rfl, fun same => congrArg _ same⟩
  · intro other key queue known waits
    rw [keys] at known
    rw [waitsFor] at waits
    exact (serial.behind other key queue known waits).mono keys fun _ ended => finished.mpr (.inl ended)
  · intro key' queue known
    have kept : state.fileMutationQueues.get? key' = some queue ∧ (key' = key → queue ≠ .chained call) := by
      rw [queues] at known
      split at known
      next removed =>
        by_cases same : key' = key
        · rw [same, JsMap.get?_delete_self] at known
          cases known
        · rw [JsMap.get?_delete_of_ne _ same] at known
          exact ⟨known, fun equal => absurd equal same⟩
      next stays => exact ⟨known, fun same equal => stays (by rw [← same, known, equal])⟩
    obtain ⟨last, same, lastKey, unfinished, none_⟩ := serial.entry key' queue kept.1
    refine ⟨last, same, (keys last).trans lastKey, ?_, fun later higher => ?_⟩
    · rw [finished]
      rintro (ended | rfl)
      · exact unfinished ended
      · exact kept.2 (Option.some.inj (lastKey.symm.trans ofFile)) same
    · rw [keys]
      exact none_ later higher
  · intro key' none_ other known
    rw [keys] at known
    rw [finished]
    cases before : state.fileMutationQueues.get? key' with
    | none => exact .inl (serial.absent key' before other known)
    | some queue =>
      have removed : key' = key ∧ queue = .chained call := by
        rw [queues] at none_
        split at none_
        next removed =>
          by_cases same : key' = key
          · exact ⟨same, Option.some.inj (before.symm.trans (same ▸ removed))⟩
          · rw [JsMap.get?_delete_of_ne _ same, before] at none_
            cases none_
        · rw [before] at none_
          cases none_
      obtain ⟨last, same, lastKey, _, nothing⟩ := serial.entry key' queue before
      obtain rfl : last = call := by
        cases same.symm.trans removed.2
        rfl
      rcases Nat.lt_trichotomy other last with earlier | same | later
      · exact .inl (serial.earlier_finished earlier known lastKey (by simp [running]))
      · exact .inr same
      · exact absurd known (nothing other later)

/-- What a new call waits for, and what it leaves. -/
private theorem call_cases (state : MutationState T) (key : JsString) :
    ∃ queue promises, ((state.fileMutationQueues.get? key = some queue ∧ promises = state.promises) ∨
        (state.fileMutationQueues.get? key = none ∧ queue = .resolved state.calls.length ∧
          promises = state.promises.fulfil (.resolved state.calls.length))) ∧
      (state.withFileMutationQueue key).promises =
        (promises.subscribe queue (.follow (.chained state.calls.length) (.next state.calls.length))).subscribe queue
          (.resume state.calls.length) ∧
      (state.withFileMutationQueue key).calls = state.calls ++ [⟨key, queue, .waiting⟩] ∧
      (state.withFileMutationQueue key).fileMutationQueues =
        state.fileMutationQueues.set key (.chained state.calls.length) := by
  unfold MutationState.withFileMutationQueue
  cases known : state.fileMutationQueues.get? key with
  | some queue => exact ⟨queue, state.promises, .inl ⟨rfl, rfl⟩, rfl, rfl, rfl⟩
  | none => exact ⟨_, _, .inr ⟨rfl, rfl, rfl⟩, rfl, rfl, rfl⟩

private theorem Serial.arrive (serial : Serial state) (key : JsString) : Serial (state.withFileMutationQueue key) := by
  obtain ⟨queue, promises, source, held, calls, queues⟩ := call_cases state key
  generalize state.withFileMutationQueue key = next at *
  generalize size : state.calls.length = count at *
  have keys (other : ℕ) : key? next other = if other = count then some key else key? state other := by
    unfold key?
    rw [calls, getElem?_concat, size]
    split <;> rfl
  have waitsFor (other : ℕ) : queue? next other = if other = count then some queue else queue? state other := by
    unfold queue?
    rw [calls, getElem?_concat, size]
    split <;> rfl
  have phases (other : ℕ) : phase? next other = if other = count then some .waiting else phase? state other := by
    unfold phase?
    rw [calls, getElem?_concat, size]
    split <;> rfl
  have unmade : queue? state count = none ∧ phase? state count = none := by
    simp [queue?, phase?, List.getElem?_eq_none (Nat.le_of_eq size)]
  have bound {other : ℕ} {known : JsString} (listed : key? state other = some known) : other < count :=
    size ▸ lt_of_key? listed
  have finished {other : ℕ} : Finished next other ↔ Finished state other := by
    unfold Finished
    rw [phases]
    split
    next same => simp [same, unmade.2]
    · rfl
  have linked (promise : QueuePromise) : links next promise =
      if promise = .chained count then some (queue, .next count) else links state promise := by
    cases promise with
    | chained other =>
      by_cases same : other = count
      · simp [links, waitsFor, same]
      · simp [links, waitsFor, same]
    | resolved other | next other => rfl
  have extends_ (derived : QueuePromise) (pair : QueuePromise × QueuePromise)
      (known : links state derived = some pair) : links next derived = some pair := by
    rw [linked, if_neg, known]
    rintro rfl
    rw [links, unmade.1] at known
    cases known
  -- The promise that `Promise.resolve()` gives is fulfilled before anything waits for it.
  have base : promises.Sound (links state) ∧ promises.Live (links state) ∧
      promises.outstanding.Perm state.promises.outstanding ∧
      promises.continuations.Perm state.promises.continuations ∧
      (∀ promise, state.promises.fulfilled promise = true → promises.fulfilled promise = true) ∧
      (∀ promise, promise ≠ .resolved count → promises.fulfilled promise = state.promises.fulfilled promise) ∧
      (queue = .resolved count → promises.fulfilled queue = true) := by
    rcases source with ⟨known, rfl⟩ | ⟨_, rfl, rfl⟩
    · refine ⟨serial.sound, serial.live, List.Perm.refl _, List.Perm.refl _, fun _ settled => settled, fun _ _ => rfl, ?_⟩
      obtain ⟨last, rfl, _⟩ := serial.entry key queue known
      exact fun same => by cases same
    · refine ⟨serial.sound.fulfil (fun _ _ known => by cases known), fun derived source inner known => (serial.live _ _ _ known).fulfil,
        Promises.outstanding_fulfil, Promises.continuations_fulfil, fun _ => Promises.fulfilled_fulfil_of,
        fun promise differ => ?_, fun _ => Promises.fulfilled_fulfil_self⟩
      rw [Promises.fulfilled_fulfil, decide_eq_false differ, Bool.or_false]
  obtain ⟨sound, live, outstanding, continuations, settled, others, ready⟩ := base
  have fulfilled : next.promises.fulfilled = promises.fulfilled := by
    rw [held, Promises.fulfilled_subscribe, Promises.fulfilled_subscribe]
  have resumes : next.promises.continuations.Perm (state.promises.continuations ++ [count]) := by
    rw [held]
    refine Promises.continuations_subscribe.trans (List.Perm.append_right _ ?_)
    refine Promises.continuations_subscribe.trans ?_
    rw [Reaction.continuation?, Option.toList_none, List.append_nil]
    exact continuations
  refine { sound := ?_, live := ?_, fresh := ?_, resolved := ?_, resumes := ?_, nodup := ?_, waiting := ?_,
           started := ?_, released := ?_, behind := ?_, entry := ?_, absent := ?_ }
  · rw [held]
    refine Promises.Sound.subscribe (Promises.Sound.subscribe (sound.extend extends_ fun derived before after => ?_) ?_) ?_
    · rw [linked] at after
      split at after
      next same =>
        rw [same, others (.chained count) fun same => by cases same]
        exact (serial.fresh count (Nat.le_of_eq size)).2
      · exact absurd before after
    · exact (linked _).trans (if_pos rfl)
    · trivial
  · intro derived first inner known
    rw [linked] at known
    rw [held]
    apply Promises.Served.subscribe
    split at known
    next same =>
      cases known
      rw [same]
      exact .inr (.inl (Promises.outstanding_subscribe.mem_iff.mpr (by simp)))
    · exact (live derived first inner known).subscribe
  · intro other later
    have longer : count < other := by
      rw [calls, List.length_append, size] at later
      exact later
    rw [fulfilled, others (.next other) (fun same => by cases same), others (.chained other) fun same => by cases same]
    exact serial.fresh other (by omega)
  · intro other known
    rw [waitsFor] at known
    rw [fulfilled]
    split at known
    next same =>
      rw [same] at known ⊢
      obtain rfl := Option.some.inj known
      exact ready rfl
    · exact settled _ (serial.resolved other known)
  · intro promise other listed
    rw [held] at listed
    rw [waitsFor]
    rcases List.mem_append.mp (Promises.outstanding_subscribe.mem_iff.mp listed) with old | new
    · rcases List.mem_append.mp (Promises.outstanding_subscribe.mem_iff.mp old) with older | follow
      · have known := serial.resumes promise other (outstanding.mem_iff.mp older)
        rw [if_neg, known]
        rintro rfl
        rw [unmade.1] at known
        cases known
      · cases List.mem_singleton.mp follow
    · cases List.mem_singleton.mp new
      exact if_pos rfl
  · refine resumes.nodup_iff.mpr (List.nodup_append.mpr ⟨serial.nodup, List.nodup_singleton _, ?_⟩)
    rintro other listed _ again rfl
    rw [List.mem_singleton.mp again, serial.waiting, unmade.2] at listed
    cases listed
  · intro other
    rw [resumes.mem_iff, List.mem_append, serial.waiting, phases, List.mem_singleton]
    split
    next same => simp [same]
    next differ => simp [differ]
  · intro other queue' known startedNow
    rw [waitsFor] at known
    rw [phases] at startedNow
    rw [fulfilled]
    split at known
    next same => exact absurd (if_pos same) startedNow
    next differ =>
      rw [if_neg differ] at startedNow
      exact settled _ (serial.started other queue' known startedNow)
  · intro other
    rw [fulfilled, others (.next other) (fun same => by cases same), finished]
    exact serial.released other
  · intro other key' queue' known waits
    rw [keys] at known
    rw [waitsFor] at waits
    split at known
    next same =>
      rw [if_pos same] at waits
      cases known
      cases waits
      rw [same]
      rcases source with ⟨entry, rfl⟩ | ⟨none_, rfl, rfl⟩
      · obtain ⟨last, same', lastKey, _, nothing⟩ := serial.entry key queue entry
        have earlier := bound lastKey
        refine .inr ⟨last, earlier, same', ?_, fun between higher lower => ?_⟩
        · rw [keys, if_neg (Nat.ne_of_lt earlier)]
          exact lastKey
        · rw [keys, if_neg (Nat.ne_of_lt lower)]
          exact nothing between higher
      · refine .inl ⟨rfl, fun earlier before known => ?_⟩
        rw [keys, if_neg (Nat.ne_of_lt before)] at known
        exact finished.mpr (serial.absent key none_ earlier known)
    next differ =>
      rw [if_neg differ] at waits
      have inside := bound known
      unfold Behind
      refine (serial.behind other key' queue' known waits).imp ?_ ?_
      · rintro ⟨own, all⟩
        refine ⟨own, fun earlier before listed => ?_⟩
        rw [keys, if_neg (by omega)] at listed
        exact finished.mpr (all earlier before listed)
      · rintro ⟨last, before, own, lastKey, nothing⟩
        refine ⟨last, before, own, ?_, fun between higher lower => ?_⟩
        · rw [keys, if_neg (by omega)]
          exact lastKey
        · rw [keys, if_neg (by omega)]
          exact nothing between higher lower
  · intro key' queue' known
    rw [queues] at known
    by_cases same : key' = key
    · rw [same, JsMap.get?_set_self] at known
      cases known
      refine ⟨count, rfl, ?_, ?_, fun later higher => ?_⟩
      · rw [keys, if_pos rfl, same]
      · rw [finished, Finished, unmade.2]
        rintro ⟨_, wrong⟩
        cases wrong
      · rw [keys, if_neg (Nat.ne_of_gt higher)]
        exact fun listed => absurd (bound listed) (Nat.lt_asymm higher)
    · rw [JsMap.get?_set_of_ne _ _ same] at known
      obtain ⟨last, own, lastKey, unfinished, nothing⟩ := serial.entry key' queue' known
      refine ⟨last, own, ?_, mt finished.mp unfinished, fun later higher => ?_⟩
      · rw [keys, if_neg (Nat.ne_of_lt (bound lastKey))]
        exact lastKey
      · rw [keys]
        split
        · exact fun equal => same (Option.some.inj equal).symm
        · exact nothing later higher
  · intro key' none_ other known
    rw [queues] at none_
    have differ : key' ≠ key := by
      rintro rfl
      rw [JsMap.get?_set_self] at none_
      cases none_
    rw [JsMap.get?_set_of_ne _ _ differ] at none_
    rw [keys] at known
    split at known
    · exact absurd (Option.some.inj known).symm differ
    · exact finished.mpr (serial.absent key' none_ other known)

end Steps

private theorem Serial.step (event : MutationEvent T) (serial : Serial state) (stepped : state.step event = some next) :
    Serial next := by
  cases event with
  | call resolvedPath realpath =>
    cases stepped
    exact serial.arrive _
  | microtask => exact serial.microtask stepped
  | bodyEnds call outcome => exact serial.bodyEnds stepped

private theorem serial_initial : Serial ({} : MutationState T) where
  sound := ⟨nofun, nofun, nofun, nofun, nofun⟩
  live := nofun
  fresh _ _ := ⟨rfl, rfl⟩
  resolved := nofun
  resumes := nofun
  nodup := List.nodup_nil
  waiting _ := iff_of_false nofun nofun
  started := nofun
  released _ := iff_of_false nofun nofun
  behind := nofun
  entry := nofun
  absent := nofun

/-- When no microtask is left, a call that waits has an earlier call of its file in its body. -/
private theorem Serial.exists_running (serial : Serial state) (rest : state.promises.microtasks = [])
    (ofFile : key? state call = some key) (waits : phase? state call = some .waiting) :
    ∃ earlier < call, key? state earlier = some key ∧ phase? state earlier = some .running := by
  induction call using Nat.strongRecOn with
  | _ call ih =>
    obtain ⟨record, found, rfl⟩ := Option.map_eq_some_iff.mp ofFile
    have queue : queue? state call = some record.currentQueue := congrArg (Option.map _) found
    have idle : state.promises.fulfilled record.currentQueue = false := by
      obtain ⟨entry, listed, same⟩ := List.mem_filterMap.mp ((serial.waiting call).mpr waits)
      obtain ⟨promise, reaction⟩ := entry
      cases reaction with
      | resume continuation =>
        cases same
        cases queue.symm.trans (serial.resumes promise call listed)
        rcases Promises.mem_outstanding.mp listed with registered | scheduled
        · exact serial.sound.pending _ registered
        · rw [rest] at scheduled
          cases scheduled
      | follow derived inner | fulfil derived => cases same
    rcases serial.behind call _ _ ofFile queue with ⟨same, _⟩ | ⟨last, before, same, lastKey, _⟩
    · rw [same] at queue idle
      exact absurd ((serial.resolved call queue).symm.trans idle) nofun
    · obtain ⟨lastRecord, lastFound, _⟩ := Option.map_eq_some_iff.mp lastKey
      have lastQueue : queue? state last = some lastRecord.currentQueue := congrArg (Option.map _) lastFound
      have lastPhase : phase? state last = some lastRecord.phase := congrArg (Option.map _) lastFound
      cases phase : lastRecord.phase with
      | waiting =>
        rw [phase] at lastPhase
        obtain ⟨earlier, lower, others⟩ := ih last before lastKey lastPhase
        exact ⟨earlier, Nat.lt_trans lower before, others⟩
      | running => exact ⟨last, before, lastKey, by rw [lastPhase, phase]⟩
      | finished outcome =>
        rw [phase] at lastPhase
        have linked : links state (.chained last) = some (lastRecord.currentQueue, .next last) := by
          rw [links, lastQueue]
          rfl
        have first := serial.started last _ lastQueue (by simp [lastPhase])
        have second := (serial.released last).mpr ⟨outcome, lastPhase⟩
        have settled := serial.live.rest serial.sound rest linked first second
        rw [same] at idle
        exact absurd (settled.symm.trans idle) nofun

private theorem microtasks_run_out (state : MutationState T) : ∃ count final,
    run? MutationState.step state (List.replicate count .microtask) = some final ∧ final.promises.microtasks = [] := by
  have decreases (before after : MutationState T) (stepped : before.step .microtask = some after) :
      after.promises.work < before.promises.work := by
    obtain ⟨⟨promises, resumed⟩, ran, rfl⟩ := Option.map_eq_some_iff.mp stepped
    have less := Promises.work_next ran
    cases resumed <;> exact less
  obtain ⟨count, final, run, stuck⟩ := exists_exhausted (fun state => state.promises.work) decreases state
  refine ⟨count, final, run, ?_⟩
  have idle : final.promises.next? = none := Option.map_eq_none_iff.mp stuck
  unfold Promises.next? at idle
  split at idle
  next none_ => exact none_
  · cases idle

end Mutations

open Mutations

/-- In every run, the bodies of a file start in call order and each behind the end of the one before it, however
that one ended; no entry is left for a file whose calls have finished; and when the microtasks have run out, which
they do, every call has started whose earlier calls for the same file have finished. -/
theorem mutations_serialised {events : List (MutationEvent T)} (run : run? MutationState.step {} events = some state) :
    (∀ first second key, first < second → key? state first = some key → key? state second = some key →
      phase? state second ≠ some .waiting → Finished state first) ∧
    (∀ key, (∀ call, key? state call = some key → Finished state call) →
      state.fileMutationQueues.get? key = none) ∧
    ((∀ call < state.calls.length, Finished state call) → state.fileMutationQueues = .empty) ∧
    ∃ count rested, run? MutationState.step state (List.replicate count .microtask) = some rested ∧
      rested.promises.microtasks = [] ∧
      ∀ call key, key? rested call = some key → phase? rested call = some .waiting →
        ∃ earlier < call, key? rested earlier = some key ∧ phase? rested earlier = some .running := by
  have serial : Serial state := run?_preserves Serial (fun _ event _ serial => serial.step event) serial_initial run
  have clean (key : JsString) (all : ∀ call, key? state call = some key → Finished state call) :
      state.fileMutationQueues.get? key = none := by
    cases known : state.fileMutationQueues.get? key with
    | none => rfl
    | some queue =>
      obtain ⟨last, _, lastKey, unfinished, _⟩ := serial.entry key queue known
      exact absurd (all last lastKey) unfinished
  refine ⟨fun first second key before ofFirst ofSecond started =>
    serial.earlier_finished before ofFirst ofSecond started, clean, fun all => ?_, ?_⟩
  · have nothing : state.fileMutationQueues.entries = [] := List.eq_nil_iff_forall_not_mem.mpr fun entry listed => by
      have known := JsMap.get?_eq_some.mpr listed
      rw [clean entry.1 fun call ofFile => all call (lt_of_key? ofFile)] at known
      cases known
    cases held : state.fileMutationQueues with
    | mk entries nodup =>
      rw [held] at nothing
      cases nothing
      rfl
  · obtain ⟨count, rested, more, rest⟩ := microtasks_run_out state
    have kept : Serial rested := run?_preserves Serial (fun _ event _ serial => serial.step event) serial more
    exact ⟨count, rested, more, rest, fun call key ofFile waits => kept.exists_running rest ofFile waits⟩

/-- Two mutations of a file, the first of which fails. -/
private def twoMutations : List (MutationEvent ℕ) :=
  [.call (js "/a") (.error (js "ENOENT")), .call (js "/a") (.error (js "ENOENT")), .microtask, .microtask, .microtask,
    .bodyEnds 0 (.error (js "EACCES")), .microtask, .microtask, .microtask, .bodyEnds 1 (.ok 1)]

theorem twoMutations_serialised : ∃ state, run? MutationState.step {} twoMutations = some state ∧
    state.calls.map (·.phase) = [.finished (.error (js "EACCES")), .finished (.ok 1)] ∧
    state.fileMutationQueues = .empty :=
  ⟨_, rfl, rfl, (mutations_serialised (show run? MutationState.step {} twoMutations = some _ from rfl)).2.2.1
    fun call bound => match call, bound with
    | 0, _ => ⟨_, rfl⟩
    | 1, _ => ⟨_, rfl⟩⟩

end PieAgent.Soundness
