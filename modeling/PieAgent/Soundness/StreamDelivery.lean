import PieAgent.Model.Agent.EventStream

/-! # What a consumer of an event stream receives

A stream takes events until it is closed, by its first terminal event or by `end`. A consumer receives these
events in order and then the end of the iteration, however pushes, `end`, calls of `next` and steps of the
iterator interleave. What is pushed after `end` is dropped, a terminal event included.
-/

namespace PieAgent.Soundness

open Model

variable {T R : Type} {complete? : T → Option R}

/-- The events up to the first terminal one, or before the first `end`. -/
def acceptedEvents (complete? : T → Option R) : List (StreamOp T R) → List T
  | [] => []
  | .push event :: operations =>
    event :: if (complete? event).isSome then [] else acceptedEvents complete? operations
  | .finish _ :: _ => []
  | .next :: operations => acceptedEvents complete? operations
  | .advance :: operations => acceptedEvents complete? operations

/-- A terminal event has been pushed, or the stream has been ended. -/
def streamClosed (complete? : T → Option R) (operations : List (StreamOp T R)) : Bool :=
  operations.any fun
    | .push event => (complete? event).isSome
    | .finish _ => true
    | _ => false

/-- The first result that was given to `end`. -/
def endResult (operations : List (StreamOp T R)) : Option R :=
  operations.findSome? fun
    | .finish result => result
    | _ => none

/-- The result of the first terminal event; if `end` came before it, the first result given to `end`. -/
def settledResult (complete? : T → Option R) : List (StreamOp T R) → Option R
  | [] => none
  | .push event :: operations => (complete? event).or (settledResult complete? operations)
  | .finish result :: operations => endResult (.finish result :: operations)
  | .next :: operations => settledResult complete? operations
  | .advance :: operations => settledResult complete? operations

/-- The number of calls of `next`. -/
def nextCount (operations : List (StreamOp T R)) : ℕ :=
  operations.countP fun
    | .next => true
    | _ => false

/-- The answers to some calls of `next`: the accepted events in order, then the end, once the stream is closed. -/
def nextAnswers (accepted : List T) (closed : Bool) (calls : ℕ) : List (Option T) :=
  (accepted.take calls).map some ++ if closed then List.replicate (calls - accepted.length) none else []

/-- A stream and its consumer agree with the events accepted so far. -/
private structure Delivered (accepted : List T) (closed : Bool) (result : Option R)
    (consumer : StreamIterator T R) : Prop where
  done : consumer.stream.done = closed
  result : consumer.stream.finalResult = result
  queue : consumer.stream.queue = accepted.drop consumer.stream.pulls
  waiting : consumer.stream.waiting.length =
    if closed then 0 else consumer.stream.pulls - accepted.length
  answers : consumer.stream.answers.map Prod.snd = nextAnswers accepted closed consumer.stream.pulls
  pulls : consumer.stream.pulls ≤ accepted.length + 1 ∧ consumer.stream.pulls ≤ consumer.requests
  received : consumer.received = nextAnswers accepted closed consumer.received.length
  requests : consumer.received.length ≤ consumer.requests
  round : consumer.ended = false → consumer.received.length ≤ accepted.length ∧
    (consumer.stream.pulls = consumer.received.length ∨ consumer.stream.pulls = consumer.received.length + 1)
  ended : consumer.ended = true → closed = true ∧ accepted.length < consumer.received.length

variable {accepted : List T} {closed : Bool} {result : Option R} {consumer : StreamIterator T R} {calls more : ℕ}
  {operations : List (StreamOp T R)}

private theorem delivered_new : Delivered [] false none ({} : StreamIterator T R) := by
  constructor <;> simp [nextAnswers]

private theorem length_nextAnswers : (nextAnswers accepted closed calls).length =
    if closed then calls else min calls accepted.length := by
  cases closed
  · simp [nextAnswers]
  · simp only [nextAnswers, if_true, List.length_append, List.length_map, List.length_take, List.length_replicate]
    omega

/-- Calls that are answered with events are answered the same when the stream goes on or is closed. -/
private theorem nextAnswers_of_le (later : List T) (few : calls ≤ accepted.length) (closed' : Bool) :
    nextAnswers (accepted ++ later) closed' calls = nextAnswers accepted closed calls := by
  have before : calls - accepted.length = 0 := by omega
  have after : calls - (accepted ++ later).length = 0 := by
    rw [List.length_append]
    omega
  simp only [nextAnswers, before, after, List.take_append_of_le_length few, List.replicate_zero, ite_self]

private theorem nextAnswers_prefix (le : calls ≤ more) :
    nextAnswers accepted closed calls <+: nextAnswers accepted closed more := by
  by_cases few : calls ≤ accepted.length
  · have events : (accepted.take calls).map some <+: (accepted.take more).map (some : T → Option T) :=
      (List.take_prefix_take_left le).map some
    have none_left : calls - accepted.length = 0 := by omega
    simp only [nextAnswers, none_left, List.replicate_zero, ite_self, List.append_nil]
    exact events.trans (List.prefix_append _ _)
  · have all (count : ℕ) (le : calls ≤ count) : accepted.take count = accepted :=
      List.take_of_length_le (by omega)
    simp only [nextAnswers, all calls le_rfl, all more le]
    apply (List.prefix_append_right_inj _).mpr
    cases closed
    · exact List.prefix_refl _
    · exact ⟨List.replicate (more - calls) none, by
        simp only [if_true, List.replicate_append_replicate]
        congr 1
        omega⟩

/-- A call beyond the accepted events is answered with the next event of an open stream. -/
private theorem nextAnswers_succ (event : T) (closed' : Bool) :
    nextAnswers (accepted ++ [event]) closed' (accepted.length + 1) =
      nextAnswers accepted false (accepted.length + 1) ++ [some event] := by
  have all : (accepted ++ [event]).take (accepted.length + 1) = accepted ++ [event] :=
    List.take_of_length_le (by simp)
  simp [nextAnswers, all, List.take_of_length_le (Nat.le_succ accepted.length)]

/-- An open stream hands an event to its waiting consumer, or queues it. -/
private theorem push_open {event : T} {stream : EventStream T R} (opened : stream.done = false)
    (unsettled : stream.finalResult = none) :
    ∃ pushed, stream.push complete? event = pushed ∧ pushed.done = (complete? event).isSome ∧
      pushed.finalResult = complete? event ∧ pushed.pulls = stream.pulls ∧
      (stream.waiting.length = 0 ∧ pushed.waiting.length = 0 ∧ pushed.queue = stream.queue ++ [event] ∧
        pushed.answers = stream.answers ∨
      stream.waiting.length = pushed.waiting.length + 1 ∧ pushed.queue = stream.queue ∧
        pushed.answers.map Prod.snd = stream.answers.map Prod.snd ++ [some event]) := by
  refine ⟨_, rfl, ?_⟩
  cases terminal : complete? event <;> cases waiting : stream.waiting <;>
    simp [EventStream.push, opened, terminal, EventStream.resolve, unsettled, EventStream.deliver, waiting]

/-- A consumer that has not been told the end has received events only. -/
private theorem Delivered.received_open {later : List T} {closed' : Bool}
    (delivered : Delivered accepted closed result consumer) (opened : consumer.ended = false) :
    consumer.received = nextAnswers (accepted ++ later) closed' consumer.received.length :=
  delivered.received.trans (nextAnswers_of_le later (delivered.round opened).1 closed').symm

/-- An event pushed into an open stream. -/
private theorem Delivered.push {event : T} (delivered : Delivered accepted false none consumer) :
    Delivered (accepted ++ [event]) (complete? event).isSome (complete? event)
      { consumer with stream := consumer.stream.push complete? event } := by
  obtain ⟨pushed, same, done, settled, pulls, handed⟩ := @push_open _ _ complete? event _ delivered.done delivered.result
  have size : (accepted ++ [event]).length = accepted.length + 1 := by simp
  have waits := delivered.waiting
  obtain ⟨few, asked⟩ := delivered.pulls
  have opened : consumer.ended = false := by
    cases isEnded : consumer.ended
    · rfl
    · exact absurd (delivered.ended isEnded).1 Bool.false_ne_true
  have round := delivered.round opened
  simp only [Bool.false_eq_true, if_false] at waits
  rw [same]
  have common : pushed.queue = (accepted ++ [event]).drop pushed.pulls → pushed.waiting.length = 0 →
      pushed.answers.map Prod.snd = nextAnswers (accepted ++ [event]) (complete? event).isSome pushed.pulls →
      Delivered (accepted ++ [event]) (complete? event).isSome (complete? event)
        { consumer with stream := pushed } := fun queue waiting answers => {
    done, queue, answers
    result := settled
    waiting := by
      simp only [waiting, pulls, size]
      split <;> omega
    pulls := by
      simp only [pulls, size]
      omega
    received := delivered.received_open opened
    requests := delivered.requests
    round := fun _ => by
      simp only [pulls, size]
      omega
    ended := fun isEnded => absurd (opened.symm.trans isEnded) Bool.false_ne_true }
  rcases handed with ⟨idle, waiting, queue, answers⟩ | ⟨waiting, queue, answers⟩
  · have behind : consumer.stream.pulls ≤ accepted.length := by omega
    refine common ?_ waiting ?_
    · rw [queue, delivered.queue, pulls, List.drop_append_of_le_length behind]
    · rw [answers, pulls, nextAnswers_of_le [event] behind]
      exact delivered.answers
  · have ahead : consumer.stream.pulls = accepted.length + 1 := by omega
    refine common ?_ (by omega) ?_
    · rw [queue, delivered.queue, pulls, ahead]
      simp
    · rw [answers, delivered.answers, pulls, ahead, nextAnswers_succ]

private theorem Delivered.push_closed {event : T} (delivered : Delivered accepted true result consumer) :
    Delivered accepted true result { consumer with stream := consumer.stream.push complete? event } := by
  have same : consumer.stream.push complete? event = consumer.stream := if_pos delivered.done
  rw [same]
  exact delivered

/-- The stream is ended: waiting consumers are told. -/
private theorem Delivered.finish {given : Option R} (delivered : Delivered accepted closed result consumer) :
    Delivered accepted true (result.or given) { consumer with stream := consumer.stream.endWith given } where
  done := rfl
  result := congrArg (Option.or · given) delivered.result
  queue := delivered.queue
  waiting := rfl
  answers := by
    have waits := delivered.waiting
    have told : consumer.stream.waiting.map (fun _ => (none : Option T)) =
        List.replicate consumer.stream.waiting.length none := List.map_const' ..
    simp only [EventStream.endWith, List.map_append, List.map_map, Function.comp_def, told, delivered.answers, waits]
    cases closed <;> simp [nextAnswers]
  pulls := delivered.pulls
  received := by
    cases isEnded : consumer.ended
    · have opened := @Delivered.received_open _ _ _ _ _ _ [] true delivered isEnded
      rwa [List.append_nil] at opened
    · have received := delivered.received
      rwa [(delivered.ended isEnded).1] at received
  requests := delivered.requests
  round := delivered.round
  ended isEnded := ⟨rfl, (delivered.ended isEnded).2⟩

private theorem Delivered.next (delivered : Delivered accepted closed result consumer) :
    Delivered accepted closed result { consumer with requests := consumer.requests + 1 } :=
  { delivered with
    pulls := ⟨delivered.pulls.1, delivered.pulls.2.trans (Nat.le_succ _)⟩
    requests := delivered.requests.trans (Nat.le_succ _) }

/-- One more call is answered with the event of its turn. -/
private theorem nextAnswers_event {event : T} (turn : accepted[calls]? = some event) :
    nextAnswers accepted closed (calls + 1) = nextAnswers accepted closed calls ++ [some event] := by
  obtain ⟨few, _⟩ := List.getElem?_eq_some_iff.mp turn
  have before : calls - accepted.length = 0 := by omega
  have after : calls + 1 - accepted.length = 0 := by omega
  simp [nextAnswers, before, after, List.take_add_one, turn]

/-- One more call of a closed stream without further events is told the end. -/
private theorem nextAnswers_past (past : accepted.length ≤ calls) :
    nextAnswers accepted true (calls + 1) = nextAnswers accepted true calls ++ [none] := by
  have all (count : ℕ) (le : accepted.length ≤ count) : accepted.take count = accepted :=
    List.take_of_length_le le
  have more : calls + 1 - accepted.length = (calls - accepted.length) + 1 := by omega
  simp only [nextAnswers, all calls past, all (calls + 1) (by omega), if_true, more, List.replicate_succ',
    List.append_assoc]

/-- An answer to a further call is an event, or the end of a closed stream. -/
private theorem nextAnswers_cases {answer : Option T}
    (answered : (nextAnswers accepted closed (calls + 1))[calls]? = some answer) :
    (accepted[calls]? = answer ∧ answer.isSome = true) ∨
      (answer = none ∧ closed = true ∧ accepted.length ≤ calls) := by
  by_cases few : calls < accepted.length
  · rw [nextAnswers_event (List.getElem?_eq_getElem few), List.getElem?_append_right
      (by rw [length_nextAnswers]; split <;> omega)] at answered
    have here : calls - (nextAnswers accepted closed calls).length = 0 := by
      rw [length_nextAnswers]
      split <;> omega
    rw [here] at answered
    cases answered
    exact .inl ⟨List.getElem?_eq_getElem few, rfl⟩
  · cases closed
    · have short : (nextAnswers accepted false (calls + 1)).length ≤ calls := by
        rw [length_nextAnswers]
        simp only [Bool.false_eq_true, if_false]
        omega
      rw [List.getElem?_eq_none short] at answered
      cases answered
    · rw [nextAnswers_past (by omega), List.getElem?_append_right (by rw [length_nextAnswers]; simp)] at answered
      simp only [length_nextAnswers, if_true, Nat.sub_self, List.getElem?_cons_zero, Option.some.injEq] at answered
      exact .inr ⟨answered.symm, rfl, by omega⟩

/-- A round of the iterator takes an event, is told the end, or waits. -/
private theorem pull_cases (stream : EventStream T R) :
    ∃ pulled, stream.pull = pulled ∧ pulled.pulls = stream.pulls + 1 ∧ pulled.done = stream.done ∧
      pulled.finalResult = stream.finalResult ∧ pulled.queue = stream.queue.tail ∧
      ((∃ event, stream.queue.head? = some event ∧ pulled.waiting.length = stream.waiting.length ∧
          pulled.answers.map Prod.snd = stream.answers.map Prod.snd ++ [some event]) ∨
        (stream.queue = [] ∧ stream.done = true ∧ pulled.waiting.length = stream.waiting.length ∧
          pulled.answers.map Prod.snd = stream.answers.map Prod.snd ++ [none]) ∨
        stream.queue = [] ∧ stream.done = false ∧ pulled.waiting.length = stream.waiting.length + 1 ∧
          pulled.answers = stream.answers) := by
  refine ⟨_, rfl, ?_⟩
  cases queue : stream.queue <;> cases done : stream.done <;> simp [EventStream.pull, queue, done]

/-- A round of the iterator on a stream whose earlier rounds have been answered. -/
private theorem Delivered.pull (delivered : Delivered accepted closed result consumer)
    (opened : consumer.ended = false) (asked : consumer.received.length < consumer.requests)
    (idle : consumer.stream.pulls = consumer.received.length) :
    Delivered accepted closed result { consumer with stream := consumer.stream.pull } := by
  obtain ⟨pulled, same, pulls, isDone, settled, queue, round⟩ := pull_cases consumer.stream
  have few := (delivered.round opened).1
  have waits := delivered.waiting
  have held := delivered.queue
  have common (waiting : pulled.waiting.length = if closed then 0 else consumer.stream.pulls + 1 - accepted.length)
      (answers : pulled.answers.map Prod.snd = nextAnswers accepted closed (consumer.stream.pulls + 1)) :
      Delivered accepted closed result { consumer with stream := pulled } :=
    { delivered with
      done := isDone.trans delivered.done
      result := settled.trans delivered.result
      queue := by rw [queue, held, pulls, List.tail_drop]
      waiting := by rw [waiting, pulls]
      answers := by rw [answers, pulls]
      pulls := by
        simp only [pulls, idle]
        omega
      round := fun _ => ⟨few, .inr (by simp only [pulls, idle])⟩ }
  have all (empty : consumer.stream.queue = []) : accepted.length = consumer.stream.pulls := by
    have none_left := congrArg List.length (held.symm.trans empty)
    rw [List.length_drop, List.length_nil] at none_left
    omega
  rw [same]
  rcases round with ⟨event, head, waiting, answers⟩ | ⟨empty, done, waiting, answers⟩ | ⟨empty, done, waiting, answers⟩
  · have turn : accepted[consumer.stream.pulls]? = some event := by rw [← List.head?_drop, ← held, head]
    obtain ⟨within, _⟩ := List.getElem?_eq_some_iff.mp turn
    refine common ?_ (by rw [answers, delivered.answers, nextAnswers_event turn])
    rw [waiting, waits]
    split <;> omega
  · have isClosed : closed = true := delivered.done.symm.trans done
    subst isClosed
    refine common (waiting.trans waits) ?_
    rw [answers, delivered.answers, nextAnswers_past (all empty).le]
  · have isOpen : closed = false := delivered.done.symm.trans done
    subst isOpen
    refine common ?_ ?_
    · have none_left := all empty
      simp only [waiting, waits, Bool.false_eq_true, if_false]
      omega
    · rw [answers, delivered.answers]
      simp [nextAnswers, ← all empty, List.take_of_length_le]

/-- A step of the iterator. -/
private theorem Delivered.advance {next : StreamIterator T R} (delivered : Delivered accepted closed result consumer)
    (advanced : consumer.advance? = some next) : Delivered accepted closed result next := by
  unfold StreamIterator.advance? at advanced
  split at advanced
  next asked =>
    split at advanced
    next ended =>
      cases advanced
      obtain ⟨isClosed, past⟩ := delivered.ended ended
      have received := delivered.received
      have size : (consumer.received ++ [none]).length = consumer.received.length + 1 := by simp
      exact { delivered with
        received := by
          rw [isClosed] at received
          rw [size, isClosed, nextAnswers_past past.le, ← received]
        requests := size.le.trans asked
        round := fun opened => absurd (ended.symm.trans opened).symm Bool.false_ne_true
        ended := fun _ => ⟨isClosed, by rw [size]; omega⟩ }
    next opened =>
      have opened : consumer.ended = false := by simpa using opened
      split at advanced
      next idle =>
        cases advanced
        exact delivered.pull opened asked idle
      next busy =>
        obtain ⟨answer, answered, same⟩ := Option.map_eq_some_iff.mp advanced
        cases same
        obtain ⟨few, round⟩ := delivered.round opened
        have started : consumer.stream.pulls = consumer.received.length + 1 := by omega
        have size : (consumer.received ++ [answer.2]).length = consumer.received.length + 1 := by simp
        have given : (nextAnswers accepted closed (consumer.received.length + 1))[consumer.received.length]? =
            some answer.2 := by
          rw [← started, ← delivered.answers, List.getElem?_map, answered, Option.map_some]
        rcases nextAnswers_cases given with ⟨turn, isEvent⟩ | ⟨isEnd, isClosed, past⟩
        · obtain ⟨event, same⟩ := Option.isSome_iff_exists.mp isEvent
          rw [same] at turn
          obtain ⟨within, _⟩ := List.getElem?_eq_some_iff.mp turn
          exact { delivered with
            received := by rw [size, nextAnswers_event turn, ← delivered.received, same]
            requests := size.le.trans asked
            round := fun _ => by rw [size]; exact ⟨within, .inl started⟩
            ended := fun isEnded => by simp [same] at isEnded }
        · exact { delivered with
            received := by
              have received := delivered.received
              rw [isClosed] at received
              rw [size, isClosed, nextAnswers_past past, ← received, isEnd]
            requests := size.le.trans asked
            round := fun isOpen => by simp [isEnd] at isOpen
            ended := fun _ => ⟨isClosed, by rw [size]; omega⟩ }
  next => cases advanced

private theorem Delivered.advance_getD (delivered : Delivered accepted closed result consumer) :
    Delivered accepted closed result (consumer.advance?.getD consumer) := by
  cases advanced : consumer.advance? with
  | none => exact delivered
  | some next => exact delivered.advance advanced

/-- The operations on a closed stream. -/
private theorem Delivered.run_closed (delivered : Delivered accepted true result consumer) :
    Delivered accepted true (result.or (endResult operations))
      (operations.foldl (StreamIterator.perform complete?) consumer) := by
  induction operations generalizing result consumer with
  | nil => simpa [endResult] using delivered
  | cons operation operations ih =>
    cases operation with
    | push event => exact ih delivered.push_closed
    | finish given =>
      have ends := ih (@Delivered.finish _ _ _ _ _ _ given delivered)
      cases result <;> cases given <;> exact ends
    | next => exact ih delivered.next
    | advance => exact ih delivered.advance_getD

/-- The operations on an open stream. -/
private theorem Delivered.run (delivered : Delivered accepted false none consumer) :
    Delivered (accepted ++ acceptedEvents complete? operations) (streamClosed complete? operations)
      (settledResult complete? operations) (operations.foldl (StreamIterator.perform complete?) consumer) := by
  induction operations generalizing accepted consumer with
  | nil => simpa [acceptedEvents, streamClosed, settledResult] using delivered
  | cons operation operations ih =>
    cases operation with
    | push event =>
      have pushed := @Delivered.push _ _ complete? _ _ event delivered
      cases terminal : complete? event with
      | none =>
        rw [terminal] at pushed
        simpa [acceptedEvents, streamClosed, settledResult, terminal, StreamIterator.perform] using ih pushed
      | some given =>
        rw [terminal] at pushed
        simpa [acceptedEvents, streamClosed, settledResult, terminal, StreamIterator.perform] using pushed.run_closed
    | finish given =>
      have ends := @Delivered.run_closed _ _ complete? _ _ _ operations (@Delivered.finish _ _ _ _ _ _ given delivered)
      have results : (none.or given).or (endResult operations) = endResult (.finish given :: operations) := by
        cases given <;> rfl
      rw [results] at ends
      simpa [acceptedEvents, streamClosed, settledResult, StreamIterator.perform] using ends
    | next => exact ih delivered.next
    | advance => exact ih delivered.advance_getD

@[simp] private theorem pull_pulls (stream : EventStream T R) : stream.pull.pulls = stream.pulls + 1 := by
  obtain ⟨pulled, same, pulls, _⟩ := pull_cases stream
  rw [same, pulls]

/-- Each step of the iterator starts a round or answers a call. -/
private theorem advance?_progress {next : StreamIterator T R} (advanced : consumer.advance? = some next) :
    next.requests = consumer.requests ∧
      next.received.length + next.stream.pulls = consumer.received.length + consumer.stream.pulls + 1 := by
  unfold StreamIterator.advance? at advanced
  split at advanced
  next =>
    split at advanced
    next =>
      cases advanced
      simp only [List.length_append, List.length_singleton, true_and]
      omega
    next =>
      split at advanced
      next =>
        cases advanced
        simp only [pull_pulls, true_and]
        omega
      next =>
        obtain ⟨answer, _, same⟩ := Option.map_eq_some_iff.mp advanced
        cases same
        simp only [List.length_append, List.length_singleton, true_and]
        omega
  next => cases advanced

private theorem requests_run : (operations.foldl (StreamIterator.perform complete?) consumer).requests =
    consumer.requests + nextCount operations := by
  induction operations generalizing consumer with
  | nil => rfl
  | cons operation operations ih =>
    rw [List.foldl_cons, ih]
    cases operation with
    | next =>
      simp only [StreamIterator.perform, nextCount, List.countP_cons, if_true]
      omega
    | advance =>
      cases advanced : consumer.advance? with
      | none => simp [StreamIterator.perform, nextCount, advanced]
      | some next => simp [StreamIterator.perform, nextCount, advanced, (advance?_progress advanced).1]
    | _ => simp [StreamIterator.perform, nextCount]

/-- A consumer whose iterator has no further step has all its answers. -/
private theorem Delivered.received_all (delivered : Delivered accepted closed result consumer)
    (settled : consumer.advance? = none) : consumer.received = nextAnswers accepted closed consumer.requests := by
  have received := delivered.received
  have within := delivered.requests
  unfold StreamIterator.advance? at settled
  split at settled
  next asked =>
    split at settled
    next => cases settled
    next opened =>
      split at settled
      next => cases settled
      next busy =>
        -- the started round waits for an event of an open stream
        have unanswered := List.getElem?_eq_none_iff.mp (Option.map_eq_none_iff.mp settled)
        obtain ⟨few, round⟩ := delivered.round (by simpa using opened)
        have rounds := congrArg List.length delivered.answers
        rw [List.length_map, length_nextAnswers] at rounds
        cases closed with
        | true =>
          simp only [if_true] at rounds
          omega
        | false =>
          simp only [Bool.false_eq_true, if_false] at rounds
          have all : accepted.length ≤ consumer.received.length := by omega
          rw [received]
          simp [nextAnswers, List.take_of_length_le all, List.take_of_length_le (all.trans asked.le)]
  next all =>
    have same : consumer.received.length = consumer.requests := by omega
    rwa [same] at received

/-- The iterator runs out of steps. -/
private theorem Delivered.settles (delivered : Delivered accepted closed result consumer) :
    ∃ steps, ((List.replicate steps .advance).foldl (StreamIterator.perform complete?) consumer).advance? = none := by
  generalize left : 2 * consumer.requests - (consumer.received.length + consumer.stream.pulls) = measure
  induction measure using Nat.strongRecOn generalizing consumer with
  | _ measure ih =>
    cases advanced : consumer.advance? with
    | none => exact ⟨0, advanced⟩
    | some next =>
      have kept := delivered.advance advanced
      obtain ⟨requests, progress⟩ := advance?_progress advanced
      have fewer := kept.requests
      have pulls := kept.pulls.2
      obtain ⟨steps, settled⟩ := ih _ (by omega) kept rfl
      refine ⟨steps + 1, ?_⟩
      simpa [List.replicate_succ, StreamIterator.perform, advanced] using settled

private theorem Delivered.advances (delivered : Delivered accepted closed result consumer) (steps : ℕ) :
    Delivered accepted closed result
      ((List.replicate steps .advance).foldl (StreamIterator.perform complete?) consumer) := by
  induction steps generalizing consumer with
  | zero => exact delivered
  | succ steps ih => exact ih delivered.advance_getD

/-- For every interleaving: a consumer has received a prefix of the accepted events in order and then the end,
and all that its calls ask for once the iterator has taken its steps; the result is settled by the first terminal
event, unless `end` came first. -/
theorem stream_delivers (complete? : T → Option R) (operations : List (StreamOp T R)) :
    let consumer := StreamIterator.after complete? operations
    let answers := nextAnswers (acceptedEvents complete? operations) (streamClosed complete? operations)
      (nextCount operations)
    consumer.received <+: answers ∧ (consumer.advance? = none → consumer.received = answers) ∧
      (∃ steps, (StreamIterator.after complete? (operations ++ List.replicate steps .advance)).received = answers) ∧
      consumer.stream.finalResult = settledResult complete? operations := by
  intro consumer answers
  have delivered : Delivered (acceptedEvents complete? operations) (streamClosed complete? operations)
      (settledResult complete? operations) consumer := delivered_new.run
  have requests : consumer.requests = nextCount operations := (requests_run).trans (Nat.zero_add _)
  have all (settled : consumer.advance? = none) : consumer.received = answers := by
    rw [delivered.received_all settled, requests]
  refine ⟨?_, all, ?_, delivered.result⟩
  · rw [delivered.received]
    exact nextAnswers_prefix (requests ▸ delivered.requests)
  · obtain ⟨steps, settled⟩ := @Delivered.settles _ _ complete? _ _ _ _ delivered
    refine ⟨steps, ?_⟩
    have kept := @Delivered.advances _ _ complete? _ _ _ _ delivered steps
    have asked : nextCount (List.replicate steps (.advance : StreamOp T R)) = 0 := by simp [nextCount]
    rw [StreamIterator.after, List.foldl_append]
    refine (kept.received_all settled).trans ?_
    rw [requests_run, asked, Nat.add_zero]
    exact congrArg _ requests

/-- The events pushed up to the first terminal one. -/
def pushedUpToTerminal (complete? : T → Option R) : List (StreamOp T R) → List T
  | [] => []
  | .push event :: operations =>
    event :: if (complete? event).isSome then [] else pushedUpToTerminal complete? operations
  | _ :: operations => pushedUpToTerminal complete? operations

/-- A terminal event that is pushed after `end` reaches neither the consumer nor the result. -/
theorem terminal_after_end : ∃ operations : List (StreamOp LoopEvent (List AgentMessage)),
    let consumer := StreamIterator.after completion operations
    consumer.advance? = none ∧ nextCount operations = 1 ∧
      (pushedUpToTerminal completion operations).map completion = [some []] ∧
      consumer.received.map Option.isSome = [false] ∧ consumer.stream.finalResult.isSome = false :=
  ⟨[.finish none, .push (.agentEnd []), .next, .advance, .advance], by decide⟩

end PieAgent.Soundness
