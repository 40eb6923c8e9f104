import PieAgent.Model.Providers.AnthropicStream

/-! # Answers whose body ends early

The stream counts as complete unless a `message_start` without a `message_stop` has been seen. A body that ends
before its `message_start` has been read, with an event of which only the start has arrived or with nothing but
pings, is complete in this sense, and the answer is an empty message that is done.
-/

namespace PieAgent.Soundness

open JavaScript Model Model.Providers

/-- Some event of the body is read without an error before it, and has the type. -/
def ReceivesType (env : StreamEnvironment) (events : List ServerSentEvent) (type : String) : Prop :=
  ∃ before sse after event, events = before ++ sse :: after ∧ (receiveEvents env {} before).1 = none ∧
    readMessageEvent env sse = .ok (some event) ∧ isText (event.get? (js "type")) type

/-- Some event of the body is an error, is no JSON, or lacks what its type needs. -/
def EventFails (env : StreamEnvironment) (events : List ServerSentEvent) : Prop :=
  ∃ before sse after, events = before ++ sse :: after ∧ (receiveEvents env {} before).1 = none ∧
    (receiveEvent env (receiveEvents env {} before).2 sse).1 ≠ none

def bodyEvents (body : ResponseBody) : List ServerSentEvent := (iterateSseMessages body.chunks body.bodyEnd).1

/-- The answer is reported as finished only if its `message_stop` has been received, and otherwise as an error. -/
def ReportedWhole (env : StreamEnvironment) (body : ResponseBody) (aborted : Bool) : Prop :=
  ((∃ reason message, .done reason message ∈ streamAnthropic env (some body) aborted) →
      ReceivesType env (bodyEvents body) "message_stop") ∧
    (¬ReceivesType env (bodyEvents body) "message_stop" →
      ∃ reason message, (streamAnthropic env (some body) aborted).getLast? = some (.error reason message))

section Events

variable {env : StreamEnvironment} {state : AnthropicState} {sse : ServerSentEvent} {events : List ServerSentEvent}

private theorem receiveEvents_append (env : StreamEnvironment) (state : AnthropicState)
    (before after : List ServerSentEvent) : receiveEvents env state (before ++ after) =
      if (receiveEvents env state before).1 = none then receiveEvents env (receiveEvents env state before).2 after
      else receiveEvents env state before := by
  induction before generalizing state with
  | nil => rfl
  | cons sse before ih =>
    rw [List.cons_append, receiveEvents, receiveEvents]
    split
    · rw [if_neg (by simp)]
    · exact ih _

/-- An error of the loops is the error of one event. -/
private theorem eventFails_iff : EventFails env events ↔ (receiveEvents env {} events).1 ≠ none := by
  constructor
  · rintro ⟨before, sse, after, rfl, fine, fails⟩
    rw [receiveEvents_append, if_pos fine, receiveEvents]
    split
    · simp
    next none_ => exact absurd (congrArg Prod.fst none_) fails
  · intro fails
    induction events using List.reverseRecOn with
    | nil => exact absurd rfl fails
    | append_singleton before sse ih =>
      by_cases fine : (receiveEvents env {} before).1 = none
      · rw [receiveEvents_append, if_pos fine, receiveEvents] at fails
        refine ⟨before, sse, [], rfl, fine, fun none_ => fails ?_⟩
        split
        next some_ => rw [some_] at none_; cases none_
        · rfl
      · obtain ⟨first, failing, after, rfl, others⟩ := ih fine
        exact ⟨first, failing, after ++ [sse], by simp, others⟩

private theorem receivesType_concat (fine : (receiveEvents env {} events).1 = none) (type : String) :
    ReceivesType env (events ++ [sse]) type ↔ ReceivesType env events type ∨
      ∃ event, readMessageEvent env sse = .ok (some event) ∧ isText (event.get? (js "type")) type := by
  constructor
  · rintro ⟨before, found, after, event, split, fine', read, typed⟩
    rcases List.eq_nil_or_concat after with rfl | ⟨others, last, rfl⟩
    · obtain ⟨rfl, same⟩ := List.append_inj' split rfl
      obtain rfl : sse = found := List.head_eq_of_cons_eq same
      exact .inr ⟨event, read, typed⟩
    · rw [List.concat_eq_append, ← List.cons_append, ← List.append_assoc] at split
      obtain ⟨rfl, _⟩ := List.append_inj' split rfl
      exact .inl ⟨before, found, others, event, rfl, fine', read, typed⟩
  · rintro (⟨before, found, after, event, rfl, fine', read, typed⟩ | ⟨event, read, typed⟩)
    · exact ⟨before, found, after ++ [sse], event, by simp, fine', read, typed⟩
    · exact ⟨events, sse, [], event, rfl, fine, read, typed⟩

/-- An event that is read without an error sets a flag exactly when it has the type of the flag. -/
private theorem receiveEvent_flags {next : AnthropicState} (received : receiveEvent env state sse = (none, next)) :
    (next.sawMessageStart = true ↔ state.sawMessageStart = true ∨
      ∃ event, readMessageEvent env sse = .ok (some event) ∧ isText (event.get? (js "type")) "message_start") ∧
    (next.sawMessageEnd = true ↔ state.sawMessageEnd = true ∨
      ∃ event, readMessageEvent env sse = .ok (some event) ∧ isText (event.get? (js "type")) "message_stop") := by
  unfold receiveEvent at received
  split at received
  · cases received
  next none_ =>
    cases received
    simp [none_]
  next event read =>
    obtain ⟨_, rfl⟩ := Prod.mk.inj received
    simp [read]

/-- The flags of the loops tell which types have been received. -/
private theorem flags_iff (fine : (receiveEvents env {} events).1 = none) :
    ((receiveEvents env {} events).2.sawMessageStart = true ↔ ReceivesType env events "message_start") ∧
      ((receiveEvents env {} events).2.sawMessageEnd = true ↔ ReceivesType env events "message_stop") := by
  induction events using List.reverseRecOn with
  | nil =>
    have none_ (type : String) : ¬ReceivesType env [] type := by
      rintro ⟨before, sse, after, event, split, _⟩
      cases before <;> cases split
    exact ⟨iff_of_false nofun (none_ _), iff_of_false nofun (none_ _)⟩
  | append_singleton before sse ih =>
    rw [receiveEvents_append] at fine ⊢
    by_cases earlier : (receiveEvents env {} before).1 = none
    · rw [if_pos earlier, receiveEvents] at fine ⊢
      cases received : receiveEvent env (receiveEvents env {} before).2 sse with
      | mk error next =>
        rw [received] at fine
        cases error with
        | some error => cases fine
        | none =>
          obtain ⟨starts, ends⟩ := receiveEvent_flags received
          rw [receivesType_concat earlier, receivesType_concat earlier, ← (ih earlier).1, ← (ih earlier).2]
          exact ⟨starts, ends⟩
    · rw [if_neg earlier] at fine
      exact absurd fine earlier

end Events

section Handlers

variable {α β : Type} {env : StreamEnvironment} {first second : Handler α}

/-- An event that ends the stream. -/
def AnthropicEvent.IsLast : AnthropicEvent → Prop
  | .done _ _ | .error _ _ => True
  | _ => False

/-- Nothing has ended the stream, and the answer is not taken for a failed one. -/
private structure StreamOpen (state : Providers.StreamState) : Prop where
  pushed : ∀ event ∈ state.pushed, ¬AnthropicEvent.IsLast event
  stopReason : ¬(state.output.stopReason = .aborted ∨ state.output.stopReason = .error)

/-- A handler leaves an open stream open, also when it throws. -/
private def Continues (handler : Handler α) : Prop := ∀ state, StreamOpen state → StreamOpen (handler.run state).2

private theorem continues_bind {next : α → Handler β} (continues : Continues first)
    (rest : ∀ value, Continues (next value)) : Continues (first >>= next) := by
  intro state open_
  have front := continues state open_
  show StreamOpen (match first.run state with | (result, state) => ExceptT.bindCont next result state).2
  rcases result : first.run state with ⟨error | value, after⟩
  · rw [result] at front
    exact front
  · rw [result] at front
    exact rest value after front

private theorem continues_pure (value : α) : Continues (pure value) := fun _ open_ => open_

private theorem continues_lift (value : Except JsString α) : Continues (liftM value) := fun state open_ => by
  cases value <;> exact open_

private theorem continues_discard (value : Except JsString α) : Continues (discard (liftM value)) := fun state open_ => by
  cases value <;> exact open_

private theorem continues_get : Continues get := fun _ open_ => open_

private theorem continues_modify {change : Providers.StreamState → Providers.StreamState}
    (keeps : ∀ state, StreamOpen state → StreamOpen (change state)) : Continues (modify change) := keeps

private theorem continues_push {event : AnthropicEvent} (notLast : ¬AnthropicEvent.IsLast event) :
    Continues (Handler.push event) := fun _ open_ =>
  ⟨List.forall_mem_append.mpr ⟨open_.pushed, List.forall_mem_singleton.mpr notLast⟩, open_.stopReason⟩

private theorem continues_pushBlock {block : StreamBlock} {index : Option Json} {started : ℕ → AnthropicEvent}
    (notLast : ∀ position, ¬AnthropicEvent.IsLast (started position)) :
    Continues (Handler.pushBlock block index started) :=
  continues_bind (continues_modify fun _ open_ => ⟨open_.pushed, open_.stopReason⟩) fun _ =>
    continues_bind continues_get fun _ => continues_push (notLast _)

private theorem continues_findBlock (index : Option Json) : Continues (Handler.findBlock env index) :=
  continues_bind continues_get fun _ => continues_pure _

private theorem continues_setBlock (position : ℕ) (block : StreamBlock) : Continues (Handler.setBlock position block) :=
  continues_modify fun _ open_ => ⟨open_.pushed, open_.stopReason⟩

private theorem continues_messageStart (event : Option Json) : Continues (handleMessageStart env event) :=
  continues_bind (continues_lift _) fun _ => continues_bind (continues_lift _) fun _ =>
    continues_bind (continues_modify fun _ open_ => ⟨open_.pushed, open_.stopReason⟩) fun _ => continues_bind (continues_lift _) fun _ => continues_lift _

private theorem continues_blockStart (event : Option Json) : Continues (handleBlockStart env event) := by
  refine continues_bind (continues_lift _) fun _ => continues_bind (continues_lift _) fun _ =>
    continues_bind (continues_lift _) fun _ => ?_
  split
  · exact continues_pushBlock fun _ => id
  split
  · exact continues_pushBlock fun _ => id
  split
  · exact continues_bind (continues_lift _) fun _ => continues_pushBlock fun _ => id
  split
  · refine continues_bind (continues_lift _) fun _ => continues_bind (continues_lift _) fun _ => ?_
    split
    · exact continues_bind (continues_lift _) fun _ => continues_bind (continues_lift _) fun _ =>
        continues_pushBlock fun _ => id
    · exact continues_bind (continues_pure _) fun _ => continues_bind (continues_lift _) fun _ =>
        continues_pushBlock fun _ => id
  · exact continues_pure _

private theorem continues_blockDelta (event : Option Json) : Continues (handleBlockDelta env event) := by
  have change {position : ℕ} {block : StreamBlock} {event : AnthropicEvent} (notLast : ¬AnthropicEvent.IsLast event) :
      Continues (do Handler.setBlock position block; Handler.push event) :=
    continues_bind (continues_setBlock _ _) fun _ => continues_push notLast
  refine continues_bind (continues_lift _) fun _ => continues_bind (continues_lift _) fun _ =>
    continues_bind (continues_lift _) fun _ => ?_
  iterate 3
    split
    · refine continues_bind (continues_findBlock _) fun _ => ?_
      split
      · exact continues_bind (continues_lift _) fun _ => continues_bind (continues_lift _) fun _ => change id
      · exact continues_pure _
  split
  · refine continues_bind (continues_findBlock _) fun _ => ?_
    split
    · split
      · exact continues_bind (continues_discard _) fun _ => continues_bind (continues_lift _) fun _ => continues_discard _
      · exact continues_bind (continues_lift _) fun _ => continues_discard _
    · exact continues_pure _
  · exact continues_pure _

private theorem continues_blockStop (event : Option Json) : Continues (handleBlockStop env event) := by
  refine continues_bind (continues_lift _) fun _ => continues_bind (continues_findBlock _) fun _ => ?_
  split
  · refine continues_bind (continues_modify fun _ open_ => ⟨open_.pushed, open_.stopReason⟩) fun _ => ?_
    split
    · exact continues_push id
    · exact continues_push id
    · exact continues_bind (continues_setBlock _ _) fun _ => continues_push id
  · exact continues_pure _

private theorem continues_messageDelta (event : Option Json) : Continues (handleMessageDelta env event) := by
  refine continues_bind (continues_lift _) fun _ => continues_bind (continues_lift _) fun _ => ?_
  split
  · have keeps (state : Providers.StreamState) (open_ : StreamOpen state) (reason : Option Json) :
        StreamOpen { state with output.stopReason := mapStopReason reason } := by
      refine ⟨open_.pushed, ?_⟩
      show ¬(mapStopReason reason = .aborted ∨ mapStopReason reason = .error)
      unfold mapStopReason
      split_ifs <;> simp
    exact continues_bind (continues_modify fun state open_ => keeps state open_ _) fun _ =>
      continues_bind (continues_lift _) fun _ => continues_lift _
  · exact continues_bind (continues_lift _) fun _ => continues_lift _

private theorem continues_handleEvent (event : Json) : Continues (handleEvent env event) := by
  unfold handleEvent
  dsimp only
  split
  · exact continues_messageStart _
  split
  · exact continues_blockStart _
  split
  · exact continues_blockDelta _
  split
  · exact continues_blockStop _
  split
  · exact continues_messageDelta _
  · exact continues_pure _

private theorem continues_receiveEvents (events : List ServerSentEvent) (state : AnthropicState)
    (open_ : StreamOpen state.stream) : StreamOpen (receiveEvents env state events).2.stream := by
  induction events generalizing state with
  | nil => exact open_
  | cons sse events ih =>
    have next : StreamOpen (receiveEvent env state sse).2.stream := by
      unfold receiveEvent
      split
      · exact open_
      · exact open_
      next event _ => exact continues_handleEvent event state.stream open_
    rw [receiveEvents]
    split
    next received =>
      rw [received] at next
      exact next
    next received =>
      rw [received] at next
      exact ih _ next

end Handlers

private theorem readBody_error (reader : SseReader) (bodyEnd : BodyEnd) (chunks : List (List UInt8)) :
    (reader.readBody bodyEnd chunks).2 = none ↔ bodyEnd = .done := by
  induction chunks generalizing reader with
  | nil => cases bodyEnd <;> simp [SseReader.readBody]
  | cons chunk chunks ih => exact ih (reader.readChunk chunk).2

private theorem answerError_eq_none {eventError readError : Option JsString} {state : AnthropicState} {aborted : Bool}
    (open_ : StreamOpen state.stream) : answerError eventError readError state aborted = none ↔
      eventError = none ∧ readError = none ∧ (state.sawMessageStart = true → state.sawMessageEnd = true) ∧
        aborted = false := by
  unfold answerError
  rw [if_neg open_.stopReason]
  cases eventError <;> cases readError <;> cases state.sawMessageStart <;> cases state.sawMessageEnd <;> simp

/-- For every body, however it ends: a finished answer is reported only where `message_stop` has been received, and an
error otherwise, exactly when the body has a `message_start` or a `message_stop`, has an event that cannot be read, or
is not read to its end without an abort. -/
theorem reportedWhole_iff (env : StreamEnvironment) (body : ResponseBody) (aborted : Bool) :
    ReportedWhole env body aborted ↔
      ReceivesType env (bodyEvents body) "message_start" ∨ ReceivesType env (bodyEvents body) "message_stop" ∨
        EventFails env (bodyEvents body) ∨ body.bodyEnd ≠ .done ∨ aborted = true := by
  have readError : (iterateSseMessages body.chunks body.bodyEnd).2 = none ↔ body.bodyEnd = .done :=
    readBody_error {} body.bodyEnd body.chunks
  obtain ⟨state, made⟩ : ∃ state, (receiveEvents env {} (bodyEvents body)).2 = state := ⟨_, rfl⟩
  have open_ : StreamOpen state.stream :=
    made ▸ continues_receiveEvents (bodyEvents body) {} ⟨by simp [AnthropicEvent.IsLast], by simp⟩
  have pushed : streamAnthropic env (some body) aborted = state.stream.pushed ++
      [(answerError (receiveEvents env {} (bodyEvents body)).1 (iterateSseMessages body.chunks body.bodyEnd).2
          state aborted).elim (.done state.stream.output.stopReason state.stream.output)
        (failureEvent aborted · state.stream.output)] := by
    rw [← made]
    dsimp only [streamAnthropic, bodyEvents]
    split <;> simp [*]
  unfold ReportedWhole
  rw [pushed, eventFails_iff, List.getLast?_concat]
  cases thrown : answerError (receiveEvents env {} (bodyEvents body)).1
      (iterateSseMessages body.chunks body.bodyEnd).2 state aborted with
  | some error =>
    obtain ⟨reason, message, failed⟩ : ∃ reason message,
        failureEvent aborted error state.stream.output = .error reason message := by
      unfold failureEvent
      split <;> exact ⟨_, _, rfl⟩
    rw [Option.elim_some, failed]
    have never : ¬∃ reason' message', AnthropicEvent.done reason' message' ∈
        state.stream.pushed ++ [AnthropicEvent.error reason message] := by
      rintro ⟨reason', message', listed⟩
      rcases List.mem_append.mp listed with earlier | last
      · exact open_.pushed _ earlier trivial
      · cases List.mem_singleton.mp last
    refine iff_of_true ⟨fun reported => absurd reported never, fun _ => ⟨reason, message, rfl⟩⟩ ?_
    -- One of the causes has thrown; only a start without an end is no cause by itself.
    by_contra none_
    simp only [not_or, not_not, Bool.not_eq_true] at none_
    obtain ⟨noStart, _, fine, whole, kept⟩ := none_
    have starts := (flags_iff fine).1
    rw [made] at starts
    have quiet := (@answerError_eq_none _ _ _ aborted open_).mpr
      ⟨fine, readError.mpr whole, fun started => absurd (starts.mp started) noStart, kept⟩
    rw [quiet] at thrown
    cases thrown
  | none =>
    obtain ⟨fine, whole, closed, kept⟩ := (answerError_eq_none open_).mp thrown
    obtain ⟨starts, ends⟩ := flags_iff fine
    rw [made] at starts ends
    have done_ : ∃ reason message, AnthropicEvent.done reason message ∈ state.stream.pushed ++
        [AnthropicEvent.done state.stream.output.stopReason state.stream.output] :=
      ⟨_, _, List.mem_append_right _ (List.mem_singleton_self _)⟩
    constructor
    · rintro ⟨only, _⟩
      exact .inr (.inl (only done_))
    · intro caused
      have stopped : ReceivesType env (bodyEvents body) "message_stop" := by
        rcases caused with started | stopped | failed | cut | aborts
        · exact ends.mp (closed (starts.mpr started))
        · exact stopped
        · exact absurd fine failed
        · exact absurd (readError.mp whole) cut
        · rw [kept] at aborts
          cases aborts
      exact ⟨fun _ => stopped, fun not => absurd stopped not⟩

/-- A surrounding in which no number is written and no tool is called. -/
private def plainEnvironment : StreamEnvironment where
  numberText literal := ofText literal.val
  syntaxError _ := js "Unexpected end of JSON input"
  parseStreamingJson _ := .obj []
  toLowerCase := id

/-- A body that is empty, that holds a ping, or that ends in the type of its first event. -/
theorem emptyAnswer_done :
    (streamAnthropic plainEnvironment (some { chunks := [], bodyEnd := .done }) false = [.start, .done .stop {}] ∧
      ¬ReportedWhole plainEnvironment { chunks := [], bodyEnd := .done } false) ∧
    streamAnthropic plainEnvironment
        (some { chunks := [encodeUtf8 "event: ping\ndata: \x7b\"type\": \"ping\"\x7d\n\n".toList], bodyEnd := .done }) false =
      [.start, .done .stop {}] ∧
    streamAnthropic plainEnvironment
        (some { chunks := [encodeUtf8 "event: message_sta".toList], bodyEnd := .done }) false =
      [.start, .done .stop {}] := by
  refine ⟨⟨rfl, fun whole => ?_⟩, by decide, by decide⟩
  obtain ⟨_, _, last⟩ := whole.2 (by
    rintro ⟨before, sse, after, event, split, _⟩
    cases before <;> cases split)
  cases last

end PieAgent.Soundness
