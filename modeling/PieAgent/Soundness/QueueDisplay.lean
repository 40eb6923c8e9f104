import PieAgent.Machine.Core.Labeled
import PieAgent.Model.Session.PromptQueues

/-! # The texts that a session shows as waiting

A user message is waiting from its call until it starts, also while the loop has it in hand. The texts that are
shown follow the waiting messages as long as a message that starts is found by its text where it stands: it has
a text, and no message that is shown in front of it has the same one.
-/

namespace PieAgent.Soundness

open JavaScript Machine Model

/-- The text of a user message; other messages are not shown. -/
def userText? : AgentMessage → Option JsString
  | .user message => some (userMessageText message.content)
  | _ => none

/-- The user messages of a queue that wait, those in the hands of the loop first. -/
def waitingTexts (state : PromptQueues) (behavior : StreamingBehavior) : List JsString :=
  ((state.starting.filter (·.shown = some behavior)).map (·.message)).filterMap userText? ++
    (match behavior with
      | .steer => state.steeringQueue.messages
      | .followUp => state.followUpQueue.messages).filterMap userText?

/-- The session shows the texts of the waiting messages. -/
structure Mirrors (state : PromptQueues) : Prop where
  steering : state.steeringMessages = waitingTexts state .steer
  followUp : state.followUpMessages = waitingTexts state .followUp

/-- A message that starts has the text that is taken out for it, and a run that ends has started what it took. -/
def FoundByText (state : PromptQueues) : QueueEvent → Prop
  | .messageStart => ∀ entry text, state.starting.head? = some entry → userText? entry.message = some text →
    match entry.shown with
    | some .steer => text ≠ []
    | some .followUp => text ≠ [] ∧ text ∉ state.steeringMessages
    | none => text ≠ [] → text ∉ state.steeringMessages ∧ text ∉ state.followUpMessages
  | .endRun => ∀ entry ∈ state.starting, entry.shown ≠ none → userText? entry.message = none
  | _ => True

section Steps

variable {state next : PromptQueues} {event : QueueEvent}

@[simp] theorem userMessageText_buildUserContent (text : JsString) (images : List ImageContent) :
    userMessageText (buildUserContent text images) = text := by
  unfold buildUserContent
  split
  · rfl
  · show text ++ (images.map UserBlock.image).flatMap _ = text
    rw [List.flatMap_map]
    simp

private theorem mirrors_queueSteer (mirrors : Mirrors state) (text : JsString) (images : List ImageContent)
    (now : Timestamp) : Mirrors (state.queueSteer text images now) where
  steering := by
    show state.steeringMessages ++ [text] = _
    rw [mirrors.steering]
    simp [waitingTexts, PromptQueues.queueSteer, PendingMessageQueue.enqueue, userText?]
  followUp := mirrors.followUp

private theorem mirrors_queueFollowUp (mirrors : Mirrors state) (text : JsString) (images : List ImageContent)
    (now : Timestamp) : Mirrors (state.queueFollowUp text images now) where
  steering := mirrors.steering
  followUp := by
    show state.followUpMessages ++ [text] = _
    rw [mirrors.followUp]
    simp [waitingTexts, PromptQueues.queueFollowUp, PendingMessageQueue.enqueue, userText?]

private theorem mirrors_prompt (mirrors : Mirrors state) (resting : state.isStreaming = false → state.starting = [])
    (text : JsString) (images : List ImageContent) (behavior : Option StreamingBehavior) (now : Timestamp) :
    Mirrors (state.prompt text images behavior now) := by
  unfold PromptQueues.prompt
  cases streaming : state.isStreaming with
  | true =>
    rw [if_pos rfl]
    match behavior with
    | none => exact mirrors
    | some .followUp => exact mirrors_queueFollowUp mirrors text images now
    | some .steer => exact mirrors_queueSteer mirrors text images now
  | false =>
    rw [if_neg nofun]
    obtain ⟨steering, followUp⟩ := mirrors
    unfold waitingTexts at steering followUp
    rw [resting streaming] at steering followUp
    exact ⟨steering, followUp⟩

/-- The loop takes the first messages of a queue. -/
private theorem drain_append (queue : PendingMessageQueue) : queue.drain.1 ++ queue.drain.2.messages = queue.messages := by
  unfold PendingMessageQueue.drain
  cases queue.mode with
  | all => exact List.append_nil _
  | oneAtATime => exact List.take_append_drop 1 _

private theorem filterMap_drain (queue : PendingMessageQueue) (behavior : StreamingBehavior) :
    (((queue.drain.1.map fun message => StartingMessage.mk message (some behavior)).filter
        (·.shown = some behavior)).map (·.message)).filterMap userText? ++ queue.drain.2.messages.filterMap userText? =
      queue.messages.filterMap userText? := by
  have all : (queue.drain.1.map fun message => StartingMessage.mk message (some behavior)).filter
      (·.shown = some behavior) = queue.drain.1.map fun message => StartingMessage.mk message (some behavior) :=
    List.filter_eq_self.mpr fun entry found => by
      obtain ⟨message, _, rfl⟩ := List.mem_map.mp found
      exact decide_eq_true rfl
  rw [all, List.map_map, show (StartingMessage.message ∘ fun message => StartingMessage.mk message (some behavior)) = id
    from rfl, List.map_id, ← List.filterMap_append, drain_append]

private theorem filter_other {behavior other : StreamingBehavior} (differ : behavior ≠ other) (messages : List AgentMessage) :
    (messages.map fun message => StartingMessage.mk message (some behavior)).filter (·.shown = some other) = [] :=
  List.filter_eq_nil_iff.mpr fun entry found => by
    obtain ⟨message, _, rfl⟩ := List.mem_map.mp found
    simpa using differ

/-- Where the loop has nothing in hand the texts are those of the queues. -/
private theorem mirrors_of_empty (rest : state.starting = []) : Mirrors state ↔
    state.steeringMessages = state.steeringQueue.messages.filterMap userText? ∧
      state.followUpMessages = state.followUpQueue.messages.filterMap userText? := by
  constructor
  · rintro ⟨steering, followUp⟩
    unfold waitingTexts at steering followUp
    rw [rest] at steering followUp
    exact ⟨steering, followUp⟩
  · rintro ⟨steering, followUp⟩
    refine ⟨?_, ?_⟩ <;> unfold waitingTexts <;> rw [rest]
    · exact steering
    · exact followUp

private theorem removeStarted_user (message : UserMessage) (text : JsString) (same : userMessageText message.content = text) :
    state.removeStarted (.user message) = { state with
      steeringMessages := if text = [] then state.steeringMessages else state.steeringMessages.erase text
      followUpMessages := if text = [] ∨ text ∈ state.steeringMessages then state.followUpMessages
        else state.followUpMessages.erase text } := by
  subst same
  unfold PromptQueues.removeStarted
  by_cases empty : userMessageText message.content = []
  · simp [empty]
  by_cases steering : userMessageText message.content ∈ state.steeringMessages
  · simp [empty, steering]
  by_cases followUp : userMessageText message.content ∈ state.followUpMessages
  · simp [empty, steering, followUp, List.erase_of_not_mem]
  · simp [empty, steering, followUp, List.erase_of_not_mem]

/-- A message that starts leaves the texts of the others when it is found by its text, and only then. -/
private theorem mirrors_messageStart {entry : StartingMessage} {starting : List StartingMessage}
    (mirrors : Mirrors state) (takes : state.starting = entry :: starting) :
    Mirrors { state.removeStarted entry.message with starting } ↔ FoundByText state .messageStart := by
  obtain ⟨steering, followUp⟩ := mirrors
  obtain ⟨message, shown⟩ := entry
  obtain ⟨others, othersOf⟩ : ∃ others : StreamingBehavior → List JsString, ∀ behavior, others behavior =
      waitingTexts { state with starting } behavior := ⟨_, fun _ => rfl⟩
  have split (behavior : StreamingBehavior) : waitingTexts state behavior =
      (if shown = some behavior then (userText? message).toList else []) ++ others behavior := by
    rw [othersOf]
    unfold waitingTexts
    rw [takes]
    by_cases same : shown = some behavior <;> cases text : userText? message <;> simp [same, text]
  rw [split] at steering followUp
  unfold FoundByText
  rw [takes]
  cases text : userText? message with
  | none =>
    rw [text] at steering followUp
    have unchanged : state.removeStarted message = state := by
      cases message <;> first | rfl | cases text
    rw [unchanged]
    refine iff_of_true ⟨?_, ?_⟩ ?_
    · simpa [othersOf] using steering
    · simpa [othersOf] using followUp
    · rintro entry' text' same found
      cases same
      rw [text] at found
      cases found
  | some text' =>
    rw [text] at steering followUp
    obtain ⟨user, rfl, same⟩ : ∃ user, message = .user user ∧ userMessageText user.content = text' := by
      cases message <;> first | exact ⟨_, rfl, Option.some.inj text⟩ | cases text
    have after : Mirrors { state.removeStarted (.user user) with starting } ↔
        (if text' = [] then state.steeringMessages else state.steeringMessages.erase text') = others .steer ∧
          (if text' = [] ∨ text' ∈ state.steeringMessages then state.followUpMessages
            else state.followUpMessages.erase text') = others .followUp := by
      rw [removeStarted_user user text' same]
      constructor
      · rintro ⟨left, right⟩
        exact ⟨left.trans (othersOf _).symm, right.trans (othersOf _).symm⟩
      · rintro ⟨left, right⟩
        exact ⟨left.trans (othersOf _), right.trans (othersOf _)⟩
    have condition {holds : StartingMessage → JsString → Prop} :
        (∀ entry' text'', ((StartingMessage.mk (.user user) shown :: starting).head? = some entry') →
          userText? entry'.message = some text'' → holds entry' text'') ↔ holds ⟨.user user, shown⟩ text' := by
      refine ⟨fun all => all _ _ rfl text, fun holds entry' text'' first found => ?_⟩
      cases first
      cases text.symm.trans found
      exact holds
    rw [after, condition]
    match shown with
    | some .steer =>
      replace steering : state.steeringMessages = text' :: others .steer := steering
      replace followUp : state.followUpMessages = others .followUp := followUp
      rw [steering, followUp]
      by_cases empty : text' = []
      · simp [empty]
      · simp [empty]
    | some .followUp =>
      replace steering : state.steeringMessages = others .steer := steering
      replace followUp : state.followUpMessages = text' :: others .followUp := followUp
      rw [steering, followUp]
      by_cases empty : text' = []
      · simp [empty]
      · by_cases found : text' ∈ others .steer <;> simp [empty, found]
    | none =>
      replace steering : state.steeringMessages = others .steer := steering
      replace followUp : state.followUpMessages = others .followUp := followUp
      rw [steering, followUp]
      by_cases empty : text' = []
      · simp [empty]
      · by_cases found : text' ∈ others .steer <;> simp [empty, found]

/-- A step keeps the texts in line exactly when it meets the condition. -/
theorem mirrors_step_iff (mirrors : Mirrors state) (resting : state.isStreaming = false → state.starting = [])
    (stepped : state.step event = some next) : Mirrors next ↔ FoundByText state event := by
  match event, stepped with
  | .steer text images now, stepped =>
    cases stepped
    exact iff_of_true (mirrors_queueSteer mirrors text images now) trivial
  | .followUp text images now, stepped =>
    cases stepped
    exact iff_of_true (mirrors_queueFollowUp mirrors text images now) trivial
  | .prompt text images behavior now, stepped =>
    cases stepped
    exact iff_of_true (mirrors_prompt mirrors resting text images behavior now) trivial
  | .sendUserMessage content deliverAs now, stepped =>
    cases stepped
    exact iff_of_true (mirrors_prompt mirrors resting _ _ _ _) trivial
  | .sendCustomMessage message behavior, stepped =>
    obtain ⟨steering, followUp⟩ := mirrors
    have unseen : [AgentMessage.custom message].filterMap userText? = [] := rfl
    cases behavior <;> cases stepped <;> refine iff_of_true ⟨?_, ?_⟩ trivial
    · simpa [waitingTexts, PendingMessageQueue.enqueue, unseen] using steering
    · exact followUp
    · exact steering
    · simpa [waitingTexts, PendingMessageQueue.enqueue, unseen] using followUp
  | .setMode behavior mode, stepped =>
    cases behavior <;> cases stepped <;> exact iff_of_true ⟨mirrors.steering, mirrors.followUp⟩ trivial
  | .clearQueue, stepped =>
    cases stepped
    have none_ (behavior : StreamingBehavior) :
        (state.starting.map fun entry => { entry with shown := none }).filter (·.shown = some behavior) = [] :=
      List.filter_eq_nil_iff.mpr fun entry found => by
        obtain ⟨_, _, rfl⟩ := List.mem_map.mp found
        simp
    refine iff_of_true ⟨?_, ?_⟩ trivial <;> unfold waitingTexts <;> rw [none_] <;> rfl
  | .getSteeringMessages, stepped =>
    by_cases rest : state.starting = []
    · rw [PromptQueues.step, if_pos rest] at stepped
      cases stepped
      obtain ⟨steering, followUp⟩ := (mirrors_of_empty rest).mp mirrors
      refine iff_of_true ⟨?_, ?_⟩ trivial
      · exact steering.trans (filterMap_drain state.steeringQueue .steer).symm
      · unfold waitingTexts
        rw [filter_other (by decide)]
        exact followUp
    · rw [PromptQueues.step, if_neg rest] at stepped
      cases stepped
  | .getFollowUpMessages, stepped =>
    by_cases rest : state.starting = []
    · rw [PromptQueues.step, if_pos rest] at stepped
      cases stepped
      obtain ⟨steering, followUp⟩ := (mirrors_of_empty rest).mp mirrors
      refine iff_of_true ⟨?_, ?_⟩ trivial
      · unfold waitingTexts
        rw [filter_other (by decide)]
        exact steering
      · exact followUp.trans (filterMap_drain state.followUpQueue .followUp).symm
    · rw [PromptQueues.step, if_neg rest] at stepped
      cases stepped
  | .messageStart, stepped =>
    rw [PromptQueues.step] at stepped
    split at stepped
    · cases stepped
    next takes =>
      cases stepped
      exact mirrors_messageStart mirrors takes
  | .endRun, stepped =>
    cases stepped
    obtain ⟨steering, followUp⟩ := mirrors
    rw [mirrors_of_empty rfl]
    show state.steeringMessages = _ ∧ state.followUpMessages = _ ↔ _
    rw [steering, followUp]
    unfold waitingTexts
    rw [List.append_left_eq_self, List.append_left_eq_self]
    simp only [List.filterMap_eq_nil_iff, List.mem_map, List.mem_filter, decide_eq_true_eq]
    constructor
    · rintro ⟨ofSteering, ofFollowUp⟩ entry found shown
      cases origin : entry.shown with
      | none => exact absurd origin shown
      | some behavior =>
        cases behavior with
        | steer => exact ofSteering _ ⟨entry, ⟨found, origin⟩, rfl⟩
        | followUp => exact ofFollowUp _ ⟨entry, ⟨found, origin⟩, rfl⟩
    · intro unseen
      constructor
      · rintro _ ⟨entry, ⟨found, origin⟩, rfl⟩
        exact unseen entry found (by simp [origin])
      · rintro _ ⟨entry, ⟨found, origin⟩, rfl⟩
        exact unseen entry found (by simp [origin])

/-- The loop has nothing in hand when no run is going on. -/
private theorem resting_step (resting : state.isStreaming = false → state.starting = [])
    (stepped : state.step event = some next) : next.isStreaming = false → next.starting = [] := by
  have polled {messages : List AgentMessage} {behavior : StreamingBehavior}
      (idle : (state.isStreaming || !messages.isEmpty) = false) :
      messages.map (fun message => StartingMessage.mk message (some behavior)) = [] := by
    have empty : messages.isEmpty = true := by simpa using (Bool.or_eq_false_iff.mp idle).2
    rw [List.isEmpty_iff.mp empty, List.map_nil]
  have prompted (text : JsString) (images : List ImageContent) (behavior : Option StreamingBehavior) (now : Timestamp) :
      (state.prompt text images behavior now).isStreaming = false →
        (state.prompt text images behavior now).starting = [] := by
    unfold PromptQueues.prompt
    split
    · match behavior with
      | none => exact resting
      | some .steer => exact resting
      | some .followUp => exact resting
    · exact nofun
  match event, stepped with
  | .steer text images now, stepped | .followUp text images now, stepped =>
    cases stepped
    exact resting
  | .prompt text images behavior now, stepped | .sendUserMessage content behavior now, stepped =>
    cases stepped
    exact prompted _ _ _ _
  | .sendCustomMessage message behavior, stepped | .setMode behavior mode, stepped =>
    cases behavior <;> cases stepped <;> exact resting
  | .clearQueue, stepped =>
    cases stepped
    exact fun idle => List.map_eq_nil_iff.mpr (resting idle)
  | .getSteeringMessages, stepped | .getFollowUpMessages, stepped =>
    rw [PromptQueues.step] at stepped
    split at stepped <;> cases stepped
    exact polled
  | .messageStart, stepped =>
    rw [PromptQueues.step] at stepped
    split at stepped
    · cases stepped
    next entry starting takes =>
      cases stepped
      intro idle
      have same : (state.removeStarted entry.message).isStreaming = state.isStreaming := by
        unfold PromptQueues.removeStarted
        split
        · dsimp only
          split_ifs <;> rfl
        · rfl
      rw [resting (same.symm.trans idle)] at takes
      cases takes
  | .endRun, stepped =>
    cases stepped
    exact fun _ => rfl

end Steps

private def imageOnly : List ImageContent := [{ data := js "AAAA", mimeType := js "image/png" }]

/-- A prompt, and a steering message that is queued and starts while the run goes on. -/
private def steeredRun : List QueueEvent :=
  [.prompt (js "go") [] none (.millis 0), .messageStart, .steer (js "left") imageOnly (.millis 1), .getSteeringMessages,
    .messageStart]

end PieAgent.Soundness
