import PieAgent.Model.Agent.ToolExecution

/-! # What a prepared call has passed

A call that `prepareToolCall` prepares has left a record of every stage of the gate: the validated
arguments, a classification and a hook result that do not block, and the allow of every prompt that
was asked for. Preparation itself never invokes a tool.
-/

namespace PieAgent.Model

open JavaScript Effects

/-- The invocation of a tool. -/
def Observation.IsExecution : Observation → Prop
  | .executed .. => True
  | _ => False

/-- The classification demands a prompt. -/
def PermissionClassification.asks : PermissionClassification → Bool
  | .prompt _ => true
  | _ => false

/-- The hook demands a prompt. -/
def hookAsks (result : Option BeforeToolCallResult) : Bool := result.any fun result => result.prompt.isSome

/-- The request is for this very call: its id, its tool and the hash of its arguments. -/
def ControlPlanePromptRequest.Binds (loop : ToolLoop) (call : ToolCall) (args : Json)
    (request : ControlPlanePromptRequest) : Prop :=
  request.toolCallId = call.id ∧ request.toolName = call.name ∧ request.argsHash = loop.computeArgsHash args

/-- The observations `seen` show that the call passed every stage of the gate with these arguments. -/
def Cleared (loop : ToolLoop) (seen : List Observation) (position : ℕ) (tool : AgentTool) (call : ToolCall)
    (args : Json) : Prop :=
  loop.findTool call.name = some tool ∧
    (∃ preparedCall, prepareToolCallArguments position tool call = .ok preparedCall ∧
      .validated position preparedCall (.ok args) ∈ seen) ∧
    ∃ classification hookResult,
      ((tool.permissionClassification = none ∧ classification = .allow) ∨
          .classified position args (.ok classification) ∈ seen) ∧
        (∀ reason, classification ≠ .block reason) ∧
        ((loop.beforeToolCall = none ∧ hookResult = none) ∨
          .hookAnswered position call args (.ok hookResult) ∈ seen) ∧
        (∀ result, hookResult = some result → result.block = false) ∧
        (classification.asks || hookAsks hookResult →
          ∃ request, request.Binds loop call args ∧ .promptAnswered position request (.ok .allow) ∈ seen)

theorem Cleared.mono {loop : ToolLoop} {seen more : List Observation} {position : ℕ} {tool : AgentTool}
    {call : ToolCall} {args : Json} (cleared : Cleared loop seen position tool call args) (subset : seen ⊆ more) :
    Cleared loop more position tool call args := by
  obtain ⟨found, ⟨preparedCall, prepared, valid⟩, classification, hookResult, classified, open_, hooked, passed, asked⟩ :=
    cleared
  refine ⟨found, ⟨preparedCall, prepared, subset valid⟩, classification, hookResult,
    classified.imp id (subset ·), open_, hooked.imp id (subset ·), passed, fun asks => ?_⟩
  obtain ⟨request, binds, allowed⟩ := asked asks
  exact ⟨request, binds, subset allowed⟩

variable {loop : ToolLoop} {position : ℕ} {tool : AgentTool} {call : ToolCall} {args : Json}

private theorem emitEvent_avoids (event : AgentEvent) :
    Traced.Avoids Observation.IsExecution (loop.emitEvent position event) :=
  Traced.Avoids.call id

private theorem passPrompt_avoids (request : Option ControlPlanePromptRequest) :
    Traced.Avoids Observation.IsExecution (loop.passPrompt position tool args request) := by
  cases request with
  | none => exact Traced.Avoids.pure _
  | some request =>
    refine Traced.Avoids.bind (Traced.Avoids.bind ?_ fun decision _ =>
      Traced.Avoids.bind (emitEvent_avoids _) fun _ _ => Traced.Avoids.pure _) fun decision _ => ?_
    · unfold ToolLoop.askPrompt
      split
      · exact Traced.Avoids.call id
      · exact Traced.Avoids.pure _
    · split <;> exact Traced.Avoids.pure _

private theorem passHook_avoids (classification : PermissionClassification) :
    Traced.Avoids Observation.IsExecution (loop.passHook position tool call args classification) := by
  refine Traced.Avoids.bind ?_ fun result _ => ?_
  · unfold ToolLoop.askHook
    split
    · exact Traced.Avoids.pure _
    · exact Traced.Avoids.call id
  · split
    · exact Traced.Avoids.pure _
    · exact passPrompt_avoids _

/-- Preparing a call invokes no tool. -/
theorem prepareToolCall_avoids : Traced.Avoids Observation.IsExecution (loop.prepareToolCall position call) := by
  unfold ToolLoop.prepareToolCall
  split
  · exact Traced.Avoids.pure _
  · refine Traced.Avoids.handle (Traced.Avoids.bind (Traced.Avoids.lift _) fun preparedCall _ =>
      Traced.Avoids.bind (Traced.Avoids.call id) fun args _ => Traced.Avoids.bind ?_ fun classification _ => ?_)
      fun error => Traced.Avoids.pure _
    · unfold classify
      split
      · exact Traced.Avoids.pure _
      · exact Traced.Avoids.call id
    · split
      · exact Traced.Avoids.pure _
      · exact passHook_avoids _

private theorem dispatch_prepared {tool' : AgentTool} {args' : Json}
    (dispatched : loop.dispatch position tool args = .prepared tool' args') : tool' = tool ∧ args' = args := by
  unfold ToolLoop.dispatch refuse at dispatched
  split at dispatched
  · cases dispatched
  · cases dispatched
    exact ⟨rfl, rfl⟩

private theorem resolvePrompt_ok {request : ControlPlanePromptRequest} {decision : ControlPlanePromptDecision}
    (success : (loop.resolvePrompt position request).outcome = .ok decision) (granted : decision.refusal = none) :
    .promptAnswered position request (.ok .allow) ∈ (loop.resolvePrompt position request).trace := by
  obtain ⟨answer, asked, rest, trace⟩ := Traced.bind_ok success
  obtain ⟨_, _, finished, _⟩ := Traced.bind_ok rest
  cases finished
  have allowed : decision = .allow := by
    cases decision with
    | allow => rfl
    | deny reason => cases granted
    | timeout => cases granted
  rw [ToolLoop.resolvePrompt, trace]
  refine List.mem_append_left _ ?_
  unfold ToolLoop.askPrompt at asked ⊢
  split at asked
  · rw [Traced.outcome_call] at asked
    rw [Traced.trace_call, asked, allowed]
    exact List.mem_singleton.mpr rfl
  · cases asked
    cases allowed

private theorem passPrompt_prepared {request : Option ControlPlanePromptRequest} {tool' : AgentTool} {args' : Json}
    (success : (loop.passPrompt position tool args request).outcome = .ok (.prepared tool' args')) :
    tool' = tool ∧ args' = args ∧ ∀ prompt, request = some prompt →
      .promptAnswered position prompt (.ok .allow) ∈ (loop.passPrompt position tool args request).trace := by
  cases request with
  | none =>
    obtain ⟨rfl, rfl⟩ := dispatch_prepared (Except.ok.inj success)
    exact ⟨rfl, rfl, nofun⟩
  | some request =>
    obtain ⟨decision, resolved, finished, trace⟩ := Traced.bind_ok success
    split at finished
    · cases finished
    · next granted =>
      obtain ⟨rfl, rfl⟩ := dispatch_prepared (Except.ok.inj finished)
      refine ⟨rfl, rfl, fun prompt same => ?_⟩
      cases same
      rw [ToolLoop.passPrompt, trace]
      exact List.mem_append_left _ (resolvePrompt_ok resolved granted)

/-- A demanded prompt is asked, and it is bound to the call. -/
private theorem effectivePrompt_of_asks (loop : ToolLoop) (call : ToolCall) (args : Json)
    {classification : PermissionClassification}
    {hookResult : Option BeforeToolCallResult} (asks : classification.asks || hookAsks hookResult) :
    ∃ request, loop.effectivePrompt call args (loop.synthesizedPrompt call args classification)
        (hookResult.bind (·.prompt)) = some request ∧ request.Binds loop call args := by
  cases classification <;> cases hookResult with
  | none => simp_all [PermissionClassification.asks, hookAsks, ToolLoop.synthesizedPrompt, ToolLoop.effectivePrompt,
      ControlPlanePromptRequest.Binds]
  | some result =>
    obtain ⟨block, reason, prompt⟩ := result
    cases prompt <;> simp_all [PermissionClassification.asks, hookAsks, ToolLoop.synthesizedPrompt,
      ToolLoop.effectivePrompt, ControlPlanePromptRequest.Binds]

private theorem askHook_ok {result : Option BeforeToolCallResult}
    (success : (loop.askHook position call args).outcome = .ok result) :
    (loop.beforeToolCall = none ∧ result = none) ∨
      .hookAnswered position call args (.ok result) ∈ (loop.askHook position call args).trace := by
  unfold ToolLoop.askHook at success ⊢
  split at success
  · next absent =>
    cases success
    exact Or.inl ⟨absent, rfl⟩
  · next hook present =>
    rw [Traced.outcome_call] at success
    exact Or.inr (by simp [success])

private theorem classify_ok {classification : PermissionClassification}
    (success : (classify position tool args).outcome = .ok classification) :
    (tool.permissionClassification = none ∧ classification = .allow) ∨
      .classified position args (.ok classification) ∈ (classify position tool args).trace := by
  unfold classify at success ⊢
  split at success
  · next absent =>
    cases success
    exact Or.inl ⟨absent, rfl⟩
  · next classifier present =>
    rw [Traced.outcome_call] at success
    exact Or.inr (by simp [success])

private theorem hookRefusal_none {result : Option BeforeToolCallResult}
    (passed : loop.hookRefusal position result = none) : ∀ other, result = some other → other.block = false := by
  rintro other rfl
  unfold ToolLoop.hookRefusal at passed
  split at passed
  · cases passed
  · simpa using passed

private theorem passHook_prepared {classification : PermissionClassification} {tool' : AgentTool} {args' : Json}
    (success : (loop.passHook position tool call args classification).outcome = .ok (.prepared tool' args')) :
    tool' = tool ∧ args' = args ∧ ∃ hookResult,
      ((loop.beforeToolCall = none ∧ hookResult = none) ∨ .hookAnswered position call args (.ok hookResult) ∈
          (loop.passHook position tool call args classification).trace) ∧
        (∀ result, hookResult = some result → result.block = false) ∧
        (classification.asks || hookAsks hookResult →
          ∃ request, request.Binds loop call args ∧ .promptAnswered position request (.ok .allow) ∈
            (loop.passHook position tool call args classification).trace) := by
  obtain ⟨hookResult, hooked, rest, trace⟩ := Traced.bind_ok success
  split at rest
  · cases rest
  · next passed =>
    obtain ⟨rfl, rfl, answered⟩ := passPrompt_prepared rest
    rw [passed] at trace
    rw [ToolLoop.passHook, trace]
    refine ⟨rfl, rfl, hookResult, (askHook_ok hooked).imp id (List.mem_append_left _ ·), hookRefusal_none passed,
      fun asks => ?_⟩
    obtain ⟨request, effective, binds⟩ := effectivePrompt_of_asks loop call args' asks
    exact ⟨request, binds, List.mem_append_right _ (answered request effective)⟩

private theorem gate_prepared (found : loop.findTool call.name = some tool) {tool' : AgentTool}
    (success : (loop.gate position tool call).outcome = .ok (.prepared tool' args)) :
    tool' = tool ∧ Cleared loop (loop.gate position tool call).trace position tool call args := by
  obtain ⟨preparedCall, prepared, rest, first⟩ := Traced.bind_ok success
  obtain ⟨validated, valid, rest, second⟩ := Traced.bind_ok rest
  obtain ⟨classification, classified, rest, third⟩ := Traced.bind_ok rest
  rw [ToolLoop.gate, first, second, third]
  split at rest
  · cases rest
  · next notBlocked =>
    obtain ⟨rfl, rfl, hookResult, hooked, passed, asked⟩ := passHook_prepared rest
    rw [Traced.outcome_call] at valid
    refine ⟨rfl, found, ⟨preparedCall, prepared, ?_⟩, classification, hookResult,
      (classify_ok classified).imp id fun member => ?_, notBlocked, hooked.imp id fun member => ?_, passed,
      fun asks => ?_⟩
    · simp [valid]
    · simp [member]
    · simp [member]
    · obtain ⟨request, binds, allowed⟩ := asked asks
      exact ⟨request, binds, by simp [allowed]⟩

/-- A prepared call has passed every stage of the gate. -/
theorem prepareToolCall_prepared (success : (loop.prepareToolCall position call).outcome = .ok (.prepared tool args)) :
    Cleared loop (loop.prepareToolCall position call).trace position tool call args := by
  unfold ToolLoop.prepareToolCall at success ⊢
  split at success
  · cases success
  · next known found =>
    rcases Traced.handle_ok success with ⟨ran, trace⟩ | ⟨error, _, refused⟩
    · obtain ⟨rfl, cleared⟩ := gate_prepared found ran
      rw [trace]
      exact cleared
    · cases refused

private theorem dispatch_immediate {result : AgentToolResult} {isError : Bool}
    (ended : loop.dispatch position tool args = .immediate result isError) : isError = true := by
  unfold ToolLoop.dispatch refuse at ended
  split at ended <;> cases ended
  rfl

private theorem passPrompt_immediate {request : Option ControlPlanePromptRequest} {result : AgentToolResult}
    {isError : Bool}
    (success : (loop.passPrompt position tool args request).outcome = .ok (.immediate result isError)) :
    isError = true := by
  cases request with
  | none => exact dispatch_immediate (Except.ok.inj success)
  | some request =>
    obtain ⟨decision, _, finished, _⟩ := Traced.bind_ok success
    split at finished
    · cases finished
      rfl
    · exact dispatch_immediate (Except.ok.inj finished)

private theorem gate_immediate {result : AgentToolResult} {isError : Bool}
    (success : (loop.gate position tool call).outcome = .ok (.immediate result isError)) : isError = true := by
  obtain ⟨_, _, rest, _⟩ := Traced.bind_ok success
  obtain ⟨_, _, rest, _⟩ := Traced.bind_ok rest
  obtain ⟨classification, _, rest, _⟩ := Traced.bind_ok rest
  split at rest
  · cases rest
    rfl
  · obtain ⟨hookResult, _, finished, _⟩ := Traced.bind_ok rest
    split at finished
    · cases finished
      rfl
    · exact passPrompt_immediate finished

/-- A call that preparation ends has an error result. -/
theorem prepareToolCall_immediate {result : AgentToolResult} {isError : Bool}
    (success : (loop.prepareToolCall position call).outcome = .ok (.immediate result isError)) : isError = true := by
  unfold ToolLoop.prepareToolCall at success
  split at success
  · cases success
    rfl
  · rcases Traced.handle_ok success with ⟨ran, _⟩ | ⟨error, _, refused⟩
    · exact gate_immediate ran
    · cases refused
      rfl

private theorem emitUpdates_avoids (updates : List AgentToolResult) :
    Traced.Avoids Observation.IsExecution (loop.emitUpdates position call updates) := by
  intro seen member execution
  obtain ⟨event, _, rfl⟩ := List.mem_map.mp member
  exact execution

private theorem finalizeExecutedToolCall_avoids (executed : AgentToolResult × Bool) :
    Traced.Avoids Observation.IsExecution (loop.finalizeExecutedToolCall position call args executed) := by
  unfold ToolLoop.finalizeExecutedToolCall
  split
  · exact Traced.Avoids.pure _
  · refine Traced.Avoids.handle (Traced.Avoids.bind (Traced.Avoids.call id) fun answer _ => ?_)
      fun error => Traced.Avoids.pure _
    split <;> exact Traced.Avoids.pure _

/-- Once its tool has been invoked, a call invokes no other. -/
theorem completeCall_avoids :
    Traced.Avoids Observation.IsExecution (loop.completeCall position tool call args) := by
  refine Traced.Avoids.bind (Traced.Avoids.bind (emitUpdates_avoids _) fun _ _ => ?_) fun executed _ =>
    finalizeExecutedToolCall_avoids executed
  split <;> exact Traced.Avoids.pure _

theorem emitToolExecutionEnd_avoids (finalized : FinalizedToolCall) :
    Traced.Avoids Observation.IsExecution (loop.emitToolExecutionEnd position finalized) :=
  emitEvent_avoids _

theorem emitToolExecutionStart_avoids :
    Traced.Avoids Observation.IsExecution
      (loop.emitEvent position (.toolExecutionStart call.id call.name call.arguments)) :=
  emitEvent_avoids _

theorem emitToolResultMessage_avoids (message : ToolResultMessage) :
    Traced.Avoids Observation.IsExecution (loop.emitToolResultMessage position message) :=
  Traced.Avoids.bind (emitEvent_avoids _) fun _ _ => emitEvent_avoids _

/-- The outcome of an executed call belongs to that call. -/
theorem completeCall_toolCall {finalized : FinalizedToolCall}
    (success : (loop.completeCall position tool call args).outcome = .ok finalized) : finalized.toolCall = call := by
  obtain ⟨executed, _, finished, _⟩ := Traced.bind_ok success
  unfold ToolLoop.finalizeExecutedToolCall at finished
  split at finished
  · cases finished
    rfl
  · rcases Traced.handle_ok finished with ⟨ran, _⟩ | ⟨error, _, handled⟩
    · obtain ⟨answer, _, finished, _⟩ := Traced.bind_ok ran
      split at finished <;> cases finished <;> rfl
    · cases handled
      rfl

end PieAgent.Model
