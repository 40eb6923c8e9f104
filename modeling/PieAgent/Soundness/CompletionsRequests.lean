import Mathlib.Data.List.Chain
import PieAgent.Model.Providers.CompletionsMessages
import PieAgent.Soundness.ToolCallPairing

/-! # Whether a chat completions request is well formed

The tool messages of a request stand in blocks behind the answers with their calls, since the transformed conversation
consists of such turns. They are one for each call exactly if the ids that an answer sends are distinct and those of its
results are among them: ids are shortened, so distinct calls can get the same one. The bridge behind tool results is
inserted twice when the user message that it is for has no content and another one follows.
-/

namespace PieAgent.Soundness.CompletionsRequests

open JavaScript Model

section Requests

def isTool : ChatMessage → Bool
  | .tool _ => true
  | _ => false

def isUser : ChatMessage → Bool
  | .user _ => true
  | _ => false

/-- The ids of the tool messages at the front. -/
def leadingIds : List ChatMessage → List JsString
  | .tool result :: rest => result.toolCallId :: leadingIds rest
  | _ => []

/-- Behind every answer stand tool messages for its calls, whose ids are distinct, one for each; and no other ones stand
anywhere. At first a tool message may come or not. -/
def Paired : Bool → List ChatMessage → Prop
  | _, [] => True
  | allowed, .tool _ :: rest => allowed = true ∧ Paired allowed rest
  | _, .assistant message :: rest =>
    (message.toolCalls.map (·.id)).Nodup ∧ (leadingIds rest).Perm (message.toolCalls.map (·.id)) ∧ Paired true rest
  | _, _ :: rest => Paired false rest

instance decidablePaired : (allowed : Bool) → (messages : List ChatMessage) → Decidable (Paired allowed messages)
  | _, [] => isTrue trivial
  | allowed, .tool _ :: rest =>
    have := decidablePaired allowed rest
    inferInstanceAs (Decidable (allowed = true ∧ Paired allowed rest))
  | _, .assistant message :: rest =>
    have := decidablePaired true rest
    inferInstanceAs (Decidable ((message.toolCalls.map (·.id)).Nodup ∧
      (leadingIds rest).Perm (message.toolCalls.map (·.id)) ∧ Paired true rest))
  | _, .user _ :: rest => decidablePaired false rest
  | _, .instruction _ _ :: rest => decidablePaired false rest
  | _, .bridge :: rest => decidablePaired false rest

/-- The second message is no user message behind a tool message, and no bridge behind a bridge. -/
def Joins (first second : ChatMessage) : Prop :=
  ¬(isTool first = true ∧ isUser second = true) ∧ ¬(first = .bridge ∧ second = .bridge)

instance (first second : ChatMessage) : Decidable (Joins first second) := inferInstanceAs (Decidable (_ ∧ _))

/-- No user message stands directly behind a tool message, and no two bridges stand next to each other. -/
def Bridged (messages : List ChatMessage) : Prop := messages.IsChain Joins

def WellFormed (compat : CompletionsCompat) (messages : List ChatMessage) : Prop :=
  Paired false messages ∧ (compat.requiresAssistantAfterToolResult = true → Bridged messages)

/-- The ids of the calls are distinct, and those of the results are distinct ones of these. -/
def IdsDistinct (callIds resultIds : List JsString) : Prop := callIds.Nodup ∧ resultIds.Nodup ∧ resultIds ⊆ callIds

/-- What becomes of a turn: nothing, if it failed or has no content, an answer, or an answer with tool messages at its
end; or a user message, which can be empty. -/
inductive TurnKind where
  | silent
  | emptyUser
  | user
  | answer
  | results

def turnKind (model : CompletionsModel) (compat : CompletionsCompat) : Turn → TurnKind
  | .user message => if message.content = .blocks [] then .emptyUser else .user
  | .assistant message results =>
    let sent := transformAssistant model.toTargetModel (some (completionsToolCallId model.toTargetModel)) message
    if message.failed ∨ (assistantParam? model compat sent).isNone then .silent
    else if message.toolCalls = [] ∨ results.flatMap (resultImages model.toTargetModel) ≠ [] then .answer
    else .results

/-- A user message comes before anything else is sent, behind an empty one if that is asked for. -/
def UserFollows (empty : Prop) (kinds : List TurnKind) : Prop :=
  ∃ between, ∃ last : TurnKind, ∃ after, kinds = between ++ last :: after ∧
    (∀ kind ∈ between, kind = TurnKind.silent ∨ kind = .emptyUser) ∧ (empty → TurnKind.emptyUser ∈ between) ∧
    (last = .user ∨ last = .emptyUser)

/-- Two user messages, the first without content, come behind tool messages before anything else is sent. -/
def BridgedTwice (kinds : List TurnKind) : Prop :=
  ∃ before after, kinds = before ++ .results :: after ∧ UserFollows True after

end Requests

section Turns

variable {model : CompletionsModel} {compat : CompletionsCompat}

/-- The loop after tool results. -/
def afterResults (model : CompletionsModel) (state : ChatState) (results : List ToolResultMessage) : ChatState :=
  results.foldl (fun state result => .inResults (state.images ++ resultImages model.toTargetModel result)) state

/-- What a turn is sent as, and the role that it leaves. -/
def sendTurn (model : CompletionsModel) (compat : CompletionsCompat) (lastRole : Option ChatRole) :
    Turn → List ChatMessage × Option ChatRole
  | .user message => convertUser compat lastRole message
  | .assistant message results =>
    let (sent, lastRole) := convertAssistant model compat lastRole message
    let (closing, lastRole) := (afterResults model (.between lastRole) results).close compat
    (sent ++ results.map (fun result => .tool (toolParam compat result)) ++ closing, lastRole)

private theorem convertLoop_nil (state : ChatState) : convertLoop model compat state [] = (state.close compat).1 := rfl

private theorem convertLoop_result (state : ChatState) (result : ToolResultMessage) (rest : List Message) :
    convertLoop model compat state (.toolResult result :: rest) = .tool (toolParam compat result) ::
      convertLoop model compat (.inResults (state.images ++ resultImages model.toTargetModel result)) rest := rfl

private theorem convertLoop_results (state : ChatState) (results : List ToolResultMessage) (rest : List Message) :
    convertLoop model compat state (results.map .toolResult ++ rest) =
      results.map (fun result => ChatMessage.tool (toolParam compat result)) ++
        convertLoop model compat (afterResults model state results) rest := by
  induction results generalizing state with
  | nil => rfl
  | cons result results ih =>
    rw [List.map_cons, List.cons_append, convertLoop_result, ih]
    rfl

private theorem convertLoop_close (state : ChatState) (turns : List Turn) :
    convertLoop model compat state (transcript turns) = (state.close compat).1 ++
      convertLoop model compat (.between (state.close compat).2) (transcript turns) := by
  cases turns with
  | nil =>
    rw [transcript_nil, convertLoop_nil, convertLoop_nil]
    exact (List.append_nil _).symm
  | cons turn turns =>
    cases turn <;> exact List.append_assoc ..

/-- The loop goes turn by turn. -/
private theorem convertLoop_cons (lastRole : Option ChatRole) (turn : Turn) (turns : List Turn) :
    convertLoop model compat (.between lastRole) (transcript (turn :: turns)) = (sendTurn model compat lastRole turn).1 ++
      convertLoop model compat (.between (sendTurn model compat lastRole turn).2) (transcript turns) := by
  cases turn with
  | user message => rfl
  | assistant message results =>
    rw [transcript_cons, Turn.messages, List.cons_append]
    change (convertAssistant model compat lastRole message).1 ++ convertLoop model compat
      (.between (convertAssistant model compat lastRole message).2) (results.map .toolResult ++ transcript turns) = _
    rw [convertLoop_results, convertLoop_close]
    simp only [sendTurn, List.append_assoc]

/-- The images of results are sent behind them; without any, they leave their own role. -/
private theorem close_afterResults {lastRole : Option ChatRole} {results : List ToolResultMessage} :
    (afterResults model (.between lastRole) results).close compat =
      if results = [] then ([], lastRole)
      else if results.flatMap (resultImages model.toTargetModel) = [] then ([], some .toolResult)
      else (bridges compat ++ [ChatMessage.user (.parts (.text (js "Attached image(s) from tool result:") ::
        results.flatMap (resultImages model.toTargetModel)))], some .user) := by
  have within (state : ChatState) (results : List ToolResultMessage) (some_ : results ≠ []) :
      afterResults model state results =
        .inResults (state.images ++ results.flatMap (resultImages model.toTargetModel)) := by
    induction results generalizing state with
    | nil => exact absurd rfl some_
    | cons result results ih =>
      cases results with
      | nil => simp [afterResults]
      | cons other more =>
        have rest := ih (.inResults (state.images ++ resultImages model.toTargetModel result)) (List.cons_ne_nil _ _)
        rw [List.flatMap_cons, ← List.append_assoc]
        exact rest
  by_cases none_ : results = []
  · rw [if_pos none_, none_]
    rfl
  · rw [if_neg none_, within _ _ none_]
    simp only [ChatState.images, List.nil_append]
    cases results.flatMap (resultImages model.toTargetModel) with
    | nil => rfl
    | cons image images => rfl

/-- An answer has results exactly if it has calls. -/
def Complete : Turn → Prop
  | .user _ => True
  | .assistant message results => results = [] ↔ message.toolCalls = []

/-- An answer whose ids are distinct, with one result for each. -/
def Distinct : Turn → Prop
  | .user _ => True
  | .assistant message results =>
    (message.toolCalls.map (·.id)).Nodup ∧ (results.map (·.toolCallId)).Perm (message.toolCalls.map (·.id))

private theorem assistantParam?_none {message : AssistantMessage} (none_ : assistantParam? model compat message = none) :
    message.toolCalls = [] := by
  by_contra calls
  unfold assistantParam? at none_
  dsimp only at none_
  rw [if_neg] at none_
  · cases none_
  · intro empty
    apply calls
    simpa using (Bool.and_eq_true_iff.mp empty).2

private theorem assistantParam?_some {message : AssistantMessage} {param : ChatAssistant}
    (sent : assistantParam? model compat message = some param) :
    param.toolCalls.map (·.id) = message.toolCalls.map (·.id) := by
  unfold assistantParam? at sent
  obtain ⟨_, same⟩ := Option.ite_none_left_eq_some.mp sent
  rw [← Option.some.inj same, List.map_map]
  rfl

private theorem sendTurn_silent {lastRole : Option ChatRole} {message : AssistantMessage} {results : List ToolResultMessage}
    (complete : Complete (.assistant message results)) (none_ : assistantParam? model compat message = none) :
    results = [] ∧ sendTurn model compat lastRole (.assistant message results) = ([], lastRole) := by
  have silent : results = [] := complete.mpr (assistantParam?_none none_)
  refine ⟨silent, ?_⟩
  rw [silent, sendTurn, convertAssistant, none_]
  rfl

/-- What follows the results of an answer that is sent, and the role that they leave. -/
def closing (model : CompletionsModel) (compat : CompletionsCompat) (results : List ToolResultMessage) :
    List ChatMessage × Option ChatRole :=
  (afterResults model (.between (some .assistant)) results).close compat

private theorem sendTurn_sent {lastRole : Option ChatRole} {message : AssistantMessage} {results : List ToolResultMessage}
    {param : ChatAssistant} (sent : assistantParam? model compat message = some param) :
    sendTurn model compat lastRole (.assistant message results) =
      (.assistant param :: (results.map (fun result => ChatMessage.tool (toolParam compat result)) ++
        (closing model compat results).1), (closing model compat results).2) := by
  rw [sendTurn, convertAssistant, sent]
  rfl

private theorem paired_irrel {messages : List ChatMessage} (none_ : leadingIds messages = []) {first second : Bool} :
    Paired first messages ↔ Paired second messages := by
  cases messages with
  | nil => exact Iff.rfl
  | cons message rest =>
    cases message with
    | tool result => cases none_
    | _ => exact Iff.rfl

private theorem leadingIds_tools (results : List ToolResultMessage) (rest : List ChatMessage) :
    leadingIds (results.map (fun result => ChatMessage.tool (toolParam compat result)) ++ rest) =
      results.map (·.toolCallId) ++ leadingIds rest := by
  induction results with
  | nil => rfl
  | cons result results ih => exact congrArg (result.toolCallId :: ·) ih

private theorem paired_tools (results : List ToolResultMessage) (rest : List ChatMessage) :
    Paired true (results.map (fun result => ChatMessage.tool (toolParam compat result)) ++ rest) ↔ Paired true rest := by
  induction results with
  | nil => exact Iff.rfl
  | cons result results ih => exact (and_iff_right rfl).trans ih

/-- Bridges and user messages in front of a request change nothing. -/
private theorem plain_append {front rest : List ChatMessage} (plain : ∀ message ∈ front, message = .bridge ∨ isUser message = true)
    (none_ : leadingIds rest = []) {allowed : Bool} :
    leadingIds (front ++ rest) = [] ∧ (Paired allowed (front ++ rest) ↔ Paired false rest) := by
  induction front generalizing allowed with
  | nil => exact ⟨none_, paired_irrel none_⟩
  | cons message front ih =>
    obtain ⟨_, paired⟩ := ih (fun other member => plain other (List.mem_cons_of_mem _ member))
    have first := plain message List.mem_cons_self
    cases message with
    | bridge => exact ⟨rfl, paired⟩
    | user content => exact ⟨rfl, paired⟩
    | _ => exact absurd first (by simp [isUser])

private theorem plain_bridges (message : ChatMessage) (member : message ∈ bridges compat) : message = .bridge := by
  unfold bridges at member
  split_ifs at member
  · exact List.mem_singleton.mp member
  · cases member

private theorem plain_convertUser (lastRole : Option ChatRole) (message : UserMessage) :
    ∀ sent ∈ (convertUser compat lastRole message).1, sent = .bridge ∨ isUser sent = true := by
  have bridge : ∀ sent ∈ (if lastRole = some .toolResult then bridges compat else []), sent = .bridge := by
    intro sent member
    split_ifs at member
    · exact plain_bridges sent member
    · cases member
  intro sent member
  unfold convertUser at member
  dsimp only at member
  split at member
  · exact .inl (bridge sent member)
  · rcases List.mem_append.mp member with before | here
    · exact .inl (bridge sent before)
    · obtain rfl := List.mem_singleton.mp here
      exact .inr rfl

private theorem plain_closing (results : List ToolResultMessage) :
    ∀ sent ∈ (closing model compat results).1, sent = .bridge ∨ isUser sent = true := by
  intro sent member
  unfold closing at member
  rw [close_afterResults] at member
  split_ifs at member
  · cases member
  · cases member
  · rcases List.mem_append.mp member with before | here
    · exact .inl (plain_bridges sent before)
    · obtain rfl := List.mem_singleton.mp here
      exact .inr rfl

/-- A request is paired exactly if the ids of each of its turns are distinct, with one result for each. -/
private theorem paired_convertLoop {turns : List Turn} (complete : ∀ turn ∈ turns, Complete turn)
    (lastRole : Option ChatRole) : leadingIds (convertLoop model compat (.between lastRole) (transcript turns)) = [] ∧
      (Paired false (convertLoop model compat (.between lastRole) (transcript turns)) ↔ ∀ turn ∈ turns, Distinct turn) := by
  induction turns generalizing lastRole with
  | nil => exact ⟨rfl, iff_of_true trivial nofun⟩
  | cons turn turns ih =>
    have ih := ih fun other member => complete other (List.mem_cons_of_mem _ member)
    rw [convertLoop_cons, List.forall_mem_cons]
    cases turn with
    | user message =>
      obtain ⟨none_, paired⟩ := ih (sendTurn model compat lastRole (.user message)).2
      obtain ⟨leads, same⟩ := @plain_append _ _ (@plain_convertUser compat lastRole message) none_ false
      exact ⟨leads, same.trans (paired.trans (and_iff_right trivial).symm)⟩
    | assistant message results =>
      cases sent : assistantParam? model compat message with
      | none =>
        obtain ⟨rfl, same⟩ := @sendTurn_silent model compat lastRole _ _ (complete _ List.mem_cons_self) sent
        obtain ⟨none_, paired⟩ := ih lastRole
        have distinct : Distinct (.assistant message []) := by
          rw [Distinct, assistantParam?_none sent]
          exact ⟨List.nodup_nil, List.Perm.refl _⟩
        rw [same]
        exact ⟨none_, paired.trans (and_iff_right distinct).symm⟩
      | some param =>
        rw [sendTurn_sent sent]
        obtain ⟨none_, paired⟩ := ih (closing model compat results).2
        obtain ⟨leads, same⟩ := @plain_append _ _ (@plain_closing model compat results) none_ true
        refine ⟨rfl, ?_⟩
        rw [List.cons_append, List.append_assoc, Paired, leadingIds_tools, paired_tools, leads, List.append_nil, same, paired,
          assistantParam?_some sent, Distinct, and_assoc]

private theorem completed_distinct_iff (now : ℤ) (message : AssistantMessage) (results : List ToolResultMessage) :
    Distinct (.assistant message
        (results ++ insertSyntheticToolResults now message.toolCalls (results.map (·.toolCallId)))) ↔
      IdsDistinct (message.toolCalls.map (·.id)) (results.map (·.toolCallId)) := by
  rw [Distinct, map_completed, IdsDistinct]
  generalize message.toolCalls.map (·.id) = callIds
  generalize results.map (·.toolCallId) = resultIds
  refine and_congr_right fun distinct => ⟨fun perm => ?_, ?_⟩
  · refine ⟨(List.nodup_append.mp (perm.nodup_iff.mpr distinct)).1, fun id member => ?_⟩
    exact perm.subset (List.mem_append_left _ member)
  · rintro ⟨results, subset⟩
    refine (List.perm_ext_iff_of_nodup ?_ distinct).mpr fun id => ?_
    · refine List.nodup_append'.mpr ⟨results, distinct.filter _, fun id member other => ?_⟩
      simp [member] at other
    · rw [List.mem_append, List.mem_filter]
      constructor
      · rintro (member | ⟨member, _⟩)
        · exact subset member
        · exact member
      · intro member
        by_cases answered : id ∈ resultIds
        · exact .inl answered
        · exact .inr ⟨member, by simpa using answered⟩

/-- The transformed turns of a transcript have results exactly for the answers with calls. -/
private theorem complete_of_recorded (now : ℤ) {turns : List Turn} (recorded : ∀ turn ∈ turns, turn.Recorded)
    (target : TargetModel) (normalize : Option IdNormalizer) :
    ∀ turn ∈ (transformTurns target normalize [] (turns.map (downgradeTurn target))).filterMap (pairTurn now),
      Complete turn := by
  refine (@forall_transformTurns_iff target normalize (fun callIds resultIds => callIds = [] → resultIds = []) _ now
    (fun _ => trivial) ?_ turns).mpr ?_
  · intro message results
    have ids := map_completed now message.toolCalls results
    rw [Complete, ← List.map_eq_nil_iff, ids, List.append_eq_nil_iff, ← @List.map_eq_nil_iff _ _ (·.id) message.toolCalls]
    cases results.map (·.toolCallId) with
    | nil => simp
    | cons id rest => simp
  · rintro before message results after rfl _ silent
    have prefix_ := (recorded (.assistant message results) (by simp)).1
    rw [List.map_eq_nil_iff.mp silent, List.map_nil, List.prefix_nil, List.map_eq_nil_iff] at prefix_
    rw [prefix_, List.map_nil]

end Turns

section Gaps

/-- What stands last, as far as a bridge is concerned. -/
inductive Gap where
  | closed
  | results
  | bridged

/-- No bridge is inserted behind a bridge. -/
def Once : Gap → List TurnKind → Prop
  | _, [] => True
  | gap, .silent :: rest => Once gap rest
  | .closed, .emptyUser :: rest => Once .closed rest
  | .results, .emptyUser :: rest => Once .bridged rest
  | .bridged, .emptyUser :: _ => False
  | .closed, .user :: rest => Once .closed rest
  | .results, .user :: rest => Once .closed rest
  | .bridged, .user :: _ => False
  | _, .answer :: rest => Once .closed rest
  | _, .results :: rest => Once .results rest

variable {kind : TurnKind} {kinds : List TurnKind}

private theorem not_userFollows_nil {empty : Prop} : ¬ UserFollows empty [] := by
  rintro ⟨between, last, after, split, _⟩
  exact absurd (congrArg List.length split) (by simp)

private theorem userFollows_cons {empty : Prop} : UserFollows empty (kind :: kinds) ↔
    (¬ empty ∧ (kind = .user ∨ kind = .emptyUser)) ∨ (kind = .silent ∧ UserFollows empty kinds) ∨
      (kind = .emptyUser ∧ UserFollows False kinds) := by
  constructor
  · rintro ⟨between, last, after, split, quiet, some_, user⟩
    cases between with
    | nil =>
      obtain ⟨rfl, _⟩ := List.cons.inj split
      exact .inl ⟨fun asked => absurd (some_ asked) List.not_mem_nil, user⟩
    | cons first between =>
      obtain ⟨rfl, rfl⟩ := List.cons.inj split
      have later := fun other member => quiet other (List.mem_cons_of_mem _ member)
      rcases quiet kind List.mem_cons_self with rfl | rfl
      · refine .inr (.inl ⟨rfl, between, last, after, rfl, later, fun asked => ?_, user⟩)
        exact (List.mem_cons.mp (some_ asked)).resolve_left nofun
      · exact .inr (.inr ⟨rfl, between, last, after, rfl, later, False.elim, user⟩)
  · have quiet_cons {between : List TurnKind} (first : kind = .silent ∨ kind = .emptyUser)
        (quiet : ∀ other ∈ between, other = TurnKind.silent ∨ other = .emptyUser) :
        ∀ other ∈ kind :: between, other = .silent ∨ other = .emptyUser := by
      intro other member
      rcases List.mem_cons.mp member with rfl | member
      · exact first
      · exact quiet other member
    rintro (⟨free, user⟩ | ⟨rfl, between, last, after, rfl, quiet, some_, user⟩ |
      ⟨rfl, between, last, after, rfl, quiet, _, user⟩)
    · exact ⟨[], kind, kinds, rfl, nofun, fun asked => absurd asked free, user⟩
    · exact ⟨.silent :: between, last, after, rfl, quiet_cons (.inl rfl) quiet,
        fun asked => List.mem_cons_of_mem _ (some_ asked), user⟩
    · exact ⟨.emptyUser :: between, last, after, rfl, quiet_cons (.inr rfl) quiet, fun _ => List.mem_cons_self, user⟩

private theorem bridgedTwice_cons : BridgedTwice (kind :: kinds) ↔
    (kind = .results ∧ UserFollows True kinds) ∨ BridgedTwice kinds := by
  constructor
  · rintro ⟨before, after, split, follows⟩
    cases before with
    | nil =>
      obtain ⟨rfl, rfl⟩ := List.cons.inj split
      exact .inl ⟨rfl, follows⟩
    | cons first before =>
      obtain ⟨_, rest⟩ := List.cons.inj split
      exact .inr ⟨before, after, rest, follows⟩
  · rintro (⟨rfl, follows⟩ | ⟨before, after, rfl, follows⟩)
    · exact ⟨[], kinds, rfl, follows⟩
    · exact ⟨kind :: before, after, rfl, follows⟩

/-- A bridge is inserted behind a bridge exactly if user messages follow each other so. -/
private theorem not_once_iff : (¬ Once .closed kinds ↔ BridgedTwice kinds) ∧
    (¬ Once .results kinds ↔ UserFollows True kinds ∨ BridgedTwice kinds) ∧
    (¬ Once .bridged kinds ↔ UserFollows False kinds ∨ BridgedTwice kinds) := by
  induction kinds with
  | nil =>
    have never : ¬ BridgedTwice [] := by
      rintro ⟨before, after, split, _⟩
      exact absurd (congrArg List.length split) (by simp)
    simp [Once, never, not_userFollows_nil]
  | cons kind kinds ih =>
    obtain ⟨closed, results, bridged⟩ := ih
    rw [bridgedTwice_cons, userFollows_cons, userFollows_cons]
    cases kind <;> simp [Once, closed, results, bridged]

end Gaps

section Bridges

variable {model : CompletionsModel} {compat : CompletionsCompat}

/-- What a transformed turn is sent as. -/
def sentKind (model : CompletionsModel) (compat : CompletionsCompat) : Turn → TurnKind
  | .user message => if (userContent? message.content).isNone then .emptyUser else .user
  | .assistant message results =>
    if (assistantParam? model compat message).isNone then .silent
    else if results = [] ∨ results.flatMap (resultImages model.toTargetModel) ≠ [] then .answer
    else .results

/-- What stands last is this message, and the loop knows. -/
def Stands : Gap → Option ChatRole → ChatMessage → Prop
  | .closed, lastRole, message => lastRole ≠ some .toolResult ∧ isTool message = false ∧ message ≠ .bridge
  | .results, lastRole, message => lastRole = some .toolResult ∧ isTool message = true
  | .bridged, lastRole, message => lastRole = some .toolResult ∧ message = .bridge

variable {gap : Gap} {lastRole : Option ChatRole} {last : ChatMessage} {rest : List ChatMessage}

private theorem chain_cons {second : ChatMessage} (joins : Joins last second) :
    (last :: second :: rest).IsChain Joins ↔ (second :: rest).IsChain Joins := by
  rw [List.isChain_cons_cons]
  exact and_iff_right joins

private theorem joins_assistant (last : ChatMessage) (param : ChatAssistant) : Joins last (.assistant param) :=
  ⟨fun both => (nomatch both.2), fun both => (nomatch both.2)⟩

private theorem joins_tool (last : ChatMessage) (result : ChatTool) : Joins last (.tool result) :=
  ⟨fun both => (nomatch both.2), fun both => (nomatch both.2)⟩

private theorem joins_bridge (tool : isTool last = true) : Joins last .bridge := by
  refine ⟨fun both => (nomatch both.2), ?_⟩
  rintro ⟨rfl, _⟩
  cases tool

private theorem bridge_joins (content : ChatContent) : Joins .bridge (.user content) :=
  ⟨fun both => (nomatch both.1), fun both => (nomatch both.2)⟩

/-- A user message of the conversation, with its bridge. -/
private theorem chain_user (requires : compat.requiresAssistantAfterToolResult = true) (stands : Stands gap lastRole last)
    (content : ChatContent) : (last :: ((if lastRole = some .toolResult then bridges compat else []) ++
      .user content :: rest)).IsChain Joins ↔ gap ≠ .bridged ∧ (ChatMessage.user content :: rest).IsChain Joins := by
  rw [bridges, if_pos requires]
  cases gap with
  | closed =>
    obtain ⟨role, noTool, noBridge⟩ := stands
    rw [if_neg role, List.nil_append, chain_cons ⟨fun both => absurd both.1 (by simp [noTool]), fun both => noBridge both.1⟩]
    simp
  | results =>
    obtain ⟨role, tool⟩ := stands
    rw [if_pos role, List.cons_append, List.nil_append, chain_cons (joins_bridge tool), chain_cons (bridge_joins content)]
    simp
  | bridged =>
    obtain ⟨role, rfl⟩ := stands
    rw [if_pos role, List.cons_append, List.isChain_cons_cons]
    refine iff_of_false (fun both => both.1.2 ⟨rfl, rfl⟩) (fun both => both.1 rfl)

/-- A bridge for a user message that is not sent. -/
private theorem chain_empty (requires : compat.requiresAssistantAfterToolResult = true) (stands : Stands gap lastRole last) :
    (last :: ((if lastRole = some .toolResult then bridges compat else []) ++ rest)).IsChain Joins ↔
      match gap with
      | .closed => (last :: rest).IsChain Joins
      | .results => (ChatMessage.bridge :: rest).IsChain Joins
      | .bridged => False := by
  rw [bridges, if_pos requires]
  cases gap with
  | closed => rw [if_neg stands.1, List.nil_append]
  | results =>
    obtain ⟨role, tool⟩ := stands
    rw [if_pos role, List.cons_append, List.nil_append, chain_cons (joins_bridge tool)]
  | bridged =>
    obtain ⟨role, rfl⟩ := stands
    rw [if_pos role, List.cons_append, List.isChain_cons_cons]
    exact iff_of_false (fun both => both.1.2 ⟨rfl, rfl⟩) id

/-- The tool messages of an answer, up to the last of them. -/
private theorem chain_tools (last : ChatMessage) (result : ToolResultMessage) (results : List ToolResultMessage) :
    ∃ param, (last :: ((result :: results).map (fun result => ChatMessage.tool (toolParam compat result)) ++
      rest)).IsChain Joins ↔
      (ChatMessage.tool param :: rest).IsChain Joins := by
  induction results generalizing last result with
  | nil => exact ⟨_, chain_cons (joins_tool _ _)⟩
  | cons other results ih =>
    obtain ⟨param, same⟩ := ih (.tool (toolParam compat result)) other
    exact ⟨param, (chain_cons (joins_tool _ _)).trans same⟩

private theorem stands_user (content : ChatContent) : Stands .closed (some .user) (.user content) :=
  ⟨fun same => (by cases same), rfl, fun same => by cases same⟩

private theorem stands_assistant (param : ChatAssistant) : Stands .closed (some .assistant) (.assistant param) :=
  ⟨fun same => (by cases same), rfl, fun same => by cases same⟩

/-- The messages of the remaining turns join up with what stands last exactly if no bridge is inserted twice. -/
private theorem chain_convertLoop (requires : compat.requiresAssistantAfterToolResult = true) {turns : List Turn}
    (complete : ∀ turn ∈ turns, Complete turn) (stands : Stands gap lastRole last) :
    (last :: convertLoop model compat (.between lastRole) (transcript turns)).IsChain Joins ↔
      Once gap (turns.map (sentKind model compat)) := by
  induction turns generalizing gap lastRole last with
  | nil =>
    refine iff_of_true (List.isChain_singleton _) ?_
    cases gap <;> trivial
  | cons turn turns ih =>
    have ih {gap lastRole last} := @ih gap lastRole last fun other member => complete other (List.mem_cons_of_mem _ member)
    rw [convertLoop_cons, List.map_cons]
    cases turn with
    | user message =>
      rw [sendTurn, convertUser, sentKind]
      cases found : userContent? message.content with
      | none =>
        dsimp only
        rw [chain_empty requires stands]
        cases gap with
        | closed => exact ih stands
        | results => exact @ih .bridged _ _ ⟨stands.1, rfl⟩
        | bridged => exact Iff.rfl
      | some content =>
        dsimp only
        rw [List.append_assoc, List.cons_append, List.nil_append, chain_user requires stands,
          @ih .closed (some .user) (.user content) (stands_user content)]
        cases gap <;> simp [Once]
    | assistant message results =>
      rw [sentKind]
      cases sent : assistantParam? model compat message with
      | none =>
        obtain ⟨rfl, same⟩ := @sendTurn_silent model compat lastRole _ _ (complete _ List.mem_cons_self) sent
        rw [same, List.nil_append, ih stands]
        cases gap <;> exact Iff.rfl
      | some param =>
        rw [sendTurn_sent sent, List.cons_append, chain_cons (joins_assistant _ _), List.append_assoc, closing,
          close_afterResults]
        cases results with
        | nil =>
          rw [if_pos rfl]
          refine (@ih .closed (some .assistant) (.assistant param) (stands_assistant param)).trans ?_
          cases gap <;> exact Iff.rfl
        | cons result results =>
          rw [if_neg (List.cons_ne_nil _ _)]
          by_cases none_ : (result :: results).flatMap (resultImages model.toTargetModel) = []
          · rw [if_pos none_, List.nil_append]
            obtain ⟨tool, same⟩ := @chain_tools compat
              (convertLoop model compat (.between (some .toolResult)) (transcript turns)) (.assistant param) result results
            refine same.trans ((@ih .results (some .toolResult) (.tool tool) ⟨rfl, rfl⟩).trans ?_)
            simp only [Option.isNone_some, Bool.false_eq_true, if_false, reduceCtorEq, false_or, none_, ne_eq, not_true_eq_false]
            cases gap <;> exact Iff.rfl
          · rw [if_neg none_, bridges, if_pos requires, List.cons_append, List.nil_append]
            obtain ⟨tool, same⟩ := @chain_tools compat (.bridge :: .user (.parts (.text
              (js "Attached image(s) from tool result:") :: (result :: results).flatMap (resultImages model.toTargetModel))) ::
                convertLoop model compat (.between (some .user)) (transcript turns)) (.assistant param) result results
            refine same.trans ?_
            rw [chain_cons (joins_bridge rfl), chain_cons (bridge_joins _)]
            refine (@ih .closed (some .user) (.user _) (stands_user _)).trans ?_
            simp only [Option.isNone_some, Bool.false_eq_true, if_false, ne_eq, none_, not_false_eq_true, or_true, if_true]
            cases gap <;> exact Iff.rfl

end Bridges

section Kinds

variable {model : CompletionsModel} {compat : CompletionsCompat}

private theorem userContent?_isNone (content : UserContent) :
    (userContent? content).isNone = true ↔ content = .blocks [] := by
  cases content with
  | plain text => simp [userContent?]
  | blocks content => cases content <;> simp [userContent?]

private theorem downgradeUser_empty (target : TargetModel) (message : UserMessage) :
    (downgradeUser target message).content = .blocks [] ↔ message.content = .blocks [] := by
  obtain ⟨content, timestamp⟩ := message
  unfold downgradeUser
  split_ifs
  · exact Iff.rfl
  · cases content with
    | plain text => exact Iff.rfl
    | blocks content =>
      cases content with
      | nil => exact Iff.rfl
      | cons block rest => cases block <;> simp [replaceImagesWithPlaceholder]

private theorem resultImages_downgradeResult (target : TargetModel) (toolCallIdMap : ToolCallIdMap)
    (result : ToolResultMessage) :
    resultImages target (mapResult toolCallIdMap (downgradeResult target result)) = resultImages target result := by
  unfold resultImages downgradeResult mapResult
  split_ifs <;> rfl

/-- Results that are made up have no images. -/
private theorem flatMap_resultImages (target : TargetModel) (toolCallIdMap : ToolCallIdMap) (now : ℤ)
    (results : List ToolResultMessage) (calls : List ToolCall) (ids : List JsString) :
    ((((results.map (downgradeResult target)).map (mapResult toolCallIdMap)) ++
        insertSyntheticToolResults now calls ids).flatMap (resultImages target)) =
      results.flatMap (resultImages target) := by
  have made : (insertSyntheticToolResults now calls ids).flatMap (resultImages target) = [] := by
    rw [List.flatMap_eq_nil_iff]
    intro result member
    obtain ⟨call, _, rfl⟩ := List.mem_map.mp member
    unfold resultImages
    split_ifs <;> rfl
  rw [List.flatMap_append, made, List.append_nil, List.map_map, List.flatMap_map]
  simp only [Function.comp_def, resultImages_downgradeResult]

private theorem once_cons {kind : TurnKind} {first second : List TurnKind} (same : ∀ gap, Once gap first ↔ Once gap second)
    (gap : Gap) : Once gap (kind :: first) ↔ Once gap (kind :: second) := by
  cases gap <;> cases kind <;> simp [Once, same]

/-- A completed answer has results exactly if it has calls. -/
private theorem completed_eq_nil_iff (now : ℤ) (target : TargetModel) (normalize : Option IdNormalizer)
    (toolCallIdMap : ToolCallIdMap) {message : AssistantMessage} {results : List ToolResultMessage}
    (recorded : (Turn.assistant message results).Recorded) :
    (results.map (downgradeResult target)).map (mapResult toolCallIdMap) ++ insertSyntheticToolResults now
        (transformAssistant target normalize message).toolCalls
          (((results.map (downgradeResult target)).map (mapResult toolCallIdMap)).map (·.toolCallId)) = [] ↔
      message.toolCalls = [] := by
  rw [toolCalls_transformAssistant]
  constructor
  · intro none_
    obtain ⟨noResults, noMade⟩ := List.append_eq_nil_iff.mp none_
    rw [noResults] at noMade
    simpa [insertSyntheticToolResults] using noMade
  · intro silent
    have prefix_ := recorded.1
    rw [silent, List.map_nil, List.prefix_nil, List.map_eq_nil_iff] at prefix_
    rw [prefix_, silent]
    rfl

private theorem sentKind_completed (now : ℤ) {toolCallIdMap : ToolCallIdMap} {message : AssistantMessage}
    {results : List ToolResultMessage} (status : message.failed = false)
    (recorded : (Turn.assistant message results).Recorded) :
    sentKind model compat (.assistant
        (transformAssistant model.toTargetModel (some (completionsToolCallId model.toTargetModel)) message)
        ((results.map (downgradeResult model.toTargetModel)).map (mapResult toolCallIdMap) ++ insertSyntheticToolResults now
          (transformAssistant model.toTargetModel (some (completionsToolCallId model.toTargetModel)) message).toolCalls
            (((results.map (downgradeResult model.toTargetModel)).map (mapResult toolCallIdMap)).map (·.toolCallId)))) =
      turnKind model compat (.assistant message results) := by
  rw [sentKind, turnKind]
  simp only [completed_eq_nil_iff now model.toTargetModel _ toolCallIdMap recorded, flatMap_resultImages, status,
    Bool.false_eq_true, false_or]

/-- What the transformed turns are sent as is what becomes of the turns of the transcript. -/
private theorem once_transformTurns (now : ℤ) {turns : List Turn} (recorded : ∀ turn ∈ turns, turn.Recorded)
    (toolCallIdMap : ToolCallIdMap) (gap : Gap) :
    Once gap (((transformTurns model.toTargetModel (some (completionsToolCallId model.toTargetModel)) toolCallIdMap
        (turns.map (downgradeTurn model.toTargetModel))).filterMap (pairTurn now)).map (sentKind model compat)) ↔
      Once gap (turns.map (turnKind model compat)) := by
  induction turns generalizing toolCallIdMap gap with
  | nil => exact Iff.rfl
  | cons turn turns ih =>
    have ih := ih fun other member => recorded other (List.mem_cons_of_mem _ member)
    cases turn with
    | user message =>
      have kind : sentKind model compat (.user (downgradeUser model.toTargetModel message)) =
          turnKind model compat (.user message) := by
        rw [sentKind, turnKind]
        simp only [userContent?_isNone, downgradeUser_empty]
      have paired : pairTurn now (.user (downgradeUser model.toTargetModel message)) =
          some (.user (downgradeUser model.toTargetModel message)) := rfl
      rw [List.map_cons, downgradeTurn, transformTurns, List.filterMap_cons_some paired, List.map_cons, List.map_cons, kind]
      exact once_cons (ih toolCallIdMap) gap
    | assistant message results =>
      rw [List.map_cons, List.map_cons, downgradeTurn, transformTurns]
      have failed : (transformAssistant model.toTargetModel (some (completionsToolCallId model.toTargetModel)) message).failed =
        message.failed := rfl
      cases status : message.failed with
      | true =>
        have kind : turnKind model compat (.assistant message results) = .silent := by
          rw [turnKind]
          exact if_pos (.inl status)
        rw [List.filterMap_cons_none (by rw [pairTurn]; exact if_pos status), kind, ih]
        cases gap <;> exact Iff.rfl
      | false =>
        rw [List.filterMap_cons_some (pairTurn_sent now (failed.trans status)), List.map_cons,
          sentKind_completed now status (recorded _ List.mem_cons_self)]
        exact once_cons (ih _) gap

end Kinds

private theorem wellFormed_instructions (model : CompletionsModel) (compat : CompletionsCompat)
    (systemPrompt : Option JsString) (messages : List ChatMessage) :
    (Paired false (instructions model compat systemPrompt ++ messages) ↔ Paired false messages) ∧
      ∃ first, isTool first = false ∧ first ≠ .bridge ∧
        (Bridged (instructions model compat systemPrompt ++ messages) ↔ (first :: messages).IsChain Joins) := by
  have free : (ChatMessage.user (.text []) :: messages).IsChain Joins ↔ messages.IsChain Joins := by
    rw [List.isChain_cons]
    exact and_iff_right fun second _ => ⟨fun both => (nomatch both.1), fun both => (nomatch both.1)⟩
  unfold instructions
  split
  · exact ⟨Iff.rfl, .user (.text []), rfl, nofun, free.symm⟩
  · exact ⟨Iff.rfl, .user (.text []), rfl, nofun, free.symm⟩
  · next prompt _ =>
    exact ⟨Iff.rfl, .instruction (model.reasoning && compat.supportsDeveloperRole) (sanitizeSurrogates prompt), rfl, nofun,
      Iff.rfl⟩

/-- For every transcript of the agent loop, the request is well formed exactly if every answer that is sent has distinct
ids, those of its results among them, and no bridge is inserted twice. -/
theorem wellFormed_convertMessages_iff (model : CompletionsModel) (compat : CompletionsCompat) (now : ℤ)
    (systemPrompt : Option JsString) (turns : List Turn) (recorded : ∀ turn ∈ turns, turn.Recorded) :
    WellFormed compat (convertMessages model compat now systemPrompt (transcript turns)) ↔
      EverySent model.toTargetModel (some (completionsToolCallId model.toTargetModel)) IdsDistinct turns ∧
        (compat.requiresAssistantAfterToolResult = true → ¬ BridgedTwice (turns.map (turnKind model compat))) := by
  have complete := complete_of_recorded now recorded model.toTargetModel (some (completionsToolCallId model.toTargetModel))
  rw [WellFormed, convertMessages, transformMessages_transcript _ _ _ recorded]
  obtain ⟨paired, first, noTool, noBridge, bridged⟩ := wellFormed_instructions model compat systemPrompt
    (convertLoop model compat (.between none) (transcript ((transformTurns model.toTargetModel
      (some (completionsToolCallId model.toTargetModel)) [] (turns.map (downgradeTurn model.toTargetModel))).filterMap
        (pairTurn now))))
  rw [paired, (paired_convertLoop complete none).2, forall_transformTurns_iff _ _ now (fun _ => trivial)
    (completed_distinct_iff now)]
  refine and_congr_right fun _ => forall_congr' fun requires => ?_
  have joined := @chain_convertLoop model compat .closed none first requires _ complete ⟨nofun, noTool, noBridge⟩
  rw [bridged, joined, once_transformTurns now recorded, ← (not_once_iff).1, not_not]

/-- A model behind the chat completions API of its own provider. -/
private def completionsModel : CompletionsModel where
  provider := js "openai"
  api := js "openai-completions"
  id := js "gpt"
  readsImages := true
  reasoning := false

private def strict : CompletionsCompat where
  supportsDeveloperRole := false
  requiresToolResultName := false
  requiresAssistantAfterToolResult := true
  requiresThinkingAsText := false
  requiresReasoningContentOnAssistantMessages := false

private def called (id : String) : ToolCall := { id := js id, name := js "read", arguments := .obj [] }

private def returned (id : String) : ToolResultMessage :=
  { toolCallId := js id, toolName := js "read", content := [], isError := false, timestamp := .millis 0 }

/-- An answer of another model with two calls, and their results. -/
private def twoCalls (first second : String) : Turn :=
  .assistant
    { content := [.toolCall (called first), .toolCall (called second)]
      api := js "openai-responses", provider := js "openai-codex", model := js "codex", usage := ⟨1, 1, 0, 0, 2⟩
      stopReason := .toolUse, timestamp := .millis 0 }
    [returned first, returned second]

private def said (content : UserContent) : Turn := .user ⟨content, .millis 0⟩

theorem wellFormed_twoCalls : EverySent completionsModel.toTargetModel
    (some (completionsToolCallId completionsModel.toTargetModel)) IdsDistinct [twoCalls "a|1" "b|1", said (.plain (js "go"))] :=
  ((wellFormed_convertMessages_iff completionsModel strict 0 none [twoCalls "a|1" "b|1", said (.plain (js "go"))]
    (by decide)).mp ⟨by decide, fun _ => by unfold Bridged; decide⟩).1

/-- Two calls get the same id, and a bridge is inserted behind a bridge. -/
theorem not_wellFormed :
    ((∀ turn ∈ [twoCalls "a|1" "a|2"], turn.Recorded) ∧
      ¬ WellFormed strict (convertMessages completionsModel strict 0 none (transcript [twoCalls "a|1" "a|2"]))) ∧
    (∀ turn ∈ [twoCalls "a|1" "b|1", said (.blocks []), said (.plain (js "go"))], turn.Recorded) ∧
      ¬ WellFormed strict (convertMessages completionsModel strict 0 none
        (transcript [twoCalls "a|1" "b|1", said (.blocks []), said (.plain (js "go"))])) := by
  refine ⟨⟨by decide, fun formed => ?_⟩, by decide, fun formed => ?_⟩
  · exact absurd formed.1 (by decide)
  · have bridged := formed.2 rfl
    unfold Bridged at bridged
    exact absurd bridged (by decide)

end PieAgent.Soundness.CompletionsRequests
