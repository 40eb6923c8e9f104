import PieAgent.Machine.Core.Labeled
import PieAgent.Model.Mcp.Client

/-! # What settles a request to an MCP server

Every request settles once. The table of the requests in flight takes every frame with their ids, so that a request
settles by an answer of its own only if the server sends no requests under the ids of requests in flight.
-/

namespace PieAgent.Soundness

open JavaScript Machine Model.Mcp

section Settling

/-- The request has settled. -/
def HasSettled (client : McpClient) (id : ℕ) (outcome : Outcome) : Prop :=
  ∃ request, client.requests.get? id = some request ∧ request.phase = .settled outcome

/-- The event is one that the request waits for. -/
def ClientEvent.IsFor (id : ℕ) : ClientEvent → Bool
  | .advance other _ => other = id
  | _ => false

/-- A request never settles again. Until it has settled it waits for an event that can happen, and it settles with the
third of these. -/
structure SettlesOnce (client : McpClient) : Prop where
  stays : ∀ id outcome events later, HasSettled client id outcome → run? McpClient.step client events = some later →
    HasSettled later id outcome
  waits : ∀ id request, client.requests.get? id = some request →
    (∃ outcome, HasSettled client id outcome) ∨
      ∃ event, ClientEvent.IsFor id event ∧ (client.step event).isSome
  ends : ∀ id request events later, client.requests.get? id = some request →
    run? McpClient.step client events = some later → 3 ≤ events.countP (ClientEvent.IsFor id) →
    ∃ outcome, HasSettled later id outcome

/-- A frame with the id that carries a result or an error, and no method. -/
def IsResponse (id : ℕ) (frame : JsonValue) : Prop :=
  asU64 (frame.field? "id") = some id ∧ frame.field? "method" = none ∧
    ((frame.field? "error").isSome ∨ (frame.field? "result").isSome)

/-- A response with the id has arrived, and says so. -/
def AnsweredBy (events : List ClientEvent) (id : ℕ) (outcome : Outcome) : Prop :=
  ∃ frame, .line (some frame) ∈ events ∧ IsResponse id frame ∧ (settlementOf frame).outcome = outcome

/-- The transport was closed while the request was in flight. -/
def ClosedOn (events : List ClientEvent) (id : ℕ) : Prop :=
  ∃ before after client, events = before ++ ClientEvent.closed :: after ∧ run? McpClient.step {} before = some client ∧
    id ∈ client.inflight

/-- A frame with the id of a request in flight is a response. -/
def OnlyResponses (client : McpClient) : ClientEvent → Prop
  | .line (some frame) => ∀ id ∈ client.inflight, asU64 (frame.field? "id") = some id → IsResponse id frame
  | _ => True

/-- The transport is closed when no request is in flight. -/
def ClosedIdle (client : McpClient) (event : ClientEvent) : Prop := event = .closed → client.inflight = []

end Settling

section Steps

variable {client next later : McpClient} {events past : List ClientEvent} {event : ClientEvent} {id other : ℕ}
  {request : Request} {requests : JsMap ℕ Request} {settlement : InflightSettlement} {outcome : Outcome}

/-- The promise of a request that is resolved. -/
private def Request.resolved (settlement : InflightSettlement) (request : Request) : Request :=
  { request with settlement := request.settlement.or (some settlement) }

private theorem get?_resolve (settlement : InflightSettlement) (requests : JsMap ℕ Request) (id other : ℕ) :
    (resolve settlement requests other).get? id =
      (requests.get? id).map fun request => if id = other then Request.resolved settlement request else request := by
  unfold resolve
  cases found : requests.get? other with
  | none =>
    by_cases same : id = other
    · rw [same, found]
      rfl
    · simp [same]
  | some request =>
    by_cases same : id = other
    · rw [same, found, JsMap.get?_set_self]
      simp [Request.resolved]
    · simp [same, JsMap.get?_set_of_ne requests _ same]

private theorem get?_foldl_resolve (settlement : InflightSettlement) (ids : List ℕ) (requests : JsMap ℕ Request) (id : ℕ) :
    (ids.foldl (resolve settlement) requests).get? id =
      (requests.get? id).map fun request => if id ∈ ids then Request.resolved settlement request else request := by
  induction ids generalizing requests with
  | nil => simp
  | cons first ids ih =>
    rw [List.foldl_cons, ih, get?_resolve, Option.map_map]
    refine congrArg (Option.map · _) (funext fun request => ?_)
    by_cases same : id = first
    · cases known : request.settlement <;> simp [same, Request.resolved, known]
    · simp [same]

/-- The event issues a request under the next id. -/
private def IssuesRequest (client next : McpClient) (event : ClientEvent) : Prop :=
  ∃ serializable cancellable request, event = .request serializable cancellable ∧
    next.requests = client.requests.set client.nextId request ∧ next.nextId = client.nextId + 1 ∧
    request.settlement = none ∧ (request.phase = .sending ∨ request.phase = .settled .unserializable)

/-- The event advances a request. -/
private def AdvancesRequest (client next : McpClient) (event : ClientEvent) : Prop :=
  ∃ id own request phase, event = .advance id own ∧ client.requests.get? id = some request ∧
    request.advance? own = some phase ∧ next.nextId = client.nextId ∧
    next.requests = client.requests.set id { request with phase }

/-- The event resolves the promises of some requests in flight. -/
private def ResolvesRequests (client next : McpClient) (event : ClientEvent) : Prop :=
  ∃ (settlement : InflightSettlement) (ids : List ℕ), (∀ id, ClientEvent.IsFor id event = false) ∧
    next.nextId = client.nextId ∧
    (∀ id, next.requests.get? id = (client.requests.get? id).map fun request =>
      if id ∈ ids then Request.resolved settlement request else request) ∧
    ∀ id ∈ ids, id ∈ client.inflight ∧ (event = .closed ∧ settlement = transportClosed ∨
      ∃ frame, event = .line (some frame) ∧ asU64 (frame.field? "id") = some id ∧ settlement = settlementOf frame)

private theorem resolves_of_same (quiet : ∀ id, ClientEvent.IsFor id event = false) (nextId : next.nextId = client.nextId)
    (same : next.requests = client.requests) : ResolvesRequests client next event := by
  refine ⟨transportClosed, [], quiet, nextId, fun id => ?_, nofun⟩
  rw [same]
  simp

private theorem step_cases (stepped : client.step event = some next) :
    IssuesRequest client next event ∨ AdvancesRequest client next event ∨ ResolvesRequests client next event := by
  cases event with
  | request serializable cancellable =>
    cases stepped
    cases serializable with
    | true => exact .inl ⟨_, _, _, rfl, rfl, rfl, rfl, .inl rfl⟩
    | false => exact .inl ⟨_, _, _, rfl, rfl, rfl, rfl, .inr rfl⟩
  | advance id own =>
    obtain ⟨request, found, stepped⟩ := Option.bind_eq_some_iff.mp stepped
    obtain ⟨phase, advanced, stepped⟩ := Option.bind_eq_some_iff.mp stepped
    cases stepped
    exact .inr (.inl ⟨id, own, request, phase, rfl, found, advanced, rfl, rfl⟩)
  | closed =>
    obtain ⟨_, same⟩ := Option.ite_none_right_eq_some.mp stepped
    cases same
    exact .inr (.inr ⟨transportClosed, client.inflight, fun _ => rfl, rfl, get?_foldl_resolve _ _ _,
      fun id member => ⟨member, .inl ⟨rfl, rfl⟩⟩⟩)
  | line frame =>
    obtain ⟨_, same⟩ := Option.ite_none_right_eq_some.mp stepped
    cases same
    refine .inr (.inr ?_)
    cases frame with
    | none => exact resolves_of_same (fun _ => rfl) rfl rfl
    | some frame =>
      show ResolvesRequests client (client.readFrame frame) _
      unfold McpClient.readFrame
      cases numbered : asU64 (frame.field? "id") with
      | none =>
        dsimp only
        split
        · exact resolves_of_same (fun _ => rfl) rfl rfl
        · exact resolves_of_same (fun _ => rfl) rfl rfl
      | some id =>
        dsimp only
        split_ifs with flying
        · refine ⟨settlementOf frame, [id], fun _ => rfl, rfl, fun other => ?_, fun other member => ?_⟩
          · simp only [List.mem_singleton]
            exact get?_resolve _ _ _ _
          · obtain rfl := List.mem_singleton.mp member
            exact ⟨flying, .inr ⟨frame, rfl, numbered, rfl⟩⟩
        · exact resolves_of_same (fun _ => rfl) rfl rfl

/-- The ids of the requests so far are used up. -/
private def Numbered (client : McpClient) : Prop :=
  ∀ id request, client.requests.get? id = some request → id < client.nextId

/-- What becomes of a request in a step. -/
private theorem request_after (numbered : Numbered client) (stepped : client.step event = some next)
    (found : client.requests.get? id = some request) :
    ∃ after, next.requests.get? id = some after ∧
      ((∃ own, event = .advance id own ∧ request.advance? own = some after.phase) ∨
      (ClientEvent.IsFor id event = false ∧ after.phase = request.phase)) := by
  rcases step_cases stepped with ⟨_, _, issued, rfl, set, _⟩ | ⟨other, own, moved, phase, rfl, isMoved, advanced, _, set⟩ |
    ⟨settlement, ids, quiet, _, resolved, _⟩
  · have differ : id ≠ client.nextId := (numbered id request found).ne
    refine ⟨request, ?_, .inr ⟨rfl, rfl⟩⟩
    rw [set, JsMap.get?_set_of_ne _ _ differ, found]
  · by_cases same : id = other
    · subst same
      cases found.symm.trans isMoved
      exact ⟨_, by rw [set, JsMap.get?_set_self], .inl ⟨own, rfl, advanced⟩⟩
    · refine ⟨request, ?_, .inr ⟨decide_eq_false (Ne.symm same), rfl⟩⟩
      rw [set, JsMap.get?_set_of_ne _ _ same, found]
  · have after := resolved id
    rw [found, Option.map_some] at after
    refine ⟨_, after, .inr ⟨quiet id, ?_⟩⟩
    split
    · rfl
    · rfl

/-- What the requests after a step come from. -/
private theorem request_before (stepped : client.step event = some next) {after : Request}
    (found : next.requests.get? id = some after) :
    (id = client.nextId ∧ next.nextId = client.nextId + 1 ∧ after.settlement = none ∧
      (after.phase = .sending ∨ after.phase = .settled .unserializable)) ∨
    ∃ request, client.requests.get? id = some request ∧ client.nextId ≤ next.nextId ∧
      ((∃ own, request.advance? own = some after.phase ∧ after.settlement = request.settlement) ∨
      (after.phase = request.phase ∧ (after.settlement = request.settlement ∨
        ∃ settlement, after.settlement = request.settlement.or (some settlement) ∧ id ∈ client.inflight ∧
          (event = .closed ∧ settlement = transportClosed ∨ ∃ frame, event = .line (some frame) ∧
            asU64 (frame.field? "id") = some id ∧ settlement = settlementOf frame)))) := by
  rcases step_cases stepped with ⟨_, _, issued, _, set, nextId, fresh, phase⟩ |
    ⟨other, own, moved, phase, _, isMoved, advanced, nextId, set⟩ | ⟨settlement, ids, _, nextId, resolved, why⟩
  · by_cases same : id = client.nextId
    · subst same
      rw [set, JsMap.get?_set_self] at found
      cases found
      exact .inl ⟨rfl, nextId, fresh, phase⟩
    · rw [set, JsMap.get?_set_of_ne _ _ same] at found
      exact .inr ⟨after, found, by omega, .inr ⟨rfl, .inl rfl⟩⟩
  · right
    by_cases same : id = other
    · subst same
      rw [set, JsMap.get?_set_self] at found
      cases found
      exact ⟨moved, isMoved, nextId.ge, .inl ⟨own, advanced, rfl⟩⟩
    · rw [set, JsMap.get?_set_of_ne _ _ same] at found
      exact ⟨after, found, nextId.ge, .inr ⟨rfl, .inl rfl⟩⟩
  · right
    rw [resolved id] at found
    obtain ⟨request, isRequest, same⟩ := Option.map_eq_some_iff.mp found
    refine ⟨request, isRequest, nextId.ge, .inr ?_⟩
    split_ifs at same with member
    · subst same
      exact ⟨rfl, .inr ⟨settlement, rfl, why id member⟩⟩
    · subst same
      exact ⟨rfl, .inl rfl⟩

private theorem Numbered.step (numbered : Numbered client) (stepped : client.step event = some next) : Numbered next := by
  intro id after found
  rcases request_before stepped found with ⟨same, nextId, _⟩ | ⟨request, isRequest, grows, _⟩
  · omega
  · exact (numbered id request isRequest).trans_le grows

/-- How many events a request still waits for, at most. -/
private def remaining : Phase → ℕ
  | .sending => 3
  | .waiting => 2
  | .cancelling => 1
  | .settled _ => 0

private theorem remaining_advance {own : RequestEvent} {phase : Phase} (advanced : request.advance? own = some phase) :
    remaining phase < remaining request.phase := by
  unfold Request.advance? at advanced
  split at advanced
  next isPhase => cases advanced; rw [isPhase]; decide
  next isPhase => cases advanced; rw [isPhase]; decide
  next isPhase =>
    obtain ⟨_, _, same⟩ := Option.map_eq_some_iff.mp advanced
    subst same
    rw [isPhase]
    exact Nat.zero_lt_two
  next isPhase =>
    obtain ⟨_, same⟩ := Option.ite_none_right_eq_some.mp advanced
    cases same
    rw [isPhase]
    decide
  next isPhase =>
    obtain ⟨_, same⟩ := Option.ite_none_right_eq_some.mp advanced
    cases same
    rw [isPhase]
    decide
  next isPhase => cases advanced; rw [isPhase]; decide
  next => cases advanced

private theorem settled_of_remaining (found : client.requests.get? id = some request) (none_ : remaining request.phase = 0) :
    ∃ outcome, HasSettled client id outcome := by
  cases phase : request.phase with
  | settled outcome => exact ⟨outcome, request, found, phase⟩
  | sending => rw [phase] at none_; cases none_
  | waiting => rw [phase] at none_; cases none_
  | cancelling => rw [phase] at none_; cases none_

private theorem HasSettled.step (numbered : Numbered client) (settled : HasSettled client id outcome)
    (stepped : client.step event = some next) : HasSettled next id outcome := by
  obtain ⟨request, found, phase⟩ := settled
  obtain ⟨after, isAfter, ⟨own, _, advanced⟩ | ⟨_, kept⟩⟩ := request_after numbered stepped found
  · have less := remaining_advance advanced
    rw [phase] at less
    cases less
  · exact ⟨after, isAfter, kept.trans phase⟩

/-- A request settles with the last event it waits for. -/
private theorem settles_of_count (numbered : Numbered client) (found : client.requests.get? id = some request)
    (run : run? McpClient.step client events = some later)
    (enough : remaining request.phase ≤ events.countP (ClientEvent.IsFor id)) : ∃ outcome, HasSettled later id outcome := by
  induction events generalizing client request with
  | nil =>
    cases run
    exact settled_of_remaining found (Nat.le_zero.mp enough)
  | cons event events ih =>
    obtain ⟨next, stepped, rest⟩ := run?_cons.mp run
    obtain ⟨after, isAfter, ⟨own, same, advanced⟩ | ⟨other, kept⟩⟩ := request_after numbered stepped found
    · refine ih (numbered.step stepped) isAfter rest ?_
      have less := remaining_advance advanced
      rw [List.countP_cons_of_pos (by rw [same]; exact decide_eq_true rfl)] at enough
      omega
    · refine ih (numbered.step stepped) isAfter rest ?_
      rwa [kept, ← List.countP_cons_of_neg (by rw [other]; exact Bool.false_ne_true)]

/-- A request that has not settled waits for an event that can happen. -/
private theorem exists_awaited (found : client.requests.get? id = some request) :
    (∃ outcome, HasSettled client id outcome) ∨ ∃ event, ClientEvent.IsFor id event ∧ (client.step event).isSome := by
  have happens (own : RequestEvent) (advances : (request.advance? own).isSome) :
      ∃ event, ClientEvent.IsFor id event ∧ (client.step event).isSome := by
    obtain ⟨phase, advanced⟩ := Option.isSome_iff_exists.mp advances
    exact ⟨.advance id own, decide_eq_true rfl, by simp [McpClient.step, found, advanced]⟩
  cases phase : request.phase with
  | settled outcome => exact .inl ⟨outcome, request, found, phase⟩
  | sending => exact .inr (happens (.sent true) (by simp [Request.advance?, phase]))
  | cancelling => exact .inr (happens .cancelledSent (by simp [Request.advance?, phase]))
  | waiting =>
    cases resolved : request.settlement with
    | none => exact .inr (happens .deadline (by simp [Request.advance?, phase, resolved]))
    | some settlement => exact .inr (happens .settlement (by simp [Request.advance?, phase, resolved]))

private theorem settlesOnce_of_numbered (numbered : Numbered client) : SettlesOnce client where
  stays id outcome events later settled run :=
    (run?_preserves (fun client => Numbered client ∧ HasSettled client id outcome)
      (fun _ _ _ both stepped => ⟨both.1.step stepped, both.2.step both.1 stepped⟩) ⟨numbered, settled⟩ run).2
  waits _ _ found := exists_awaited found
  ends id request events later found run enough := by
    refine settles_of_count numbered found run (le_trans ?_ enough)
    cases request.phase with
    | sending => exact le_rfl
    | waiting => exact Nat.le_succ 2
    | cancelling => exact Nat.le_add_left 1 2
    | settled _ => exact Nat.zero_le 3

/-- What a request is resolved with, and what it has settled with. -/
private def JustifiedRequest (past : List ClientEvent) (id : ℕ) (request : Request) : Prop :=
  (∀ settlement, request.settlement = some settlement → AnsweredBy past id settlement.outcome ∨
    settlement = transportClosed ∧ ClosedOn past id) ∧
  ∀ settlement : InflightSettlement, request.phase = .settled settlement.outcome →
    ∃ own, request.settlement = some own ∧ own.outcome = settlement.outcome

private theorem AnsweredBy.mono (answered : AnsweredBy past id outcome) : AnsweredBy (past ++ [event]) id outcome := by
  obtain ⟨frame, arrived, response⟩ := answered
  exact ⟨frame, List.mem_append_left _ arrived, response⟩

private theorem ClosedOn.mono (closed : ClosedOn past id) : ClosedOn (past ++ [event]) id := by
  obtain ⟨before, after, client, rfl, run, flying⟩ := closed
  exact ⟨before, after ++ [event], client, by rw [List.append_assoc, List.cons_append], run, flying⟩

/-- A request that settles with an answer takes it from its settlement. -/
private theorem settlement_of_advance {own : RequestEvent} (advanced : request.advance? own = some (.settled settlement.outcome)) :
    ∃ own, request.settlement = some own ∧ own.outcome = settlement.outcome := by
  have other : settlement.outcome ≠ .unsent ∧ settlement.outcome ≠ .timeout ∧ settlement.outcome ≠ .cancelled := by
    cases settlement with
    | ok => exact ⟨nofun, nofun, nofun⟩
    | error => exact ⟨nofun, nofun, nofun⟩
  unfold Request.advance? at advanced
  split at advanced
  next => cases advanced
  next => exact absurd (Phase.settled.inj (Option.some.inj advanced)).symm other.1
  next =>
    obtain ⟨own, resolved, same⟩ := Option.map_eq_some_iff.mp advanced
    exact ⟨own, resolved, Phase.settled.inj same⟩
  next =>
    obtain ⟨_, same⟩ := Option.ite_none_right_eq_some.mp advanced
    exact absurd (Phase.settled.inj (Option.some.inj same)).symm other.2.1
  next =>
    obtain ⟨_, same⟩ := Option.ite_none_right_eq_some.mp advanced
    cases same
  next => exact absurd (Phase.settled.inj (Option.some.inj advanced)).symm other.2.2
  next => cases advanced

private theorem JustifiedRequest.mono {after : Request} (justified : JustifiedRequest past id request)
    (settlement : after.settlement = request.settlement) (phase : ∀ settlement : InflightSettlement,
      after.phase = .settled settlement.outcome →
        request.phase = .settled settlement.outcome ∨ ∃ own, request.advance? own = some after.phase) :
    JustifiedRequest (past ++ [event]) id after := by
  refine ⟨fun found same => ?_, fun found settled => ?_⟩
  · rcases justified.1 found (settlement ▸ same) with answered | ⟨same, closed⟩
    · exact .inl answered.mono
    · exact .inr ⟨same, closed.mono⟩
  · rw [settlement]
    rcases phase found settled with before | ⟨own, advanced⟩
    · exact justified.2 found before
    · exact settlement_of_advance (settled ▸ advanced)

private theorem justified_step (run : run? McpClient.step {} past = some client)
    (justified : ∀ id request, client.requests.get? id = some request → JustifiedRequest past id request)
    (answers : OnlyResponses client event) (stepped : client.step event = some next) :
    ∀ id after, next.requests.get? id = some after → JustifiedRequest (past ++ [event]) id after := by
  intro id after found
  rcases request_before stepped found with ⟨_, _, fresh, phase⟩ | ⟨request, isRequest, _, ⟨own, advanced, kept⟩ |
    ⟨same, kept | ⟨settlement, resolved, flying, why⟩⟩⟩
  · refine ⟨fun settlement same => ?_, fun settlement settled => ?_⟩
    · rw [fresh] at same
      cases same
    · rcases phase with sending | unserializable
      · cases settled.symm.trans sending
      · cases settlement with
        | ok => cases settled.symm.trans unserializable
        | error => cases settled.symm.trans unserializable
  · exact (justified id request isRequest).mono kept fun _ _ => .inr ⟨own, advanced⟩
  · exact (justified id request isRequest).mono kept fun _ settled => .inl (same ▸ settled)
  · have before := justified id request isRequest
    cases known : request.settlement with
    | some earlier =>
      rw [known, Option.some_or] at resolved
      exact before.mono (resolved.trans known.symm) fun _ settled => .inl (same ▸ settled)
    | none =>
      rw [known, Option.none_or] at resolved
      refine ⟨fun found same => ?_, fun found settled => ?_⟩
      · cases resolved.symm.trans same
        rcases why with ⟨rfl, rfl⟩ | ⟨frame, rfl, numbered, rfl⟩
        · exact .inr ⟨rfl, past, [], client, rfl, run, flying⟩
        · exact .inl ⟨frame, List.mem_append_right _ (List.mem_singleton.mpr rfl), answers id flying numbered, rfl⟩
      · obtain ⟨own, isOwn, _⟩ := before.2 found (same ▸ settled)
        rw [known] at isOwn
        cases isOwn

/-- In a run in which the server sends nothing but responses under the ids of requests in flight, every request settles
once, and with a result or an error of the server only if a response with its id has arrived. The one error that no
response brings is that of the closed transport. -/
theorem mcp_requests_settle (run : run? McpClient.step {} events = some client)
    (meets : Meets McpClient.step OnlyResponses {} events) :
    SettlesOnce client ∧
    (∀ id (settlement : InflightSettlement), HasSettled client id settlement.outcome →
      AnsweredBy events id settlement.outcome ∨
        (settlement.outcome = transportClosed.outcome ∧ ClosedOn events id)) ∧
    (Meets McpClient.step ClosedIdle {} events → ∀ id (settlement : InflightSettlement),
      HasSettled client id settlement.outcome → AnsweredBy events id settlement.outcome) := by
  have numbered : Numbered client :=
    run?_preserves Numbered (fun _ _ _ numbered stepped => numbered.step stepped) (fun _ _ found => by cases found) run
  have justified := @run?_history _ _ _ _ _ _ _
    (fun past client => run? McpClient.step {} past = some client ∧
      ∀ id request, client.requests.get? id = some request → JustifiedRequest past id request)
    (fun past state event next holds answers stepped =>
      ⟨run?_append.mpr ⟨state, holds.1, run?_cons.mpr ⟨next, stepped, rfl⟩⟩,
        justified_step holds.1 holds.2 answers stepped⟩)
    [] ⟨rfl, fun _ _ found => by cases found⟩ meets run
  have answered : ∀ id (settlement : InflightSettlement), HasSettled client id settlement.outcome →
      AnsweredBy events id settlement.outcome ∨
        (settlement.outcome = transportClosed.outcome ∧ ClosedOn events id) := by
    rintro id settlement ⟨request, found, settled⟩
    have why := justified.2 id request found
    obtain ⟨own, resolved, same⟩ := why.2 settlement settled
    rcases why.1 own resolved with answered | ⟨rfl, closed⟩
    · exact .inl (same ▸ answered)
    · exact .inr ⟨same.symm, closed⟩
  refine ⟨settlesOnce_of_numbered numbered, answered, fun idle id settlement settled => ?_⟩
  rcases answered id settlement settled with answered | ⟨_, before, after, middle, rfl, toMiddle, flying⟩
  · exact answered
  · have empty : middle.inflight = [] := (idle.after toMiddle).1 rfl
    rw [empty] at flying
    cases flying

private def resultFrame : JsonValue :=
  .obj [(js "jsonrpc", .str (js "2.0")), (js "id", .num (.finite 1)), (js "result", .bool true)]

private def pingFrame : JsonValue :=
  .obj [(js "jsonrpc", .str (js "2.0")), (js "id", .num (.finite 1)), (js "method", .str (js "ping"))]

theorem mcp_requests_settle_answered :
    ∃ client, run? McpClient.step {} [.request true false, .advance 1 (.sent true), .line (some resultFrame),
      .advance 1 .settlement] = some client ∧ SettlesOnce client ∧ HasSettled client 1 (.result (.bool true)) := by
  have response : IsResponse 1 resultFrame := ⟨rfl, rfl, .inr rfl⟩
  refine ⟨_, rfl, (@mcp_requests_settle _ [.request true false, .advance 1 (.sent true), .line (some resultFrame),
    .advance 1 .settlement] rfl ?_).1, _, rfl, rfl⟩
  refine .cons trivial rfl (.cons trivial rfl (.cons ?_ rfl (.cons trivial rfl meets_nil)))
  intro id flying _
  obtain rfl := List.mem_singleton.mp flying
  exact response

/-- A ping of the server under the id of a request in flight settles the request with an error. -/
theorem mcp_request_settled_by_ping :
    let events := [.request true false, .advance 1 (.sent true), .line (some pingFrame), .advance 1 .settlement]
    ∃ client, run? McpClient.step {} events = some client ∧
      HasSettled client 1 (.serverError (.finite (-32603)) (js "response had neither result nor error")) ∧
      ∀ outcome, ¬AnsweredBy events 1 outcome := by
  refine ⟨_, rfl, ⟨_, rfl, rfl⟩, ?_⟩
  rintro outcome ⟨frame, arrived, ⟨_, methodless, _⟩, _⟩
  obtain rfl : frame = pingFrame := by simpa using arrived
  cases methodless

end Steps

end PieAgent.Soundness
