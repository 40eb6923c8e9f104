import PieAgent.Model.Triggers.McpNotifications

/-! # The keys of notifications

A key is the name of the server and a text for the event, joined by a colon. Three pairs of different events have the same
key: an update without a URI and one of the URI `unknown`; a value that reads like the hash of the other one; and a name of
a server that goes on with a colon and what the other server's text starts with.
-/

namespace PieAgent.Soundness.NotificationKeys

open JavaScript Model Mcp McpNotifications

/-- What a notification reports. -/
inductive Event where
  | tools
  | resources
  | prompts
  | updated (uri : Option JsString)
  | custom (key : JsString)
deriving DecidableEq

/-- The event of a notification; one of a custom method without a key is dropped. -/
def eventOf (n : McpServerNotification) : Option Event :=
  if n.method = toolsListChanged then some .tools
  else if n.method = resourcesListChanged then some .resources
  else if n.method = promptsListChanged then some .prompts
  else if n.method = resourcesUpdated then some (.updated (getStringField n.params "uri"))
  else (extractDedupKey n.params).map .custom

section Keys

variable (digest : JsString → JsString)

/-- The part of the key behind the name of the server. -/
def eventKey : Event → JsString
  | .tools => js "tools"
  | .resources => js "resources"
  | .prompts => js "prompts"
  | .updated uri => js "resources:" ++ safeIdempotencySegment digest (uri.getD (js "unknown"))
  | .custom key => js "custom:" ++ safeIdempotencySegment digest key

def keyOf (serverName : JsString) (event : Event) : JsString :=
  js "mcp:" ++ serverName ++ js ":" ++ eventKey digest event

/-- The first value reads like the hash of the second one. -/
def Imitates (first second : JsString) : Prop :=
  isHashed first = false ∧ isHashed second = true ∧ first = js "hash:" ++ digest second

/-- The name of the second server goes on where that of the first one ends. -/
def Nested (server server' : JsString) (event event' : Event) : Prop :=
  ∃ rest, server' = server ++ js ":" ++ rest ∧ eventKey digest event = rest ++ js ":" ++ eventKey digest event'

/-- The two kinds of events with a value that the server controls. -/
inductive Kind where
  | updated
  | custom

/-- The value of an event. -/
def valueOf? : Event → Option (Kind × JsString)
  | .tools | .resources | .prompts => none
  | .updated uri => some (.updated, uri.getD (js "unknown"))
  | .custom key => some (.custom, key)

/-- The three ways in which different events have the same key. -/
inductive Confused (server server' : JsString) (event event' : Event) : Prop where
  | unnamed (same : server = server')
      (pair : event = .updated none ∧ event' = .updated (some (js "unknown")) ∨
        event = .updated (some (js "unknown")) ∧ event' = .updated none)
  | imitated (same : server = server') {kind : Kind} {value value' : JsString} (first : valueOf? event = some (kind, value))
      (second : valueOf? event' = some (kind, value'))
      (imitates : Imitates digest value value' ∨ Imitates digest value' value)
  | nested (nested : Nested digest server server' event event' ∨ Nested digest server' server event' event)

variable {digest} {server server' : JsString} {event event' : Event}

theorem keyOf_eq {n : McpServerNotification} {traceId : JsString} {receivedAt : IsoTimestamp} :
    (mapNotification digest server n traceId receivedAt).map (·.idempotencyKey) = (eventOf n).map (keyOf digest server) := by
  simp only [mapNotification, idempotencyFor, eventOf, Option.map_map]
  split
  · rfl
  split
  · rfl
  split
  · rfl
  split
  · simp [keyOf, eventKey]
  · rw [Option.map_map, Option.map_map]
    refine congrArg (fun f => Option.map f _) (funext fun key => ?_)
    simp [keyOf, eventKey]

/-- Values have the same part of a key when they are the same, or one of them reads like the hash of the other one. -/
private theorem segment_eq_iff (injective : Function.Injective digest) {value value' : JsString} :
    safeIdempotencySegment digest value = safeIdempotencySegment digest value' ↔
      value = value' ∨ Imitates digest value value' ∨ Imitates digest value' value := by
  simp only [safeIdempotencySegment, Imitates]
  cases first : isHashed value <;> cases second : isHashed value'
  · simp
  · have apart : value ≠ value' := fun same => by simp [same, second] at first
    simp [apart]
  · have apart : value ≠ value' := fun same => by simp [same, second] at first
    simpa [apart] using eq_comm
  · simpa using injective.eq_iff

/-- The text in front of a value. -/
private def kindText : Kind → JsString
  | .updated => js "resources:"
  | .custom => js "custom:"

private theorem eventKey_of_value {kind : Kind} {value : JsString} (found : valueOf? event = some (kind, value)) :
    eventKey digest event = kindText kind ++ safeIdempotencySegment digest value := by
  cases event with
  | updated uri =>
    cases found
    rfl
  | custom key =>
    cases found
    rfl
  | _ => cases found

/-- The first code unit of the part of a key for an event. -/
private def initial : Event → CodeUnit
  | .tools => 0x74
  | .prompts => 0x70
  | .custom _ => 0x63
  | .resources | .updated _ => 0x72

private theorem head?_eventKey (event : Event) : (eventKey digest event).head? = some (initial event) := by
  cases event <;> rfl

private theorem eventKey_resources_ne (uri : Option JsString) :
    eventKey digest .resources ≠ eventKey digest (.updated uri) := by
  intro same
  have lengths := congrArg List.length same
  have short : (js "resources").length = 9 := rfl
  have long : (js "resources:").length = 10 := rfl
  rw [eventKey, eventKey, List.length_append, short, long] at lengths
  omega

/-- Events with the same part of a key are the same, or of one kind with the same part for their values. -/
private theorem eventKey_cases (same : eventKey digest event = eventKey digest event') :
    event = event' ∨ ∃ kind value value', valueOf? event = some (kind, value) ∧ valueOf? event' = some (kind, value') ∧
      safeIdempotencySegment digest value = safeIdempotencySegment digest value' := by
  have heads := congrArg List.head? same
  rw [head?_eventKey, head?_eventKey, Option.some.injEq] at heads
  cases event with
  | tools =>
    cases event' with
    | tools => exact .inl rfl
    | _ => simp [initial] at heads
  | prompts =>
    cases event' with
    | prompts => exact .inl rfl
    | _ => simp [initial] at heads
  | resources =>
    cases event' with
    | resources => exact .inl rfl
    | updated uri => exact absurd same (eventKey_resources_ne uri)
    | _ => simp [initial] at heads
  | updated uri =>
    cases event' with
    | resources => exact absurd same.symm (eventKey_resources_ne uri)
    | updated uri' => exact .inr ⟨.updated, _, _, rfl, rfl, List.append_cancel_left same⟩
    | _ => simp [initial] at heads
  | custom key =>
    cases event' with
    | custom key' => exact .inr ⟨.custom, _, _, rfl, rfl, List.append_cancel_left same⟩
    | _ => simp [initial] at heads

/-- Different events with one value: one of them has no URI. -/
private theorem unnamed_of_value {kind : Kind} {value : JsString} (first : valueOf? event = some (kind, value))
    (second : valueOf? event' = some (kind, value)) (apart : event ≠ event') :
    event = .updated none ∧ event' = .updated (some (js "unknown")) ∨
      event = .updated (some (js "unknown")) ∧ event' = .updated none := by
  cases kind with
  | custom =>
    cases event <;> cases first
    cases event' <;> cases second
    exact absurd rfl apart
  | updated =>
    obtain ⟨uri, rfl⟩ : ∃ uri, event = .updated uri := by
      cases event <;> first | exact ⟨_, rfl⟩ | cases first
    obtain ⟨uri', rfl⟩ : ∃ uri', event' = .updated uri' := by
      cases event' <;> first | exact ⟨_, rfl⟩ | cases second
    have same : uri.getD (js "unknown") = uri'.getD (js "unknown") := by
      rw [valueOf?, Option.some.injEq, Prod.mk.injEq] at first second
      rw [first.2, second.2]
    cases uri <;> cases uri'
    · exact absurd rfl apart
    · exact .inl ⟨rfl, congrArg (fun uri => Event.updated (some uri)) same.symm⟩
    · exact .inr ⟨congrArg (fun uri => Event.updated (some uri)) same, rfl⟩
    · exact absurd (congrArg (fun uri => Event.updated (some uri)) same) apart

private theorem keyOf_of_nested (nested : Nested digest server server' event event') :
    keyOf digest server event = keyOf digest server' event' ∧ server ≠ server' := by
  obtain ⟨rest, goesOn, same⟩ := nested
  refine ⟨by simp only [keyOf, goesOn, same, List.append_assoc], fun equal => ?_⟩
  have lengths := congrArg List.length (equal.trans goesOn)
  have colon : (js ":").length = 1 := rfl
  rw [List.length_append, List.length_append, colon] at lengths
  omega

/-- A name that another name of a server goes on with. -/
private theorem nested_of_append {more : JsString} (goesOn : server' = server ++ more) (apart : server ≠ server')
    (same : js ":" ++ eventKey digest event = more ++ (js ":" ++ eventKey digest event')) :
    Nested digest server server' event event' := by
  have colon : js ":" = [0x3A] := by decide
  cases more with
  | nil => exact absurd (goesOn.trans (List.append_nil _)).symm apart
  | cons unit rest =>
    rw [colon, List.singleton_append, List.cons_append] at same
    obtain ⟨rfl, split⟩ := List.cons.inj same
    refine ⟨rest, ?_, ?_⟩
    · rw [goesOn, colon, List.append_assoc, List.singleton_append]
    · rw [split, colon, List.append_assoc]

/-- Events of different servers, or different events, have the same key exactly when they are confused. -/
theorem keyOf_eq_iff_confused (injective : Function.Injective digest) :
    (keyOf digest server event = keyOf digest server' event' ∧ ¬ (server = server' ∧ event = event')) ↔
      Confused digest server server' event event' := by
  constructor
  · rintro ⟨same, apart⟩
    by_cases one : server = server'
    · have other : event ≠ event' := fun equal => apart ⟨one, equal⟩
      rw [keyOf, keyOf, one] at same
      obtain ⟨kind, value, value', first, second, parts⟩ :=
        (eventKey_cases (List.append_cancel_left same)).resolve_left other
      rcases (segment_eq_iff injective).mp parts with rfl | imitates
      · exact .unnamed one (unnamed_of_value first second other)
      · exact .imitated one first second imitates
    · simp only [keyOf, List.append_assoc] at same
      rcases List.append_eq_append_iff.mp (List.append_cancel_left same) with ⟨more, goesOn, rest⟩ | ⟨more, goesOn, rest⟩
      · exact .nested (.inl (nested_of_append goesOn one rest))
      · exact .nested (.inr (nested_of_append goesOn (Ne.symm one) rest))
  · rintro (⟨rfl, pair⟩ | ⟨rfl, first, second, imitates⟩ | nested)
    · rcases pair with ⟨rfl, rfl⟩ | ⟨rfl, rfl⟩
      · exact ⟨rfl, fun both => by cases both.2⟩
      · exact ⟨rfl, fun both => by cases both.2⟩
    · have parts := (segment_eq_iff injective).mpr (.inr imitates)
      refine ⟨by rw [keyOf, keyOf, eventKey_of_value first, eventKey_of_value second, parts], fun both => ?_⟩
      rw [both.2, second, Option.some.injEq, Prod.mk.injEq] at first
      rcases imitates with ⟨plain, hashed, _⟩ | ⟨plain, hashed, _⟩
      · rw [first.2, plain] at hashed
        cases hashed
      · rw [← first.2, plain] at hashed
        cases hashed
    · rcases nested with nested | nested
      · obtain ⟨same, apart⟩ := keyOf_of_nested nested
        exact ⟨same, fun both => apart both.1⟩
      · obtain ⟨same, apart⟩ := keyOf_of_nested nested
        exact ⟨same.symm, fun both => apart both.1.symm⟩

end Keys

section Triggers

variable {digest : JsString → JsString} {server : JsString} {n n' : McpServerNotification}

/-- Two notifications with the same method, resource URI, dedup key and summary. -/
structure Agree (n n' : McpServerNotification) : Prop where
  method : n.method = n'.method
  uri : getStringField n.params "uri" = getStringField n'.params "uri"
  key : extractDedupKey n.params = extractDedupKey n'.params
  summary : optedInSummary n.params = optedInSummary n'.params

/-- No other parameter gets into a trigger. -/
theorem mapNotification_of_agree (agree : Agree n n') (traceId traceId' : JsString) (receivedAt receivedAt' : IsoTimestamp) :
    mapNotification digest server n' traceId' receivedAt' =
      (mapNotification digest server n traceId receivedAt).map fun trigger =>
        { trigger with traceId := traceId', receivedAt := receivedAt' } := by
  obtain ⟨method, uri, key, summary⟩ := agree
  simp only [mapNotification, idempotencyFor, renderSummary, ← method, ← uri, ← key, ← summary, Option.map_map]
  rfl

/-- The keys of two notifications are isolated, and their triggers have nothing but what the notifications agree in. -/
structure Isolated (digest : JsString → JsString) (server server' : JsString) (n n' : McpServerNotification) : Prop where
  keys : ∀ traceId traceId' receivedAt receivedAt' trigger trigger',
    mapNotification digest server n traceId receivedAt = some trigger →
    mapNotification digest server' n' traceId' receivedAt' = some trigger' →
    trigger.idempotencyKey = trigger'.idempotencyKey → server = server' ∧ eventOf n = eventOf n'
  triggers : server = server' → Agree n n' → ∀ traceId traceId' receivedAt receivedAt',
    mapNotification digest server' n' traceId' receivedAt' =
      (mapNotification digest server n traceId receivedAt).map fun trigger =>
        { trigger with traceId := traceId', receivedAt := receivedAt' }

/-- Two notifications are isolated exactly when their events are not confused. -/
theorem notifications_isolated_iff (injective : Function.Injective digest) (server server' : JsString)
    (n n' : McpServerNotification) :
    Isolated digest server server' n n' ↔
      ∀ event ∈ eventOf n, ∀ event' ∈ eventOf n', ¬ Confused digest server server' event event' := by
  have made {server : JsString} {n : McpServerNotification} {event : Event} (reports : eventOf n = some event)
      (traceId : JsString) (receivedAt : IsoTimestamp) : ∃ trigger,
      mapNotification digest server n traceId receivedAt = some trigger ∧
        trigger.idempotencyKey = keyOf digest server event := by
    have key := @keyOf_eq digest server n traceId receivedAt
    rw [reports, Option.map_some] at key
    exact Option.map_eq_some_iff.mp key
  constructor
  · intro isolated event reports event' reports' confused
    obtain ⟨same, apart⟩ := (keyOf_eq_iff_confused injective).mpr confused
    obtain ⟨trigger, mapped, key⟩ := made reports [] ⟨[], none⟩
    obtain ⟨trigger', mapped', key'⟩ := made reports' [] ⟨[], none⟩
    obtain ⟨one, equal⟩ := isolated.keys _ _ _ _ _ _ mapped mapped' (by rw [key, key', same])
    rw [Option.mem_def.mp reports, Option.mem_def.mp reports'] at equal
    exact apart ⟨one, Option.some.inj equal⟩
  · intro clear
    refine ⟨fun traceId traceId' receivedAt receivedAt' trigger trigger' mapped mapped' same => ?_, ?_⟩
    · have key := @keyOf_eq digest server n traceId receivedAt
      have key' := @keyOf_eq digest server' n' traceId' receivedAt'
      rw [mapped, Option.map_some] at key
      rw [mapped', Option.map_some] at key'
      obtain ⟨event, reports, first⟩ := Option.map_eq_some_iff.mp key.symm
      obtain ⟨event', reports', second⟩ := Option.map_eq_some_iff.mp key'.symm
      have keys : keyOf digest server event = keyOf digest server' event' := by rw [first, second, same]
      by_contra apart
      refine clear event reports event' reports' ((keyOf_eq_iff_confused injective).mp ⟨keys, fun both => apart ?_⟩)
      exact ⟨both.1, by rw [reports, reports', both.2]⟩
    · rintro rfl agree
      exact mapNotification_of_agree agree

end Triggers

/-- A digest without collisions, with the value of SHA-256 for one text. -/
def sampleDigest (value : JsString) : JsString := if value = js "token" then js "3c469e9d6c58" else 0x7A :: value

theorem injective_sampleDigest : Function.Injective sampleDigest := by
  have apart (value : JsString) : js "3c469e9d6c58" ≠ 0x7A :: value := fun same =>
    absurd (List.cons.inj (same : (0x33 : CodeUnit) :: _ = _)).1 (by decide)
  intro value value' same
  rw [sampleDigest, sampleDigest] at same
  split at same
  · next first =>
    split at same
    · next second => exact first.trans second.symm
    · exact absurd same (apart _)
  · split at same
    · exact absurd same.symm (apart _)
    · exact (List.cons.inj same).2

/-- A custom notification with a key and no other parameter. -/
def customNotification (key : String) : McpServerNotification :=
  ⟨js "notifications/custom", .obj [(js "_pie_dedup_key", .str (js key))]⟩

def resourceNotification (params : List (JsString × JsonValue)) : McpServerNotification := ⟨resourcesUpdated, .obj params⟩

theorem notifications_isolated_two_servers :
    Isolated sampleDigest (js "a") (js "b") (customNotification "x") (customNotification "x") ↔
      ∀ event ∈ eventOf (customNotification "x"), ∀ event' ∈ eventOf (customNotification "x"),
        ¬ Confused sampleDigest (js "a") (js "b") event event' :=
  notifications_isolated_iff injective_sampleDigest (js "a") (js "b") (customNotification "x") (customNotification "x")

private def keyAt (server : String) (n : McpServerNotification) : Option JsString :=
  (mapNotification sampleDigest (js server) n (js "t") ⟨js "now", none⟩).map (·.idempotencyKey)

/-- A key of one server is a key of another one, a value reads like a hash, and a missing URI reads like a URI. -/
theorem notification_keys_collide :
    keyAt "a" (customNotification "tools") = keyAt "a:custom" ⟨toolsListChanged, .null⟩ ∧
      keyAt "a" (customNotification "token") = keyAt "a" (customNotification "hash:3c469e9d6c58") ∧
      keyAt "a" (resourceNotification []) = keyAt "a" (resourceNotification [(js "uri", .str (js "unknown"))]) ∧
      ¬ Isolated sampleDigest (js "a") (js "a:custom") (customNotification "tools") ⟨toolsListChanged, .null⟩ := by
  have same : keyAt "a" (customNotification "tools") = keyAt "a:custom" ⟨toolsListChanged, .null⟩ := by decide
  refine ⟨same, by decide, by decide, fun isolated => ?_⟩
  have some_ : (keyAt "a" (customNotification "tools")).isSome = true := by decide
  obtain ⟨key, found⟩ := Option.isSome_iff_exists.mp some_
  obtain ⟨trigger, mapped, first⟩ := Option.map_eq_some_iff.mp found
  obtain ⟨trigger', mapped', second⟩ := Option.map_eq_some_iff.mp (same.symm.trans found)
  exact absurd (isolated.keys _ _ _ _ _ _ mapped mapped' (first.trans second.symm)).1 (by decide)

end PieAgent.Soundness.NotificationKeys
