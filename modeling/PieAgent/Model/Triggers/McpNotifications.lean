import PieAgent.JavaScript.Core.Search
import PieAgent.Model.Mcp.Client
import PieAgent.Model.Triggers.TriggerRuntime

/-! # Notifications of an MCP server as triggers

The key of a trigger names the server and the event. A part of it that a server controls is replaced by a hash when it
looks like a secret, is long or has control characters. The summary shows no more than the method and a short text.
-/

namespace PieAgent.Model.McpNotifications

open JavaScript Mcp

section Texts

/-- `value.split(/\s+/)` without the empty parts. -/
def words (value : JsString) : List JsString :=
  (value.splitOnP fun unit => isWhitespace unit.toNat).filter fun part => part ≠ []

/-- The letters whose lower case has a letter of ASCII. The others are left as they are, no test sees them. -/
def lowerUnit (unit : CodeUnit) : JsString :=
  if 0x41 ≤ unit ∧ unit ≤ 0x5A then [unit + 0x20]
  else if unit = 0x212A then js "k"
  else if unit = 0x0130 then [0x69, 0x0307]
  else [unit]

def toLowerCase (text : JsString) : JsString := text.flatMap lowerUnit

/-- `text.includes(needle)`. -/
def includes (text : JsString) (needle : String) : Bool := (indexOf? (js needle) text).isSome

/-- A word that looks like a credential. -/
def isSecret (part : JsString) : Bool :=
  let lower := toLowerCase part
  ["hub_agent_", "hub_hs_", "hub_ep_", "sk-"].any (fun start => (js start).isPrefixOf lower) ||
    includes lower "bearer" || includes lower "token"

def redactNotificationText (value : JsString) : JsString :=
  join (js " ") ((words value).map fun part => if isSecret part then js "[redacted]" else part)

def truncateChars (value : JsString) (cap : ℕ) : JsString :=
  let chars := characters value
  if chars.length ≤ cap then value else (chars.take (cap - 1)).flatten ++ js "…"

def safeDisplay (value : JsString) (cap : ℕ) : JsString :=
  truncateChars ((redactNotificationText value).map fun unit => if unit = 0x0A then 0x20 else unit) cap

def isControl (unit : CodeUnit) : Bool := unit ≤ 0x1F || (0x7F ≤ unit && unit ≤ 0x9F)

/-- The text is replaced in a key. -/
def isHashed (value : JsString) : Bool :=
  redactNotificationText value != value || 200 < (characters value).length || value.any isControl

/-- The digest is the start of SHA-256, in hexadecimal. -/
def safeIdempotencySegment (digest : JsString → JsString) (value : JsString) : JsString :=
  if isHashed value then js "hash:" ++ digest value else value

end Texts

section Fields

def getField (value : JsonValue) (key : String) : Option JsonValue := value.field? key

def getStringField (value : JsonValue) (key : String) : Option JsString :=
  match getField value key with
  | some (.str text) => some text
  | _ => none

/-- `_meta.pie_dedup_key` comes before `_pie_dedup_key`. -/
def extractDedupKey (params : JsonValue) : Option JsString :=
  match (getField params "_meta").bind fun meta_ => getStringField meta_ "pie_dedup_key" with
  | some key => some key
  | none => getStringField params "_pie_dedup_key"

/-- `_meta.pie_summary`. -/
def optedInSummary (params : JsonValue) : Option JsString :=
  (getField params "_meta").bind fun meta_ => getStringField meta_ "pie_summary"

end Fields

def toolsListChanged : JsString := js "notifications/tools/listChanged"

def resourcesListChanged : JsString := js "notifications/resources/listChanged"

def promptsListChanged : JsString := js "notifications/prompts/listChanged"

def resourcesUpdated : JsString := js "notifications/resources/updated"

variable (digest : JsString → JsString) (serverName : JsString)

def idempotencyFor (method : JsString) (params : JsonValue) : Option (JsString × ReplacementPolicy) :=
  let start := js "mcp:" ++ serverName ++ js ":"
  if method = toolsListChanged then some (start ++ js "tools", .latestReplaces)
  else if method = resourcesListChanged then some (start ++ js "resources", .latestReplaces)
  else if method = promptsListChanged then some (start ++ js "prompts", .latestReplaces)
  else if method = resourcesUpdated then
    let uri := (getStringField params "uri").getD (js "unknown")
    some (start ++ js "resources:" ++ safeIdempotencySegment digest uri, .latestReplaces)
  else
    (extractDedupKey params).map fun key => (start ++ js "custom:" ++ safeIdempotencySegment digest key, .drop)

def renderSummary (method : JsString) (params : JsonValue) : JsString :=
  if method = resourcesUpdated then
    match getStringField params "uri" with
    | some uri => method ++ js " uri=" ++ safeDisplay uri 200
    | none => method
  else if method = toolsListChanged ∨ method = resourcesListChanged ∨ method = promptsListChanged then method
  else
    match optedInSummary params with
    | some summary => method ++ js " " ++ safeDisplay summary 200
    | none => method

/-- The trace id is random, and the time is that of the call. -/
def mapNotification (n : McpServerNotification) (traceId : JsString) (receivedAt : IsoTimestamp) : Option Trigger :=
  (idempotencyFor digest serverName n.method n.params).map fun idem =>
    { source := .mcp serverName n.method, sourceKind := .mcp, sourceLabel := js "mcp:" ++ serverName
      eventLabel := n.method, payloadVisibility := .local, payloadSummary := some (renderSummary n.method n.params)
      idempotencyKey := idem.1, replacementPolicy := idem.2, traceId
      authority :=
        { principalId := js "mcp:" ++ serverName, principalLabel := serverName, credentialScope := .user
          allowedSourceActions := [], expiresAt := none }
      receivedAt }

end PieAgent.Model.McpNotifications
