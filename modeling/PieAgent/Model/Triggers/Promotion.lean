import PieAgent.JavaScript.Core.Search
import PieAgent.JavaScript.Core.Strings
import PieAgent.JavaScript.Core.Utf8
import PieAgent.Model.Core.Messages
import PieAgent.Model.Triggers.TriggerRuntime

/-! # The texts of promoted results

A trigger result that is promoted into the conversation is rendered from a template, gets a prefix with
its trace and is cut to a number of bytes. Placeholders name fields of the trigger and of its result;
the payload and the source actions must not be named.
-/

namespace PieAgent.Model

open JavaScript

inductive TriggerDelivery where
  | subAgent | injectSummary | injectAndRun
deriving DecidableEq

structure PromotionCondition where
  jsonPointer : JsString
  anyOf : List JsString

inductive PromoteAction where
  | none
  | promoteSummaryNow (templateBody : Option JsString)
  | promoteSummaryWhenSummaryContains (templateBody : Option JsString) (requiredSubstrings : List JsString)
  | promoteSummaryWhenResultDetailsMatch (templateBody : Option JsString) (condition : PromotionCondition)

structure TriggerAction where
  prompt : JsString
  promote : PromoteAction
  promoteRequiresApproval : Bool
  delivery : TriggerDelivery

def promotionBodyCapBytes : ℕ := 4096

def truncationMarker : JsString := js "…[truncated]"

def forbiddenTemplateFields : List JsString := [js "trigger.payload", js "trigger.authority.allowed_source_actions"]

def defaultPromoteSummaryTemplate : JsString :=
  js ("[Trigger \x7b\x7btrace_id\x7d\x7d] \x7b\x7btrigger.source_label\x7d\x7d fired " ++
    "\x7b\x7btrigger.event_label\x7d\x7d.\nResult: \x7b\x7bresult.summary\x7d\x7d")

/-- The scalar values of a string, a replacement character for each lone surrogate. -/
def scalars (text : JsString) : List Char :=
  (characters text).map fun character =>
    if 0xD800 ≤ codePoint character ∧ codePoint character < 0xE000 then replacementChar
    else Char.ofNat (codePoint character)

/-- `Buffer.from(text, "utf8")`. -/
def utf8Bytes (text : JsString) : List UInt8 := encodeUtf8 (scalars text)

/-- Walk back from a cut to the start of a character. -/
def charBoundary (bytes : List UInt8) : ℕ → ℕ
  | 0 => 0
  | cut + 1 => if bytes[cut + 1]?.any (· &&& 0xC0 = 0x80) then charBoundary bytes cut else cut + 1

/-- Cut a text to a number of bytes, the marker included; the flag tells whether it was cut. -/
def truncateOnCharBoundary (body : JsString) (capBytes : ℕ) : JsString × Bool :=
  if (utf8Bytes body).length ≤ capBytes then (body, false)
  else
    let budget := capBytes - (utf8Bytes truncationMarker).length
    let cut := charBoundary (utf8Bytes body) (min budget (utf8Bytes body).length)
    (ofText (decodeUtf8 ((utf8Bytes body).take cut)) ++ truncationMarker, true)

def previewForBanner (text : JsString) (maxChars : ℕ) : JsString :=
  if (characters text).length ≤ maxChars then text else ((characters text).take maxChars).flatten ++ js "…"

/-- The body with its trace in front, and whether that had to be added. -/
def ensureTriggerPrefix (body traceId : JsString) : JsString × Bool :=
  let expected := js "[Trigger " ++ traceId ++ js "] "
  if expected <+: body then (body, false) else (expected ++ body, true)

def defaultTriggerAction (trigger : Trigger) : TriggerAction where
  prompt := trigger.sourceLabel ++ js " fired: " ++ trigger.eventLabel
  promote := .none
  promoteRequiresApproval := false
  delivery := .subAgent

def AgentMessage.assistant? : AgentMessage → Option AssistantMessage
  | .assistant message => some message
  | _ => none

/-- The text of the last assistant message, nothing when that message has no text. -/
def lastAssistantText (messages : List AgentMessage) : Option JsString :=
  match (messages.filterMap AgentMessage.assistant?).getLast? with
  | none => none
  | some message =>
    let text := join (js "\n") (message.content.filterMap fun
      | .text block => some block.text
      | _ => none)
    if text = [] then none else some (truncateOnCharBoundary text promotionBodyCapBytes).1

def TriggerSource.fields : TriggerSource → List (JsString × JsString)
  | .mcp serverName method =>
    [(js "trigger.source.kind", js "mcp"), (js "trigger.source.server_name", serverName),
      (js "trigger.source.method", method)]
  | .local subkind => [(js "trigger.source.kind", js "local"), (js "trigger.source.subkind", subkind)]
  | .agentDelegate _ _ => [(js "trigger.source.kind", js "agent_delegate")]

def CredentialScope.text : CredentialScope → JsString
  | user => js "User"
  | project => js "Project"
  | team => js "Team"
  | agent => js "Agent"
  | none => js "None"

/-- The fields that a template may name. -/
def buildTemplateContext (traceId : JsString) (trigger : Trigger) (success : Bool) (summary : Option JsString)
    (messageCount : ℕ) : List (JsString × JsString) :=
  (js "trace_id", traceId) :: trigger.source.fields ++
    [(js "trigger.source_label", trigger.sourceLabel),
      (js "trigger.event_label", trigger.eventLabel),
      (js "trigger.payload_summary", trigger.payloadSummary.getD []),
      (js "trigger.received_at", trigger.receivedAt.text),
      (js "trigger.idempotency_key", trigger.idempotencyKey),
      (js "trigger.authority.principal_id", trigger.authority.principalId),
      (js "trigger.authority.principal_label", trigger.authority.principalLabel),
      (js "trigger.authority.credential_scope", trigger.authority.credentialScope.text),
      (js "result.summary", summary.getD []),
      (js "result.status", if success then js "success" else js "failed"),
      (js "result.message_count", digits messageCount),
      (js "result.cost_usd", js "null"),
      (js "result.branch_id", js "null")]

/-- The text before and after the first occurrence of a pattern. -/
def splitFirst? (pattern : JsString) : JsString → Option (JsString × JsString)
  | [] => if pattern = [] then some ([], []) else none
  | unit :: rest =>
    if pattern <+: unit :: rest then some ([], (unit :: rest).drop pattern.length)
    else (splitFirst? pattern rest).map fun (before, after) => (unit :: before, after)

theorem splitFirst?_length {pattern text before after : JsString}
    (found : splitFirst? pattern text = some (before, after)) : after.length ≤ text.length := by
  induction text generalizing before with
  | nil =>
    rw [splitFirst?] at found
    split at found
    · cases found
      rfl
    · cases found
  | cons unit rest ih =>
    rw [splitFirst?] at found
    split at found
    · cases found
      simp
    · obtain ⟨⟨other, tail⟩, inner, same⟩ := Option.map_eq_some_iff.mp found
      cases same
      exact Nat.le_succ_of_le (ih inner)

theorem splitFirst?_shorter {pattern text before after : JsString} (nonempty : pattern ≠ [])
    (found : splitFirst? pattern text = some (before, after)) : after.length < text.length := by
  cases text with
  | nil => simp [splitFirst?, nonempty] at found
  | cons unit rest =>
    rw [splitFirst?] at found
    split at found
    · cases found
      have positive := List.length_pos_of_ne_nil nonempty
      simp only [List.length_drop, List.length_cons]
      omega
    · obtain ⟨⟨other, tail⟩, inner, same⟩ := Option.map_eq_some_iff.mp found
      cases same
      exact Nat.lt_succ_of_le (splitFirst?_length inner)

/-- Why a template could not be rendered. -/
inductive TemplateError where
  | unknownField (message : JsString)
  | forbiddenField (message : JsString)

def TemplateError.message : TemplateError → JsString
  | unknownField message | forbiddenField message => message

def TemplateError.redactionStatus : TemplateError → JsString
  | unknownField _ => js "render_error"
  | forbiddenField _ => js "forbidden_field"

/-- The value of a placeholder. -/
def templateField (context : List (JsString × JsString)) (name : JsString) : Except TemplateError JsString :=
  if name ∈ forbiddenTemplateFields ∨ js "_meta" <+: name then
    .error (.forbiddenField (js "forbidden template field: " ++ name))
  else match context.lookup name with
    | none => .error (.unknownField (js "unknown template field: " ++ name))
    | some value => .ok value

set_option linter.unusedVariables false in
def renderPromotionTemplate (context : List (JsString × JsString)) (body : JsString) : Except TemplateError JsString :=
  match opening : splitFirst? (js "\x7b\x7b") body with
  | none => .ok body
  | some (before, afterOpen) =>
    match closing : splitFirst? (js "\x7d\x7d") afterOpen with
    | none => .error (.unknownField (js "unknown template field: unclosed `\x7b\x7b` placeholder"))
    | some (name, rest) => do
      let value ← templateField context (trim name)
      let rendered ← renderPromotionTemplate context rest
      .ok (before ++ value ++ rendered)
termination_by body.length
decreasing_by
  have shorter := splitFirst?_shorter (by decide) closing
  exact Nat.lt_trans shorter (splitFirst?_shorter (by decide) opening)

end PieAgent.Model

/-! ## The output protocol of stateful cron jobs

The reply of a job ends with its notes for the next run in a `<loop-state>` block, and reports its findings in
`<inbox>` blocks.
-/

namespace PieAgent.Model.LoopProtocol

open JavaScript

def openTag (tag : JsString) : JsString := js "<" ++ tag ++ js ">"

def closeTag (tag : JsString) : JsString := js "</" ++ tag ++ js ">"

/-- The last block of a text, trimmed. -/
def extractTagBlock (text tag : JsString) : Option JsString :=
  match lastCut? (openTag tag) text with
  | none => none
  | some (_, rest) =>
    match cut? (closeTag tag) rest with
    | none => none
    | some (content, _) => some (trim content)

end PieAgent.Model.LoopProtocol
