import PieAgent.Model.Triggers.CronRegistry

/-! # Dynamic trigger rules

A rule is a condition and an action in plain language. Every trigger that reaches the hook starts a sub-agent that is
offered the enabled rules, and the listener reads from the summary of a completed run which of them have fired. A rule
that fires once is disabled then. The registry mirrors its rules in a file that is replaced as a whole or not at all.

The file is kept as the rules that it lists: what `JSON.stringify` writes, it reads back.
-/

namespace PieAgent.Model

open JavaScript

structure DynamicTriggerRule where
  id : JsString
  condition : JsString
  action : JsString
  enabled : Bool
  fireOnce : Bool
  firedAt : Option JsString
  promoteToChat : Bool
  createdAt : JsString
deriving DecidableEq

/-- What the file of the rules holds. -/
inductive RulesFile where
  | absent
  | unreadable (error : JsString)
  | rules (rules : List DynamicTriggerRule)
deriving DecidableEq

/-- `readRulesFile`: a file that is not there holds no rules. -/
def RulesFile.read : RulesFile → Except JsString (List DynamicTriggerRule)
  | .absent => .ok []
  | .unreadable error => .error error
  | .rules stored => .ok stored

/-- The registry, and the file of its session. -/
structure DynamicTriggerRegistry where
  rules : List DynamicTriggerRule := []
  storagePath : Option JsString := none
  file : RulesFile := .absent
deriving DecidableEq

inductive AddTriggerRuleError where
  | emptyPart
  | storage (message : JsString)

def DynamicTriggerRule.setEnabled (rule : DynamicTriggerRule) (enabled : Bool) : DynamicTriggerRule :=
  { rule with enabled, firedAt := if enabled then none else rule.firedAt }

/-- A rule that fires once is off after it fired. -/
def DynamicTriggerRule.markFired (ids : List JsString) (now : ℤ) (rule : DynamicTriggerRule) : DynamicTriggerRule :=
  if !rule.fireOnce || !rule.enabled || rule.id ∉ ids then rule
  else { rule with enabled := false, firedAt := some (toIsoAutoSiZ now) }

namespace DynamicTriggerRegistry

variable (registry : DynamicTriggerRegistry)

/-- `writeRulesFile` where there is a path, and then the rules; a write that fails leaves the file as it is. -/
def replace (next : List DynamicTriggerRule) (outcome : Except JsString Unit) :
    DynamicTriggerRegistry × Except JsString Unit :=
  if registry.storagePath = none then ({ registry with rules := next }, .ok ())
  else match outcome with
    | .ok () => ({ registry with rules := next, file := .rules next }, .ok ())
    | .error error => (registry, .error error)

def loadFromPath (filePath : JsString) : DynamicTriggerRegistry × Except JsString Unit :=
  match registry.file.read with
  | .error error => (registry, .error error)
  | .ok rules => ({ registry with rules, storagePath := some filePath }, .ok ())

/-- `addRuleWithFlags`, with the id and the instant it draws. -/
def addRuleWithFlags (condition action : JsString) (fireOnce promoteToChat : Bool) (uuid : JsString) (now : ℤ)
    (outcome : Except JsString Unit) : DynamicTriggerRegistry × Except AddTriggerRuleError DynamicTriggerRule :=
  if trim condition = [] ∨ trim action = [] then (registry, .error .emptyPart)
  else
    let rule : DynamicTriggerRule :=
      { id := js "dyn-" ++ uuid, condition := trim condition, action := trim action, enabled := true, fireOnce
        firedAt := none, promoteToChat, createdAt := toIsoAutoSiZ now }
    match registry.replace (registry.rules ++ [rule]) outcome with
    | (registry, .ok ()) => (registry, .ok rule)
    | (registry, .error error) => (registry, .error (.storage error))

/-- The outcome of changing the rules, with what is returned for the change. -/
def change {α : Type} (next : List DynamicTriggerRule) (result : α) (outcome : Except JsString Unit) :
    DynamicTriggerRegistry × Except JsString α :=
  ((registry.replace next outcome).1, (registry.replace next outcome).2.map fun _ => result)

def removeRule (id : JsString) (outcome : Except JsString Unit) :
    DynamicTriggerRegistry × Except JsString (Option DynamicTriggerRule) :=
  match registry.rules.find? (·.id = trim id) with
  | none => (registry, .ok none)
  | some removed => registry.change (registry.rules.eraseP (·.id = trim id)) (some removed) outcome

def setRuleEnabled (id : JsString) (enabled : Bool) (outcome : Except JsString Unit) :
    DynamicTriggerRegistry × Except JsString (Option DynamicTriggerRule) :=
  match registry.rules.find? (·.id = trim id) with
  | none => (registry, .ok none)
  | some current =>
    registry.change (updateFirst (·.id = trim id) (·.setEnabled enabled) registry.rules)
      (some (current.setEnabled enabled)) outcome

def clearRules (outcome : Except JsString Unit) : DynamicTriggerRegistry × Except JsString ℕ :=
  if registry.rules = [] then (registry, .ok 0) else registry.change [] registry.rules.length outcome

/-- The rules that have fired now. -/
def markRulesFired (ids : List JsString) (now : ℤ) (outcome : Except JsString Unit) :
    DynamicTriggerRegistry × Except JsString (List DynamicTriggerRule) :=
  if ids = [] then (registry, .ok [])
  else
    let next := registry.rules.map (·.markFired ids now)
    let changed := (registry.rules.filter fun rule => rule.fireOnce && rule.enabled && rule.id ∈ ids).map
      (·.markFired ids now)
    if changed = [] then (registry, .ok []) else registry.change next changed outcome

/-- The rules that a sub-agent is asked about. -/
def enabledRules : List DynamicTriggerRule := registry.rules.filter (·.enabled)

/-- What the hook makes of a trigger. The text of the prompt is a parameter. -/
def beforeTriggerActionHook (renderDynamicTriggerPrompt : Trigger → List DynamicTriggerRule → JsString)
    (trigger : Trigger) : TriggerAction :=
  if registry.enabledRules = [] then defaultTriggerAction trigger
  else
    let promoteRuleIds := (registry.enabledRules.filter (·.promoteToChat)).map (·.id)
    { prompt := renderDynamicTriggerPrompt trigger registry.enabledRules
      promote :=
        if promoteRuleIds = [] then .none else .promoteSummaryWhenSummaryContains none promoteRuleIds
      promoteRequiresApproval := false
      delivery := .subAgent }

end DynamicTriggerRegistry

/-- `0`-`9`, `A`-`F` or `a`-`f`. -/
def isAsciiHexDigit (code : CodeUnit) : Bool :=
  (48 ≤ code && code ≤ 57) || (65 ≤ code && code ≤ 70) || (97 ≤ code && code ≤ 102)

/-- The scan of `extractDynamicRuleIds` over the text that is left; the first argument bounds its steps. -/
def scanRuleIds : ℕ → JsString → List JsString → List JsString
  | 0, _, ids => ids
  | _, [], ids => ids
  | steps + 1, unit :: rest, ids =>
    if js "dyn-" <+: unit :: rest then
      let behind := (unit :: rest).drop 4
      let id := js "dyn-" ++ behind.takeWhile isAsciiHexDigit
      -- the scan goes on behind the digits, whatever their number
      scanRuleIds steps (behind.dropWhile isAsciiHexDigit)
        (if id.length = 36 ∧ id ∉ ids then ids ++ [id] else ids)
    else scanRuleIds steps rest ids

def extractDynamicRuleIds (text : JsString) : List JsString := scanRuleIds text.length text []

/-- What the listener makes of a completed run; a write that fails is passed over. -/
def fireOnceHarnessListener (registry : DynamicTriggerRegistry) (summary : Option JsString) (now : ℤ)
    (outcome : Except JsString Unit) : DynamicTriggerRegistry :=
  match summary with
  | none => registry
  | some summary => (registry.markRulesFired (extractDynamicRuleIds summary) now outcome).1

/-- A sub-agent that runs for a trigger, and the rules that it was offered. -/
structure OfferedRun where
  traceId : JsString
  offered : List DynamicTriggerRule
deriving DecidableEq

/-- The registry, the runs that have not ended, and the ids that any rule has had. -/
structure TriggerSession where
  registry : DynamicTriggerRegistry := {}
  runs : List OfferedRun := []
  drawn : List JsString := []
deriving DecidableEq

/-- What happens to the rules of a session. Every registry operation comes with how the write of its file ends. -/
inductive RuleStep where
  | loadFromPath (filePath : JsString)
  | addRule (condition action : JsString) (fireOnce promoteToChat : Bool) (uuid : JsString) (now : ℤ)
      (outcome : Except JsString Unit)
  | removeRule (id : JsString) (outcome : Except JsString Unit)
  | setRuleEnabled (id : JsString) (enabled : Bool) (outcome : Except JsString Unit)
  | clearRules (outcome : Except JsString Unit)
  /-- A trigger reaches the hook. -/
  | dispatch (traceId : JsString)
  /-- The sub-agent of a run ends well, with its messages. -/
  | completed (run : ℕ) (messages : List AgentMessage) (now : ℤ) (outcome : Except JsString Unit)
  | failed (run : ℕ)
  /-- Another delivery reports its summary. -/
  | delivered (summary : Option JsString) (now : ℤ) (outcome : Except JsString Unit)

namespace TriggerSession

variable (session : TriggerSession)

/-- The session after a step. An id is drawn once. -/
def step? : RuleStep → Option TriggerSession
  | .loadFromPath filePath => some { session with registry := (session.registry.loadFromPath filePath).1 }
  | .addRule condition action fireOnce promoteToChat uuid now outcome =>
    if js "dyn-" ++ uuid ∈ session.drawn then none
    else some
      { session with
        registry := (session.registry.addRuleWithFlags condition action fireOnce promoteToChat uuid now outcome).1
        drawn := (js "dyn-" ++ uuid) :: session.drawn }
  | .removeRule id outcome => some { session with registry := (session.registry.removeRule id outcome).1 }
  | .setRuleEnabled id enabled outcome =>
    some { session with registry := (session.registry.setRuleEnabled id enabled outcome).1 }
  | .clearRules outcome => some { session with registry := (session.registry.clearRules outcome).1 }
  | .dispatch traceId => some { session with runs := session.runs ++ [⟨traceId, session.registry.enabledRules⟩] }
  | .completed run messages now outcome =>
    if run < session.runs.length then some
      { session with
        registry := fireOnceHarnessListener session.registry (lastAssistantText messages) now outcome
        runs := session.runs.eraseIdx run }
    else none
  | .failed run => if run < session.runs.length then some { session with runs := session.runs.eraseIdx run } else none
  | .delivered summary now outcome =>
    some { session with registry := fireOnceHarnessListener session.registry summary now outcome }

def run? : TriggerSession → List RuleStep → Option TriggerSession
  | session, [] => some session
  | session, step :: steps => (session.step? step).bind (run? · steps)

/-- A session that finds a file. -/
def start (file : RulesFile) : TriggerSession where
  registry := { file }
  drawn := match file with
    | .rules rules => rules.map (·.id)
    | _ => []

end TriggerSession

end PieAgent.Model
