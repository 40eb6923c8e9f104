import PieAgent.Model.Triggers.DynamicTriggers
import PieAgent.Proofs.Triggers.CronRegistry
import PieAgent.Proofs.Triggers.Promotion

/-! # Whether a rule that fires once stays off

A rule has fired when its id is found in the summary of the run that was asked about it. The scan passes over an id
that touches another `dyn-` or further digits, the summary is cut to a number of bytes, and a registry that cannot be
written keeps the rule on. Otherwise the rule stays off, in the registry and in its file, until it is enabled again.
-/

namespace PieAgent.Soundness.FireOnceRules

open JavaScript Model Proofs.Promotion

/-- An id as the registry draws it. -/
def IsRuleId (id : JsString) : Prop :=
  ∃ digits, id = js "dyn-" ++ digits ∧ digits.length = 32 ∧ ∀ unit ∈ digits, isAsciiHexDigit unit = true

/-- A text ends with `dyn-` and hexadecimal digits. -/
def EndsInDigits (text : JsString) : Prop :=
  ∃ front digits, text = front ++ js "dyn-" ++ digits ∧ ∀ unit ∈ digits, isAsciiHexDigit unit = true

/-- The id stands in the text with no digit behind it and no other start of an id that runs up to it. -/
def StandsApart (id text : JsString) : Prop :=
  ∃ before after, text = before ++ id ++ after ∧ (∀ unit ∈ after.head?, isAsciiHexDigit unit = false) ∧
    ¬ EndsInDigits before

/-- The text of the last assistant message. -/
def finalText (messages : List AgentMessage) : JsString :=
  match (messages.filterMap AgentMessage.assistant?).getLast? with
  | none => []
  | some message => join (js "\n") (message.content.filterMap fun
      | .text block => some block.text
      | _ => none)

/-- What the harness keeps of the final text. -/
def keptText (messages : List AgentMessage) : JsString :=
  (truncateOnCharBoundary (finalText messages) promotionBodyCapBytes).1

/-- The step is a user's who enables the rule. -/
def Enables (id : JsString) : RuleStep → Prop
  | .setRuleEnabled name enabled _ => trim name = id ∧ enabled = true
  | _ => False

variable {id text before after : JsString} {ids : List JsString} {steps : ℕ}

section Scan

private theorem mem_scanRuleIds (known : id ∈ ids) : id ∈ scanRuleIds steps text ids := by
  induction steps generalizing text ids with
  | zero => exact known
  | succ steps ih =>
    cases text with
    | nil => exact known
    | cons unit rest =>
      rw [scanRuleIds]
      split
      · apply ih
        split
        · exact List.mem_append_left _ known
        · exact known
      · exact ih known

private theorem takeWhile_hex {digits : JsString} (hex : ∀ unit ∈ digits, isAsciiHexDigit unit = true)
    (closed : ∀ unit ∈ after.head?, isAsciiHexDigit unit = false) :
    (digits ++ after).takeWhile isAsciiHexDigit = digits := by
  rw [List.takeWhile_append_of_pos hex]
  cases after with
  | nil => simp
  | cons unit after => simp [closed unit rfl]

/-- The start of an id does not overlap the start of another one. -/
private theorem prefix_of_prefix (nonempty : before ≠ []) (starts : js "dyn-" <+: before ++ (js "dyn-" ++ text)) :
    js "dyn-" <+: before := by
  rcases Nat.lt_or_ge before.length 4 with short | long
  · obtain ⟨rest, same⟩ := starts
    match before, nonempty, short, same with
    | [_], _, _, same => cases same
    | [_, _], _, _, same => cases same
    | [_, _, _], _, _, same => cases same
  · exact List.prefix_of_prefix_length_le starts (List.prefix_append _ _) long

private theorem takeWhile_stops {p : CodeUnit → Bool} {front : JsString} (stops : ¬ ∀ unit ∈ front, p unit = true)
    (behind : JsString) : (front ++ behind).takeWhile p = front.takeWhile p ∧
      (front ++ behind).dropWhile p = front.dropWhile p ++ behind := by
  induction front with
  | nil => exact absurd nofun stops
  | cons unit front ih =>
    rw [List.cons_append, List.takeWhile_cons, List.takeWhile_cons, List.dropWhile_cons, List.dropWhile_cons]
    cases passes : p unit with
    | false => exact ⟨rfl, rfl⟩
    | true =>
      obtain ⟨taken, left⟩ := ih fun all => stops (List.forall_mem_cons.mpr ⟨passes, all⟩)
      exact ⟨by simp only [if_true, taken], by simp only [if_true, left]⟩

private theorem EndsInDigits.append {front : JsString} (ends : EndsInDigits text) : EndsInDigits (front ++ text) := by
  obtain ⟨others, digits, rfl, hex⟩ := ends
  exact ⟨front ++ others, digits, by simp only [List.append_assoc], hex⟩

private theorem scan_start (behind : JsString) : scanRuleIds (steps + 1) (js "dyn-" ++ behind) ids =
    scanRuleIds steps (behind.dropWhile isAsciiHexDigit)
      (if (js "dyn-" ++ behind.takeWhile isAsciiHexDigit).length = 36 ∧
          js "dyn-" ++ behind.takeWhile isAsciiHexDigit ∉ ids
        then ids ++ [js "dyn-" ++ behind.takeWhile isAsciiHexDigit] else ids) :=
  if_pos (List.prefix_append (js "dyn-") behind)

/-- The scan finds an id that stands apart. -/
private theorem scan_finds (shape : IsRuleId id) (closed : ∀ unit ∈ after.head?, isAsciiHexDigit unit = false)
    (apart : ¬ EndsInDigits before) (enough : (before ++ id ++ after).length ≤ steps) :
    id ∈ scanRuleIds steps (before ++ id ++ after) ids := by
  obtain ⟨digits, rfl, size, hex⟩ := shape
  induction steps generalizing before ids with
  | zero =>
    simp only [List.length_append, size] at enough
    omega
  | succ steps ih =>
    rw [List.append_assoc] at enough ⊢
    cases before with
    | nil =>
      rw [List.nil_append, List.append_assoc, scan_start, takeWhile_hex hex closed]
      apply mem_scanRuleIds
      have length : (js "dyn-" ++ digits).length = 36 := by
        rw [List.length_append, size]
        rfl
      split_ifs with new
      · exact List.mem_append_right _ List.mem_cons_self
      · by_contra absent
        exact new ⟨length, absent⟩
    | cons unit before =>
      by_cases starts : js "dyn-" <+: unit :: before ++ (js "dyn-" ++ digits ++ after)
      · rw [List.append_assoc (js "dyn-")] at starts
        obtain ⟨front, same⟩ := prefix_of_prefix (List.cons_ne_nil _ _) starts
        rw [← same] at apart enough ⊢
        have stops : ¬ ∀ unit ∈ front, isAsciiHexDigit unit = true := fun all => apart ⟨[], front, rfl, all⟩
        obtain ⟨_, left⟩ := takeWhile_stops stops (js "dyn-" ++ digits ++ after)
        rw [List.append_assoc (js "dyn-"), scan_start, left, ← List.append_assoc]
        have split := List.takeWhile_append_dropWhile (p := isAsciiHexDigit) (l := front)
        apply ih
        · intro ends
          apply apart
          rw [← split, ← List.append_assoc]
          exact ends.append
        · have sizes := congrArg List.length split
          simp only [List.length_append, show (js "dyn-").length = 4 from rfl] at sizes enough ⊢
          omega
      · rw [List.cons_append] at starts enough ⊢
        rw [scanRuleIds, if_neg starts, ← List.append_assoc]
        apply ih
        · intro ends
          have longer : EndsInDigits ([unit] ++ before) := ends.append
          exact apart longer
        · rw [List.length_cons] at enough
          rw [List.append_assoc]
          omega

/-- An id that stands apart is extracted. -/
theorem mem_extractDynamicRuleIds (shape : IsRuleId id) (stands : StandsApart id text) :
    id ∈ extractDynamicRuleIds text := by
  obtain ⟨before, after, rfl, closed, apart⟩ := stands
  exact scan_finds shape closed apart le_rfl

private theorem lastAssistantText_eq (messages : List AgentMessage) : lastAssistantText messages =
    if finalText messages = [] then none else some (keptText messages) := by
  unfold lastAssistantText keptText finalText
  cases (messages.filterMap AgentMessage.assistant?).getLast? <;> rfl

/-- The summary of a run names what stands apart in what is kept of its final text. -/
private theorem summary_names {messages : List AgentMessage} (shape : IsRuleId id)
    (stands : StandsApart id (keptText messages)) :
    ∃ summary, lastAssistantText messages = some summary ∧ id ∈ extractDynamicRuleIds summary := by
  refine ⟨keptText messages, ?_, mem_extractDynamicRuleIds shape stands⟩
  rw [lastAssistantText_eq, if_neg]
  intro empty
  obtain ⟨before, after, same, _⟩ := stands
  obtain ⟨digits, rfl, _⟩ := shape
  have none_ : keptText messages = [] := by
    rw [keptText, empty]
    rfl
  rw [none_] at same
  cases List.append_eq_nil_iff.mp (List.append_eq_nil_iff.mp same.symm).1 |>.2

end Scan

section Steps

variable {registry changed : DynamicTriggerRegistry} {session next : TriggerSession} {step : RuleStep}
  {rules : List DynamicTriggerRule} {rule : DynamicTriggerRule} {outcome : Except JsString Unit}

/-- What an operation makes of the registry: nothing if its write fails, and otherwise the new rules, in the file too
if there is one. -/
inductive Moves (registry : DynamicTriggerRegistry) (rules : List DynamicTriggerRule) : DynamicTriggerRegistry → Prop
  | stays : Moves registry rules registry
  | memory (unstored : registry.storagePath = none) : Moves registry rules { registry with rules }
  | written (stored : registry.storagePath ≠ none) : Moves registry rules { registry with rules, file := .rules rules }

private theorem replace_moves : Moves registry rules (registry.replace rules outcome).1 := by
  unfold DynamicTriggerRegistry.replace
  split_ifs with unstored
  · exact .memory unstored
  · cases outcome with
    | ok _ => exact .written unstored
    | error error => exact .stays

private theorem addRule_moves (registry : DynamicTriggerRegistry) (condition action : JsString)
    (fireOnce promoteToChat : Bool) (uuid : JsString) (now : ℤ) (outcome : Except JsString Unit) :
    ∃ rule : DynamicTriggerRule, rule.id = js "dyn-" ++ uuid ∧ Moves registry (registry.rules ++ [rule])
      (registry.addRuleWithFlags condition action fireOnce promoteToChat uuid now outcome).1 := by
  unfold DynamicTriggerRegistry.addRuleWithFlags
  dsimp only
  refine ⟨{ id := js "dyn-" ++ uuid, condition := trim condition, action := trim action, enabled := true, fireOnce
            firedAt := none, promoteToChat, createdAt := toIsoAutoSiZ now }, rfl, ?_⟩
  split_ifs
  · exact .stays
  · have moves := @replace_moves registry (registry.rules ++ [{ id := js "dyn-" ++ uuid, condition := trim condition
                                                                action := trim action, enabled := true, fireOnce
                                                                firedAt := none, promoteToChat
                                                                createdAt := toIsoAutoSiZ now }]) outcome
    split
    · next same => rwa [same] at moves
    · next same => rwa [same] at moves

/-- Where a rule comes from: it was there and is on only if it was, or if a user enables it, or its id is new. -/
def Stems (step : RuleStep) (session next : TriggerSession) (rule : DynamicTriggerRule) : Prop :=
  (∃ old ∈ session.registry.rules, old.id = rule.id ∧ old.fireOnce = rule.fireOnce ∧
      (rule.enabled = true → old.enabled = true ∨ Enables rule.id step)) ∨
    (rule.id ∉ session.drawn ∧ rule.id ∈ next.drawn)

private theorem Stems.same (member : rule ∈ session.registry.rules) : Stems step session next rule :=
  .inl ⟨rule, member, rfl, rfl, .inl⟩

private theorem markFired_stems (ids : List JsString) (now : ℤ) (member : rule ∈ session.registry.rules) :
    Stems step session next (rule.markFired ids now) := by
  unfold DynamicTriggerRule.markFired
  split_ifs
  · exact .same member
  · exact .inl ⟨rule, member, rfl, rfl, nofun⟩

/-- The registry after a summary: as it was, or with the rules that the summary names marked. -/
private theorem listener_moves (registry : DynamicTriggerRegistry) (summary : Option JsString) (now : ℤ)
    (outcome : Except JsString Unit) :
    ∃ ids, Moves registry (registry.rules.map (·.markFired ids now))
      (fireOnceHarnessListener registry summary now outcome) := by
  cases summary with
  | none => exact ⟨[], .stays⟩
  | some summary =>
    refine ⟨extractDynamicRuleIds summary, ?_⟩
    unfold fireOnceHarnessListener DynamicTriggerRegistry.markRulesFired
    dsimp only
    split_ifs
    · exact .stays
    · exact .stays
    · exact replace_moves

/-- What a step can do: read the rules from the file, or move the registry to rules that stem from its own. -/
theorem step_cases (stepped : session.step? step = some next) :
    (∃ filePath rules, session.registry.file.read = .ok rules ∧
      next = { session with registry := { session.registry with rules, storagePath := some filePath } }) ∨
    ∃ rules, Moves session.registry rules next.registry ∧ (∀ rule ∈ rules, Stems step session next rule) ∧
      session.drawn ⊆ next.drawn ∧
      ∀ run ∈ next.runs, run ∈ session.runs ∨ run.offered = session.registry.enabledRules := by
  cases step with
  | loadFromPath filePath =>
    obtain rfl := Option.some.inj stepped
    unfold DynamicTriggerRegistry.loadFromPath
    cases reads : session.registry.file.read with
    | error error => exact .inr ⟨_, .stays, fun rule member => .same member, List.Subset.refl _, fun run => .inl⟩
    | ok rules => exact .inl ⟨filePath, rules, rfl, rfl⟩
  | addRule condition action fireOnce promoteToChat uuid now outcome =>
    rw [TriggerSession.step?] at stepped
    split_ifs at stepped with known
    obtain rfl := Option.some.inj stepped
    obtain ⟨rule, named, moves⟩ :=
      addRule_moves session.registry condition action fireOnce promoteToChat uuid now outcome
    refine .inr ⟨_, moves, ?_, List.subset_cons_self _ _, fun run => .inl⟩
    refine List.forall_mem_append.mpr ⟨fun rule member => .same member, List.forall_mem_singleton.mpr (.inr ?_)⟩
    rw [named]
    exact ⟨known, List.mem_cons_self⟩
  | removeRule id outcome =>
    obtain rfl := Option.some.inj stepped
    unfold DynamicTriggerRegistry.removeRule
    split
    · exact .inr ⟨_, .stays, fun rule member => .same member, List.Subset.refl _, fun run => .inl⟩
    · exact .inr ⟨_, replace_moves, fun rule member => .same (List.mem_of_mem_eraseP member), List.Subset.refl _,
        fun run => .inl⟩
  | setRuleEnabled id enabled outcome =>
    obtain rfl := Option.some.inj stepped
    unfold DynamicTriggerRegistry.setRuleEnabled
    split
    · exact .inr ⟨_, .stays, fun rule member => .same member, List.Subset.refl _, fun run => .inl⟩
    · refine .inr ⟨_, replace_moves, fun rule member => ?_, List.Subset.refl _, fun run => .inl⟩
      rcases Proofs.mem_updateFirst member with listed | ⟨old, listed, named, rfl⟩
      · exact .same listed
      · refine .inl ⟨old, listed, rfl, rfl, fun on => .inr ⟨?_, on⟩⟩
        exact (of_decide_eq_true named).symm
  | clearRules outcome =>
    obtain rfl := Option.some.inj stepped
    unfold DynamicTriggerRegistry.clearRules
    split_ifs
    · exact .inr ⟨_, .stays, fun rule member => .same member, List.Subset.refl _, fun run => .inl⟩
    · exact .inr ⟨_, replace_moves, nofun, List.Subset.refl _, fun run => .inl⟩
  | dispatch traceId =>
    obtain rfl := Option.some.inj stepped
    refine .inr ⟨_, .stays, fun rule member => .same member, List.Subset.refl _, ?_⟩
    exact List.forall_mem_append.mpr ⟨fun run => .inl, List.forall_mem_singleton.mpr (.inr rfl)⟩
  | completed run messages now outcome =>
    rw [TriggerSession.step?] at stepped
    split_ifs at stepped
    obtain rfl := Option.some.inj stepped
    obtain ⟨ids, moves⟩ := listener_moves session.registry (lastAssistantText messages) now outcome
    refine .inr ⟨_, moves, ?_, List.Subset.refl _, fun run member => .inl (List.mem_of_mem_eraseIdx member)⟩
    exact List.forall_mem_map.mpr fun rule => markFired_stems ids now
  | failed run =>
    rw [TriggerSession.step?] at stepped
    split_ifs at stepped
    obtain rfl := Option.some.inj stepped
    exact .inr ⟨_, .stays, fun rule member => .same member, List.Subset.refl _,
      fun run member => .inl (List.mem_of_mem_eraseIdx member)⟩
  | delivered summary now outcome =>
    obtain rfl := Option.some.inj stepped
    obtain ⟨ids, moves⟩ := listener_moves session.registry summary now outcome
    refine .inr ⟨_, moves, ?_, List.Subset.refl _, fun run => .inl⟩
    exact List.forall_mem_map.mpr fun rule => markFired_stems ids now

end Steps

section Invariant

/-- The rules are those of the file, once it was read. Rules that were made before share no id with the file. -/
structure Sound (session : TriggerSession) : Prop where
  mirrored : session.registry.storagePath ≠ none → session.registry.file.read = .ok session.registry.rules
  known : ∀ rule ∈ session.registry.rules, rule.id ∈ session.drawn
  filed : ∀ rules, session.registry.file.read = .ok rules → ∀ rule ∈ rules, rule.id ∈ session.drawn
  offered : ∀ run ∈ session.runs, ∀ rule ∈ run.offered, rule.id ∈ session.drawn
  apart : session.registry.storagePath = none → ∀ rules, session.registry.file.read = .ok rules → ∀ stored ∈ rules,
    (∀ rule ∈ session.registry.rules, rule.id ≠ stored.id) ∧ ∀ run ∈ session.runs, ∀ rule ∈ run.offered, rule.id ≠ stored.id

/-- No rule of that id fires once and is on. -/
def Silent (id : JsString) (rules : List DynamicTriggerRule) : Prop :=
  ∀ rule ∈ rules, rule.id = id → rule.fireOnce = true → rule.enabled = false

/-- The rule is off in the registry and in the file. -/
structure Off (id : JsString) (session : TriggerSession) : Prop where
  registry : Silent id session.registry.rules
  file : ∀ rules, session.registry.file.read = .ok rules → Silent id rules
  drawn : id ∈ session.drawn

variable {session next : TriggerSession} {step : RuleStep} {steps : List RuleStep}

private theorem Stems.drawn {rule : DynamicTriggerRule} (sound : Sound session) (grows : session.drawn ⊆ next.drawn)
    (stems : Stems step session next rule) : rule.id ∈ next.drawn := by
  rcases stems with ⟨old, listed, same, _⟩ | ⟨_, drawn⟩
  · rw [← same]
    exact grows (sound.known old listed)
  · exact drawn

/-- Rules that stem from the registry share no id with a file that was not read. -/
private theorem Stems.apart {rule stored : DynamicTriggerRule} {rules : List DynamicTriggerRule} (sound : Sound session)
    (unstored : session.registry.storagePath = none) (reads : session.registry.file.read = .ok rules)
    (listed : stored ∈ rules) (stems : Stems step session next rule) : rule.id ≠ stored.id := by
  rcases stems with ⟨old, member, same, _⟩ | ⟨fresh, _⟩
  · rw [← same]
    exact (sound.apart unstored rules reads stored listed).1 old member
  · intro same
    rw [same] at fresh
    exact fresh (sound.filed rules reads stored listed)

private theorem enabledRules_subset (registry : DynamicTriggerRegistry) : registry.enabledRules ⊆ registry.rules :=
  List.filter_subset_self _

private theorem mem_of_moves {registry changed : DynamicTriggerRegistry} {rules : List DynamicTriggerRule}
    {rule : DynamicTriggerRule} (moves : Moves registry rules changed) (member : rule ∈ changed.rules) :
    rule ∈ registry.rules ∨ rule ∈ rules := by
  cases moves with
  | stays => exact .inl member
  | memory _ => exact .inr member
  | written _ => exact .inr member

/-- The file after a move: the old one, or that of the new rules. -/
private theorem file_of_moves {registry changed : DynamicTriggerRegistry} {rules : List DynamicTriggerRule}
    (moves : Moves registry rules changed) : changed.storagePath = registry.storagePath ∧
      (changed.file = registry.file ∨ registry.storagePath ≠ none ∧ changed.file = .rules changed.rules) := by
  cases moves with
  | stays => exact ⟨rfl, .inl rfl⟩
  | memory _ => exact ⟨rfl, .inl rfl⟩
  | written stored => exact ⟨rfl, .inr ⟨stored, rfl⟩⟩

private theorem mirrored_of_moves {registry changed : DynamicTriggerRegistry} {rules : List DynamicTriggerRule}
    (moves : Moves registry rules changed)
    (mirrored : registry.storagePath ≠ none → registry.file.read = .ok registry.rules)
    (stored : changed.storagePath ≠ none) : changed.file.read = .ok changed.rules := by
  cases moves with
  | stays => exact mirrored stored
  | memory unstored => exact absurd unstored stored
  | written _ => rfl

theorem Sound.kept (sound : Sound session) (stepped : session.step? step = some next) : Sound next := by
  rcases step_cases stepped with ⟨filePath, rules, reads, rfl⟩ | ⟨rules, moves, stems, grows, runs⟩
  · exact ⟨fun _ => reads, sound.filed rules reads, sound.filed, sound.offered, nofun⟩
  have listed : ∀ rule ∈ next.registry.rules, Stems step session next rule := fun rule member =>
    (mem_of_moves moves member).elim (fun old => .same old) (stems rule)
  have offered : ∀ run ∈ next.runs, ∀ rule ∈ run.offered,
      (∃ old ∈ session.runs, rule ∈ old.offered) ∨ rule ∈ session.registry.rules := by
    intro run member rule asked
    rcases runs run member with old | same
    · exact .inl ⟨run, old, asked⟩
    · exact .inr (enabledRules_subset _ (same ▸ asked))
  obtain ⟨path, file⟩ := file_of_moves moves
  refine ⟨?_, fun rule member => (listed rule member).drawn sound grows, ?_, ?_, ?_⟩
  · exact mirrored_of_moves moves sound.mirrored
  · intro filed reads rule member
    rcases file with same | ⟨_, same⟩
    · exact grows (sound.filed filed (same ▸ reads) rule member)
    · rw [same] at reads
      obtain rfl := Except.ok.inj reads
      exact (listed rule member).drawn sound grows
  · intro run member rule asked
    rcases offered run member rule asked with ⟨old, known, asked⟩ | known
    · exact grows (sound.offered old known rule asked)
    · exact grows (sound.known rule known)
  · intro unstored filed reads stored member
    rw [path] at unstored
    rw [file.resolve_right fun written => written.1 unstored] at reads
    refine ⟨fun rule known => (listed rule known).apart sound unstored reads member, ?_⟩
    intro run known rule asked
    obtain ⟨rules_, runs_⟩ := sound.apart unstored filed reads stored member
    rcases offered run known rule asked with ⟨old, known, asked⟩ | known
    · exact runs_ old known rule asked
    · exact rules_ rule known

private theorem Silent.stems {rules : List DynamicTriggerRule} (off : Off id session) (untouched : ¬ Enables id step)
    (stems : ∀ rule ∈ rules, Stems step session next rule) : Silent id rules := by
  rintro rule member rfl fireOnce
  rcases stems rule member with ⟨old, known, same, once, on⟩ | ⟨fresh, _⟩
  · by_contra enabled
    rcases on (by simpa using enabled) with before | enables
    · exact absurd before (by simp [off.registry old known same (once.trans fireOnce)])
    · exact untouched enables
  · exact absurd off.drawn fresh

/-- A rule that is off stays off until a user enables it. -/
theorem Off.kept (off : Off id session) (stepped : session.step? step = some next) (untouched : ¬ Enables id step) :
    Off id next := by
  rcases step_cases stepped with ⟨filePath, rules, reads, rfl⟩ | ⟨rules, moves, stems, grows, _⟩
  · exact ⟨off.file rules reads, off.file, off.drawn⟩
  have silent : Silent id next.registry.rules := Silent.stems off untouched fun rule member =>
    (mem_of_moves moves member).elim (fun old => .same old) (stems rule)
  refine ⟨silent, ?_, grows off.drawn⟩
  intro filed reads
  rcases (file_of_moves moves).2 with same | ⟨_, same⟩
  · exact off.file filed (same ▸ reads)
  · rw [same] at reads
    obtain rfl := Except.ok.inj reads
    exact silent

theorem Sound.run {steps : List RuleStep} (sound : Sound session) (ran : session.run? steps = some next) :
    Sound next := by
  induction steps generalizing session with
  | nil =>
    obtain rfl := Option.some.inj ran
    exact sound
  | cons step steps ih =>
    obtain ⟨middle, stepped, rest⟩ := Option.bind_eq_some_iff.mp ran
    exact ih (sound.kept stepped) rest

theorem Off.run {steps : List RuleStep} (off : Off id session) (ran : session.run? steps = some next)
    (untouched : ∀ step ∈ steps, ¬ Enables id step) : Off id next := by
  induction steps generalizing session with
  | nil =>
    obtain rfl := Option.some.inj ran
    exact off
  | cons step steps ih =>
    obtain ⟨middle, stepped, rest⟩ := Option.bind_eq_some_iff.mp ran
    obtain ⟨first, others⟩ := List.forall_mem_cons.mp untouched
    exact ih (off.kept stepped first) rest others

theorem sound_start (file : RulesFile) : Sound (TriggerSession.start file) := by
  refine ⟨fun stored => absurd rfl stored, nofun, ?_, nofun, fun _ rules reads stored member => ⟨nofun, nofun⟩⟩
  intro rules reads rule member
  cases file with
  | absent =>
    obtain rfl := Except.ok.inj reads
    cases member
  | unreadable error => cases reads
  | rules stored =>
    obtain rfl := Except.ok.inj reads
    exact List.mem_map_of_mem member

end Invariant

section Fired

variable {session next : TriggerSession} {now : ℤ} {outcome : Except JsString Unit}

private theorem markFired_silent {rules : List DynamicTriggerRule} (member : id ∈ ids) :
    Silent id (rules.map (·.markFired ids now)) := by
  intro rule listed named fireOnce
  obtain ⟨old, _, rfl⟩ := List.mem_map.mp listed
  unfold DynamicTriggerRule.markFired at named fireOnce ⊢
  split_ifs at named fireOnce ⊢ with kept
  · simpa [fireOnce, named, member] using kept
  · rfl

/-- The rules that a summary names are off, if the registry has no file or it is written. -/
private theorem markRulesFired_silent {registry : DynamicTriggerRegistry} (member : id ∈ ids)
    (written : registry.storagePath = none ∨ outcome = .ok ()) :
    Silent id (registry.markRulesFired ids now outcome).1.rules := by
  unfold DynamicTriggerRegistry.markRulesFired
  dsimp only
  split_ifs with none_ unchanged
  · rw [none_] at member
    cases member
  · intro rule listed named fireOnce
    rw [List.map_eq_nil_iff] at unchanged
    simpa [fireOnce, named, member] using List.filter_eq_nil_iff.mp unchanged rule listed
  · have replaced : (registry.replace (registry.rules.map (·.markFired ids now)) outcome).1.rules =
        registry.rules.map (·.markFired ids now) := by
      unfold DynamicTriggerRegistry.replace
      split_ifs with unstored
      · rfl
      · rw [written.resolve_left unstored]
    rw [DynamicTriggerRegistry.change, replaced]
    exact markFired_silent member

/-- A run that was offered the rule and names it turns it off. -/
private theorem off_of_completed {run : ℕ} {messages : List AgentMessage} {asked : OfferedRun} {rule : DynamicTriggerRule}
    (sound : Sound session) (running : session.runs[run]? = some asked) (offered : rule ∈ asked.offered)
    (shape : IsRuleId rule.id) (stands : StandsApart rule.id (keptText messages))
    (written : session.registry.storagePath = none ∨ outcome = .ok ())
    (completed : session.step? (.completed run messages now outcome) = some next) : Off rule.id next := by
  have kept := sound.kept completed
  rw [TriggerSession.step?] at completed
  split_ifs at completed
  obtain rfl := Option.some.inj completed
  obtain ⟨summary, reported, named⟩ := summary_names shape stands
  have silent : Silent rule.id (fireOnceHarnessListener session.registry (lastAssistantText messages) now outcome).rules := by
    rw [reported]
    exact markRulesFired_silent named written
  refine ⟨silent, ?_, sound.offered asked (List.mem_of_getElem? running) rule offered⟩
  intro filed reads
  dsimp only at reads
  by_cases unstored : session.registry.storagePath = none
  · obtain ⟨ids, moves⟩ := listener_moves session.registry (lastAssistantText messages) now outcome
    rw [(file_of_moves moves).2.resolve_right fun other => other.1 unstored] at reads
    intro stored member same _
    have apart := (sound.apart unstored filed reads stored member).2 asked (List.mem_of_getElem? running) rule offered
    exact absurd same.symm apart
  · obtain ⟨ids, moves⟩ := listener_moves session.registry (lastAssistantText messages) now outcome
    have mirrored := kept.mirrored (by rw [(file_of_moves moves).1]; exact unstored)
    rw [mirrored] at reads
    obtain rfl := Except.ok.inj reads
    exact silent

/-- After a run that was offered the rule has named it, no sub-agent is offered the rule before a user enables it, if
the id has the form of the registry and stands apart in the part of the final text that is kept, and the rules are
written where they are kept in a file. -/
theorem fired_stays_off {file : RulesFile} {steps later : List RuleStep} {session fired final : TriggerSession} {run : ℕ}
    {asked : OfferedRun} {rule : DynamicTriggerRule} {messages : List AgentMessage}
    (before : (TriggerSession.start file).run? steps = some session) (running : session.runs[run]? = some asked)
    (offered : rule ∈ asked.offered) (shape : IsRuleId rule.id) (stands : StandsApart rule.id (keptText messages))
    (written : session.registry.storagePath = none ∨ outcome = .ok ())
    (completed : session.step? (.completed run messages now outcome) = some fired)
    (after : fired.run? later = some final) (untouched : ∀ step ∈ later, ¬ Enables rule.id step) :
    ∀ other ∈ final.registry.enabledRules, other.id = rule.id → other.fireOnce = false := by
  have off := (off_of_completed ((sound_start file).run before) running offered shape stands written completed).run
    after untouched
  intro other member same
  obtain ⟨listed, enabled⟩ := List.mem_filter.mp member
  by_contra once
  exact absurd enabled (by simp [off.registry other listed same (by simpa using once)])

end Fired

section Sample

private def sampleUuid : JsString := js "0123456789abcdef0123456789abcdef"

private def sampleId : JsString := js "dyn-" ++ sampleUuid

/-- The rules are kept in a file, one is added, and a sub-agent is asked about it. -/
private def askedSteps : List RuleStep :=
  [.loadFromPath (js "/rules.json"), .addRule (js "when") (js "then") true false sampleUuid 0 (.ok ()), .dispatch (js "t")]

private def said (text : JsString) : List AgentMessage :=
  [.assistant
    { content := [.text { text }], api := js "api", provider := js "provider", model := js "model"
      usage := ⟨1, 1, 0, 0, 2⟩, stopReason := .stop, timestamp := .millis 0 }]

/-- The rules that fire once and are offered after the run has ended with a text. -/
private def offeredAfter (text : JsString) (outcome : Except JsString Unit) : Option (List JsString) :=
  ((TriggerSession.start .absent).run? askedSteps).bind fun session =>
    (session.step? (.completed 0 (said text) 1 outcome)).map fun fired =>
      (fired.registry.enabledRules.filter (·.fireOnce)).map (·.id)

private theorem not_endsInDigits (plain : (0x2D : CodeUnit) ∉ text) : ¬ EndsInDigits text := by
  rintro ⟨front, digits, rfl, _⟩
  exact plain (List.mem_append_left _ (List.mem_append_right _ (show (0x2D : CodeUnit) ∈ js "dyn-" by decide)))

private def sampleRule : DynamicTriggerRule :=
  { id := sampleId, condition := js "when", action := js "then", enabled := true, fireOnce := true, firedAt := none
    promoteToChat := false, createdAt := toIsoAutoSiZ 0 }

private def sampleSession : TriggerSession :=
  { registry := { rules := [sampleRule], storagePath := some (js "/rules.json"), file := .rules [sampleRule] }
    runs := [⟨js "t", [sampleRule]⟩], drawn := [sampleId] }

/-- A rule that is named is not offered to the next trigger. -/
theorem fired_stays_off_sample : ∃ fired final,
    sampleSession.step? (.completed 0 (said (js "matched " ++ sampleId)) 1 (.ok ())) = some fired ∧
    fired.run? [.dispatch (js "u")] = some final ∧
    ∀ other ∈ final.registry.enabledRules, other.id = sampleId → other.fireOnce = false := by
  have asks : (TriggerSession.start .absent).run? askedSteps = some sampleSession := by decide
  have shape : IsRuleId sampleId := ⟨sampleUuid, rfl, by decide, List.all_eq_true.mp (by decide)⟩
  have stands : StandsApart sampleId (keptText (said (js "matched " ++ sampleId))) :=
    ⟨js "matched ", [], by decide, nofun, not_endsInDigits (by decide)⟩
  have running : sampleSession.runs[0]? = some ⟨js "t", [sampleRule]⟩ := rfl
  obtain ⟨fired, completes⟩ : ∃ fired,
      sampleSession.step? (.completed 0 (said (js "matched " ++ sampleId)) 1 (.ok ())) = some fired :=
    ⟨_, @if_pos (0 < 1) _ Nat.one_pos _ (some _) none⟩
  obtain ⟨final, ran⟩ : ∃ final, fired.run? [.dispatch (js "u")] = some final := ⟨_, rfl⟩
  refine ⟨fired, final, completes, ran, ?_⟩
  exact @fired_stays_off 1 (.ok ()) .absent askedSteps [.dispatch (js "u")] sampleSession fired final 0
    ⟨js "t", [sampleRule]⟩ sampleRule (said (js "matched " ++ sampleId)) asks running List.mem_cons_self shape stands
    (.inr rfl) completes ran (by simp [Enables])

private def longText : List Char := List.replicate 4096 'a' ++ "dyn-0123456789abcdef0123456789abcdef".toList

private theorem long_eq : List.replicate 4096 0x61 ++ sampleId = ofText longText := by
  have letter : utf16 'a' = [0x61] := by decide
  rw [longText, ofText, List.flatMap_append, List.flatMap_replicate, letter, List.flatten_replicate_singleton]
  rfl

private theorem long_cut : CutAt 4082 (ofText longText) (ofText (List.replicate 4082 'a'))
    (ofText (List.replicate 14 'a' ++ "dyn-0123456789abcdef0123456789abcdef".toList)) := by
  have one : (encodeChar 'a').length = 1 := by decide
  have kept : (utf8Bytes (ofText (List.replicate 4082 'a'))).length = 4082 := by
    rw [utf8Bytes_ofText, length_encodeUtf8_replicate, one]
  refine ⟨?_, kept.le, fun character head => ?_⟩
  · rw [characters_ofText, characters_ofText, characters_ofText, ← List.map_append, ← List.append_assoc,
      List.replicate_append_replicate, longText]
  · rw [characters_ofText] at head
    obtain rfl : utf16 'a' = character := Option.some.inj head
    have first : (utf8Bytes (utf16 'a')).length = 1 := by decide
    rw [kept, first]
    omega

private theorem scanRuleIds_replicate {unit : CodeUnit} (other : unit ≠ 0x64) (n : ℕ) :
    scanRuleIds (n + steps) (List.replicate n unit ++ text) ids = scanRuleIds steps text ids := by
  induction n with
  | zero => rw [List.replicate_zero, List.nil_append, Nat.zero_add]
  | succ n ih =>
    rw [List.replicate_succ, List.cons_append, Nat.succ_add, scanRuleIds, if_neg, ih]
    intro starts
    exact other (List.cons_prefix_cons.mp (show (0x64 : CodeUnit) :: js "yn-" <+: _ from starts)).1.symm

/-- The id of a rule behind a text that is too long is cut off. -/
private theorem lastAssistantText_long : ∀ summary ∈ lastAssistantText (said (List.replicate 4096 0x61 ++ sampleId)),
    extractDynamicRuleIds summary = [] := by
  have letter : utf16 'a' = [0x61] := by decide
  intro summary found
  rw [lastAssistantText_eq] at found
  split at found
  · cases found
  have final : finalText (said (List.replicate 4096 0x61 ++ sampleId)) = ofText longText := by
    rw [← long_eq]
    exact List.append_nil _
  have large : promotionBodyCapBytes < (utf8Bytes (ofText longText)).length := by
    rw [utf8Bytes_ofText, longText, encodeUtf8_append, List.length_append, length_encodeUtf8_replicate]
    decide
  obtain rfl := Option.mem_some.mp found
  rw [keptText, final, truncateOnCharBoundary_of_cut large long_cut]
  have kept : ofText (scalars (ofText (List.replicate 4082 'a'))) = List.replicate 4082 0x61 := by
    rw [scalars_ofText, ofText, List.flatMap_replicate, letter, List.flatten_replicate_singleton]
  dsimp only
  rw [kept, extractDynamicRuleIds, List.length_append, List.length_replicate, scanRuleIds_replicate (by decide)]
  decide

private theorem offered_long : offeredAfter (List.replicate 4096 0x61 ++ sampleId) (.ok ()) = some [sampleId] := by
  have asks : (TriggerSession.start .absent).run? askedSteps = some sampleSession := by decide
  have none_ := lastAssistantText_long
  rw [offeredAfter, asks, Option.bind_some, TriggerSession.step?, if_pos (by decide), Option.map_some]
  generalize lastAssistantText (said (List.replicate 4096 0x61 ++ sampleId)) = summary at none_ ⊢
  cases summary with
  | none => rfl
  | some summary =>
    rw [fireOnceHarnessListener, none_ summary rfl]
    rfl

/-- The rule is offered again if the write of its mark fails, if its id touches another start of an id, and if the final
text is too long. -/
theorem fired_is_offered_again :
    (((TriggerSession.start .absent).run? askedSteps).map fun session =>
      session.runs.map fun run => run.offered.map (·.id)) = some [[sampleId]] ∧
    offeredAfter (js "matched " ++ sampleId) (.error (js "disk full")) = some [sampleId] ∧
    offeredAfter (js "matched dyn-" ++ sampleId) (.ok ()) = some [sampleId] ∧
    offeredAfter (List.replicate 4096 0x61 ++ sampleId) (.ok ()) = some [sampleId] := by
  refine ⟨?_, ?_, ?_, offered_long⟩ <;> decide

end Sample

end PieAgent.Soundness.FireOnceRules
