import Mathlib.Data.List.Basic
import Mathlib.Tactic.Common
import Mathlib.Tactic.FinCases
import PieAgent.Model.Providers.CompletionsStream

/-! # The tool calls of a streamed chat completion

A part of a tool call is told by its index before it is told by its id, for some providers change the id of a call from
part to part. When every index and every id belongs to one call, a call has at most one index and every later part of a
call repeats its index or an id it was sent with, then each call has one block with its own parts.
-/

namespace PieAgent.Soundness.StreamedCalls

open JavaScript Model CompletionsStream Streaming

/-- A part of a tool call, and the number of the call that it belongs to. -/
abbrev Part := ToolCallDelta × ℕ

/-- The calls of some parts. -/
def calls (parts : List Part) : List ℕ := parts.map (·.2)

/-- Indices and ids tell the calls apart, and the later parts of a call can be told. -/
structure Consistent (parts : List Part) : Prop where
  index : ∀ part ∈ parts, ∀ other ∈ parts, ∀ index, part.1.index = some index → other.1.index = some index →
    part.2 = other.2
  id : ∀ part ∈ parts, ∀ other ∈ parts, ∀ id, truthy part.1.id = some id → truthy other.1.id = some id → part.2 = other.2
  oneIndex : ∀ part ∈ parts, ∀ other ∈ parts, part.2 = other.2 → ∀ index index', part.1.index = some index →
    other.1.index = some index' → index = index'
  told : ∀ before part after, parts = before ++ part :: after → part.2 ∈ calls before →
    ∃ other ∈ before, other.2 = part.2 ∧ ((∃ index, part.1.index = some index ∧ other.1.index = some index) ∨
      ∃ id, truthy part.1.id = some id ∧ truthy other.1.id = some id)

section Blocks

variable (parts : List Part) (call : ℕ)

/-- The parts of one call. -/
def own : List ToolCallDelta := (parts.filter (·.2 = call)).map (·.1)

/-- The first of some texts that is not empty. -/
def firstText (texts : List (Option JsString)) : JsString := (texts.findSome? truthy).getD []

def callId : JsString := firstText ((own parts call).map (·.id))

def callName : JsString := firstText ((own parts call).map (·.name))

/-- The arguments of the parts, one behind the other. -/
def callArguments : JsString := ((own parts call).map fun part => part.arguments.getD []).flatten

end Blocks

/-- The parts of tool calls in a chunk. -/
def chunkToolCalls (chunk : Chunk) : List ToolCallDelta := (chunk.delta.map (·.toolCalls)).getD []

def deltaOf? : StreamEvent → Option (ℕ × JsString)
  | .toolcallDelta contentIndex delta => some (contentIndex, delta)
  | _ => none

/-- Each call has one block, in the order of the first parts, and the events name the places of the blocks. -/
structure Assembled (env : CompletionsEnvironment) (parts : List Part) (st : Streaming) (place : ℕ → ℕ) : Prop where
  block : ∀ call ∈ calls parts, ∃ block, st.blocks[place call]? = some (.toolCall block) ∧ block.id = callId parts call ∧
    block.name = callName parts call ∧ block.arguments = env.parseStreamingJson (callArguments parts call)
  only : ∀ n block, st.blocks[n]? = some (.toolCall block) → ∃ call ∈ calls parts, place call = n
  order : ∀ before part after, parts = before ++ part :: after → part.2 ∉ calls before →
    ∀ call ∈ calls before, place call < place part.2
  deltas : st.events.filterMap deltaOf? = parts.map fun part => (place part.2, part.1.arguments.getD [])
  starts : ∀ n, .toolcallStart n ∈ st.events → ∃ call ∈ calls parts, place call = n
  ends : ∀ n block, .toolcallEnd n block ∈ st.events ↔ st.blocks[n]? = some (.toolCall block)

section Invariant

/-- What the block of a call holds of its parts. -/
private structure Holds (parts : List Part) (call : ℕ) (block : StreamingToolCall) : Prop where
  id : block.id = callId parts call
  name : block.name = callName parts call
  partialArgs : block.partialArgs = callArguments parts call
  index : ∀ index, block.streamIndex = some index ↔ ∃ part ∈ parts, part.2 = call ∧ part.1.index = some index

/-- The state after some parts. -/
private structure Invariant (parts : List Part) (st : Streaming) (place : ℕ → ℕ) : Prop where
  block : ∀ call ∈ calls parts, ∃ block, st.blocks[place call]? = some (.toolCall block) ∧ Holds parts call block
  apart : ∀ call ∈ calls parts, ∀ other ∈ calls parts, place call = place other → call = other
  only : ∀ n block, st.blocks[n]? = some (.toolCall block) → ∃ call ∈ calls parts, place call = n
  order : ∀ before part after, parts = before ++ part :: after → part.2 ∉ calls before →
    ∀ call ∈ calls before, place call < place part.2
  deltas : st.events.filterMap deltaOf? = parts.map fun part => (place part.2, part.1.arguments.getD [])
  starts : ∀ n, .toolcallStart n ∈ st.events → ∃ call ∈ calls parts, place call = n
  noEnds : ∀ n block, .toolcallEnd n block ∉ st.events
  byIndex : ∀ index n, st.toolCallBlocksByIndex.get? index = some n ↔
    ∃ part ∈ parts, part.1.index = some index ∧ place part.2 = n
  byId : ∀ id n, st.toolCallBlocksById.get? id = some n ↔ ∃ part ∈ parts, truthy part.1.id = some id ∧ place part.2 = n

variable {parts : List Part} {st st' st'' : Streaming} {place : ℕ → ℕ} {env : CompletionsEnvironment}

/-- Two blocks with the same parts. -/
private structure SameParts (block block' : StreamingToolCall) : Prop where
  id : block'.id = block.id
  name : block'.name = block.name
  partialArgs : block'.partialArgs = block.partialArgs
  streamIndex : block'.streamIndex = block.streamIndex

/-- A step that no tool call notices. -/
private structure Harmless (st st' : Streaming) : Prop where
  kept : ∀ (n : ℕ) block, st.blocks[n]? = some (StreamingBlock.toolCall block) →
    ∃ block', st'.blocks[n]? = some (StreamingBlock.toolCall block') ∧ SameParts block block'
  back : ∀ (n : ℕ) block', st'.blocks[n]? = some (StreamingBlock.toolCall block') →
    ∃ block, st.blocks[n]? = some (StreamingBlock.toolCall block)
  deltas : st'.events.filterMap deltaOf? = st.events.filterMap deltaOf?
  starts : ∀ n, StreamEvent.toolcallStart n ∈ st'.events → StreamEvent.toolcallStart n ∈ st.events
  ends : ∀ n block, StreamEvent.toolcallEnd n block ∈ st'.events → StreamEvent.toolcallEnd n block ∈ st.events
  byIndex : st'.toolCallBlocksByIndex = st.toolCallBlocksByIndex
  byId : st'.toolCallBlocksById = st.toolCallBlocksById

private theorem Harmless.refl (st : Streaming) : Harmless st st :=
  ⟨fun _ block found => ⟨block, found, rfl, rfl, rfl, rfl⟩, fun _ block found => ⟨block, found⟩, rfl, fun _ => id,
    fun _ _ => id, rfl, rfl⟩

private theorem Harmless.trans (first : Harmless st st') (second : Harmless st' st'') : Harmless st st'' where
  kept n block found := by
    obtain ⟨block', found', same⟩ := first.kept n block found
    obtain ⟨block'', found'', same'⟩ := second.kept n block' found'
    exact ⟨block'', found'', same'.id.trans same.id, same'.name.trans same.name,
      same'.partialArgs.trans same.partialArgs, same'.streamIndex.trans same.streamIndex⟩
  back n block'' found := by
    obtain ⟨block', found'⟩ := second.back n block'' found
    exact first.back n block' found'
  deltas := second.deltas.trans first.deltas
  starts n started := first.starts n (second.starts n started)
  ends n block ended := first.ends n block (second.ends n block ended)
  byIndex := second.byIndex.trans first.byIndex
  byId := second.byId.trans first.byId

private theorem Invariant.harmless (holds : Invariant parts st place) (step : Harmless st st') :
    Invariant parts st' place where
  block call listed := by
    obtain ⟨block, found, inside⟩ := holds.block call listed
    obtain ⟨block', found', same⟩ := step.kept _ _ found
    refine ⟨block', found', same.id.trans inside.id, same.name.trans inside.name,
      same.partialArgs.trans inside.partialArgs, fun index => ?_⟩
    rw [same.streamIndex]
    exact inside.index index
  only n block found := by
    obtain ⟨block', found'⟩ := step.back n block found
    exact holds.only n block' found'
  apart := holds.apart
  order := holds.order
  deltas := step.deltas.trans holds.deltas
  starts n started := holds.starts n (step.starts n started)
  noEnds n block ended := holds.noEnds n block (step.ends n block ended)
  byIndex := by
    rw [step.byIndex]
    exact holds.byIndex
  byId := by
    rw [step.byId]
    exact holds.byId

/-- An event that is no event of a tool call. -/
private def Silent : StreamEvent → Prop
  | .toolcallStart _ | .toolcallDelta _ _ | .toolcallEnd _ _ => False
  | _ => True

private theorem harmless_push (event : StreamEvent) (silent : Silent event) : Harmless st (st.push event) where
  kept := (Harmless.refl st).kept
  back := (Harmless.refl st).back
  deltas := by
    rw [push, List.filterMap_append]
    cases event <;> first | exact silent.elim | exact List.append_nil _
  starts n started := by
    rcases List.mem_append.mp started with before | last
    · exact before
    · rw [← List.mem_singleton.mp last] at silent
      exact silent.elim
  ends n block ended := by
    rcases List.mem_append.mp ended with before | last
    · exact before
    · rw [← List.mem_singleton.mp last] at silent
      exact silent.elim
  byIndex := rfl
  byId := rfl

/-- A change that keeps the parts of a tool call, and makes none. -/
private def KeepsParts (change : StreamingBlock → StreamingBlock) : Prop :=
  (∀ block, ∃ block', change (StreamingBlock.toolCall block) = StreamingBlock.toolCall block' ∧ SameParts block block') ∧
    ∀ other block, change other = StreamingBlock.toolCall block → ∃ block', other = StreamingBlock.toolCall block'

private theorem harmless_modify {change : StreamingBlock → StreamingBlock} (keeps : KeepsParts change) (n : ℕ) :
    Harmless st (st.modify n change) where
  kept m block found := by
    rw [Streaming.modify, List.getElem?_modify, found]
    by_cases here : n = m
    · obtain ⟨block', changed, same⟩ := keeps.1 block
      exact ⟨block', by simp [here, changed], same⟩
    · exact ⟨block, by simp [here], rfl, rfl, rfl, rfl⟩
  back m block' found := by
    rw [Streaming.modify, List.getElem?_modify] at found
    cases held : st.blocks[m]? with
    | none => simp [held] at found
    | some other =>
      rw [held] at found
      by_cases here : n = m
      · obtain ⟨block, same⟩ := keeps.2 other block' (by simpa [here] using found)
        exact ⟨block, congrArg some same⟩
      · exact ⟨block', by simpa [here] using found⟩
  deltas := rfl
  starts _ := id
  ends _ _ := id
  byIndex := rfl
  byId := rfl

private theorem keepsParts_addText (delta : JsString) : KeepsParts (addText delta) :=
  ⟨fun block => ⟨block, rfl, rfl, rfl, rfl, rfl⟩, fun other block changed => by
    cases other with
    | text text => cases changed
    | thinking thinking signature => cases changed
    | toolCall call => exact ⟨call, rfl⟩⟩

private theorem keepsParts_addThinking (delta : JsString) : KeepsParts (addThinking delta) :=
  ⟨fun block => ⟨block, rfl, rfl, rfl, rfl, rfl⟩, fun other block changed => by
    cases other with
    | text text => cases changed
    | thinking thinking signature => cases changed
    | toolCall call => exact ⟨call, rfl⟩⟩

private theorem keepsParts_signature (signature : Option JsString) :
    KeepsParts (onCall fun call => { call with thoughtSignature := signature }) :=
  ⟨fun block => ⟨_, rfl, rfl, rfl, rfl, rfl⟩, fun other block changed => by
    cases other with
    | text text => cases changed
    | thinking thinking signature => cases changed
    | toolCall call => exact ⟨call, rfl⟩⟩

/-- A block that is no tool call. -/
private def IsProse : StreamingBlock → Prop
  | .toolCall _ => False
  | _ => True

private theorem harmless_append (block : StreamingBlock) (prose : IsProse block)
    (blocks : st'.blocks = st.blocks ++ [block]) (events : st'.events = st.events)
    (byIndex : st'.toolCallBlocksByIndex = st.toolCallBlocksByIndex)
    (byId : st'.toolCallBlocksById = st.toolCallBlocksById) : Harmless st st' where
  kept n call found := by
    obtain ⟨inside, -⟩ := List.getElem?_eq_some_iff.mp found
    refine ⟨call, ?_, rfl, rfl, rfl, rfl⟩
    rw [blocks, List.getElem?_append_left inside]
    exact found
  back n call found := by
    rw [blocks, List.getElem?_append] at found
    split at found
    · exact ⟨call, found⟩
    · obtain ⟨inside, same⟩ := List.getElem?_eq_some_iff.mp found
      rw [List.getElem_singleton] at same
      rw [same] at prose
      exact prose.elim
  deltas := by rw [events]
  starts n started := events ▸ started
  ends n call ended := events ▸ ended
  byIndex := byIndex
  byId := byId

private theorem harmless_ensureTextBlock : Harmless st st.ensureTextBlock.1 := by
  rw [ensureTextBlock]
  split
  · exact .refl st
  · refine Harmless.trans ?_ (harmless_push (.textStart _) trivial)
    exact harmless_append (.text []) trivial rfl rfl rfl rfl

private theorem harmless_ensureThinkingBlock (signature : JsString) :
    Harmless st (st.ensureThinkingBlock signature).1 := by
  rw [ensureThinkingBlock]
  split
  · exact .refl st
  · refine Harmless.trans ?_ (harmless_push (.thinkingStart _) trivial)
    exact harmless_append (.thinking [] signature) trivial rfl rfl rfl rfl

private theorem harmless_applyContent (content : Option JsString) : Harmless st (st.applyContent content) := by
  rw [applyContent]
  split
  · exact .refl st
  · exact (harmless_ensureTextBlock.trans (harmless_modify (keepsParts_addText _) _)).trans
      (harmless_push (.textDelta _ _) trivial)

private theorem harmless_applyReasoning (env : CompletionsEnvironment) (delta : ChunkDelta) :
    Harmless st (applyReasoning env st delta) := by
  rw [applyReasoning]
  split
  · exact .refl st
  · exact ((harmless_ensureThinkingBlock _).trans (harmless_modify (keepsParts_addThinking _) _)).trans
      (harmless_push (.thinkingDelta _ _) trivial)

private theorem harmless_applyDetail (detail : ReasoningDetail) : Harmless st (st.applyDetail detail) := by
  rw [applyDetail]
  split
  · exact harmless_modify (keepsParts_signature _) _
  · exact .refl st

private theorem harmless_applyFinish (finishReason : Option JsString) : Harmless st (st.applyFinish finishReason) := by
  rw [applyFinish]
  split
  · exact .refl st
  · exact ⟨(Harmless.refl st).kept, (Harmless.refl st).back, rfl, fun _ => id, fun _ _ => id, rfl, rfl⟩

/-- What a part of a call changes. -/
private structure Taken (parts : List Part) (st st' : Streaming) (place place' : ℕ → ℕ) (part : Part) : Prop where
  agrees : ∀ call ∈ calls parts, place' call = place call
  found : ∃ block, st'.blocks[place' part.2]? = some (.toolCall block) ∧ Holds (parts ++ [part]) part.2 block
  others : ∀ (n : ℕ) block, n ≠ place' part.2 →
    (st'.blocks[n]? = some (StreamingBlock.toolCall block) ↔ st.blocks[n]? = some (StreamingBlock.toolCall block))
  later : part.2 ∉ calls parts → ∀ call ∈ calls parts, place call < place' part.2
  deltas : st'.events.filterMap deltaOf? =
    st.events.filterMap deltaOf? ++ [(place' part.2, part.1.arguments.getD [])]
  starts : ∀ n, StreamEvent.toolcallStart n ∈ st'.events →
    n = place' part.2 ∨ StreamEvent.toolcallStart n ∈ st.events
  ends : ∀ n block, StreamEvent.toolcallEnd n block ∈ st'.events → StreamEvent.toolcallEnd n block ∈ st.events
  byIndex : ∀ index, st'.toolCallBlocksByIndex.get? index =
    if part.1.index = some index then some (place' part.2) else st.toolCallBlocksByIndex.get? index
  byId : ∀ id, st'.toolCallBlocksById.get? id =
    if truthy part.1.id = some id then some (place' part.2) else st.toolCallBlocksById.get? id

private theorem mem_calls_append {part : Part} {call : ℕ} :
    call ∈ calls (parts ++ [part]) ↔ call ∈ calls parts ∨ call = part.2 := by
  simp [calls]

private theorem own_append (part : Part) (call : ℕ) :
    own (parts ++ [part]) call = own parts call ++ if part.2 = call then [part.1] else [] := by
  rw [own, List.filter_append, List.map_append]
  split
  · next same => simp [own, same]
  · next other => simp [own, other]

private theorem own_append_of_ne {part : Part} {call : ℕ} (other : call ≠ part.2) :
    own (parts ++ [part]) call = own parts call := by
  rw [own_append, if_neg (Ne.symm other), List.append_nil]

private theorem own_eq_nil {call : ℕ} (fresh : call ∉ calls parts) : own parts call = [] := by
  rw [own, List.map_eq_nil_iff, List.filter_eq_nil_iff]
  intro part listed
  rw [decide_eq_true_iff]
  rintro rfl
  exact fresh (List.mem_map_of_mem listed)

private theorem firstText_append (texts : List (Option JsString)) (text : Option JsString) :
    firstText (texts ++ [text]) = if firstText texts = [] then (truthy text).getD [] else firstText texts := by
  rw [firstText, List.findSome?_append]
  cases found : texts.findSome? truthy with
  | none => simp [firstText, found]
  | some first =>
    obtain ⟨text, -, told⟩ := List.exists_of_findSome?_eq_some found
    have named : first ≠ [] := by simpa using (Option.filter_eq_some_iff.mp told).2
    simp [firstText, found, named]

private theorem Holds.other {part : Part} {call : ℕ} {block : StreamingToolCall} (holds : Holds parts call block)
    (other : call ≠ part.2) : Holds (parts ++ [part]) call block where
  id := by
    rw [callId, own_append_of_ne other]
    exact holds.id
  name := by
    rw [callName, own_append_of_ne other]
    exact holds.name
  partialArgs := by
    rw [callArguments, own_append_of_ne other]
    exact holds.partialArgs
  index index := by
    rw [holds.index index]
    constructor
    · rintro ⟨known, listed, same⟩
      exact ⟨known, List.mem_append_left _ listed, same⟩
    · rintro ⟨known, listed, same, told⟩
      rcases List.mem_append.mp listed with before | last
      · exact ⟨known, before, same, told⟩
      · rw [List.mem_singleton.mp last] at same
        exact absurd same.symm other

/-- A key that is told by one part more. -/
private theorem get?_taken {κ : Type} [DecidableEq κ] (key : ToolCallDelta → Option κ) (get get' : κ → Option ℕ)
    {place' : ℕ → ℕ} {part : Part}
    (known : ∀ k n, get k = some n ↔ ∃ other ∈ parts, key other.1 = some k ∧ place other.2 = n)
    (agrees : ∀ call ∈ calls parts, place' call = place call)
    (unique : ∀ other ∈ parts, ∀ k, key part.1 = some k → key other.1 = some k → part.2 = other.2)
    (taken : ∀ k, get' k = if key part.1 = some k then some (place' part.2) else get k) (k : κ) (n : ℕ) :
    get' k = some n ↔ ∃ other ∈ parts ++ [part], key other.1 = some k ∧ place' other.2 = n := by
  have same (other : Part) (listed : other ∈ parts) : place' other.2 = place other.2 :=
    agrees _ (List.mem_map_of_mem listed)
  rw [taken]
  split
  · next told =>
    rw [Option.some_inj]
    constructor
    · intro here
      exact ⟨part, List.mem_append_right _ (List.mem_singleton_self part), told, here⟩
    · rintro ⟨other, listed, named, there⟩
      rcases List.mem_append.mp listed with before | last
      · rw [unique other before k told named]
        exact there
      · rw [← List.mem_singleton.mp last]
        exact there
  · next untold =>
    rw [known]
    constructor
    · rintro ⟨other, listed, named, there⟩
      exact ⟨other, List.mem_append_left _ listed, named, (same other listed).trans there⟩
    · rintro ⟨other, listed, named, there⟩
      rcases List.mem_append.mp listed with before | last
      · exact ⟨other, before, named, (same other before).symm.trans there⟩
      · rw [List.mem_singleton.mp last] at named
        exact absurd named untold

private theorem Consistent.before {parts more : List Part} (consistent : Consistent (parts ++ more)) :
    Consistent parts where
  index part listed other listed' :=
    consistent.index part (List.mem_append_left _ listed) other (List.mem_append_left _ listed')
  id part listed other listed' :=
    consistent.id part (List.mem_append_left _ listed) other (List.mem_append_left _ listed')
  oneIndex part listed other listed' :=
    consistent.oneIndex part (List.mem_append_left _ listed) other (List.mem_append_left _ listed')
  told before part after same :=
    consistent.told before part (after ++ more) (by rw [same, List.append_assoc, List.cons_append])

private theorem Invariant.taken {part : Part} {place' : ℕ → ℕ} (holds : Invariant parts st place)
    (consistent : Consistent (parts ++ [part])) (step : Taken parts st st' place place' part) :
    Invariant (parts ++ [part]) st' place' := by
  have last : part ∈ parts ++ [part] := List.mem_append_right _ (List.mem_singleton_self part)
  have away (call : ℕ) (listed : call ∈ calls parts) (other : call ≠ part.2) : place call ≠ place' part.2 := by
    by_cases known : part.2 ∈ calls parts
    · rw [step.agrees _ known]
      exact fun same => other (holds.apart _ listed _ known same)
    · exact (step.later known call listed).ne
  constructor
  case block =>
    intro call listed
    by_cases here : call = part.2
    · rw [here]
      exact step.found
    · have before := (mem_calls_append.mp listed).resolve_right here
      obtain ⟨block, found, inside⟩ := holds.block call before
      refine ⟨block, ?_, inside.other here⟩
      rw [step.agrees _ before, step.others _ _ (away call before here)]
      exact found
  case apart =>
    have one (call : ℕ) (listed : call ∈ calls (parts ++ [part])) (same : place' call = place' part.2) :
        call = part.2 := by
      by_contra other
      have before := (mem_calls_append.mp listed).resolve_right other
      exact away call before other ((step.agrees _ before).symm.trans same)
    intro call listed other listed' same
    rcases (mem_calls_append).mp listed with before | rfl
    · rcases (mem_calls_append).mp listed' with before' | rfl
      · exact holds.apart _ before _ before' (by rw [← step.agrees _ before, ← step.agrees _ before', same])
      · exact one call listed same
    · exact (one other listed' same.symm).symm
  case only =>
    intro n block found
    by_cases here : n = place' part.2
    · exact ⟨part.2, (mem_calls_append).mpr (.inr rfl), here.symm⟩
    · obtain ⟨call, listed, there⟩ := holds.only n block ((step.others n block here).mp found)
      exact ⟨call, (mem_calls_append).mpr (.inl listed), (step.agrees _ listed).trans there⟩
  case order =>
    intro before other after same fresh call listed
    rcases List.eq_nil_or_concat after with rfl | ⟨rest, final, rfl⟩
    · obtain ⟨rfl, alone⟩ := List.append_inj' same rfl
      obtain rfl := List.singleton_inj.mp alone
      rw [step.agrees _ listed]
      exact step.later fresh call listed
    · rw [List.concat_eq_append, ← List.cons_append, ← List.append_assoc] at same
      obtain ⟨rfl, -⟩ := List.append_inj' same rfl
      rw [step.agrees call (by simp only [calls, List.map_append] at listed ⊢; exact List.mem_append_left _ listed),
        step.agrees other.2 (List.mem_map_of_mem (List.mem_append_right _ List.mem_cons_self))]
      exact holds.order before other rest rfl fresh call listed
  case deltas =>
    rw [step.deltas, holds.deltas, List.map_append]
    congr 1
    refine List.map_congr_left fun other listed => ?_
    rw [step.agrees _ (List.mem_map_of_mem listed)]
  case starts =>
    intro n started
    rcases step.starts n started with rfl | before
    · exact ⟨part.2, (mem_calls_append).mpr (.inr rfl), rfl⟩
    · obtain ⟨call, listed, there⟩ := holds.starts n before
      exact ⟨call, (mem_calls_append).mpr (.inl listed), (step.agrees _ listed).trans there⟩
  case noEnds => exact fun n block ended => holds.noEnds n block (step.ends n block ended)
  case byIndex =>
    exact get?_taken (·.index) st.toolCallBlocksByIndex.get? st'.toolCallBlocksByIndex.get? holds.byIndex step.agrees
      (fun other listed => consistent.index part last other (List.mem_append_left _ listed)) step.byIndex
  case byId =>
    exact get?_taken (truthy ·.id) st.toolCallBlocksById.get? st'.toolCallBlocksById.get? holds.byId step.agrees
      (fun other listed => consistent.id part last other (List.mem_append_left _ listed)) step.byId

/-- The block of a part is at its place and known for the part. -/
private structure Placed (st st' : Streaming) (toolCall : ToolCallDelta) (n : ℕ) (call : StreamingToolCall) : Prop where
  found : st'.blocks[n]? = some (.toolCall call)
  others : ∀ m, m ≠ n → st'.blocks[m]? = st.blocks[m]?
  deltas : st'.events.filterMap deltaOf? = st.events.filterMap deltaOf?
  starts : ∀ m, StreamEvent.toolcallStart m ∈ st'.events → m = n ∨ StreamEvent.toolcallStart m ∈ st.events
  ends : ∀ m block, StreamEvent.toolcallEnd m block ∈ st'.events → StreamEvent.toolcallEnd m block ∈ st.events
  byIndex : ∀ index, st'.toolCallBlocksByIndex.get? index =
    if toolCall.index = some index then some n else st.toolCallBlocksByIndex.get? index
  byId : ∀ id, st'.toolCallBlocksById.get? id =
    if truthy toolCall.id = some id then some n else st.toolCallBlocksById.get? id

private theorem get?_setIndex (index : Option JsNumber) (n : ℕ) (other : JsNumber) :
    (st.setIndex index n).toolCallBlocksByIndex.get? other =
      if index = some other then some n else st.toolCallBlocksByIndex.get? other := by
  cases index with
  | none => rfl
  | some index =>
    by_cases same : index = other
    · subst same
      simp [setIndex]
    · rw [if_neg (by simpa using same)]
      exact JsMap.get?_set_of_ne _ _ (Ne.symm same)

private theorem get?_setId (id : Option JsString) (n : ℕ) (other : JsString) :
    (st.setId id n).toolCallBlocksById.get? other =
      if truthy id = some other then some n else st.toolCallBlocksById.get? other := by
  rw [setId]
  split
  · next untold => rw [untold, if_neg (by nofun)]
  · next id told =>
    rw [told]
    by_cases same : id = other
    · subst same
      simp
    · rw [if_neg (by simpa using same)]
      exact JsMap.get?_set_of_ne _ _ (Ne.symm same)

private theorem setId_eq (id : Option JsString) (n : ℕ) :
    st.setId id n = { st with toolCallBlocksById := (st.setId id n).toolCallBlocksById } := by
  rw [setId]
  split <;> rfl

@[simp] private theorem setId_blocks (id : Option JsString) (n : ℕ) : (st.setId id n).blocks = st.blocks :=
  congrArg (·.blocks) (setId_eq id n)

@[simp] private theorem setId_events (id : Option JsString) (n : ℕ) : (st.setId id n).events = st.events :=
  congrArg (·.events) (setId_eq id n)

@[simp] private theorem setId_byIndex (id : Option JsString) (n : ℕ) :
    (st.setId id n).toolCallBlocksByIndex = st.toolCallBlocksByIndex :=
  congrArg (·.toolCallBlocksByIndex) (setId_eq id n)

@[simp] private theorem setIndex_blocks (index : Option JsNumber) (n : ℕ) : (st.setIndex index n).blocks = st.blocks := by
  cases index <;> rfl

@[simp] private theorem setIndex_events (index : Option JsNumber) (n : ℕ) : (st.setIndex index n).events = st.events := by
  cases index <;> rfl

@[simp] private theorem setIndex_byId (index : Option JsNumber) (n : ℕ) :
    (st.setIndex index n).toolCallBlocksById = st.toolCallBlocksById := by
  cases index <;> rfl

private theorem getElem?_modify_call {n : ℕ} {call : StreamingToolCall} (found : st.blocks[n]? = some (.toolCall call))
    (change : StreamingToolCall → StreamingToolCall) (m : ℕ) :
    (st.modify n (onCall change)).blocks[m]? = if m = n then some (.toolCall (change call)) else st.blocks[m]? := by
  rw [Streaming.modify, List.getElem?_modify]
  by_cases here : m = n
  · subst here
    simp [found, onCall]
  · simp [here, Ne.symm here]

private theorem placed_known (toolCall : ToolCallDelta) {n : ℕ} {call : StreamingToolCall}
    (found : st.blocks[n]? = some (.toolCall call))
    (same : ∀ index index', call.streamIndex = some index → toolCall.index = some index' → index = index')
    (known : ∀ index, call.streamIndex = some index → st.toolCallBlocksByIndex.get? index = some n) :
    Placed st ((st.adoptIndex toolCall.index n).setId toolCall.id n) toolCall n
      { call with streamIndex := call.streamIndex.or toolCall.index } := by
  have held : st.streamIndexAt n = call.streamIndex := by rw [streamIndexAt, found]
  cases told : toolCall.index with
  | none =>
    have unchanged : st.adoptIndex none n = st := by simp [adoptIndex]
    rw [unchanged, Option.or_none]
    exact {
      found := by simpa using found
      others := by simp
      deltas := by simp
      starts := by simpa using fun m started => .inr started
      ends := by simp
      byIndex := by simp [told]
      byId := fun id => get?_setId _ _ id }
  | some index =>
    cases adopted : call.streamIndex with
    | some index' =>
      obtain rfl := same index' index adopted told
      have unchanged : st.adoptIndex (some index') n = st := by simp [adoptIndex, held, adopted]
      rw [unchanged, Option.or_some, ← adopted]
      exact {
        found := by
          rw [setId_blocks, found]
          cases call
          simp_all
        others := by simp
        deltas := by simp
        starts := by simpa using fun m started => .inr started
        ends := by simp
        byIndex := fun other => by
          rw [setId_byIndex, told]
          split
          · next here => rw [← Option.some_inj.mp here, known index' adopted]
          · rfl
        byId := fun id => get?_setId _ _ id }
    | none =>
      have adopts : st.adoptIndex (some index) n =
          (st.modify n (onCall fun call => { call with streamIndex := some index })).setIndex (some index) n := by
        simp [adoptIndex, held, adopted]
      rw [adopts, Option.none_or]
      exact {
        found := by simp [getElem?_modify_call found]
        others := fun m other => by simp [getElem?_modify_call found, other]
        deltas := by simp [Streaming.modify]
        starts := by simpa [Streaming.modify] using fun m started => .inr started
        ends := by simp [Streaming.modify]
        byIndex := fun other => by
          rw [setId_byIndex, get?_setIndex, told]
          rfl
        byId := fun id => by
          rw [get?_setId, setIndex_byId]
          rfl }

private theorem placed_new (toolCall : ToolCallDelta) (fresh : st.knownBlock toolCall = none) :
    Placed st (st.ensureToolCallBlock toolCall).1 toolCall st.blocks.length (newToolCall toolCall) := by
  simp only [ensureToolCallBlock, fresh]
  generalize started : (((st.setIndex toolCall.index st.blocks.length).setId toolCall.id st.blocks.length)) = st₁
  have blocks : st₁.blocks = st.blocks := by simp [← started]
  have events : st₁.events = st.events := by simp [← started]
  generalize appended : (push { st₁ with blocks := st₁.blocks ++ [.toolCall (newToolCall toolCall)] }
    (.toolcallStart st.blocks.length)) = st₂
  have found : st₂.blocks[st.blocks.length]? = some (.toolCall (newToolCall toolCall)) := by
    simp [← appended, push, blocks]
  have unchanged : st₂.adoptIndex toolCall.index st.blocks.length = st₂ := by
    rw [adoptIndex, streamIndexAt, found]
    cases told : toolCall.index <;> simp [newToolCall, told]
  rw [unchanged]
  exact {
    found := by simpa using found
    others := fun m other => by
      rw [setId_blocks, ← appended]
      simp only [push, blocks]
      rcases Nat.lt_or_ge m st.blocks.length with inside | outside
      · exact List.getElem?_append_left inside
      · rw [List.getElem?_eq_none outside, List.getElem?_eq_none]
        rw [List.length_append, List.length_singleton]
        omega
    deltas := by simp [← appended, push, events, deltaOf?]
    starts := fun m here => by
      rw [setId_events, ← appended] at here
      simpa [push, events, or_comm] using here
    ends := fun m block here => by
      rw [setId_events, ← appended] at here
      simpa [push, events] using here
    byIndex := fun index => by
      rw [setId_byIndex, ← appended, ← started]
      simp only [push, setId_byIndex]
      exact get?_setIndex _ _ index
    byId := fun id => by
      rw [get?_setId, ← appended, ← started]
      simp only [push, get?_setId, setIndex_byId]
      split <;> rfl }

private theorem getD_truthy (text : Option JsString) : (truthy text).getD [] = text.getD [] := by
  cases text with
  | none => rfl
  | some text =>
    rw [truthy, Option.filter_some]
    split
    · rfl
    · next empty => simpa using empty

private theorem extendCall_partialArgs (toolCall : ToolCallDelta) (block : StreamingToolCall) :
    (extendCall env toolCall block).partialArgs = block.partialArgs ++ toolCall.arguments.getD [] := by
  simp only [extendCall]
  rw [← getD_truthy toolCall.arguments]
  cases truthy toolCall.arguments with
  | none => exact (List.append_nil _).symm
  | some delta => rfl

private theorem Holds.extend {toolCall : ToolCallDelta} {call : ℕ} {block : StreamingToolCall}
    (holds : Holds parts call block) (consistent : Consistent (parts ++ [(toolCall, call)])) :
    Holds (parts ++ [(toolCall, call)]) call
      (extendCall env toolCall { block with streamIndex := block.streamIndex.or toolCall.index }) where
  id := by
    rw [callId, own_append, if_pos rfl, List.map_append, List.map_singleton, firstText_append]
    have known := holds.id
    rw [callId] at known
    rw [← known]
    simp only [extendCall]
    split <;> split <;> simp_all
  name := by
    rw [callName, own_append, if_pos rfl, List.map_append, List.map_singleton, firstText_append]
    have known := holds.name
    rw [callName] at known
    rw [← known]
    simp only [extendCall]
    split <;> split <;> simp_all
  partialArgs := by
    rw [callArguments, own_append, if_pos rfl, List.map_append, List.flatten_append]
    have known := holds.partialArgs
    rw [callArguments] at known
    rw [← known, extendCall_partialArgs]
    simp
  index index := by
    have kept : (extendCall env toolCall { block with streamIndex := block.streamIndex.or toolCall.index }).streamIndex =
        block.streamIndex.or toolCall.index := by
      rw [extendCall]
      split <;> rfl
    have last : (toolCall, call) ∈ parts ++ [(toolCall, call)] := List.mem_append_right _ (List.mem_singleton_self _)
    rw [kept]
    constructor
    · intro told
      rcases Option.or_eq_some_iff.mp told with before | ⟨-, here⟩
      · obtain ⟨part, listed, same, index⟩ := (holds.index index).mp before
        exact ⟨part, List.mem_append_left _ listed, same, index⟩
      · exact ⟨_, last, rfl, here⟩
    · rintro ⟨part, listed, same, told⟩
      rcases List.mem_append.mp listed with before | here
      · rw [(holds.index index).mpr ⟨part, before, same, told⟩]
        rfl
      · obtain rfl := List.mem_singleton.mp here
        cases adopted : block.streamIndex with
        | none => exact told
        | some index' =>
          obtain ⟨other, listed', same', told'⟩ := (holds.index index').mp adopted
          rw [consistent.oneIndex _ last other (List.mem_append_left _ listed') same'.symm _ _ told told']
          rfl

/-- A call without parts. -/
private def blankCall : StreamingToolCall where
  id := []
  name := []
  arguments := .obj []
  partialArgs := []
  streamIndex := none
  thoughtSignature := none

private theorem holds_blank {call : ℕ} (fresh : call ∉ calls parts) : Holds parts call blankCall where
  id := by
    rw [callId, own_eq_nil fresh]
    rfl
  name := by
    rw [callName, own_eq_nil fresh]
    rfl
  partialArgs := by
    rw [callArguments, own_eq_nil fresh]
    rfl
  index index := by
    refine ⟨by nofun, ?_⟩
    rintro ⟨part, listed, rfl, -⟩
    exact absurd (List.mem_map_of_mem listed) fresh

private theorem extend_newToolCall (toolCall : ToolCallDelta) :
    extendCall env toolCall (newToolCall toolCall) =
      extendCall env toolCall { blankCall with streamIndex := blankCall.streamIndex.or toolCall.index } := by
  have once (text : Option JsString) :
      (if text.getD [] = [] then (truthy text).getD (text.getD []) else text.getD []) = text.getD [] := by
    split
    · next empty => rw [empty, getD_truthy, empty]
    · rfl
  simp only [extendCall, newToolCall, blankCall, getD_truthy, Option.none_or, ↓reduceIte]
  split <;> congr 1 <;> exact once _

section Known

variable {part : Part} (holds : Invariant parts st place) (consistent : Consistent (parts ++ [part]))
include holds consistent

private theorem index_known {n : ℕ} (found : part.1.index.bind st.toolCallBlocksByIndex.get? = some n) :
    part.2 ∈ calls parts ∧ n = place part.2 := by
  obtain ⟨index, told, known⟩ := Option.bind_eq_some_iff.mp found
  obtain ⟨other, listed, told', rfl⟩ := (holds.byIndex index n).mp known
  have same := consistent.index part (List.mem_append_right _ (List.mem_singleton_self part)) other
    (List.mem_append_left _ listed) index told told'
  rw [same]
  exact ⟨List.mem_map_of_mem listed, rfl⟩

private theorem id_known {n : ℕ} (found : (truthy part.1.id).bind st.toolCallBlocksById.get? = some n) :
    part.2 ∈ calls parts ∧ n = place part.2 := by
  obtain ⟨id, told, known⟩ := Option.bind_eq_some_iff.mp found
  obtain ⟨other, listed, told', rfl⟩ := (holds.byId id n).mp known
  have same := consistent.id part (List.mem_append_right _ (List.mem_singleton_self part)) other
    (List.mem_append_left _ listed) id told told'
  rw [same]
  exact ⟨List.mem_map_of_mem listed, rfl⟩

private theorem knownBlock_known {n : ℕ} (found : st.knownBlock part.1 = some n) :
    part.2 ∈ calls parts ∧ n = place part.2 := by
  rcases Option.or_eq_some_iff.mp found with first | ⟨-, second⟩
  · exact index_known holds consistent first
  · exact id_known holds consistent second

private theorem knownBlock_of_known (known : part.2 ∈ calls parts) : st.knownBlock part.1 = some (place part.2) := by
  obtain ⟨other, listed, same, told⟩ := consistent.told parts part [] rfl known
  have found : ∃ n, st.knownBlock part.1 = some n := by
    rw [← Option.isSome_iff_exists, knownBlock, Option.isSome_or, Bool.or_eq_true]
    rcases told with ⟨index, told, told'⟩ | ⟨id, told, told'⟩
    · left
      rw [told, Option.bind_some, (holds.byIndex index (place other.2)).mpr ⟨other, listed, told', rfl⟩]
      rfl
    · right
      rw [told, Option.bind_some, (holds.byId id (place other.2)).mpr ⟨other, listed, told', rfl⟩]
      rfl
  obtain ⟨n, found⟩ := found
  rw [found, (knownBlock_known holds consistent found).2]

private theorem knownBlock_of_fresh (fresh : part.2 ∉ calls parts) : st.knownBlock part.1 = none := by
  cases found : st.knownBlock part.1 with
  | none => rfl
  | some n => exact absurd (knownBlock_known holds consistent found).1 fresh

end Known

private theorem Placed.taken {st₁ : Streaming} {part : Part} {place' : ℕ → ℕ} {call : StreamingToolCall}
    (placed : Placed st st₁ part.1 (place' part.2) call)
    (agrees : ∀ call ∈ calls parts, place' call = place call)
    (later : part.2 ∉ calls parts → ∀ call ∈ calls parts, place call < place' part.2)
    (extended : Holds (parts ++ [part]) part.2 (extendCall env part.1 call)) :
    Taken parts st ((st₁.modify (place' part.2) (onCall (extendCall env part.1))).push
      (.toolcallDelta (place' part.2) (part.1.arguments.getD []))) place place' part where
  agrees := agrees
  found := ⟨_, by rw [push, getElem?_modify_call placed.found, if_pos rfl], extended⟩
  others n block other := by
    rw [push, getElem?_modify_call placed.found, if_neg other, placed.others n other]
  later := later
  deltas := by
    rw [push, List.filterMap_append]
    exact congrArg (· ++ _) placed.deltas
  starts n started := by
    rcases List.mem_append.mp started with before | last
    · exact placed.starts n before
    · cases List.mem_singleton.mp last
  ends n block ended := by
    rcases List.mem_append.mp ended with before | last
    · exact placed.ends n block before
    · cases List.mem_singleton.mp last
  byIndex := placed.byIndex
  byId := placed.byId

private theorem taken_applyToolCall (env : CompletionsEnvironment) {part : Part} (holds : Invariant parts st place)
    (consistent : Consistent (parts ++ [part])) :
    ∃ place', Taken parts st (applyToolCall env st part.1) place place' part := by
  by_cases known : part.2 ∈ calls parts
  · obtain ⟨block, found, inside⟩ := holds.block _ known
    have here := knownBlock_of_known holds consistent known
    have last : part ∈ parts ++ [part] := List.mem_append_right _ (List.mem_singleton_self part)
    refine ⟨place, ?_⟩
    have placed := placed_known part.1 found (fun index index' adopted told => by
        obtain ⟨other, listed, same, told'⟩ := (inside.index index).mp adopted
        exact consistent.oneIndex other (List.mem_append_left _ listed) part last same _ _ told' told)
      (fun index adopted => by
        obtain ⟨other, listed, same, told⟩ := (inside.index index).mp adopted
        exact (holds.byIndex index _).mpr ⟨other, listed, told, congrArg place same⟩)
    simp only [applyToolCall, ensureToolCallBlock, here]
    exact placed.taken (fun _ _ => rfl) (fun fresh => absurd known fresh) (inside.extend consistent)
  · have extended : ∃ place' : ℕ → ℕ, place' part.2 = st.blocks.length ∧
        ∀ call ∈ calls parts, place' call = place call := by
      refine ⟨Function.update place part.2 st.blocks.length, Function.update_self .., fun call listed => ?_⟩
      exact Function.update_of_ne (fun (same : call = part.2) => known (same ▸ listed)) ..
    obtain ⟨place', here, agrees⟩ := extended
    have fresh := knownBlock_of_fresh holds consistent known
    have placed := placed_new part.1 fresh
    have there : (st.ensureToolCallBlock part.1).2 = place' part.2 := by
      simp only [ensureToolCallBlock, fresh]
      exact here.symm
    refine ⟨place', ?_⟩
    simp only [applyToolCall, there]
    rw [← here] at placed
    refine placed.taken agrees (fun _ call listed => ?_) ?_
    · obtain ⟨block, found, -⟩ := holds.block call listed
      rw [here]
      exact (List.getElem?_eq_some_iff.mp found).1
    · rw [extend_newToolCall]
      exact (holds_blank known).extend consistent

private theorem invariant_applyToolCalls (env : CompletionsEnvironment) (toolCalls : List Part) :
    ∀ {parts : List Part} {st : Streaming} {place : ℕ → ℕ}, Invariant parts st place → Consistent (parts ++ toolCalls) →
      ∃ place', Invariant (parts ++ toolCalls) ((toolCalls.map (·.1)).foldl (applyToolCall env) st) place' := by
  induction toolCalls with
  | nil =>
    intro parts st place holds consistent
    exact ⟨place, by simpa using holds⟩
  | cons part rest ih =>
    intro parts st place holds consistent
    rw [List.append_cons parts part rest] at consistent
    obtain ⟨place', step⟩ := taken_applyToolCall env holds consistent.before
    obtain ⟨place'', after⟩ := ih (holds.taken consistent.before step) consistent
    rw [← List.append_cons parts part rest] at after
    exact ⟨place'', after⟩

private theorem harmless_foldl_applyDetail (details : List ReasoningDetail) :
    Harmless st (details.foldl applyDetail st) := by
  induction details generalizing st with
  | nil => exact .refl st
  | cons detail rest ih => exact (harmless_applyDetail detail).trans ih

private theorem invariant_applyChunk (env : CompletionsEnvironment) {chunk : Chunk} {more : List Part}
    (holds : Invariant parts st place) (consistent : Consistent (parts ++ more))
    (labels : more.map (·.1) = chunkToolCalls chunk) :
    ∃ place', Invariant (parts ++ more) (applyChunk env st chunk) place' := by
  have finished := holds.harmless (harmless_applyFinish chunk.finishReason)
  rw [chunkToolCalls] at labels
  rw [applyChunk]
  cases told : chunk.delta with
  | none =>
    rw [told] at labels
    obtain rfl := List.map_eq_nil_iff.mp labels
    exact ⟨place, by simpa using finished⟩
  | some delta =>
    rw [told] at labels
    have worded := finished.harmless (harmless_applyContent delta.content)
    have spoken := worded.harmless (harmless_applyReasoning env delta)
    obtain ⟨place', called⟩ := invariant_applyToolCalls env more spoken consistent
    rw [labels] at called
    exact ⟨place', called.harmless (harmless_foldl_applyDetail delta.reasoningDetails)⟩

private theorem invariant_applyChunks (env : CompletionsEnvironment) (chunks : List Chunk) :
    ∀ {parts more : List Part} {st : Streaming} {place : ℕ → ℕ}, Invariant parts st place → Consistent (parts ++ more) →
      more.map (·.1) = chunks.flatMap chunkToolCalls →
      ∃ place', Invariant (parts ++ more) (chunks.foldl (applyChunk env) st) place' := by
  induction chunks with
  | nil =>
    intro parts more st place holds consistent labels
    obtain rfl := List.map_eq_nil_iff.mp labels
    exact ⟨place, by simpa using holds⟩
  | cons chunk rest ih =>
    intro parts more st place holds consistent labels
    obtain ⟨here, later, rfl, labels, labels'⟩ := List.map_eq_append_iff.mp labels
    rw [← List.append_assoc] at consistent ⊢
    obtain ⟨place', step⟩ := invariant_applyChunk env holds consistent.before labels
    exact ih step consistent labels'

private theorem invariant_start (place : ℕ → ℕ) : Invariant [] {} place where
  block := by simp [calls]
  apart := by simp [calls]
  only := by simp
  order := by simp
  deltas := rfl
  starts := by simp
  noEnds := by simp
  byIndex := by simp
  byId := by simp

private theorem deltaOf?_endEvent (n : ℕ) (block : StreamingBlock) : deltaOf? (endEvent n block) = none := by
  cases block <;> rfl

private theorem endEvent_ne_start (n m : ℕ) (block : StreamingBlock) : endEvent n block ≠ .toolcallStart m := by
  cases block <;> simp [endEvent]

private theorem endEvent_eq_end {n m : ℕ} {block : StreamingBlock} {call : StreamingToolCall} :
    endEvent n block = .toolcallEnd m call ↔ n = m ∧ block = .toolCall call := by
  cases block <;> simp [endEvent]

private theorem silent_lastEvent (aborted : Bool) : Silent (st.lastEvent aborted) := by
  rw [lastEvent]
  split
  · trivial
  · split
    · trivial
    · split <;> trivial

private theorem getElem?_finishBlocks {n : ℕ} {call : StreamingToolCall} :
    (st.finishBlocks env).blocks[n]? = some (.toolCall call) ↔
      ∃ block, st.blocks[n]? = some (StreamingBlock.toolCall block) ∧ finishCall env block = call := by
  rw [finishBlocks, List.getElem?_map, Option.map_eq_some_iff]
  constructor
  · rintro ⟨block, found, finished⟩
    cases block with
    | text text => cases finished
    | thinking thinking signature => cases finished
    | toolCall block => exact ⟨block, found, by simpa [finishBlock, onCall] using finished⟩
  · rintro ⟨block, found, rfl⟩
    exact ⟨_, found, rfl⟩

private theorem assembled_finishBlocks (holds : Invariant parts st place) :
    Assembled env parts (st.finishBlocks env) place where
  block call listed := by
    obtain ⟨block, found, inside⟩ := holds.block call listed
    refine ⟨finishCall env block, (getElem?_finishBlocks).mpr ⟨block, found, rfl⟩, inside.id, inside.name, ?_⟩
    rw [← inside.partialArgs]
    rfl
  only n call found := by
    obtain ⟨block, found', -⟩ := (getElem?_finishBlocks).mp found
    exact holds.only n block found'
  order := holds.order
  deltas := by
    rw [finishBlocks, List.filterMap_append, holds.deltas, List.filterMap_eq_nil_iff.mpr, List.append_nil]
    intro event listed
    obtain ⟨n, inside, rfl⟩ := List.mem_mapIdx.mp listed
    exact deltaOf?_endEvent _ _
  starts n started := by
    rcases List.mem_append.mp started with before | last
    · exact holds.starts n before
    · obtain ⟨m, inside, same⟩ := List.mem_mapIdx.mp last
      exact absurd same (endEvent_ne_start _ _ _)
  ends n call := by
    rw [finishBlocks, List.mem_append, or_iff_right (holds.noEnds n call), List.mem_mapIdx, List.getElem?_eq_some_iff]
    constructor
    · rintro ⟨m, inside, same⟩
      obtain ⟨rfl, found⟩ := (endEvent_eq_end).mp same
      exact ⟨inside, found⟩
    · rintro ⟨inside, found⟩
      exact ⟨n, inside, (endEvent_eq_end).mpr ⟨rfl, found⟩⟩

private theorem Assembled.push {event : StreamEvent} (assembled : Assembled env parts st place) (silent : Silent event) :
    Assembled env parts (st.push event) place where
  block := assembled.block
  only := assembled.only
  order := assembled.order
  deltas := (harmless_push event silent).deltas.trans assembled.deltas
  starts n started := assembled.starts n ((harmless_push event silent).starts n started)
  ends n call :=
    ⟨fun ended => (assembled.ends n call).mp ((harmless_push event silent).ends n call ended),
      fun found => List.mem_append_left _ ((assembled.ends n call).mpr found)⟩

end Invariant

/-- Each call has its own block with its own id, name and arguments, and every event names the place of the block. -/
theorem calls_assembled (env : CompletionsEnvironment) (chunks : List Chunk) (aborted : Bool) (parts : List Part)
    (labels : parts.map (·.1) = chunks.flatMap chunkToolCalls) (consistent : Consistent parts) :
    ∃ place, Assembled env parts (streamOpenAICompletions env chunks aborted) place := by
  obtain ⟨place, holds⟩ := invariant_applyChunks env chunks (invariant_start id) consistent labels
  exact ⟨place, (assembled_finishBlocks holds).push (silent_lastEvent aborted)⟩

section Examples

/-- A provider whose arguments are kept as they are. -/
private def plainEnvironment : CompletionsEnvironment where
  provider := js "openai"
  parseStreamingJson := .str

private def numbered (index : ℚ) (id name arguments : Option String) : ToolCallDelta where
  index := some (.finite index)
  id := id.map js
  name := name.map js
  arguments := arguments.map js

private def toolChunk (toolCalls : List ToolCallDelta) : Chunk := { delta := some { toolCalls } }

/-- Two calls at two indices, the first with a part more. -/
private def twoCalls : List Part :=
  [(numbered 0 "a" "read" "1", 0), (numbered 1 "b" "list" "2", 1), (numbered 0 none none "3", 0)]

private theorem consistent_twoCalls : Consistent twoCalls where
  index part listed other listed' index told told' := by
    fin_cases listed <;> fin_cases listed' <;> cases told <;> first | rfl | cases told'
  id part listed other listed' id told told' := by
    fin_cases listed <;> fin_cases listed' <;> cases told <;> first | rfl | cases told'
  oneIndex part listed other listed' same index index' told told' := by
    fin_cases listed <;> fin_cases listed' <;> cases told <;> cases told' <;> first | rfl | cases same
  told before part after same known := by
    match before with
    | [] => cases known
    | [first] =>
      simp only [twoCalls, List.cons_append, List.nil_append, List.cons.injEq] at same
      obtain ⟨rfl, rfl, -⟩ := same
      simp [calls] at known
    | [first, second] =>
      simp only [twoCalls, List.cons_append, List.nil_append, List.cons.injEq] at same
      obtain ⟨rfl, rfl, rfl, -⟩ := same
      exact ⟨_, List.mem_cons_self, rfl, .inl ⟨.finite 0, rfl, rfl⟩⟩
    | first :: second :: third :: rest => simp [twoCalls] at same

/-- The calls of `twoCalls` are assembled. -/
theorem calls_assembled_twoCalls :
    ∃ place, Assembled plainEnvironment twoCalls
      (streamOpenAICompletions plainEnvironment (twoCalls.map fun part => toolChunk [part.1]) false) place :=
  calls_assembled plainEnvironment _ false twoCalls rfl consistent_twoCalls

/-- A new id at a known index starts no new call. -/
theorem new_id_joins_call :
    (streamOpenAICompletions plainEnvironment
      [toolChunk [numbered 0 "a" "read" "1"], toolChunk [numbered 0 "b" "list" "2"]] false).blocks =
        [.toolCall {
          id := js "a"
          name := js "read"
          arguments := .str (js "12")
          partialArgs := []
          streamIndex := none
          thoughtSignature := none }] := by
  rfl

end Examples

end PieAgent.Soundness.StreamedCalls
