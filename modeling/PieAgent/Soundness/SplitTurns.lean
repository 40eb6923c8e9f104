import PieAgent.Model.Compaction.CodingAgent
import PieAgent.Proofs.Compaction.CutPoint

/-! # Whether a cut splits a turn

The search reports a split turn when the entry at the cut is no user message and some turn starts up to the cut. The cut
may have moved back over entries without a message, and other entries than user messages start turns, so a turn that is
kept whole is reported as split unless a user message stands at the cut or no turn starts up to it.
-/

namespace PieAgent.Soundness.SplitTurns

open JavaScript Model

variable (estimateTokens : AgentMessage → ℕ) (keepRecentTokens : WithTop ℤ) (entries : List SessionTreeEntry)
  (startIndex cut : ℕ)

/-- The entry at an index puts a message into the context. -/
def BearsContext (index : ℕ) : Prop := ∃ entry, entries[index]? = some entry ∧ (contextMessage? entry).isSome

/-- The first entry of the context at or behind an index does not start a turn. -/
def StartsInsideTurn : Prop :=
  ∃ first, IsLeast {i | cut ≤ i ∧ BearsContext entries i} first ∧ testAt entries EntryBody.startsTurn first = false

/-- Some turn starts from the previous boundary up to the cut. -/
def TurnBefore : Prop := ∃ i, StartsTurn entries startIndex i ∧ i ≤ cut

/-- A split turn is reported exactly when the kept part starts inside a turn. -/
def Truthful : Prop :=
  let result := findCutPoint estimateTokens entries startIndex entries.length keepRecentTokens
  result.isSplitTurn = true ↔ StartsInsideTurn entries result.firstKeptEntryIndex

/-- The two ways of a wrong report are excluded: a turn is kept whole, no user message stands at the cut and some turn
starts up to it; or the kept part starts inside a turn that starts before the previous boundary. -/
def CutIsPlain : Prop :=
  ∀ cut, KeptFrom estimateTokens keepRecentTokens entries startIndex cut →
    (¬ StartsInsideTurn entries cut → testAt entries EntryBody.isUserMessage cut = true ∨ ¬ TurnBefore entries startIndex cut) ∧
      (StartsInsideTurn entries cut → TurnBefore entries startIndex cut)

variable {estimateTokens keepRecentTokens entries startIndex cut}

/-- When a split turn is reported. -/
theorem isSplitTurn_iff :
    (findCutPoint estimateTokens entries startIndex entries.length keepRecentTokens).isSplitTurn = true ↔
      testAt entries EntryBody.isUserMessage
          (findCutPoint estimateTokens entries startIndex entries.length keepRecentTokens).firstKeptEntryIndex = false ∧
        TurnBefore entries startIndex
          (findCutPoint estimateTokens entries startIndex entries.length keepRecentTokens).firstKeptEntryIndex := by
  rw [findCutPoint_isSplitTurn]
  by_cases points : findValidCutPoints entries startIndex entries.length = []
  · rw [findCutPoint_turnStartIndex_nil points]
    refine ⟨fun none_ => (by cases none_), ?_⟩
    rintro ⟨_, i, starts, _⟩
    have admits := mem_findValidCutPoints.mpr ⟨AdmitsCut.of_startsTurn starts, testAt_lt starts.2⟩
    rw [points] at admits
    cases admits
  · constructor
    · intro found
      obtain ⟨turnStart, found⟩ := Option.isSome_iff_exists.mp found
      obtain ⟨notUser, greatest⟩ := (findCutPoint_turnStartIndex points).mp found
      exact ⟨notUser, turnStart, greatest.1⟩
    · rintro ⟨notUser, i, starts, before⟩
      by_contra none_
      have search : findTurnStartIndex entries (findCutPoint estimateTokens entries startIndex entries.length
          keepRecentTokens).firstKeptEntryIndex startIndex = none := by
        cases found : findTurnStartIndex entries (findCutPoint estimateTokens entries startIndex entries.length
            keepRecentTokens).firstKeptEntryIndex startIndex with
        | none => rfl
        | some turnStart =>
          have reported := (findCutPoint_turnStartIndex points).mpr ⟨notUser, findTurnStartIndex_eq_some.mp found⟩
          rw [reported] at none_
          exact absurd rfl none_
      exact absurd (findTurnStartIndex_eq_none.mp search i starts) (Nat.not_lt.mpr before)

/-- A user message starts a turn, and is the first entry of the context from itself on. -/
private theorem not_startsInsideTurn (user : testAt entries EntryBody.isUserMessage cut = true) :
    ¬ StartsInsideTurn entries cut := by
  rintro ⟨first, least, inside⟩
  have here : BearsContext entries cut := by
    rw [testAt, Option.any_eq_true] at user
    obtain ⟨entry, found, user⟩ := user
    refine ⟨entry, found, ?_⟩
    cases body : entry.body with
    | message message => simp [contextMessage?, body]
    | _ => simp [EntryBody.isUserMessage, body] at user
  obtain rfl : first = cut := le_antisymm (least.2 ⟨le_rfl, here⟩) least.1.1
  exact absurd ((testAt_imp EntryBody.startsTurn_of_isUserMessage user).symm.trans inside) (by decide)

section Examples

private def noon : JsString := js "2026-01-01T12:00:00.000Z"

private def entryOf (id : String) (body : EntryBody) : SessionTreeEntry := ⟨js id, none, noon, body⟩

private def said (id text : String) : SessionTreeEntry := entryOf id (.message (.user ⟨.plain (js text), .millis 0⟩))

/-- Two turns of the user with a change of the model between them. -/
def changedModel : List SessionTreeEntry :=
  [said "a" "first", entryOf "b" (.modelChange (js "p") (js "m")), said "c" "second"]

end Examples

end PieAgent.Soundness.SplitTurns
