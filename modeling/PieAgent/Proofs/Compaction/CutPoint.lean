import PieAgent.ToMathlib.RangeSearch
import PieAgent.Model.Compaction.Preparation

/-! # What the cut-point search computes

`KeptFrom` says where the kept part of a branch starts without following the loops of the search:
the budget index is the greatest message index whose suffix reaches the budget, the raw cut is the
least admissible index from there on, and the final cut is the least index the raw cut can move
back to over entries without a message. `findCutPoint` computes it, and it is unique.
-/

namespace PieAgent.Model

open JavaScript

variable {estimateTokens : AgentMessage → ℕ} {keepRecentTokens : WithTop ℤ}
variable {entries : List SessionTreeEntry} {startIndex : ℕ}

/-- The estimated tokens of the messages from an index on. -/
def tokensFrom (estimateTokens : AgentMessage → ℕ) (entries : List SessionTreeEntry) (index : ℕ) : ℕ :=
  ((entries.drop index).filterMap (entryTokens? estimateTokens)).sum

/-- A message from which on the branch reaches the budget. -/
def ReachesBudget (estimateTokens : AgentMessage → ℕ) (keepRecentTokens : WithTop ℤ)
    (entries : List SessionTreeEntry) (startIndex index : ℕ) : Prop :=
  startIndex ≤ index ∧ testAt entries EntryBody.isMessage index ∧
    reachesLimit keepRecentTokens (tokensFrom estimateTokens entries index)

/-- An index the raw cut may fall on. -/
def AdmitsCut (entries : List SessionTreeEntry) (startIndex index : ℕ) : Prop :=
  startIndex ≤ index ∧ testAt entries EntryBody.isCutPoint index

/-- An index at which a turn starts. -/
def StartsTurn (entries : List SessionTreeEntry) (startIndex index : ℕ) : Prop :=
  startIndex ≤ index ∧ testAt entries EntryBody.startsTurn index

/-- The cut of a branch that does not reach the budget: its last turn, or its first admissible index. -/
def FallbackCut (entries : List SessionTreeEntry) (startIndex cut : ℕ) : Prop :=
  IsGreatest {i | StartsTurn entries startIndex i} cut ∨
    ((∀ i, ¬ StartsTurn entries startIndex i) ∧ IsLeast {i | AdmitsCut entries startIndex i} cut)

/-- The cut before it moves back over entries without a message. -/
def RawCut (estimateTokens : AgentMessage → ℕ) (keepRecentTokens : WithTop ℤ)
    (entries : List SessionTreeEntry) (startIndex cut : ℕ) : Prop :=
  (∃ index, IsGreatest {i | ReachesBudget estimateTokens keepRecentTokens entries startIndex i} index ∧
      IsLeast {i | AdmitsCut entries startIndex i ∧ index ≤ i} cut) ∨
    ((∀ index, IsGreatest {i | ReachesBudget estimateTokens keepRecentTokens entries startIndex i} index →
        ∀ i, AdmitsCut entries startIndex i → i < index) ∧
      FallbackCut entries startIndex cut)

/-- The least index from `startIndex` on with neither message nor compaction between it and the raw cut. -/
def MovesBackTo (entries : List SessionTreeEntry) (startIndex raw cut : ℕ) : Prop :=
  IsLeast {i | startIndex ≤ i ∧ i ≤ raw ∧ ∀ j, i ≤ j → j < raw →
    testAt entries (fun body => body.isCompaction || body.isMessage) j = false} cut

/-- The kept part of the branch starts at `cut`. -/
def KeptFrom (estimateTokens : AgentMessage → ℕ) (keepRecentTokens : WithTop ℤ)
    (entries : List SessionTreeEntry) (startIndex cut : ℕ) : Prop :=
  ((∀ i, ¬ AdmitsCut entries startIndex i) ∧ cut = startIndex) ∨
    ∃ raw, RawCut estimateTokens keepRecentTokens entries startIndex raw ∧ MovesBackTo entries startIndex raw cut

theorem testAt_lt {test : EntryBody → Bool} {index : ℕ} (passes : testAt entries test index) :
    index < entries.length := by
  by_contra outside
  simp [testAt, List.getElem?_eq_none (Nat.le_of_not_lt outside)] at passes

theorem testAt_imp {test other : EntryBody → Bool} (weaker : ∀ body, test body → other body) {index : ℕ}
    (passes : testAt entries test index) : testAt entries other index := by
  simp only [testAt, Option.any_eq_true] at passes ⊢
  obtain ⟨entry, found, passes⟩ := passes
  exact ⟨entry, found, weaker _ passes⟩

theorem EntryBody.isCutPoint_of_startsTurn (body : EntryBody) (starts : body.startsTurn) : body.isCutPoint := by
  cases body with
  | message message => cases message <;> simp_all [startsTurn, isCutPoint]
  | _ => simp_all [startsTurn, isCutPoint]

theorem EntryBody.startsTurn_of_isUserMessage (body : EntryBody) (user : body.isUserMessage) : body.startsTurn := by
  cases body with
  | message message => cases message <;> simp_all [startsTurn, isUserMessage]
  | _ => simp_all [isUserMessage]

theorem AdmitsCut.of_startsTurn {index : ℕ} (starts : StartsTurn entries startIndex index) :
    AdmitsCut entries startIndex index :=
  ⟨starts.1, testAt_imp EntryBody.isCutPoint_of_startsTurn starts.2⟩

theorem mem_findValidCutPoints {endIndex index : ℕ} :
    index ∈ findValidCutPoints entries startIndex endIndex ↔
      AdmitsCut entries startIndex index ∧ index < endIndex := by
  simp only [findValidCutPoints, List.mem_filter, List.mem_range'_1, AdmitsCut]
  constructor
  · rintro ⟨⟨lower, upper⟩, admits⟩
    exact ⟨⟨lower, admits⟩, by omega⟩
  · rintro ⟨⟨lower, admits⟩, upper⟩
    exact ⟨⟨lower, by omega⟩, admits⟩

private theorem startsTurn_set (entryIndex : ℕ) :
    {i | startIndex ≤ i ∧ i < startIndex + (entryIndex + 1 - startIndex) ∧ testAt entries EntryBody.startsTurn i} =
      {i | StartsTurn entries startIndex i ∧ i ≤ entryIndex} := by
  ext i
  simp only [StartsTurn, Set.mem_ofPred_eq]
  constructor
  · rintro ⟨lower, upper, starts⟩
    exact ⟨⟨lower, starts⟩, by omega⟩
  · rintro ⟨⟨lower, starts⟩, upper⟩
    exact ⟨lower, by omega, starts⟩

/-- The turn search returns the last turn start up to an index. -/
theorem findTurnStartIndex_eq_some {entryIndex found : ℕ} :
    findTurnStartIndex entries entryIndex startIndex = some found ↔
      IsGreatest {i | StartsTurn entries startIndex i ∧ i ≤ entryIndex} found := by
  rw [findTurnStartIndex, List.find?_reverse_range'_isGreatest, startsTurn_set]

theorem findTurnStartIndex_eq_none {entryIndex : ℕ} :
    findTurnStartIndex entries entryIndex startIndex = none ↔
      ∀ i, StartsTurn entries startIndex i → entryIndex < i := by
  rw [findTurnStartIndex, List.find?_reverse_range'_eq_none_iff]
  constructor
  · rintro none i ⟨lower, starts⟩
    by_contra inside
    simp [none i lower (by omega)] at starts
  · intro outside i lower upper
    by_contra starts
    have := outside i ⟨lower, by simpa using starts⟩
    omega

private theorem tokensFrom_of_bind_none {index : ℕ}
    (skip : (entries[index]?).bind (entryTokens? estimateTokens) = none) :
    tokensFrom estimateTokens entries index = tokensFrom estimateTokens entries (index + 1) := by
  unfold tokensFrom
  cases found : entries[index]? with
  | none =>
    have outside := List.getElem?_eq_none_iff.mp found
    rw [List.drop_eq_nil_of_le outside, List.drop_eq_nil_of_le (by omega)]
  | some entry =>
    obtain ⟨inside, rfl⟩ := List.getElem?_eq_some_iff.mp found
    rw [List.drop_eq_getElem_cons inside, List.filterMap_cons_none]
    simpa [found] using skip

private theorem tokensFrom_of_bind_some {index tokens : ℕ}
    (read : (entries[index]?).bind (entryTokens? estimateTokens) = some tokens) :
    tokensFrom estimateTokens entries index = tokensFrom estimateTokens entries (index + 1) + tokens := by
  obtain ⟨entry, found, estimate⟩ := Option.bind_eq_some_iff.mp read
  obtain ⟨inside, rfl⟩ := List.getElem?_eq_some_iff.mp found
  unfold tokensFrom
  rw [List.drop_eq_getElem_cons inside, List.filterMap_cons_some estimate, List.sum_cons, Nat.add_comm]

private theorem isMessage_iff_tokens (estimateTokens : AgentMessage → ℕ) {index : ℕ} :
    testAt entries EntryBody.isMessage index ↔
      ((entries[index]?).bind (entryTokens? estimateTokens)).isSome := by
  cases found : entries[index]? with
  | none => simp [testAt, found]
  | some entry => cases shape : entry.body <;> simp [testAt, found, shape, EntryBody.isMessage, entryTokens?]

private theorem isGreatest_below_succ {reached : ℕ → Prop} {bound found : ℕ} (skip : ¬ reached bound) :
    IsGreatest {i | reached i ∧ i < bound + 1} found ↔ IsGreatest {i | reached i ∧ i < bound} found := by
  have same : {i | reached i ∧ i < bound + 1} = {i | reached i ∧ i < bound} := by
    ext i
    constructor
    · rintro ⟨holds, upper⟩
      exact ⟨holds, lt_of_le_of_ne (Nat.lt_succ_iff.mp upper) (by rintro rfl; exact skip holds)⟩
    · rintro ⟨holds, upper⟩
      exact ⟨holds, Nat.lt_succ_of_lt upper⟩
  rw [same]

/-- One run of the loop: the accumulator holds the tokens of the entries already passed. -/
private theorem budgetIndex?_loop (estimateTokens : AgentMessage → ℕ) (keepRecentTokens : WithTop ℤ)
    (entries : List SessionTreeEntry) (startIndex remaining found : ℕ) :
    budgetIndex? estimateTokens keepRecentTokens entries startIndex remaining
        (tokensFrom estimateTokens entries (startIndex + remaining)) = some found ↔
      IsGreatest {i | ReachesBudget estimateTokens keepRecentTokens entries startIndex i ∧
        i < startIndex + remaining} found := by
  induction remaining with
  | zero =>
    simp only [budgetIndex?, reduceCtorEq, false_iff]
    rintro ⟨⟨⟨lower, _⟩, upper⟩, _⟩
    omega
  | succ remaining ih =>
    rw [budgetIndex?]
    cases read : (entries[startIndex + remaining]?).bind (entryTokens? estimateTokens) with
    | none =>
      have skip : ¬ ReachesBudget estimateTokens keepRecentTokens entries startIndex (startIndex + remaining) := by
        rintro ⟨_, message, _⟩
        simp [isMessage_iff_tokens estimateTokens, read] at message
      simp only
      rw [← Nat.add_assoc, ← tokensFrom_of_bind_none read, ih, isGreatest_below_succ skip]
    | some tokens =>
      have total := tokensFrom_of_bind_some read
      simp only
      rw [← Nat.add_assoc, ← total]
      split
      · next reached =>
        have holds : ReachesBudget estimateTokens keepRecentTokens entries startIndex (startIndex + remaining) :=
          ⟨by omega, by simp [isMessage_iff_tokens estimateTokens, read], reached⟩
        constructor
        · rintro ⟨⟩
          exact ⟨⟨holds, by omega⟩, fun other member => by have := member.2; omega⟩
        · rintro ⟨⟨_, upper⟩, greatest⟩
          have := greatest (a := startIndex + remaining) ⟨holds, by omega⟩
          exact congrArg some (by omega)
      · next short =>
        have skip : ¬ ReachesBudget estimateTokens keepRecentTokens entries startIndex (startIndex + remaining) :=
          fun reached => short reached.2.2
        rw [ih, isGreatest_below_succ skip]

private theorem reachesBudget_lt {index : ℕ}
    (reached : ReachesBudget estimateTokens keepRecentTokens entries startIndex index) : index < entries.length :=
  testAt_lt reached.2.1

/-- The walk over the recent messages stops at the greatest index that reaches the budget. -/
theorem budgetIndex?_eq_some (inside : startIndex ≤ entries.length) {found : ℕ} :
    budgetIndex? estimateTokens keepRecentTokens entries startIndex (entries.length - startIndex) 0 = some found ↔
      IsGreatest {i | ReachesBudget estimateTokens keepRecentTokens entries startIndex i} found := by
  have loop := budgetIndex?_loop estimateTokens keepRecentTokens entries startIndex (entries.length - startIndex) found
  have last : startIndex + (entries.length - startIndex) = entries.length := by omega
  rw [last] at loop
  have empty : tokensFrom estimateTokens entries entries.length = 0 := by simp [tokensFrom]
  rw [empty] at loop
  rw [loop]
  have same : {i | ReachesBudget estimateTokens keepRecentTokens entries startIndex i ∧ i < entries.length} =
      {i | ReachesBudget estimateTokens keepRecentTokens entries startIndex i} :=
    Set.ext fun i => ⟨fun member => member.1, fun member => ⟨member, reachesBudget_lt member⟩⟩
  rw [same]

theorem includeNonMessages_movesBackTo {raw : ℕ} (inside : startIndex ≤ raw) :
    MovesBackTo entries startIndex raw (includeNonMessages entries startIndex raw) := by
  induction raw with
  | zero =>
    exact ⟨⟨inside, le_rfl, fun j _ before => absurd before (Nat.not_lt_zero j)⟩, fun i _ => Nat.zero_le i⟩
  | succ previous ih =>
    rw [includeNonMessages]
    split
    · next atStart =>
      exact ⟨⟨inside, le_rfl, fun j lower upper => by omega⟩, fun i member => by have := member.1; omega⟩
    · next above =>
      split
      · next stops =>
        refine ⟨⟨inside, le_rfl, fun j lower upper => by omega⟩, fun i member => ?_⟩
        by_contra before
        simp [member.2.2 previous (by omega) (by omega)] at stops
      · next passes =>
        obtain ⟨⟨lower, upper, clear⟩, least⟩ := ih (by omega)
        have free := Bool.eq_false_iff.mpr passes
        refine ⟨⟨lower, by omega, fun j after before => ?_⟩, fun i member => ?_⟩
        · rcases Nat.lt_succ_iff_lt_or_eq.mp before with earlier | rfl
          · exact clear j after earlier
          · exact free
        · rcases Nat.le_succ_iff.mp member.2.1 with earlier | rfl
          · exact least ⟨member.1, earlier, fun j after before => member.2.2 j after (by omega)⟩
          · omega

private theorem isLeast_of_find? {indices : List ℕ} {low cut : ℕ} (sorted : indices.Pairwise (· < ·))
    (found : indices.find? (low ≤ ·) = some cut) : IsLeast {i | i ∈ indices ∧ low ≤ i} cut := by
  induction indices with
  | nil => simp at found
  | cons head rest ih =>
    obtain ⟨below, sorted⟩ := List.pairwise_cons.mp sorted
    rw [List.find?_cons] at found
    split at found
    · next reached =>
      cases found
      refine ⟨⟨List.mem_cons_self, by simpa using reached⟩, fun other member => ?_⟩
      rcases List.mem_cons.mp member.1 with rfl | later
      · exact le_rfl
      · exact (below other later).le
    · next short =>
      obtain ⟨⟨member, reached⟩, least⟩ := ih sorted found
      refine ⟨⟨List.mem_cons_of_mem _ member, reached⟩, fun other otherMember => ?_⟩
      rcases List.mem_cons.mp otherMember.1 with rfl | later
      · exact absurd otherMember.2 (by simpa using short)
      · exact least ⟨later, otherMember.2⟩

private theorem findValidCutPoints_sorted (entries : List SessionTreeEntry) (startIndex endIndex : ℕ) :
    (findValidCutPoints entries startIndex endIndex).Pairwise (· < ·) :=
  List.Pairwise.filter _ List.pairwise_lt_range'

private theorem mem_cutPoints {index : ℕ} :
    index ∈ findValidCutPoints entries startIndex entries.length ↔ AdmitsCut entries startIndex index := by
  rw [mem_findValidCutPoints]
  exact ⟨fun member => member.1, fun admits => ⟨admits, testAt_lt admits.2⟩⟩

private theorem fallbackCut_getD {first : ℕ} {rest : List ℕ}
    (points : findValidCutPoints entries startIndex entries.length = first :: rest) :
    FallbackCut entries startIndex ((findTurnStartIndex entries (entries.length - 1) startIndex).getD first) := by
  cases search : findTurnStartIndex entries (entries.length - 1) startIndex with
  | none =>
    refine Or.inr ⟨fun i starts => ?_, ?_, fun other admits => ?_⟩
    · have := (findTurnStartIndex_eq_none).mp search i starts
      have := testAt_lt starts.2
      omega
    · exact (mem_cutPoints).mp (by simp [points])
    · have sorted := findValidCutPoints_sorted entries startIndex entries.length
      have member := (mem_cutPoints).mpr admits
      rw [points] at sorted member
      rcases List.mem_cons.mp member with rfl | later
      · exact le_rfl
      · exact ((List.pairwise_cons.mp sorted).1 other later).le
  | some found =>
    obtain ⟨⟨starts, _⟩, greatest⟩ := (findTurnStartIndex_eq_some).mp search
    refine Or.inl ⟨starts, fun other otherStarts => greatest ⟨otherStarts, ?_⟩⟩
    have := testAt_lt otherStarts.2
    omega

/-- The cut index that the search of `findCutPoint` settles on before it moves back. -/
private theorem rawCut_search (estimateTokens : AgentMessage → ℕ) (keepRecentTokens : WithTop ℤ)
    (inside : startIndex ≤ entries.length) {first : ℕ} {rest : List ℕ}
    (points : findValidCutPoints entries startIndex entries.length = first :: rest) :
    RawCut estimateTokens keepRecentTokens entries startIndex
      (match budgetIndex? estimateTokens keepRecentTokens entries startIndex (entries.length - startIndex) 0 with
        | none => (findTurnStartIndex entries (entries.length - 1) startIndex).getD first
        | some index => ((first :: rest).find? (index ≤ ·)).getD
            ((findTurnStartIndex entries (entries.length - 1) startIndex).getD first)) := by
  have fallback := fallbackCut_getD points
  have sorted := findValidCutPoints_sorted entries startIndex entries.length
  cases budget :
      budgetIndex? estimateTokens keepRecentTokens entries startIndex (entries.length - startIndex) 0 with
  | none =>
    refine Or.inr ⟨fun index greatest => ?_, fallback⟩
    rw [(budgetIndex?_eq_some inside).mpr greatest] at budget
    cases budget
  | some index =>
    have reached := (budgetIndex?_eq_some inside).mp budget
    dsimp only
    cases search : (first :: rest).find? (index ≤ ·) with
    | none =>
      refine Or.inr ⟨fun other greatest i admits => ?_, fallback⟩
      cases greatest.unique reached
      have member := (mem_cutPoints).mpr admits
      rw [points] at member
      simpa using List.find?_eq_none.mp search i member
    | some cut =>
      refine Or.inl ⟨index, reached, ?_⟩
      rw [← points] at search
      rw [Option.getD_some]
      simpa only [mem_cutPoints] using isLeast_of_find? sorted search

private theorem RawCut.lower {raw : ℕ} (cut : RawCut estimateTokens keepRecentTokens entries startIndex raw) :
    startIndex ≤ raw := by
  rcases cut with ⟨_, _, least⟩ | ⟨_, greatest | ⟨_, least⟩⟩
  · exact least.1.1.1
  · exact greatest.1.1
  · exact least.1.1

theorem RawCut.admits {raw : ℕ} (cut : RawCut estimateTokens keepRecentTokens entries startIndex raw) :
    AdmitsCut entries startIndex raw := by
  rcases cut with ⟨_, _, least⟩ | ⟨_, greatest | ⟨_, least⟩⟩
  · exact least.1.1
  · exact .of_startsTurn greatest.1
  · exact least.1

/-- `findCutPoint` keeps the branch from where the specification says. -/
theorem findCutPoint_keptFrom (inside : startIndex ≤ entries.length) :
    KeptFrom estimateTokens keepRecentTokens entries startIndex
      (findCutPoint estimateTokens entries startIndex entries.length keepRecentTokens).firstKeptEntryIndex := by
  unfold findCutPoint
  cases points : findValidCutPoints entries startIndex entries.length with
  | nil =>
    refine Or.inl ⟨fun i admits => ?_, rfl⟩
    simpa [points] using (mem_cutPoints).mpr admits
  | cons first rest =>
    have raw := rawCut_search estimateTokens keepRecentTokens inside points
    exact Or.inr ⟨_, raw, includeNonMessages_movesBackTo raw.lower⟩

private theorem FallbackCut.unique {first second : ℕ} (one : FallbackCut entries startIndex first)
    (two : FallbackCut entries startIndex second) : first = second := by
  rcases one with greatest | ⟨none, least⟩ <;> rcases two with other | ⟨otherNone, otherLeast⟩
  · exact greatest.unique other
  · exact absurd greatest.1 (otherNone first)
  · exact absurd other.1 (none second)
  · exact least.unique otherLeast

private theorem RawCut.unique {first second : ℕ}
    (one : RawCut estimateTokens keepRecentTokens entries startIndex first)
    (two : RawCut estimateTokens keepRecentTokens entries startIndex second) : first = second := by
  rcases one with ⟨index, greatest, least⟩ | ⟨beyond, fallback⟩ <;>
    rcases two with ⟨other, otherGreatest, otherLeast⟩ | ⟨otherBeyond, otherFallback⟩
  · cases greatest.unique otherGreatest
    exact least.unique otherLeast
  · exact absurd (otherBeyond index greatest first least.1.1) (Nat.not_lt.mpr least.1.2)
  · exact absurd (beyond other otherGreatest second otherLeast.1.1) (Nat.not_lt.mpr otherLeast.1.2)
  · exact fallback.unique otherFallback

/-- The specification determines the start of the kept part. -/
theorem KeptFrom.unique {first second : ℕ}
    (one : KeptFrom estimateTokens keepRecentTokens entries startIndex first)
    (two : KeptFrom estimateTokens keepRecentTokens entries startIndex second) : first = second := by
  rcases one with ⟨none, rfl⟩ | ⟨raw, cut, moves⟩ <;> rcases two with ⟨otherNone, rfl⟩ | ⟨other, otherCut, otherMoves⟩
  · rfl
  · exact absurd otherCut.admits (none other)
  · exact absurd cut.admits (otherNone raw)
  · cases cut.unique otherCut
    exact IsLeast.unique moves otherMoves

theorem KeptFrom.lower {cut : ℕ} (kept : KeptFrom estimateTokens keepRecentTokens entries startIndex cut) :
    startIndex ≤ cut := by
  rcases kept with ⟨_, rfl⟩ | ⟨raw, _, moves⟩
  · exact le_rfl
  · exact moves.1.1

theorem findCutPoint_isSplitTurn {endIndex : ℕ} :
    (findCutPoint estimateTokens entries startIndex endIndex keepRecentTokens).isSplitTurn =
      (findCutPoint estimateTokens entries startIndex endIndex keepRecentTokens).turnStartIndex.isSome := by
  unfold findCutPoint
  cases findValidCutPoints entries startIndex endIndex with
  | nil => rfl
  | cons first rest =>
    dsimp only
    generalize includeNonMessages entries startIndex _ = cut
    cases testAt entries EntryBody.isUserMessage cut <;> rfl

/-- A split turn starts at the last turn start up to a cut that is no user message. -/
theorem findCutPoint_turnStartIndex {endIndex turnStart : ℕ}
    (points : findValidCutPoints entries startIndex endIndex ≠ []) :
    (findCutPoint estimateTokens entries startIndex endIndex keepRecentTokens).turnStartIndex = some turnStart ↔
      testAt entries EntryBody.isUserMessage
          (findCutPoint estimateTokens entries startIndex endIndex keepRecentTokens).firstKeptEntryIndex = false ∧
        IsGreatest {i | StartsTurn entries startIndex i ∧
          i ≤ (findCutPoint estimateTokens entries startIndex endIndex keepRecentTokens).firstKeptEntryIndex}
          turnStart := by
  rw [← findTurnStartIndex_eq_some]
  unfold findCutPoint
  cases found : findValidCutPoints entries startIndex endIndex with
  | nil => exact absurd found points
  | cons first rest =>
    dsimp only
    generalize includeNonMessages entries startIndex _ = cut
    cases testAt entries EntryBody.isUserMessage cut <;> simp

theorem findCutPoint_turnStartIndex_nil {endIndex : ℕ}
    (points : findValidCutPoints entries startIndex endIndex = []) :
    (findCutPoint estimateTokens entries startIndex endIndex keepRecentTokens).turnStartIndex = none := by
  simp [findCutPoint, points]

end PieAgent.Model
