import PieAgent.Model.Tui.TextWidth
import PieAgent.Proofs.Tui.TextWidth

/-! # Slices of columns and their width

A slice holds the clusters that lie in its columns, one behind the other, with escape codes between them. The width that
it reports is the sum of their widths. `visibleWidth` measures the slice as one text, so the two agree if and only if
these clusters are as wide together as one by one, with three columns for a tab.
-/

namespace PieAgent.Soundness.ColumnSlices

open JavaScript Framing Model.Tui.TextWidth

section Statement

variable (unicode : Unicode)

/-- The clusters of a line, each stretch between two escape codes on its own. -/
def clusters (line : JsString) : List JsString := (tokens unicode line).filterMap Token.cluster?

/-- Clusters with the columns at which they begin. -/
def placed : ℕ → List JsString → List (ℕ × JsString)
  | _, [] => []
  | col, cluster :: rest => (col, cluster) :: placed (col + graphemeWidth unicode cluster) rest

/-- The clusters that lie between two columns. -/
def between (startCol endCol col : ℕ) (clusters : List JsString) : List JsString :=
  ((placed unicode col clusters).filter fun (col, cluster) =>
    startCol ≤ col ∧ col < endCol ∧ col + graphemeWidth unicode cluster ≤ endCol).map Prod.snd

/-- Together the clusters take as many columns as one by one. -/
def SumUp (clusters : List JsString) : Prop :=
  columns unicode (expandTabs clusters.flatten) = (clusters.map (graphemeWidth unicode)).sum

end Statement

variable {unicode : Unicode} {line stretch : JsString} {startCol endCol col length : ℕ} {slice : Slice}
  {ts : List Token} {rest : List JsString} {cluster : JsString}

section Columns

private theorem between_of_le (beyond : endCol ≤ col) : between unicode startCol endCol col rest = [] := by
  induction rest generalizing col with
  | nil => rfl
  | cons cluster rest ih =>
    have tail := ih (Nat.le_add_right_of_le beyond : endCol ≤ col + graphemeWidth unicode cluster)
    rw [between, placed, List.filter_cons_of_neg]
    · exact tail
    · rw [decide_eq_true_iff]
      omega

private theorem between_cons_of_lies (started : startCol ≤ col) (open_ : col < endCol)
    (fits : col + graphemeWidth unicode cluster ≤ endCol) :
    between unicode startCol endCol col (cluster :: rest) =
      cluster :: between unicode startCol endCol (col + graphemeWidth unicode cluster) rest := by
  rw [between, placed, List.filter_cons_of_pos (by simp [started, open_, fits]), List.map_cons]
  rfl

private theorem between_cons_of_not
    (outside : ¬(startCol ≤ col ∧ col < endCol ∧ col + graphemeWidth unicode cluster ≤ endCol)) :
    between unicode startCol endCol col (cluster :: rest) =
      between unicode startCol endCol (col + graphemeWidth unicode cluster) rest := by
  rw [between, placed, List.filter_cons_of_neg (by simpa using outside)]
  rfl

private theorem sum_between : ((between unicode startCol endCol col rest).map (graphemeWidth unicode)).sum ≤
    endCol - max startCol col := by
  induction rest generalizing col with
  | nil => exact Nat.zero_le _
  | cons cluster rest ih =>
    have tail := @ih (col + graphemeWidth unicode cluster)
    by_cases lies : startCol ≤ col ∧ col < endCol ∧ col + graphemeWidth unicode cluster ≤ endCol
    · rw [between_cons_of_lies lies.1 lies.2.1 lies.2.2, List.map_cons, List.sum_cons]
      omega
    · rw [between_cons_of_not lies]
      omega

end Columns

section Runs

/-- The codes among the tokens, which may stand in front of any text. -/
private def Codes (marks : List JsString) : Prop := ∀ mark ∈ marks, extractAnsiCode? mark = some mark

private theorem codes_cons {code : JsString} (lexed : Lexed extractAnsiCode? ((.code code :: ts).flatMap Token.pieces)) :
    extractAnsiCode? code = some code ∧ Lexed extractAnsiCode? (ts.flatMap Token.pieces) := lexed

private theorem lexed_cons {token : Token} (lexed : Lexed extractAnsiCode? ((token :: ts).flatMap Token.pieces)) :
    Lexed extractAnsiCode? (ts.flatMap Token.pieces) := by
  rw [List.flatMap_cons] at lexed
  exact (selfDelimiting.lexed_of_append lexed).2

variable (unicode startCol endCol) in
private def kept (col : ℕ) (ts : List Token) : List JsString :=
  between unicode startCol endCol col (ts.filterMap Token.cluster?)

variable (unicode startCol endCol) in
/-- What a run over tokens adds to a slice: codes, and behind them a stretch of the tokens that holds what lies between
the columns. -/
private def Adds (slice final : Slice) (ts : List Token) : Prop :=
  ∃ marks before taken after, Codes marks ∧ ts = before ++ taken ++ after ∧
    final.result = slice.result ++ marks.flatten ++ taken.flatMap Token.text ∧
    taken.filterMap Token.cluster? = kept unicode startCol endCol slice.currentCol ts ∧
    final.resultWidth = slice.resultWidth +
      ((kept unicode startCol endCol slice.currentCol ts).map (graphemeWidth unicode)).sum

private theorem take_of_lies {segment : JsString} (started : startCol ≤ slice.currentCol)
    (open_ : slice.currentCol < endCol) (fits : slice.currentCol + graphemeWidth unicode segment ≤ endCol) :
    slice.take unicode startCol endCol true segment =
      ⟨slice.result ++ slice.pendingAnsi ++ segment, slice.resultWidth + graphemeWidth unicode segment,
        slice.currentCol + graphemeWidth unicode segment, []⟩ :=
  if_pos ⟨⟨started, open_⟩, .inr fits⟩

private theorem take_of_not {segment : JsString}
    (outside : ¬(startCol ≤ slice.currentCol ∧ slice.currentCol + graphemeWidth unicode segment ≤ endCol)) :
    slice.take unicode startCol endCol true segment =
      { slice with currentCol := slice.currentCol + graphemeWidth unicode segment } :=
  if_neg fun both => outside ⟨both.1.1, both.2.elim nofun id⟩

/-- Behind the first cluster everything up to the end is taken as it stands. -/
private theorem sliceTokens_started (started : startCol ≤ slice.currentCol) (open_ : slice.currentCol < endCol)
    (none_ : slice.pendingAnsi = []) : ∃ taken after, ts = taken ++ after ∧
      (sliceTokens unicode startCol endCol true ts slice).result = slice.result ++ taken.flatMap Token.text ∧
      taken.filterMap Token.cluster? = kept unicode startCol endCol slice.currentCol ts ∧
      (sliceTokens unicode startCol endCol true ts slice).resultWidth = slice.resultWidth +
        ((kept unicode startCol endCol slice.currentCol ts).map (graphemeWidth unicode)).sum := by
  induction ts generalizing slice with
  | nil => exact ⟨[], [], rfl, (List.append_nil _).symm, rfl, rfl⟩
  | cons token ts ih =>
    cases token with
    | code code =>
      have step : slice.code startCol endCol code = { slice with result := slice.result ++ code } :=
        if_pos ⟨started, open_⟩
      obtain ⟨taken, after, rfl, result, inside, width⟩ := @ih (slice.code startCol endCol code)
        (step ▸ started) (step ▸ open_) (step ▸ none_)
      rw [step] at result inside width
      refine ⟨.code code :: taken, after, rfl, ?_, inside, ?_⟩
      · rw [sliceTokens, step, result, List.append_assoc]
        rfl
      · rw [sliceTokens, step, width]
        rfl
    | cluster segment =>
      have clusters : (Token.cluster segment :: ts).filterMap Token.cluster? =
        segment :: ts.filterMap Token.cluster? := rfl
      by_cases fits : slice.currentCol + graphemeWidth unicode segment ≤ endCol
      · have step : slice.take unicode startCol endCol true segment =
            ⟨slice.result ++ segment, slice.resultWidth + graphemeWidth unicode segment,
              slice.currentCol + graphemeWidth unicode segment, []⟩ := by
          rw [take_of_lies started open_ fits, none_, List.append_nil]
        have here : kept unicode startCol endCol slice.currentCol (.cluster segment :: ts) =
            segment :: kept unicode startCol endCol (slice.currentCol + graphemeWidth unicode segment) ts := by
          rw [kept, clusters, between_cons_of_lies started open_ fits, kept]
        rw [here, sliceTokens, step]
        dsimp only
        by_cases full : endCol ≤ slice.currentCol + graphemeWidth unicode segment
        · have last : kept unicode startCol endCol (slice.currentCol + graphemeWidth unicode segment) ts = [] :=
            between_of_le full
          rw [if_pos full, last]
          exact ⟨[.cluster segment], ts, rfl, by simp [Token.text], rfl, by simp⟩
        · rw [if_neg full]
          obtain ⟨taken, after, rfl, result, inside, width⟩ := @ih
            ⟨slice.result ++ segment, slice.resultWidth + graphemeWidth unicode segment,
              slice.currentCol + graphemeWidth unicode segment, []⟩ (by dsimp only; omega) (by dsimp only; omega) rfl
          refine ⟨.cluster segment :: taken, after, rfl, ?_, congrArg _ inside, ?_⟩
          · rw [result, List.append_assoc]
            rfl
          · rw [width, List.map_cons, List.sum_cons, Nat.add_assoc]
      · have step : slice.take unicode startCol endCol true segment =
            { slice with currentCol := slice.currentCol + graphemeWidth unicode segment } :=
          take_of_not fun both => fits both.2
        have here : kept unicode startCol endCol slice.currentCol (.cluster segment :: ts) = [] := by
          rw [kept, clusters, between_cons_of_not fun lies => fits lies.2.2]
          exact between_of_le (by omega)
        rw [here, sliceTokens, step]
        dsimp only
        rw [if_pos (by omega)]
        exact ⟨[], _, rfl, (List.append_nil _).symm, rfl, rfl⟩

/-- Before the first cluster codes are put in front of it, those of the columns before it last. -/
private theorem sliceTokens_waiting {pending : List JsString} (codes : Codes pending)
    (lexed : Lexed extractAnsiCode? (ts.flatMap Token.pieces)) (started : startCol ≤ slice.currentCol)
    (open_ : slice.currentCol < endCol) (pendingAnsi : slice.pendingAnsi = pending.flatten) :
    Adds unicode startCol endCol slice (sliceTokens unicode startCol endCol true ts slice) ts := by
  induction ts generalizing slice with
  | nil => exact ⟨[], [], [], [], nofun, rfl, by simp [sliceTokens], rfl, rfl⟩
  | cons token ts ih =>
    cases token with
    | code code =>
      have step : slice.code startCol endCol code = { slice with result := slice.result ++ code } :=
        if_pos ⟨started, open_⟩
      obtain ⟨marks, before, taken, after, valid, rfl, result, inside, width⟩ :=
        @ih (slice.code startCol endCol code) (codes_cons lexed).2 (step ▸ started) (step ▸ open_) (step ▸ pendingAnsi)
      rw [step] at result inside width
      refine ⟨code :: marks, .code code :: before, taken, after, ?_, rfl, ?_, inside, ?_⟩
      · exact fun mark member => (List.mem_cons.mp member).elim (fun same => same ▸ (codes_cons lexed).1) (valid mark)
      · rw [sliceTokens, step, result, List.flatten_cons]
        simp only [List.append_assoc]
      · rw [sliceTokens, step, width]
        rfl
    | cluster segment =>
      by_cases fits : slice.currentCol + graphemeWidth unicode segment ≤ endCol
      · obtain ⟨taken, after, whole, result, inside, width⟩ := @sliceTokens_started unicode startCol endCol
          { slice with result := slice.result ++ slice.pendingAnsi, pendingAnsi := [] } (.cluster segment :: ts)
          started open_ rfl
        have same : sliceTokens unicode startCol endCol true (.cluster segment :: ts)
            { slice with result := slice.result ++ slice.pendingAnsi, pendingAnsi := [] } =
              sliceTokens unicode startCol endCol true (.cluster segment :: ts) slice := by
          have flushed : Slice.take unicode { slice with result := slice.result ++ slice.pendingAnsi, pendingAnsi := [] }
              startCol endCol true segment = slice.take unicode startCol endCol true segment := by
            rw [take_of_lies started open_ fits, Slice.take]
            dsimp only
            rw [if_pos ⟨⟨started, open_⟩, .inr fits⟩, List.append_nil]
          rw [sliceTokens, sliceTokens, flushed]
        rw [same] at result width
        refine ⟨pending, [], taken, after, codes, whole, ?_, inside, width⟩
        rw [result, pendingAnsi]
      · have step : slice.take unicode startCol endCol true segment =
            { slice with currentCol := slice.currentCol + graphemeWidth unicode segment } :=
          take_of_not fun both => fits both.2
        have here : kept unicode startCol endCol slice.currentCol (.cluster segment :: ts) = [] := by
          show between unicode startCol endCol slice.currentCol (segment :: ts.filterMap Token.cluster?) = []
          rw [between_cons_of_not fun lies => fits lies.2.2]
          exact between_of_le (by omega)
        rw [Adds, here, sliceTokens, step]
        dsimp only
        rw [if_pos (by omega)]
        exact ⟨[], [], [], _, nofun, rfl, by simp, rfl, rfl⟩

/-- The run from a column before the slice. -/
private theorem sliceTokens_before {pending : List JsString} (codes : Codes pending)
    (lexed : Lexed extractAnsiCode? (ts.flatMap Token.pieces)) (open_ : slice.currentCol < endCol)
    (pendingAnsi : slice.pendingAnsi = pending.flatten) :
    Adds unicode startCol endCol slice (sliceTokens unicode startCol endCol true ts slice) ts := by
  induction ts generalizing slice pending with
  | nil => exact ⟨[], [], [], [], nofun, rfl, by simp [sliceTokens], rfl, rfl⟩
  | cons token ts ih =>
    by_cases started : startCol ≤ slice.currentCol
    · exact sliceTokens_waiting codes lexed started open_ pendingAnsi
    cases token with
    | code code =>
      have step : slice.code startCol endCol code = { slice with pendingAnsi := slice.pendingAnsi ++ code } := by
        rw [Slice.code, if_neg fun both => started both.1, if_pos (not_le.mp started)]
      have more : Codes (pending ++ [code]) := fun mark member => (List.mem_append.mp member).elim (codes mark)
        fun last => List.mem_singleton.mp last ▸ (codes_cons lexed).1
      obtain ⟨marks, before, taken, after, valid, rfl, result, inside, width⟩ :=
        @ih (slice.code startCol endCol code) _ more (codes_cons lexed).2 (step ▸ open_)
          (by rw [step, List.flatten_append, pendingAnsi]; simp)
      rw [step] at result inside width
      refine ⟨marks, .code code :: before, taken, after, valid, rfl, ?_, inside, ?_⟩
      · rw [sliceTokens, step, result]
      · rw [sliceTokens, step, width]
        rfl
    | cluster segment =>
      have step : slice.take unicode startCol endCol true segment =
          { slice with currentCol := slice.currentCol + graphemeWidth unicode segment } :=
        take_of_not fun both => started both.1
      have here : kept unicode startCol endCol slice.currentCol (.cluster segment :: ts) =
          kept unicode startCol endCol (slice.currentCol + graphemeWidth unicode segment) ts :=
        between_cons_of_not fun lies => started lies.1
      rw [Adds, here, sliceTokens, step]
      dsimp only
      by_cases full : endCol ≤ slice.currentCol + graphemeWidth unicode segment
      · have last : kept unicode startCol endCol (slice.currentCol + graphemeWidth unicode segment) ts = [] :=
          between_of_le full
        rw [if_pos full, last]
        exact ⟨[], [], [], _, nofun, rfl, by simp, rfl, rfl⟩
      · rw [if_neg full]
        obtain ⟨marks, before, taken, after, valid, rfl, result, inside, width⟩ :=
          @ih { slice with currentCol := slice.currentCol + graphemeWidth unicode segment } pending codes
            (lexed_cons lexed) (not_le.mp full) pendingAnsi
        exact ⟨marks, .cluster segment :: before, taken, after, valid, rfl, result, inside, width⟩

end Runs

/-- What a slice is, and what is measured of it. -/
private theorem sliceWithWidth_spec :
    (sliceWithWidth unicode line startCol length true).2 =
        ((between unicode startCol (startCol + length) 0 (clusters unicode line)).map (graphemeWidth unicode)).sum ∧
      stripAnsi (sliceWithWidth unicode line startCol length true).1 =
        (between unicode startCol (startCol + length) 0 (clusters unicode line)).flatten := by
  by_cases empty : length = 0
  · have nothing : between unicode startCol (startCol + length) 0 (clusters unicode line) = [] := by
      rw [between, List.filter_eq_nil_iff.mpr, List.map_nil]
      intro place _
      rw [decide_eq_true_iff]
      omega
    rw [sliceWithWidth, if_pos empty, nothing]
    exact ⟨rfl, rfl⟩
  · have open_ : ({} : Slice).currentCol < startCol + length := by
      show 0 < startCol + length
      omega
    obtain ⟨marks, before, taken, after, valid, whole, result, inside, width⟩ :=
      @sliceTokens_before unicode startCol (startCol + length) {} (tokens unicode line) [] nofun lexed_tokens open_ rfl
    rw [sliceWithWidth, if_neg empty]
    refine ⟨width.trans (Nat.zero_add _), ?_⟩
    have lexed := @lexed_tokens unicode line
    rw [whole, List.flatMap_append, List.flatMap_append] at lexed
    have again := selfDelimiting.pieces_render
      (SelfDelimiting.lexed_marks_append valid (selfDelimiting.lexed_of_append (selfDelimiting.lexed_of_append lexed).1).2)
    have text : render (marks.map .mark ++ taken.flatMap Token.pieces) = marks.flatten ++ taken.flatMap Token.text := by
      rw [render_append, render_flatMap, render, List.flatMap_map]
      exact congrArg (· ++ _) List.flatMap_id
    dsimp only
    rw [result, stripAnsi, ansiPieces]
    show chars (pieces extractAnsiCode? ([] ++ marks.flatten ++ taken.flatMap Token.text)) = _
    rw [List.nil_append, ← text, again, chars_append, chars_map_mark, chars_flatMap, inside]
    rfl

end PieAgent.Soundness.ColumnSlices
