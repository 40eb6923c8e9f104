import PieAgent.Proofs.Tui.TextWidth

/-! # Texts that are truncated to a width

The loops of the truncation count cluster by cluster, and the result is measured as one text. As long as the clusters
that are kept, those of the ellipsis and the padding are as wide together as one by one, and no escape sequence is left
open, a truncated text has the requested width. An ellipsis that is as wide as the limit is itself cut, and nothing of
the text is kept before it.
-/

namespace PieAgent.Soundness.TruncatedTexts

open JavaScript Framing Model.Tui.TextWidth

section Statement

variable (unicode : Unicode)

/-- The clusters of a text, where each tab is one and each stretch between escape codes and tabs is segmented on its
own. -/
def cells (text : JsString) : List JsString := (tabTokens unicode text).filterMap Token.cluster?

/-- No escape sequence is left open at the end of a text. -/
def Closed (text : JsString) : Prop := ∀ more, ansiPieces (text ++ more) = ansiPieces text ++ ansiPieces more

/-- Wherever the text and the ellipsis are cut, and however many spaces follow, clusters keep their widths. -/
structure KeepsWidths (text ellipsis : JsString) : Prop where
  closed : Closed text
  closedEllipsis : Closed ellipsis
  sumUp : ∀ kept shown n, kept <+: cells unicode text → shown <+: cells unicode ellipsis →
    columns unicode (expandTabs (kept.flatten ++ shown.flatten ++ spaces n)) =
      (kept.map (cellWidth unicode)).sum + (shown.map (cellWidth unicode)).sum + n

/-- What a truncated text is. -/
structure Truncates (text : JsString) (maxWidth : ℕ) (ellipsis : JsString) (pad : Bool) (result : JsString) : Prop where
  bounded : visibleWidth unicode result ≤ maxWidth
  padded : pad = true → visibleWidth unicode result = maxWidth
  whole : 0 < maxWidth → visibleWidth unicode text ≤ maxWidth →
    result = text ++ if pad then spaces (maxWidth - visibleWidth unicode text) else []
  cut : maxWidth < visibleWidth unicode text → ∃ kept shown n, kept <+: cells unicode text ∧
    shown <+: cells unicode ellipsis ∧ stripAnsi result = kept.flatten ++ shown.flatten ++ spaces n ∧
    (visibleWidth unicode ellipsis < maxWidth → shown = cells unicode ellipsis) ∧
    (maxWidth ≤ visibleWidth unicode ellipsis → kept = []) ∧ (pad = false → n = 0)

end Statement

variable {unicode : Unicode} {text ellipsis stretch result : JsString} {maxWidth targetWidth n : ℕ} {pad : Bool}
  {ts : List Token} {front back tail : List (Piece CodeUnit)}

section Tokens

private theorem flatMap_tabTokensFrom (pieces : List (Piece CodeUnit)) :
    (tabTokensFrom unicode stretch pieces).flatMap Token.pieces = stretch.map .char ++ pieces := by
  induction pieces generalizing stretch with
  | nil => rw [tabTokensFrom, flatMap_segments, List.append_nil]
  | cons piece pieces ih =>
    cases piece with
    | char unit =>
      rw [tabTokensFrom]
      split
      next is_tab =>
        rw [List.flatMap_append, flatMap_segments, List.flatMap_cons, ih, is_tab]
        rfl
      next other =>
        rw [ih, List.map_append, List.append_assoc]
        rfl
    | mark code =>
      rw [tabTokensFrom, List.flatMap_append, flatMap_segments, List.flatMap_cons, ih]
      rfl

private theorem flatMap_tabTokens : (tabTokens unicode text).flatMap Token.pieces = ansiPieces text := by
  rw [tabTokens]
  split
  · rw [flatMap_tabTokensFrom]
    rfl
  next plain =>
    rw [Bool.or_eq_true, not_or, List.contains_iff_mem, List.contains_iff_mem] at plain
    rw [flatMap_segments, ansiPieces_of_not_mem plain.1]

private theorem flatten_cells : (cells unicode text).flatten = stripAnsi text := by
  rw [cells, ← chars_flatMap, flatMap_tabTokens, stripAnsi]

private theorem cells_of_taken {taken after : List Token} (whole : tabTokens unicode text = taken ++ after) :
    taken.filterMap Token.cluster? <+: cells unicode text := by
  rw [cells, whole, List.filterMap_append]
  exact List.prefix_append _ _

end Tokens

section Closed

private theorem controlEnd?_ne_none {rest : JsString} {unit : CodeUnit} (member : unit ∈ rest) (final : isFinal unit) :
    controlEnd? rest ≠ none := by
  induction rest with
  | nil => cases member
  | cons first rest ih =>
    rw [controlEnd?]
    split
    · exact Option.some_ne_none _
    next other =>
      rcases List.mem_cons.mp member with rfl | member
      · exact absurd final other
      · exact fun none_ => ih member (Option.map_eq_none_iff.mp none_)

private theorem commandEnd?_ne_none {rest : JsString} (member : 0x07 ∈ rest) : commandEnd? rest ≠ none := by
  induction rest with
  | nil => cases member
  | cons first rest ih =>
    rw [commandEnd?]
    split_ifs with bell string
    · exact Option.some_ne_none _
    · exact Option.some_ne_none _
    · rcases List.mem_cons.mp member with rfl | member
      · exact absurd rfl bell
      · exact fun none_ => ih member (Option.map_eq_none_iff.mp none_)

private theorem extractAnsiCode?_reset : extractAnsiCode? reset = some reset := by decide

/-- An escape that opens no sequence is a character whatever follows it. -/
private theorem extractAnsiCode?_of_open {unit next_ : CodeUnit} {rest other : JsString}
    (open_ : ∀ more, extractAnsiCode? (unit :: next_ :: rest ++ more) = none) :
    extractAnsiCode? (unit :: next_ :: other) = none := by
  have control := open_ (js "m")
  have command := open_ [0x07]
  rw [List.cons_append, List.cons_append, extractAnsiCode?] at control command
  rw [extractAnsiCode?]
  split_ifs at control command ⊢ with other_ bracket string
  · rfl
  · exact absurd (Option.map_eq_none_iff.mp control)
      (controlEnd?_ne_none (List.mem_append_right _ (by decide : (0x6D : CodeUnit) ∈ js "m")) (by decide))
  · exact absurd (Option.map_eq_none_iff.mp command)
      (commandEnd?_ne_none (List.mem_append_right _ (List.mem_singleton_self _)))
  · rfl

private theorem text_ne_nil {piece : Piece CodeUnit} {rest : List (Piece CodeUnit)}
    (lexed : Lexed extractAnsiCode? (piece :: rest)) : piece.text ≠ [] := by
  cases piece with
  | mark mark => exact selfDelimiting.nonempty lexed.1
  | char unit => exact List.cons_ne_nil _ _

/-- The front of a text that is closed may be followed by a reset. -/
private theorem lexed_append_reset (closed : ∀ more, Lexed extractAnsiCode? (front ++ (back ++ ansiPieces more)))
    (lexed : Lexed extractAnsiCode? tail) : Lexed extractAnsiCode? (front ++ .mark reset :: tail) := by
  induction front with
  | nil => exact ⟨extractAnsiCode?_reset, lexed⟩
  | cons piece front ih =>
    have inner := ih fun more => by
      cases piece with
      | mark mark => exact (closed more).2
      | char unit => exact (closed more).2
    cases piece with
    | mark mark => exact ⟨(closed []).1, inner⟩
    | char unit =>
      refine ⟨?_, inner⟩
      by_cases is_esc : unit = esc
      · cases front with
        | nil =>
          rw [is_esc]
          rfl
        | cons second front =>
          show extractAnsiCode? (unit :: render (second :: front ++ .mark reset :: tail)) = none
          obtain ⟨next_, others, same⟩ := List.exists_cons_of_ne_nil (text_ne_nil inner)
          have here : render (second :: front ++ .mark reset :: tail) =
              next_ :: (others ++ render (front ++ .mark reset :: tail)) := by
            rw [List.cons_append, render_cons, same]
            rfl
          rw [here]
          refine @extractAnsiCode?_of_open unit next_ (others ++ render (front ++ back)) _ fun more => ?_
          have none_ : extractAnsiCode? (unit :: render (second :: front ++ (back ++ ansiPieces more))) = none :=
            (closed more).1
          have whole : render (second :: front ++ (back ++ ansiPieces more)) =
              next_ :: (others ++ render (front ++ back)) ++ more := by
            rw [List.cons_append, render_cons, same, ← List.append_assoc, render_append, ansiPieces,
              selfDelimiting.render_pieces]
            simp only [List.cons_append, List.append_assoc]
          rwa [whole] at none_
      · exact extractAnsiCode?_of_ne is_esc

private theorem lexed_front (closed : Closed text) (split : ansiPieces text = front ++ back) (more : JsString) :
    Lexed extractAnsiCode? (front ++ (back ++ ansiPieces more)) := by
  rw [← List.append_assoc, ← split, ← closed more]
  exact selfDelimiting.lexed_pieces _

private theorem lexed_spaces : Lexed extractAnsiCode? ((spaces n).map .char) := by
  have plain : esc ∉ spaces n := fun member => absurd (List.eq_of_mem_replicate member) (by decide)
  rw [← ansiPieces_of_not_mem plain]
  exact selfDelimiting.lexed_pieces _

end Closed

section Runs

private theorem fragmentFrom_spec {pendingAnsi : JsString} {width : ℕ} (fits : width ≤ maxWidth) :
    ∃ taken after, ts = taken ++ after ∧
      (fragmentFrom unicode maxWidth ts pendingAnsi (result, width)).1 =
        (if taken = [] then result else result ++ pendingAnsi ++ taken.flatMap Token.text) ∧
      (fragmentFrom unicode maxWidth ts pendingAnsi (result, width)).2 =
        width + ((taken.filterMap Token.cluster?).map (cellWidth unicode)).sum ∧
      (fragmentFrom unicode maxWidth ts pendingAnsi (result, width)).2 ≤ maxWidth := by
  induction ts generalizing pendingAnsi result width with
  | nil => exact ⟨[], [], rfl, rfl, rfl, fits⟩
  | cons token ts ih =>
    cases token with
    | code code =>
      obtain ⟨taken, after, rfl, text, sum, bound⟩ := @ih result (pendingAnsi ++ code) width fits
      rw [fragmentFrom]
      rcases eq_or_ne taken [] with rfl | nonempty
      · exact ⟨[], _, rfl, text, sum, bound⟩
      · rw [if_neg nonempty] at text
        refine ⟨.code code :: taken, after, rfl, ?_, sum, bound⟩
        rw [if_neg (List.cons_ne_nil _ _), text, List.flatMap_cons]
        simp only [List.append_assoc, Token.text]
    | cluster segment =>
      rw [fragmentFrom]
      split
      · exact ⟨[], _, rfl, rfl, rfl, fits⟩
      next within =>
        obtain ⟨taken, after, rfl, text, sum, bound⟩ := @ih (result ++ pendingAnsi ++ segment) []
          (width + cellWidth unicode segment) (not_lt.mp within)
        refine ⟨.cluster segment :: taken, after, rfl, ?_, ?_, bound⟩
        · rw [if_neg (List.cons_ne_nil _ _), text, List.flatMap_cons]
          split
          next empty => rw [empty, List.flatMap_nil, List.append_nil]; rfl
          · simp only [List.append_assoc, List.append_nil, Token.text]
        · rw [sum, Nat.add_assoc]
          rfl

private theorem truncateTokens_stopped {state : Truncation} (stopped : state.keepContiguousPrefix = false) :
    (truncateTokens unicode targetWidth maxWidth ts state).result = state.result ∧
      (truncateTokens unicode targetWidth maxWidth ts state).keptWidth = state.keptWidth := by
  induction ts generalizing state with
  | nil => exact ⟨rfl, rfl⟩
  | cons token ts ih =>
    cases token with
    | code code => exact @ih { state with pendingAnsi := state.pendingAnsi ++ code } stopped
    | cluster segment =>
      have step : state.take unicode targetWidth maxWidth segment =
          { state with
            keepContiguousPrefix := false, pendingAnsi := [],
            visibleSoFar := state.visibleSoFar + cellWidth unicode segment,
            overflowed := maxWidth < state.visibleSoFar + cellWidth unicode segment } := by
        rw [Truncation.take]
        rw [if_neg fun both => Bool.false_ne_true (stopped.symm.trans both.1)]
      rw [truncateTokens, step]
      split
      · exact ⟨rfl, rfl⟩
      · exact ih rfl

/-- What is kept is a front of the tokens that is not wider than the target. -/
private theorem truncateTokens_kept {state : Truncation} (keeps : state.keepContiguousPrefix = true)
    (fits : state.keptWidth ≤ targetWidth) : ∃ taken after, ts = taken ++ after ∧
      (truncateTokens unicode targetWidth maxWidth ts state).result =
        (if taken = [] then state.result else state.result ++ state.pendingAnsi ++ taken.flatMap Token.text) ∧
      (truncateTokens unicode targetWidth maxWidth ts state).keptWidth =
        state.keptWidth + ((taken.filterMap Token.cluster?).map (cellWidth unicode)).sum ∧
      (truncateTokens unicode targetWidth maxWidth ts state).keptWidth ≤ targetWidth := by
  induction ts generalizing state with
  | nil => exact ⟨[], [], rfl, rfl, rfl, fits⟩
  | cons token ts ih =>
    cases token with
    | code code =>
      obtain ⟨taken, after, rfl, text, sum, bound⟩ :=
        @ih { state with pendingAnsi := state.pendingAnsi ++ code } keeps fits
      rw [truncateTokens]
      rcases eq_or_ne taken [] with rfl | nonempty
      · exact ⟨[], _, rfl, text, sum, bound⟩
      · rw [if_neg nonempty] at text
        refine ⟨.code code :: taken, after, rfl, ?_, sum, bound⟩
        rw [if_neg (List.cons_ne_nil _ _), text, List.flatMap_cons]
        simp only [List.append_assoc, Token.text]
    | cluster segment =>
      rw [truncateTokens]
      by_cases within : state.keptWidth + cellWidth unicode segment ≤ targetWidth
      · have step : state.take unicode targetWidth maxWidth segment =
            { state with
              result := state.result ++ state.pendingAnsi ++ segment, pendingAnsi := [],
              keptWidth := state.keptWidth + cellWidth unicode segment,
              visibleSoFar := state.visibleSoFar + cellWidth unicode segment,
              overflowed := maxWidth < state.visibleSoFar + cellWidth unicode segment } := by
          rw [Truncation.take]
          rw [if_pos ⟨keeps, within⟩]
        rw [step]
        dsimp only
        split
        · refine ⟨[.cluster segment], ts, rfl, ?_, rfl, within⟩
          rw [if_neg (List.cons_ne_nil _ _)]
          exact congrArg _ (List.append_nil segment).symm
        · obtain ⟨taken, after, rfl, text, sum, bound⟩ := @ih
            { state with
              result := state.result ++ state.pendingAnsi ++ segment, pendingAnsi := [],
              keptWidth := state.keptWidth + cellWidth unicode segment,
              visibleSoFar := state.visibleSoFar + cellWidth unicode segment,
              overflowed := maxWidth < state.visibleSoFar + cellWidth unicode segment } keeps within
          refine ⟨.cluster segment :: taken, after, rfl, ?_, ?_, bound⟩
          · rw [if_neg (List.cons_ne_nil _ _), text, List.flatMap_cons]
            split
            next empty => rw [empty, List.flatMap_nil, List.append_nil]; rfl
            · simp only [List.append_assoc, List.nil_append, Token.text]
          · rw [sum, Nat.add_assoc]
            rfl
      · have stopped : (state.take unicode targetWidth maxWidth segment).keepContiguousPrefix = false ∧
            (state.take unicode targetWidth maxWidth segment).result = state.result ∧
            (state.take unicode targetWidth maxWidth segment).keptWidth = state.keptWidth := by
          rw [Truncation.take]
          dsimp only
          rw [if_neg fun both => within both.2]
          exact ⟨rfl, rfl, rfl⟩
        have later := @truncateTokens_stopped unicode maxWidth targetWidth ts _ stopped.1
        rw [stopped.2.1, stopped.2.2] at later
        split
        · exact ⟨[], _, rfl, stopped.2.1, stopped.2.2, stopped.2.2.trans_le fits⟩
        · exact ⟨[], _, rfl, later.1, later.2, later.2.trans_le fits⟩

private theorem visibleSoFar_take {state : Truncation} {segment : JsString} :
    (state.take unicode targetWidth maxWidth segment).visibleSoFar =
        state.visibleSoFar + cellWidth unicode segment ∧
      (state.take unicode targetWidth maxWidth segment).overflowed =
        decide (maxWidth < state.visibleSoFar + cellWidth unicode segment) := by
  rw [Truncation.take]
  exact ⟨rfl, rfl⟩

/-- The run stops early exactly when all the clusters are wider than the limit. -/
private theorem truncateTokens_seen {state : Truncation} (fits : state.visibleSoFar ≤ maxWidth)
    (open_ : state.overflowed = false) :
    ((truncateTokens unicode targetWidth maxWidth ts state).overflowed = true ↔
        maxWidth < state.visibleSoFar + ((ts.filterMap Token.cluster?).map (cellWidth unicode)).sum) ∧
      ((truncateTokens unicode targetWidth maxWidth ts state).overflowed = false →
        (truncateTokens unicode targetWidth maxWidth ts state).visibleSoFar =
          state.visibleSoFar + ((ts.filterMap Token.cluster?).map (cellWidth unicode)).sum) := by
  induction ts generalizing state with
  | nil =>
    rw [truncateTokens, open_]
    exact ⟨⟨nofun, fun beyond => absurd fits (not_le.mpr beyond)⟩, fun _ => rfl⟩
  | cons token ts ih =>
    cases token with
    | code code => exact @ih { state with pendingAnsi := state.pendingAnsi ++ code } fits open_
    | cluster segment =>
      obtain ⟨seen, overflowed⟩ := @visibleSoFar_take unicode maxWidth targetWidth state segment
      have sum : ((Token.cluster segment :: ts).filterMap Token.cluster?).map (cellWidth unicode) =
          cellWidth unicode segment :: (ts.filterMap Token.cluster?).map (cellWidth unicode) := rfl
      rw [sum, List.sum_cons, truncateTokens]
      by_cases beyond : maxWidth < state.visibleSoFar + cellWidth unicode segment
      · rw [if_pos (by rw [overflowed, decide_eq_true beyond]), overflowed, decide_eq_true beyond]
        exact ⟨⟨fun _ => by omega, fun _ => rfl⟩, nofun⟩
      · have goes_on : (state.take unicode targetWidth maxWidth segment).overflowed = false := by
          rw [overflowed, decide_eq_false beyond]
        rw [if_neg (by rw [goes_on]; exact Bool.false_ne_true), ← Nat.add_assoc, ← seen]
        exact ih (by omega) goes_on

end Runs

section Results

/-- The pieces of a front of the tokens are a front of the pieces. -/
private theorem ansiPieces_split {taken after : List Token} (whole : tabTokens unicode text = taken ++ after) :
    ansiPieces text = taken.flatMap Token.pieces ++ after.flatMap Token.pieces := by
  rw [← @flatMap_tabTokens unicode, whole, List.flatMap_append]

/-- What is visible of a result with an ellipsis. -/
private theorem stripAnsi_finalized {taken after shown rest : List Token} {prefixWidth ellipsisWidth : ℕ}
    (keeps : KeepsWidths unicode text ellipsis) (whole : tabTokens unicode text = taken ++ after)
    (wholeEllipsis : tabTokens unicode ellipsis = shown ++ rest) :
    stripAnsi (finalizeTruncatedResult (taken.flatMap Token.text) prefixWidth (shown.flatMap Token.text) ellipsisWidth
        maxWidth pad) =
      (taken.filterMap Token.cluster?).flatten ++ (shown.filterMap Token.cluster?).flatten ++
        spaces (if pad then maxWidth - (prefixWidth + ellipsisWidth) else 0) := by
  have padding : (if pad then spaces (maxWidth - (prefixWidth + ellipsisWidth)) else []) =
      spaces (if pad then maxWidth - (prefixWidth + ellipsisWidth) else 0) := by
    cases pad <;> rfl
  have result : finalizeTruncatedResult (taken.flatMap Token.text) prefixWidth (shown.flatMap Token.text) ellipsisWidth
        maxWidth pad =
      (if 0 < (shown.flatMap Token.text).length then
          taken.flatMap Token.text ++ reset ++ shown.flatMap Token.text ++ reset
        else taken.flatMap Token.text ++ reset) ++
        spaces (if pad then maxWidth - (prefixWidth + ellipsisWidth) else 0) := by
    rw [finalizeTruncatedResult, ← padding]
    cases pad
    · exact (List.append_nil _).symm
    · rfl
  generalize (if pad then maxWidth - (prefixWidth + ellipsisWidth) else 0) = n at result ⊢
  have first {tail : List (Piece CodeUnit)} := fun lexed : Lexed extractAnsiCode? tail =>
    lexed_append_reset (lexed_front keeps.closed (ansiPieces_split whole)) lexed
  have second := lexed_append_reset (lexed_front keeps.closedEllipsis (ansiPieces_split wholeEllipsis))
    (@lexed_spaces n)
  rw [result, stripAnsi, ansiPieces]
  by_cases none_ : 0 < (shown.flatMap Token.text).length
  · have text : taken.flatMap Token.text ++ reset ++ shown.flatMap Token.text ++ reset ++ spaces n =
        render (taken.flatMap Token.pieces ++
          Piece.mark reset :: (shown.flatMap Token.pieces ++ Piece.mark reset :: (spaces n).map .char)) := by
      rw [render_append, render_cons, render_append, render_cons, render_flatMap, render_flatMap, render_map_char]
      simp only [Piece.text_mark, List.append_assoc]
    rw [if_pos none_, text, selfDelimiting.pieces_render (first second), chars_append, chars_mark, chars_append,
      chars_mark, chars_map_char, chars_flatMap, chars_flatMap, List.append_assoc]
  · have empty : shown.flatMap Token.text = [] := List.length_eq_zero_iff.mp (by omega)
    have text : taken.flatMap Token.text ++ reset ++ spaces n =
        render (taken.flatMap Token.pieces ++ Piece.mark reset :: (spaces n).map .char) := by
      rw [render_append, render_cons, render_flatMap, render_map_char]
      simp only [Piece.text_mark, List.append_assoc]
    have nothing : (shown.filterMap Token.cluster?).flatten = [] := by
      have lexed := (selfDelimiting.lexed_of_append second).1
      have again := selfDelimiting.pieces_render lexed
      rw [render_flatMap, empty, pieces_nil] at again
      rw [← chars_flatMap, ← again, chars_nil]
    rw [if_neg none_, text, selfDelimiting.pieces_render (first lexed_spaces), chars_append, chars_mark,
      chars_map_char, chars_flatMap, nothing, List.append_nil]

private theorem visibleWidth_of_strip {kept shown : List JsString} (keeps : KeepsWidths unicode text ellipsis)
    (front : kept <+: cells unicode text) (frontEllipsis : shown <+: cells unicode ellipsis)
    (same : stripAnsi result = kept.flatten ++ shown.flatten ++ spaces n) :
    visibleWidth unicode result = (kept.map (cellWidth unicode)).sum + (shown.map (cellWidth unicode)).sum + n := by
  rw [visibleWidth_eq, same, keeps.sumUp kept shown n front frontEllipsis]

private theorem visibleWidth_text (keeps : KeepsWidths unicode text ellipsis) :
    visibleWidth unicode text = ((cells unicode text).map (cellWidth unicode)).sum := by
  have measured := visibleWidth_of_strip keeps List.prefix_rfl List.nil_prefix
    (by simp [flatten_cells, spaces] : stripAnsi text = (cells unicode text).flatten ++ [].flatten ++ spaces 0)
  rw [measured, List.map_nil, List.sum_nil, Nat.add_zero, Nat.add_zero]

private theorem visibleWidth_ellipsis (keeps : KeepsWidths unicode text ellipsis) :
    visibleWidth unicode ellipsis = ((cells unicode ellipsis).map (cellWidth unicode)).sum := by
  have measured := visibleWidth_of_strip keeps List.nil_prefix List.prefix_rfl
    (by simp [flatten_cells, spaces] : stripAnsi ellipsis = [].flatten ++ (cells unicode ellipsis).flatten ++ spaces 0)
  rw [measured, List.map_nil, List.sum_nil, Nat.zero_add, Nat.add_zero]

private theorem stripAnsi_spaces : stripAnsi (spaces n) = spaces n :=
  stripAnsi_of_not_mem fun member => absurd (List.eq_of_mem_replicate member) (by decide)

private theorem visibleWidth_padded (keeps : KeepsWidths unicode text ellipsis) (n : ℕ) :
    visibleWidth unicode (text ++ spaces n) = visibleWidth unicode text + n := by
  rw [visibleWidth_text keeps]
  refine visibleWidth_of_strip keeps List.prefix_rfl List.nil_prefix ?_
  rw [stripAnsi, keeps.closed, chars_append, ← stripAnsi, ← stripAnsi, stripAnsi_spaces, flatten_cells]
  simp

/-- A text that fits is left as it is. -/
private theorem truncates_of_fits (keeps : KeepsWidths unicode text ellipsis)
    (fits : visibleWidth unicode text ≤ maxWidth) :
    Truncates unicode text maxWidth ellipsis pad
      (if pad then text ++ spaces (maxWidth - visibleWidth unicode text) else text) := by
  refine ⟨?_, ?_, fun _ _ => ?_, fun beyond => absurd fits (not_le.mpr beyond)⟩
  · cases pad
    · exact fits
    · exact (visibleWidth_padded keeps _).trans_le (by omega)
  · rintro rfl
    exact (visibleWidth_padded keeps _).trans (by omega)
  · cases pad
    · exact (List.append_nil text).symm
    · rfl

/-- A front of the text and a front of the ellipsis that fit together. -/
private theorem truncates_of_cut {kept shown : List JsString} (keeps : KeepsWidths unicode text ellipsis)
    (beyond : maxWidth < visibleWidth unicode text) (front : kept <+: cells unicode text)
    (frontEllipsis : shown <+: cells unicode ellipsis)
    (fits : (kept.map (cellWidth unicode)).sum + (shown.map (cellWidth unicode)).sum ≤ maxWidth)
    (whole : visibleWidth unicode ellipsis < maxWidth → shown = cells unicode ellipsis)
    (none_ : maxWidth ≤ visibleWidth unicode ellipsis → kept = [])
    (same : stripAnsi result = kept.flatten ++ shown.flatten ++ spaces (if pad then
      maxWidth - ((kept.map (cellWidth unicode)).sum + (shown.map (cellWidth unicode)).sum) else 0)) :
    Truncates unicode text maxWidth ellipsis pad result := by
  have measured := visibleWidth_of_strip keeps front frontEllipsis same
  refine ⟨?_, ?_, fun _ within => absurd beyond (not_lt.mpr within), fun _ => ?_⟩
  · rw [measured]
    cases pad
    · exact fits
    · simp only [if_true]
      omega
  · rintro rfl
    rw [measured, if_pos rfl]
    omega
  · exact ⟨kept, shown, _, front, frontEllipsis, same, whole, none_, fun unpadded => by rw [unpadded]; rfl⟩

end Results

section Ascii

private theorem tabTokens_ascii (ascii : isPrintableAscii text) :
    tabTokens unicode text = text.map fun unit => .cluster [unit] := by
  have escape : text.contains esc = false := by simpa using not_mem_of_ascii ascii (by decide)
  have tabs : text.contains tab = false := by simpa using not_mem_of_ascii ascii (by decide)
  rw [tabTokens, escape, tabs, unicode.segment_ascii text ascii]
  exact List.map_map

private theorem sum_ascii (ascii : isPrintableAscii text) :
    (((text.map fun unit => Token.cluster [unit]).filterMap Token.cluster?).map (cellWidth unicode)).sum =
      text.length := by
  induction text with
  | nil => rfl
  | cons unit rest ih =>
    obtain ⟨bounds, ascii⟩ := (Bool.and_eq_true _ _).mp (List.all_cons.symm.trans ascii)
    rw [Bool.and_eq_true, decide_eq_true_iff, decide_eq_true_iff] at bounds
    have single : cellWidth unicode [unit] = 1 := by
      rw [cellWidth, if_neg, graphemeWidth_printable bounds.1 bounds.2]
      intro same
      rw [List.cons.inj same |>.1] at bounds
      exact absurd bounds.1 (by decide)
    rw [List.map_cons]
    show (cellWidth unicode [unit] :: _).sum = _
    rw [List.sum_cons, ih ascii, single, List.length_cons, Nat.add_comm]

private theorem flatMap_ascii : (text.map fun unit => Token.cluster [unit]).flatMap Token.text = text := by
  rw [List.flatMap_map]
  exact List.flatMap_singleton' text

private theorem ascii_take (ascii : isPrintableAscii text) (n : ℕ) : isPrintableAscii (text.take n) :=
  List.all_eq_true.mpr fun unit member => List.all_eq_true.mp ascii unit (List.mem_of_mem_take member)

private theorem closed_of_not_mem (plain : esc ∉ text) : Closed text := by
  intro more
  induction text with
  | nil => rfl
  | cons unit rest ih =>
    rw [List.mem_cons, not_or] at plain
    have none_ (rest : JsString) : extractAnsiCode? (unit :: rest) = none := extractAnsiCode?_of_ne (Ne.symm plain.1)
    rw [List.cons_append, ansiPieces, ansiPieces, pieces_of_none (none_ _), pieces_of_none (none_ _), ← ansiPieces,
      ← ansiPieces, ih plain.2, List.cons_append]

private theorem front_of_ascii {kept : List JsString} (ascii : isPrintableAscii text)
    (front : kept <+: cells unicode text) : isPrintableAscii kept.flatten ∧
      kept.flatten.length = (kept.map (cellWidth unicode)).sum := by
  have singles (text : JsString) :
      (text.map fun unit => Token.cluster [unit]).filterMap Token.cluster? = text.map ([·]) := by
    rw [List.filterMap_map]
    exact congrFun List.filterMap_eq_map text
  have taken : kept = ((text.take kept.length).map fun unit => Token.cluster [unit]).filterMap Token.cluster? := by
    rw [cells, tabTokens_ascii ascii, singles] at front
    rw [singles, List.map_take]
    exact List.prefix_iff_eq_take.mp front
  have flat : kept.flatten = text.take kept.length := by
    rw [taken, ← chars_flatMap, ← taken]
    generalize text.take kept.length = some_
    induction some_ with
    | nil => rfl
    | cons unit rest ih => exact congrArg (unit :: ·) ih
  rw [flat]
  refine ⟨ascii_take ascii _, ?_⟩
  rw [← sum_ascii (ascii_take ascii kept.length), ← taken]

/-- Printable ASCII keeps its widths wherever it is cut. -/
theorem keepsWidths_ascii (ascii : isPrintableAscii text) (asciiEllipsis : isPrintableAscii ellipsis) :
    KeepsWidths unicode text ellipsis where
  closed := closed_of_not_mem (not_mem_of_ascii ascii (by decide))
  closedEllipsis := closed_of_not_mem (not_mem_of_ascii asciiEllipsis (by decide))
  sumUp kept shown n front frontEllipsis := by
    obtain ⟨printable, length⟩ := front_of_ascii ascii front
    obtain ⟨printableEllipsis, lengthEllipsis⟩ := front_of_ascii asciiEllipsis frontEllipsis
    have padding : isPrintableAscii (spaces n) := List.all_eq_true.mpr fun unit member => by
      rw [List.eq_of_mem_replicate member]
      rfl
    have all : isPrintableAscii (kept.flatten ++ shown.flatten ++ spaces n) := by
      rw [isPrintableAscii, List.all_append, List.all_append, Bool.and_eq_true, Bool.and_eq_true]
      exact ⟨⟨printable, printableEllipsis⟩, padding⟩
    rw [expandTabs_of_not_mem (not_mem_of_ascii all (by decide)), columns_ascii all, List.length_append,
      List.length_append, length, lengthEllipsis, spaces, List.length_replicate]

private theorem tokens_take (ascii : isPrintableAscii text) (n : ℕ) : tabTokens unicode text =
    ((text.take n).map fun unit => Token.cluster [unit]) ++ (text.drop n).map fun unit => Token.cluster [unit] := by
  rw [← List.map_append, List.take_append_drop, tabTokens_ascii ascii]

end Ascii

/-- What is left of an ellipsis that is cut. -/
private theorem truncateFragment_spec (unicode : Unicode) (text : JsString) (maxWidth : ℕ) : ∃ shown rest,
    tabTokens unicode text = shown ++ rest ∧
      (truncateFragmentToWidth unicode text maxWidth).1 = shown.flatMap Token.text ∧
      (truncateFragmentToWidth unicode text maxWidth).2 =
        ((shown.filterMap Token.cluster?).map (cellWidth unicode)).sum ∧
      (truncateFragmentToWidth unicode text maxWidth).2 ≤ maxWidth := by
  rw [truncateFragmentToWidth]
  split
  · exact ⟨[], _, rfl, rfl, rfl, Nat.zero_le _⟩
  split
  next ascii =>
    exact ⟨_, _, tokens_take ascii maxWidth, (flatMap_ascii).symm, (sum_ascii (ascii_take ascii _)).symm,
      List.length_take_le _ _⟩
  · obtain ⟨taken, after, whole, same, sum, bound⟩ :=
      @fragmentFrom_spec unicode [] maxWidth (tabTokens unicode text) [] 0 (Nat.zero_le _)
    refine ⟨taken, after, whole, same.trans ?_, sum.trans (Nat.zero_add _), bound⟩
    split
    next empty => rw [empty]; rfl
    · rfl

/-- An ellipsis that is as wide as the limit. -/
private theorem truncates_cut_ellipsis (keeps : KeepsWidths unicode text ellipsis)
    (beyond : maxWidth < visibleWidth unicode text) (wide : maxWidth ≤ visibleWidth unicode ellipsis) :
    Truncates unicode text maxWidth ellipsis pad
      (if (truncateFragmentToWidth unicode ellipsis maxWidth).2 = 0 then if pad then spaces maxWidth else []
        else finalizeTruncatedResult [] 0 (truncateFragmentToWidth unicode ellipsis maxWidth).1
          (truncateFragmentToWidth unicode ellipsis maxWidth).2 maxWidth pad) := by
  have narrow (shorter : visibleWidth unicode ellipsis < maxWidth) {shown : List JsString} :
    shown = cells unicode ellipsis := absurd wide (not_le.mpr shorter)
  split
  · have padding : (if pad then spaces maxWidth else []) = spaces (if pad then maxWidth else 0) := by
      cases pad <;> rfl
    rw [padding]
    exact truncates_of_cut keeps beyond List.nil_prefix List.nil_prefix (Nat.zero_le _) (fun shorter => narrow shorter)
      (fun _ => rfl) stripAnsi_spaces
  · obtain ⟨shown, rest, whole, clipped, width, bound⟩ := truncateFragment_spec unicode ellipsis maxWidth
    have strip := @stripAnsi_finalized unicode text ellipsis maxWidth pad [] (tabTokens unicode text) shown rest 0
      (truncateFragmentToWidth unicode ellipsis maxWidth).2 keeps rfl whole
    rw [← clipped] at strip
    refine truncates_of_cut keeps beyond List.nil_prefix (cells_of_taken whole) ?_ (fun shorter => narrow shorter)
      (fun _ => rfl) ?_
    · rw [← width]
      exact (Nat.zero_add _).trans_le bound
    · rw [← width]
      exact strip

/-- A front of the text before the whole ellipsis. -/
private theorem truncates_front {taken after : List Token} {prefixWidth : ℕ} (keeps : KeepsWidths unicode text ellipsis)
    (beyond : maxWidth < visibleWidth unicode text) (narrow : visibleWidth unicode ellipsis < maxWidth)
    (whole : tabTokens unicode text = taken ++ after)
    (width : prefixWidth = ((taken.filterMap Token.cluster?).map (cellWidth unicode)).sum)
    (bound : prefixWidth ≤ maxWidth - visibleWidth unicode ellipsis) :
    Truncates unicode text maxWidth ellipsis pad (finalizeTruncatedResult (taken.flatMap Token.text) prefixWidth
      ellipsis (visibleWidth unicode ellipsis) maxWidth pad) := by
  have all : (tabTokens unicode ellipsis).flatMap Token.text = ellipsis := by
    rw [← render_flatMap, flatMap_tabTokens, ansiPieces, selfDelimiting.render_pieces]
  have strip := @stripAnsi_finalized unicode text ellipsis maxWidth pad taken after (tabTokens unicode ellipsis) []
    prefixWidth (visibleWidth unicode ellipsis) keeps whole (List.append_nil _).symm
  rw [all] at strip
  refine truncates_of_cut keeps beyond (cells_of_taken whole) List.prefix_rfl ?_ (fun _ => rfl)
    (fun wide => absurd narrow (not_lt.mpr wide)) ?_
  · rw [← width, ← visibleWidth_ellipsis keeps]
    omega
  · rw [← width, ← visibleWidth_ellipsis keeps]
    exact strip

/-- A truncated text has the requested width, is the text itself where that fits, and else a front of its clusters and
the ellipsis, or what of the ellipsis fits. -/
theorem truncateToWidth_truncates (unicode : Unicode) (text : JsString) (maxWidth : ℕ) (ellipsis : JsString) (pad : Bool)
    (keeps : KeepsWidths unicode text ellipsis) :
    Truncates unicode text maxWidth ellipsis pad (truncateToWidth unicode text maxWidth ellipsis pad) := by
  have nothing : visibleWidth unicode [] = 0 := rfl
  rw [truncateToWidth]
  split
  next zero =>
    refine ⟨nothing.trans_le (Nat.zero_le _), fun _ => nothing.trans zero.symm, fun positive => by omega, fun _ => ?_⟩
    exact ⟨[], [], 0, List.nil_prefix, List.nil_prefix, rfl, fun shorter => by omega, fun _ => rfl, fun _ => rfl⟩
  split
  next empty =>
    subst empty
    exact @truncates_of_fits unicode [] ellipsis maxWidth pad keeps (Nat.zero_le _)
  next nonempty =>
  dsimp only
  split
  next wide =>
    split
    next fits => exact truncates_of_fits keeps fits
    next beyond => exact truncates_cut_ellipsis keeps (not_le.mp beyond) wide
  next narrow =>
    rw [not_le] at narrow
    split
    next ascii =>
      have length : visibleWidth unicode text = text.length := by rw [visibleWidth, if_neg nonempty, if_pos ascii]
      rw [← length]
      split
      next fits => exact truncates_of_fits keeps fits
      next beyond =>
        have short : (text.take (maxWidth - visibleWidth unicode ellipsis)).length =
            maxWidth - visibleWidth unicode ellipsis := List.length_take_of_le (by omega)
        have front := @truncates_front unicode text ellipsis maxWidth pad _ _ _ keeps (not_le.mp beyond) narrow
          (tokens_take ascii (maxWidth - visibleWidth unicode ellipsis))
          (short.symm.trans (sum_ascii (ascii_take ascii _)).symm) le_rfl
        rwa [flatMap_ascii] at front
    next other =>
      obtain ⟨seen, all⟩ := @truncateTokens_seen unicode maxWidth (maxWidth - visibleWidth unicode ellipsis)
        (tabTokens unicode text) {} (Nat.zero_le _) rfl
      obtain ⟨taken, after, whole, result, width, bound⟩ := @truncateTokens_kept unicode maxWidth
        (maxWidth - visibleWidth unicode ellipsis) (tabTokens unicode text) {} rfl (Nat.zero_le _)
      have total : ({} : Truncation).visibleSoFar +
          (((tabTokens unicode text).filterMap Token.cluster?).map (cellWidth unicode)).sum = visibleWidth unicode text :=
        (Nat.zero_add _).trans (visibleWidth_text keeps).symm
      rw [total] at seen all
      split
      next overflowed =>
        have same : (truncateTokens unicode (maxWidth - visibleWidth unicode ellipsis) maxWidth
            (tabTokens unicode text) {}).result = taken.flatMap Token.text := by
          rw [result]
          split
          next empty => rw [empty]; rfl
          · rfl
        rw [same]
        exact truncates_front keeps (seen.mp overflowed) narrow whole (width.trans (Nat.zero_add _)) bound
      next fits =>
        rw [all (Bool.eq_false_iff.mpr fits)]
        exact truncates_of_fits keeps (not_lt.mp fun beyond => fits (seen.mpr beyond))

theorem truncateToWidth_truncates_hello :
    Truncates simple (js "hello, world") 8 (js "...") true
      (truncateToWidth simple (js "hello, world") 8 (js "...") true) :=
  truncateToWidth_truncates simple (js "hello, world") 8 (js "...") true (keepsWidths_ascii (by decide) (by decide))

/-- An ellipsis that is wider than the limit is cut. An open escape sequence swallows the ellipsis, and a cluster that an
escape code splits is wider as a whole. -/
theorem truncated_ellipsis :
    (¬∃ kept, kept <+: cells simple (js "abcdef") ∧
        stripAnsi (truncateToWidth simple (js "abcdef") 2 (js "...") false) = kept.flatten ++ js "...") ∧
      visibleWidth simple (truncateToWidth simple (js "ab" ++ esc :: js "[1234567") 8 (js "...") true) ≠ 8 ∧
      4 < visibleWidth simple
        (truncateToWidth simple (0x263A :: esc :: js "[m" ++ 0xFE0F :: js "abc") 4 (js "...") false) := by
  refine ⟨?_, by decide, by decide⟩
  rintro ⟨kept, -, same⟩
  have cut : stripAnsi (truncateToWidth simple (js "abcdef") 2 (js "...") false) = js ".." := by decide
  have length := congrArg List.length (cut.symm.trans same)
  have two : (js "..").length = 2 := by decide
  have three : (js "...").length = 3 := by decide
  rw [List.length_append, two, three] at length
  omega

end PieAgent.Soundness.TruncatedTexts
