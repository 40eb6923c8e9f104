import PieAgent.Model.Tui.WordWrap
import PieAgent.Proofs.Tui.TextWidth

/-! # The chunks of a wrapped line

Chunks end where segments begin, so they tile the line whatever its segments are. Their widths are counted segment by
segment: they are within the limit when the segments cover the line, so that no grapheme reaches over the edge of a
marker, and graphemes side by side are not wider together than one by one.
-/

namespace PieAgent.Soundness.WrappedLines

open JavaScript Model.Tui.TextWidth Model.Tui.WordWrap

section Statement

/-- The chunks lie one behind the other between two places of the line, and each holds the text between its own. -/
def Tiles (line : JsString) : ℕ → ℕ → List TextChunk → Prop
  | start, end_, [] => start = end_
  | start, end_, chunk :: rest =>
    chunk.startIndex = start ∧ start ≤ chunk.endIndex ∧ chunk.endIndex ≤ line.length ∧
      chunk.text = slice line start chunk.endIndex ∧ Tiles line chunk.endIndex end_ rest

/-- Where a segment may be wrapped again. -/
def finest (segment : JsString) : List JsString :=
  if isPrintableAscii segment then segment.map ([·]) else [segment]

/-- The segments cover the line, and side by side they are not wider than one by one. -/
structure SideBySide (unicode : Unicode) (line : JsString) (segments : List (ℕ × JsString)) : Prop where
  covers : (segments.map Prod.snd).flatten = line
  beside : ∀ run, run <:+: segments.flatMap (fun segment => finest segment.2) →
    visibleWidth unicode run.flatten ≤ (run.map (visibleWidth unicode)).sum

end Statement

variable {unicode : Unicode} {line segment text : JsString} {start middle end_ pos index maxWidth gWidth : ℕ}
  {chunks more : List TextChunk} {segments rest : List (ℕ × JsString)} {state final : Wrapping}
  {rewrapped : JsString → Option (List TextChunk)}

section Slices

private theorem slice_slice (inside : slice line index (index + text.length) = text) (within : end_ ≤ text.length) :
    slice line (index + start) (index + end_) = slice text start end_ := by
  rw [slice] at inside
  rw [slice, slice, ← inside, List.take_drop, List.drop_drop, List.take_take, min_eq_left (by omega)]

private theorem slice_append {before front behind : JsString} :
    slice (before ++ front ++ behind) before.length (before.length + front.length) = front := by
  rw [slice, ← List.length_append, List.take_left, List.drop_left]

private theorem Tiles.append (first : Tiles line start middle chunks) (second : Tiles line middle end_ more) :
    Tiles line start end_ (chunks ++ more) := by
  induction chunks generalizing start with
  | nil =>
    obtain rfl : start = middle := first
    exact second
  | cons chunk chunks ih => exact ⟨first.1, first.2.1, first.2.2.1, first.2.2.2.1, ih first.2.2.2.2⟩

private theorem tiles_single (le : start ≤ end_) (within : end_ ≤ line.length) :
    Tiles line start end_ [⟨slice line start end_, start, end_⟩] := ⟨rfl, le, within, rfl, rfl⟩

private theorem Tiles.shift (inside : slice line index (index + text.length) = text)
    (fits : index + text.length ≤ line.length) (tiles : Tiles text start end_ chunks) :
    Tiles line (index + start) (index + end_)
      (chunks.map fun chunk => ⟨chunk.text, index + chunk.startIndex, index + chunk.endIndex⟩) := by
  induction chunks generalizing start with
  | nil => exact congrArg (index + ·) tiles
  | cons chunk chunks ih =>
    obtain ⟨begins, le, within, same, tiles⟩ := tiles
    refine ⟨congrArg (index + ·) begins, Nat.add_le_add_left le index, by dsimp only; omega, ?_, ih tiles⟩
    exact same.trans (slice_slice inside within).symm

/-- The last of the chunks that tile a text. -/
private theorem Tiles.of_snoc {last : TextChunk} (tiles : Tiles line start end_ (chunks ++ [last])) :
    Tiles line start last.startIndex chunks ∧ last.startIndex ≤ end_ ∧ end_ ≤ line.length ∧
      last.text = slice line last.startIndex end_ := by
  induction chunks generalizing start with
  | nil =>
    obtain ⟨rfl, le, within, same, rfl⟩ := tiles
    exact ⟨rfl, le, within, same⟩
  | cons chunk chunks ih =>
    obtain ⟨begins, le, within, same, tiles⟩ := tiles
    obtain ⟨front, rest⟩ := ih tiles
    exact ⟨⟨begins, le, within, same, front⟩, rest⟩

end Slices

section Places

/-- Segments at increasing places of the line from the given one on. -/
private def Placed (line : JsString) : ℕ → List (ℕ × JsString) → Prop
  | pos, [] => pos ≤ line.length
  | pos, (index, segment) :: rest =>
    pos ≤ index ∧ segment ≠ [] ∧ slice line index (index + segment.length) = segment ∧
      Placed line (index + segment.length) rest

private theorem Placed.le_length (placed : Placed line pos segments) : pos ≤ line.length := by
  induction segments generalizing pos with
  | nil => exact placed
  | cons segment rest ih => exact (placed.1.trans (Nat.le_add_right _ _)).trans (ih placed.2.2.2)

private theorem Placed.sum_le (placed : Placed line pos segments) :
    pos + ((segments.map Prod.snd).flatten).length ≤ line.length := by
  induction segments generalizing pos with
  | nil => exact placed
  | cons segment rest ih =>
    have tail := ih placed.2.2.2
    have here := placed.1
    rw [List.map_cons, List.flatten_cons, List.length_append]
    omega

/-- Segments that fill the rest of the line leave no gap. -/
private theorem Placed.of_full (placed : Placed line pos ((index, segment) :: rest))
    (full : pos + ((((index, segment) :: rest).map Prod.snd).flatten).length = line.length) :
    index = pos ∧ pos + segment.length + ((rest.map Prod.snd).flatten).length = line.length := by
  have tail := placed.2.2.2.sum_le
  have here := placed.1
  rw [List.map_cons, List.flatten_cons, List.length_append] at full
  dsimp only at full
  omega

private theorem placed_indexed {parts : List JsString} (nonempty : [] ∉ parts)
    (same : line = text ++ parts.flatten) : Placed line text.length (indexed text.length parts) := by
  induction parts generalizing text with
  | nil =>
    rw [same, List.flatten_nil, List.append_nil]
    exact le_rfl
  | cons part parts ih =>
    rw [List.mem_cons, not_or] at nonempty
    have whole : line = text ++ part ++ parts.flatten := by rw [same, List.flatten_cons, List.append_assoc]
    refine ⟨le_rfl, Ne.symm nonempty.1, ?_, ?_⟩
    · rw [whole]
      exact slice_append
    · have tail := ih nonempty.2 whole
      rwa [List.length_append] at tail

end Places

section Progress

/-- What has been wrapped tiles the line up to the chunk that is open. -/
private structure Progress (line : JsString) (pos : ℕ) (rest : List (ℕ × JsString)) (state : Wrapping) : Prop where
  tiles : Tiles line 0 state.chunkStart state.chunks
  le : state.chunkStart ≤ pos
  opportunity : ∀ place, state.wrapOppIndex = some place → state.chunkStart ≤ place ∧
    ∀ index segment, rest.head? = some (index, segment) → place ≤ index

private theorem Progress.push (progress : Progress line pos rest state) (le : state.chunkStart ≤ end_)
    (within : end_ ≤ line.length) (before : end_ ≤ index) (width : ℕ) :
    Progress line index rest (state.push line end_ width) where
  tiles := progress.tiles.append (tiles_single le within)
  le := before
  opportunity := nofun

private theorem Progress.force (progress : Progress line pos rest state) (le : pos ≤ index)
    (within : index ≤ line.length) : Progress line index rest (state.force line index) := by
  rw [Wrapping.force]
  split
  next before => exact progress.push before.le within le_rfl 0
  next after => exact ⟨progress.tiles, progress.le.trans le, nofun⟩

private theorem Progress.overflow (progress : Progress line pos ((index, segment) :: rest) state)
    (le : pos ≤ index) (within : index ≤ line.length) :
    Progress line index ((index, segment) :: rest) (state.overflow line gWidth index maxWidth) := by
  rw [Wrapping.overflow]
  split
  · split
    next place opportunity =>
      obtain ⟨after, before⟩ := progress.opportunity place opportunity
      have before := before index segment rfl
      split
      · exact progress.push after (before.trans within) before _
      · exact progress.force le within
    · exact progress.force le within
  · exact ⟨progress.tiles, progress.le.trans le, progress.opportunity⟩

/-- Before a segment that is wider than the limit the open chunk ends. -/
private theorem chunkStart_overflow (progress : Progress line pos ((index, segment) :: rest) state) (le : pos ≤ index)
    (wide : maxWidth < gWidth) : (state.overflow line gWidth index maxWidth).chunkStart = index := by
  have forced : (state.force line index).chunkStart = index := by
    rw [Wrapping.force]
    split
    · rfl
    next after => exact le_antisymm (progress.le.trans le) (not_lt.mp after)
  rw [Wrapping.overflow, if_pos (by omega)]
  split
  · rw [if_neg (by omega)]
    exact forced
  · exact forced

private theorem Progress.advance (progress : Progress line pos ((index, segment) :: rest) state) (le : pos ≤ index)
    (before : index ≤ end_) (next_ : ∀ index segment, rest.head? = some (index, segment) → end_ ≤ index) (gWidth : ℕ) :
    Progress line end_ rest (state.advance gWidth segment rest.head?) := by
  have open_ : state.chunkStart ≤ end_ := (progress.le.trans le).trans before
  have kept : ∀ place, state.wrapOppIndex = some place → state.chunkStart ≤ place ∧
      ∀ index segment, rest.head? = some (index, segment) → place ≤ index := by
    intro place opportunity
    obtain ⟨after, here⟩ := progress.opportunity place opportunity
    exact ⟨after, fun index segment first => ((here _ _ rfl).trans before).trans (next_ index segment first)⟩
  unfold Wrapping.advance
  dsimp only
  split
  next index segment first =>
    split
    · refine ⟨progress.tiles, open_, fun place opportunity => ?_⟩
      obtain rfl := Option.some.inj opportunity
      refine ⟨open_.trans (next_ _ _ first), fun index segment again => ?_⟩
      rw [first] at again
      cases again
      exact le_rfl
    · exact ⟨progress.tiles, open_, kept⟩
  · exact ⟨progress.tiles, open_, kept⟩

/-- A segment that is wider than the limit can be wrapped alone. -/
private def Rewraps (unicode : Unicode) (rewrapped : JsString → Option (List TextChunk)) (maxWidth : ℕ)
    (segments : List (ℕ × JsString)) : Prop :=
  ∀ index segment, (index, segment) ∈ segments → maxWidth < visibleWidth unicode segment →
    isPrintableAscii segment ∧ ∃ chunks last, rewrapped segment = some (chunks ++ [last]) ∧
      Tiles segment 0 segment.length (chunks ++ [last]) ∧
        ∀ chunk ∈ chunks ++ [last], visibleWidth unicode chunk.text ≤ maxWidth

private theorem Rewraps.tail {segment : ℕ × JsString} (rewraps : Rewraps unicode rewrapped maxWidth (segment :: rest)) :
    Rewraps unicode rewrapped maxWidth rest :=
  fun index segment member => rewraps index segment (List.mem_cons_of_mem _ member)

private theorem wrapSegments_wide {last : TextChunk} (wide : maxWidth < visibleWidth unicode segment)
    (same : rewrapped segment = some (chunks ++ [last])) :
    wrapSegments unicode rewrapped line maxWidth ((index, segment) :: rest) state =
      wrapSegments unicode rewrapped line maxWidth rest
        ((state.overflow line (visibleWidth unicode segment) index maxWidth).rewrap unicode index chunks last) := by
  rw [wrapSegments, if_pos wide, same]
  simp

private theorem wrapSegments_narrow (narrow : ¬maxWidth < visibleWidth unicode segment) :
    wrapSegments unicode rewrapped line maxWidth ((index, segment) :: rest) state =
      wrapSegments unicode rewrapped line maxWidth rest
        ((state.overflow line (visibleWidth unicode segment) index maxWidth).advance (visibleWidth unicode segment)
          segment rest.head?) := by
  rw [wrapSegments, if_neg narrow]

/-- A run over the segments ends with an open chunk, and before it all is tiled. -/
private theorem wrapSegments_tiles (rewraps : Rewraps unicode rewrapped maxWidth segments)
    (placed : Placed line pos segments) (progress : Progress line pos segments state) :
    ∃ final, wrapSegments unicode rewrapped line maxWidth segments state = some final ∧
      Tiles line 0 final.chunkStart final.chunks ∧ final.chunkStart ≤ line.length := by
  induction segments generalizing pos state with
  | nil => exact ⟨state, rfl, progress.tiles, progress.le.trans placed⟩
  | cons pair rest ih =>
    obtain ⟨index, segment⟩ := pair
    obtain ⟨le, nonempty, inside, behind⟩ := placed
    have within : index + segment.length ≤ line.length := behind.le_length
    have here : Progress line index ((index, segment) :: rest)
        (state.overflow line (visibleWidth unicode segment) index maxWidth) := progress.overflow le (by omega)
    by_cases wide : maxWidth < visibleWidth unicode segment
    · obtain ⟨-, chunks, last, same, tiles, -⟩ := rewraps _ _ List.mem_cons_self wide
      obtain ⟨front, before, -, -⟩ := tiles.of_snoc
      rw [wrapSegments_wide wide same]
      refine ih rewraps.tail behind ⟨?_, Nat.add_le_add_left before index, nofun⟩
      have start := chunkStart_overflow progress le wide
      have open_ := here.tiles
      rw [start] at open_
      exact open_.append (front.shift inside within)
    · rw [wrapSegments_narrow wide]
      refine ih rewraps.tail behind (here.advance le_rfl (Nat.le_add_right _ _) (fun next_ other first => ?_) _)
      cases rest with
      | nil => cases first
      | cons pair rest =>
        cases first
        exact behind.1

end Progress

section Ascii

private theorem visibleWidth_ascii (ascii : isPrintableAscii text) : visibleWidth unicode text = text.length := by
  rw [visibleWidth_eq, stripAnsi_of_not_mem (not_mem_of_ascii ascii (by decide)),
    expandTabs_of_not_mem (not_mem_of_ascii ascii (by decide)), columns_ascii ascii]

private theorem sum_singles (ascii : isPrintableAscii text) :
    ((text.map ([·])).map (visibleWidth unicode)).sum = visibleWidth unicode text := by
  rw [visibleWidth_ascii ascii]
  induction text with
  | nil => rfl
  | cons unit rest ih =>
    obtain ⟨first, ascii⟩ := (Bool.and_eq_true _ _).mp (List.all_cons.symm.trans ascii)
    have single : visibleWidth unicode [unit] = 1 := visibleWidth_ascii ((List.all_cons.trans (Bool.and_true _)).trans first)
    rw [List.map_cons, List.map_cons, List.sum_cons, ih ascii, single, List.length_cons, Nat.add_comm]

private theorem flatten_singles : (text.map ([·])).flatten = text := by
  induction text with
  | nil => rfl
  | cons unit rest ih => exact congrArg (unit :: ·) ih

private theorem flatten_finest : (finest segment).flatten = segment := by
  rw [finest]
  split
  · exact flatten_singles
  · exact List.append_nil segment

private theorem flatten_cells : (segments.flatMap fun segment => finest segment.2).flatten =
    (segments.map Prod.snd).flatten := by
  induction segments with
  | nil => rfl
  | cons segment rest ih =>
    rw [List.flatMap_cons, List.flatten_append, flatten_finest, ih, List.map_cons, List.flatten_cons]

private theorem sum_finest :
    ((finest segment).map (visibleWidth unicode)).sum = visibleWidth unicode segment := by
  rw [finest]
  split
  next ascii => exact sum_singles ascii
  · exact Nat.add_zero _

private theorem nonempty_of_finest (nonempty : segment ≠ []) : [] ∉ finest segment := by
  rw [finest]
  split
  · intro member
    obtain ⟨unit, -, same⟩ := List.mem_map.mp member
    cases same
  · exact fun member => nonempty (List.mem_singleton.mp member).symm

private theorem ascii_drop (ascii : isPrintableAscii text) (n : ℕ) : isPrintableAscii (text.drop n) :=
  List.all_eq_true.mpr fun unit member => List.all_eq_true.mp ascii unit (List.mem_of_mem_drop member)

end Ascii

section Widths

variable {done later : List JsString}

/-- What is known of the cells of a line whose front has been read. -/
private structure Cells (unicode : Unicode) (line : JsString) (done later : List JsString) : Prop where
  covers : line = (done ++ later).flatten
  nonempty : [] ∉ done
  beside : ∀ run, run <:+: done ++ later → visibleWidth unicode run.flatten ≤ (run.map (visibleWidth unicode)).sum

/-- The widths that the loop has counted: of the chunk that is open and of its front up to the opportunity. -/
private structure Counted (unicode : Unicode) (maxWidth : ℕ) (done : List JsString) (state : Wrapping) : Prop where
  open_ : ∃ before current, done = before ++ current ∧ before.flatten.length = state.chunkStart ∧
    (current.map (visibleWidth unicode)).sum = state.currentWidth ∧
    ∀ place, state.wrapOppIndex = some place → ∃ front back, current = front ++ back ∧
      (before ++ front).flatten.length = place ∧ (front.map (visibleWidth unicode)).sum = state.wrapOppWidth
  within : state.currentWidth ≤ maxWidth
  chunks : ∀ chunk ∈ state.chunks, visibleWidth unicode chunk.text ≤ maxWidth

private theorem Counted.push {before front back : List JsString} (counted : Counted unicode maxWidth done state)
    (cells : Cells unicode line done later) (split : done = before ++ (front ++ back))
    (begins : before.flatten.length = state.chunkStart) (ends : (before ++ front).flatten.length = end_)
    (fits : (front.map (visibleWidth unicode)).sum ≤ maxWidth) (rest : (back.map (visibleWidth unicode)).sum = gWidth)
    (restFits : gWidth ≤ maxWidth) : Counted unicode maxWidth done (state.push line end_ gWidth) where
  open_ := ⟨before ++ front, back, by rw [split, List.append_assoc], ends, rest, nofun⟩
  within := restFits
  chunks chunk member := by
    rcases List.mem_append.mp member with inside | last
    · exact counted.chunks chunk inside
    · obtain rfl := List.mem_singleton.mp last
      have text : slice line state.chunkStart end_ = front.flatten := by
        have whole : line = before.flatten ++ front.flatten ++ (back ++ later).flatten := by
          rw [cells.covers, split]
          simp only [List.flatten_append, List.append_assoc]
        rw [← begins, ← ends, List.flatten_append, List.length_append, whole]
        exact slice_append
      show visibleWidth unicode (slice line state.chunkStart end_) ≤ maxWidth
      rw [text]
      refine (cells.beside front ⟨before, back ++ later, ?_⟩).trans fits
      rw [split]
      simp only [List.append_assoc]

private theorem eq_nil_of_flatten {current : List JsString} (nonempty : [] ∉ current) (empty : current.flatten = []) :
    current = [] := by
  cases current with
  | nil => rfl
  | cons first rest => exact absurd (List.mem_cons.mpr (.inl (List.append_eq_nil_iff.mp empty).1.symm)) nonempty

private theorem Counted.force (counted : Counted unicode maxWidth done state) (cells : Cells unicode line done later)
    (index_ : done.flatten.length = index) : Counted unicode maxWidth done (state.force line index) ∧
      (state.force line index).currentWidth = 0 := by
  obtain ⟨before, current, split, begins, sum, -⟩ := counted.open_
  rw [Wrapping.force]
  by_cases open_ : state.chunkStart < index
  · rw [if_pos open_]
    exact ⟨counted.push cells (by rw [split, List.append_nil]) begins (split ▸ index_)
      (sum.trans_le counted.within) rfl (Nat.zero_le _), rfl⟩
  · have length : before.flatten.length + current.flatten.length = index := by
      rw [← index_, split, List.flatten_append, List.length_append]
    have empty : current = [] := eq_nil_of_flatten
      (fun member => cells.nonempty (split ▸ List.mem_append_right _ member))
      (List.length_eq_zero_iff.mp (by omega))
    rw [if_neg open_]
    refine ⟨⟨⟨before, current, split, begins, sum, nofun⟩, counted.within, counted.chunks⟩, ?_⟩
    show state.currentWidth = 0
    rw [← sum, empty]
    rfl

private theorem Counted.overflow (counted : Counted unicode maxWidth done state) (cells : Cells unicode line done later)
    (index_ : done.flatten.length = index) :
    Counted unicode maxWidth done (state.overflow line gWidth index maxWidth) ∧
      (gWidth ≤ maxWidth → (state.overflow line gWidth index maxWidth).currentWidth + gWidth ≤ maxWidth) := by
  have forced := counted.force cells index_
  rw [Wrapping.overflow]
  split
  next beyond =>
    split
    next place opportunity =>
      split
      next fits =>
        obtain ⟨before, current, split, begins, sum, opportunities⟩ := counted.open_
        obtain ⟨front, back, rfl, ends, frontSum⟩ := opportunities place opportunity
        have within := counted.within
        rw [List.map_append, List.sum_append] at sum
        exact ⟨counted.push cells split begins ends (by omega) (by omega) (by omega), fun _ => fits⟩
      · exact ⟨forced.1, fun narrow => by rw [forced.2]; omega⟩
    · exact ⟨forced.1, fun narrow => by rw [forced.2]; omega⟩
  next fits => exact ⟨counted, fun _ => not_lt.mp fits⟩

private theorem Counted.advance (counted : Counted unicode maxWidth done state)
    (fits : state.currentWidth + visibleWidth unicode segment ≤ maxWidth)
    (next_ : ∀ index other, rest.head? = some (index, other) → (done ++ finest segment).flatten.length = index) :
    Counted unicode maxWidth (done ++ finest segment)
      (state.advance (visibleWidth unicode segment) segment rest.head?) := by
  obtain ⟨before, current, split, begins, sum, opportunities⟩ := counted.open_
  have total : ((current ++ finest segment).map (visibleWidth unicode)).sum =
      state.currentWidth + visibleWidth unicode segment := by
    rw [List.map_append, List.sum_append, sum, sum_finest]
  have whole : done ++ finest segment = before ++ (current ++ finest segment) := by rw [split, List.append_assoc]
  have kept : ∀ place, state.wrapOppIndex = some place → ∃ front back, current ++ finest segment = front ++ back ∧
      (before ++ front).flatten.length = place ∧ (front.map (visibleWidth unicode)).sum = state.wrapOppWidth := by
    intro place opportunity
    obtain ⟨front, back, rfl, ends, frontSum⟩ := opportunities place opportunity
    exact ⟨front, back ++ finest segment, List.append_assoc .., ends, frontSum⟩
  unfold Wrapping.advance
  dsimp only
  split
  next index other first =>
    split
    · refine ⟨⟨before, _, whole, begins, total, fun place opportunity => ?_⟩, fits, counted.chunks⟩
      obtain rfl := Option.some.inj opportunity
      exact ⟨_, [], (List.append_nil _).symm, by rw [← whole]; exact next_ _ _ first, total⟩
    · exact ⟨⟨before, _, whole, begins, total, kept⟩, fits, counted.chunks⟩
  · exact ⟨⟨before, _, whole, begins, total, kept⟩, fits, counted.chunks⟩

private theorem Counted.rewrap {last : TextChunk} (counted : Counted unicode maxWidth done state)
    (index_ : done.flatten.length = index) (ascii : isPrintableAscii segment)
    (tiles : Tiles segment 0 segment.length (chunks ++ [last]))
    (fits : ∀ chunk ∈ chunks ++ [last], visibleWidth unicode chunk.text ≤ maxWidth) :
    Counted unicode maxWidth (done ++ finest segment) (state.rewrap unicode index chunks last) := by
  obtain ⟨-, before, -, text⟩ := tiles.of_snoc
  rw [slice, List.take_length] at text
  refine ⟨⟨done ++ (segment.take last.startIndex).map ([·]), (segment.drop last.startIndex).map ([·]), ?_, ?_, ?_, nofun⟩,
    fits last (List.mem_append_right _ (List.mem_singleton_self _)), fun chunk member => ?_⟩
  · rw [List.append_assoc, ← List.map_append, List.take_append_drop, finest, if_pos ascii]
  · show _ = index + last.startIndex
    rw [List.flatten_append, flatten_singles, List.length_append, index_, List.length_take_of_le before]
  · rw [sum_singles (ascii_drop ascii _), ← text]
    rfl
  · rcases List.mem_append.mp member with inside | new
    · exact counted.chunks chunk inside
    · obtain ⟨chunk, inside, rfl⟩ := List.mem_map.mp new
      exact fits chunk (List.mem_append_left _ inside)

/-- A run over segments that cover the rest of the line counts their widths. -/
private theorem wrapSegments_counted (rewraps : Rewraps unicode rewrapped maxWidth segments)
    (placed : Placed line done.flatten.length segments)
    (cells : Cells unicode line done (segments.flatMap fun segment => finest segment.2))
    (counted : Counted unicode maxWidth done state)
    (runs : wrapSegments unicode rewrapped line maxWidth segments state = some final) :
    ∃ done, Cells unicode line done [] ∧ Counted unicode maxWidth done final := by
  induction segments generalizing done state with
  | nil =>
    obtain rfl := Option.some.inj runs
    exact ⟨done, cells, counted⟩
  | cons pair rest ih =>
    obtain ⟨index, segment⟩ := pair
    have full : done.flatten.length + ((((index, segment) :: rest).map Prod.snd).flatten).length = line.length := by
      rw [← flatten_cells, ← List.length_append, ← List.flatten_append, ← cells.covers]
    obtain ⟨rfl, restFull⟩ := placed.of_full full
    obtain ⟨-, nonempty, -, behind⟩ := placed
    have length : (done ++ finest segment).flatten.length = done.flatten.length + segment.length := by
      rw [List.flatten_append, flatten_finest, List.length_append]
    have cells' : Cells unicode line (done ++ finest segment) (rest.flatMap fun segment => finest segment.2) := by
      refine ⟨?_, ?_, ?_⟩
      · rw [List.append_assoc]
        exact cells.covers
      · rw [List.mem_append, not_or]
        exact ⟨cells.nonempty, nonempty_of_finest nonempty⟩
      · rw [List.append_assoc]
        exact cells.beside
    obtain ⟨checked, fits⟩ := @Counted.overflow _ _ _ maxWidth (visibleWidth unicode segment) _ _ _ counted cells rfl
    rw [← length] at behind
    by_cases wide : maxWidth < visibleWidth unicode segment
    · obtain ⟨ascii, chunks, last, same, tiles, within⟩ := rewraps _ _ List.mem_cons_self wide
      rw [wrapSegments_wide wide same] at runs
      exact ih rewraps.tail behind cells' (checked.rewrap rfl ascii tiles within) runs
    · rw [wrapSegments_narrow wide] at runs
      refine ih rewraps.tail behind cells' (checked.advance (fits (not_lt.mp wide)) fun next_ other first => ?_) runs
      cases rest with
      | nil => cases first
      | cons pair rest =>
        cases first
        rw [length] at behind ⊢
        exact (behind.of_full restFull).1.symm

end Widths

section Markers

variable {marker id number before after : JsString} {markers : List (ℕ × ℕ)} {parts : List JsString} {limit : ℕ}

private theorem ascii_append : isPrintableAscii (text ++ marker) ↔ isPrintableAscii text ∧ isPrintableAscii marker := by
  rw [isPrintableAscii, List.all_append, Bool.and_eq_true]
  rfl

private theorem ascii_digits : isPrintableAscii (text.takeWhile isDecimal) := by
  refine List.all_eq_true.mpr fun unit member => ?_
  have digit := List.mem_takeWhile_imp member
  rw [isDecimal, Bool.and_eq_true, decide_eq_true_iff, decide_eq_true_iff, UInt16.le_iff_toNat_le,
    UInt16.le_iff_toNat_le] at digit
  have low : 0x30 ≤ unit.toNat := digit.1
  have high : unit.toNat ≤ 0x39 := digit.2
  rw [Bool.and_eq_true, decide_eq_true_iff, decide_eq_true_iff, UInt16.le_iff_toNat_le, UInt16.le_iff_toNat_le]
  exact ⟨show 0x20 ≤ unit.toNat by omega, show unit.toNat ≤ 0x7E by omega⟩

private theorem dropPrefix?_some {rest : JsString} (found : text.dropPrefix? before = some rest) :
    text = before ++ rest := by
  obtain ⟨front, same, equal⟩ := List.dropPrefix?_eq_some_iff.mp found
  rw [same, LawfulBEq.eq_of_beq equal]

private theorem numbered?_some (asciiBefore : isPrintableAscii before) (asciiAfter : isPrintableAscii after)
    (found : numbered? before after text = some marker) : marker <+: text ∧ isPrintableAscii marker := by
  obtain ⟨rest, dropped, some_⟩ := Option.bind_eq_some_iff.mp found
  dsimp only at some_
  split at some_
  next both =>
    obtain rfl := Option.some.inj some_
    obtain ⟨behind, same⟩ := both.2
    refine ⟨⟨behind, ?_⟩, (ascii_append).mpr ⟨ascii_append.mpr ⟨asciiBefore, ascii_digits⟩, asciiAfter⟩⟩
    rw [dropPrefix?_some dropped, List.append_assoc, List.append_assoc, same, List.takeWhile_append_dropWhile]
  · cases some_

private theorem markerSize?_some (found : markerSize? text = some marker) :
    marker <+: text ∧ isPrintableAscii marker := by
  rw [markerSize?] at found
  split at found
  next closes =>
    obtain rfl := Option.some.inj found
    exact ⟨closes, by decide⟩
  · rcases Option.or_eq_some_iff.mp found with lines | ⟨-, chars⟩
    · exact numbered?_some (by decide) (by decide) lines
    · exact numbered?_some (by decide) (by decide) chars

private theorem pasteMarker?_some (found : pasteMarker? text = some (marker, id)) :
    marker <+: text ∧ marker ≠ [] ∧ isPrintableAscii marker := by
  obtain ⟨rest, dropped, some_⟩ := Option.bind_eq_some_iff.mp found
  dsimp only at some_
  split at some_
  · cases some_
  next digit =>
    obtain ⟨size, sized, same⟩ := Option.map_eq_some_iff.mp some_
    obtain ⟨rfl, -⟩ := Prod.mk.inj same
    obtain ⟨⟨behind, whole⟩, ascii⟩ := markerSize?_some sized
    refine ⟨⟨behind, ?_⟩, ?_, (ascii_append).mpr ⟨ascii_append.mpr ⟨by decide, ascii_digits⟩, ascii⟩⟩
    · rw [dropPrefix?_some dropped, List.append_assoc, List.append_assoc, whole, List.takeWhile_append_dropWhile]
    · intro empty
      exact digit (List.append_eq_nil_iff.mp (List.append_eq_nil_iff.mp empty).1).2

/-- A place of the line that holds a marker. -/
private structure Marks (line : JsString) (start end_ : ℕ) : Prop where
  some_ : start < end_
  within : end_ ≤ line.length
  ascii : isPrintableAscii (slice line start end_)

private theorem marks_of_mem {validIds : JsString → Bool} {front : JsString} {skip : ℕ}
    (member : (start, end_) ∈ markersFrom validIds skip front.length text) : Marks (front ++ text) start end_ := by
  induction text generalizing front skip with
  | nil => cases skip <;> cases member
  | cons unit rest ih =>
    have tail (skip : ℕ) (member : (start, end_) ∈ markersFrom validIds skip (front.length + 1) rest) :
        Marks (front ++ unit :: rest) start end_ := by
      rw [List.append_cons]
      exact @ih (front ++ [unit]) skip (by rwa [List.length_append])
    cases skip with
    | succ skip => exact tail skip member
    | zero =>
      rw [markersFrom] at member
      split at member
      next marker id found =>
        rcases List.mem_append.mp member with here | later
        · split at here
          · obtain ⟨rfl, rfl⟩ := Prod.mk.inj (List.mem_singleton.mp here)
            obtain ⟨⟨behind, whole⟩, nonempty, ascii⟩ := pasteMarker?_some found
            have some_ := List.length_pos_of_ne_nil nonempty
            rw [← whole, ← List.append_assoc]
            refine ⟨by omega, by simp only [List.length_append]; omega, ?_⟩
            rwa [slice_append]
          · cases here
        · exact tail _ later
      · exact tail 0 member

/-- The segments with markers lie at increasing places, behind the given one. It lies behind the graphemes that have been
read only when these are inside a marker. -/
private theorem placed_mergeMarkers {front : JsString} (same : line = front ++ parts.flatten) (nonempty : [] ∉ parts)
    (marks : ∀ start end_, (start, end_) ∈ markers → Marks line start end_)
    (behind : limit ≤ front.length ∨ ∃ start, start < front.length ∧
      (markers.dropWhile fun (_, end_) => end_ ≤ front.length).head? = some (start, limit)) :
    Placed line limit (mergeMarkers line (indexed front.length parts) markers) := by
  induction parts generalizing front markers limit with
  | nil =>
    rcases behind with before | ⟨start, -, first⟩
    · rw [same, List.flatten_nil, List.append_nil]
      exact before
    · exact (marks _ _ ((List.dropWhile_suffix _).subset (List.mem_of_mem_head? first))).within
  | cons part parts ih =>
    rw [List.mem_cons, not_or] at nonempty
    have whole : line = front ++ part ++ parts.flatten := by rw [same, List.flatten_cons, List.append_assoc]
    have length : (front ++ part).length = front.length + part.length := List.length_append
    have some_ := List.length_pos_of_ne_nil (Ne.symm nonempty.1)
    rw [indexed, mergeMarkers]
    dsimp only
    generalize left : (markers.dropWhile fun (_, end_) => end_ ≤ front.length) = remaining at behind ⊢
    have marks' : ∀ start end_, (start, end_) ∈ remaining → Marks line start end_ := fun start end_ member =>
      marks start end_ ((List.dropWhile_suffix _).subset (left ▸ member))
    have go (limit : ℕ) (behind : limit ≤ (front ++ part).length ∨ ∃ start, start < (front ++ part).length ∧
        (remaining.dropWhile fun (_, end_) => end_ ≤ (front ++ part).length).head? = some (start, limit)) :
        Placed line limit (mergeMarkers line (indexed (front.length + part.length) parts) remaining) := by
      rw [← length]
      exact ih whole nonempty.2 marks' behind
    have plain (before : limit ≤ front.length) : Placed line limit ((front.length, part) ::
        mergeMarkers line (indexed (front.length + part.length) parts) remaining) := by
      refine ⟨before, Ne.symm nonempty.1, ?_, go _ (.inl length.ge)⟩
      rw [whole]
      exact slice_append
    cases first : remaining.head? with
    | none => exact plain (behind.resolve_right fun ⟨start, _, again⟩ => by cases first.symm.trans again)
    | some place =>
      obtain ⟨start, end_⟩ := place
      have open_ : front.length < end_ := by
        have kept := @List.head?_dropWhile_not _ (fun place : ℕ × ℕ => decide (place.2 ≤ front.length)) markers
        rw [left, first] at kept
        simpa using kept
      have again {limit : ℕ} (beyond : ¬limit ≤ (front ++ part).length) (ends : end_ = limit) :
          (remaining.dropWhile fun (_, end_) => end_ ≤ (front ++ part).length).head? = some (start, limit) := by
        obtain ⟨others, rfl⟩ := List.head?_eq_some_iff.mp first
        rw [List.dropWhile_cons_of_neg (by simpa [ends] using beyond), List.head?_cons, ends]
      dsimp only
      split
      next inside =>
        split
        next begins =>
          obtain ⟨some_', within, -⟩ := marks' start end_ (List.mem_of_mem_head? first)
          have sliced : (slice line start end_).length = end_ - start := by
            rw [slice, List.length_drop, List.length_take_of_le within]
          refine ⟨?_, ?_, ?_, ?_⟩
          · rcases behind with before | ⟨other, less, found⟩
            · omega
            · cases first.symm.trans found
              omega
          · intro empty
            rw [empty] at sliced
            have : ([] : JsString).length = 0 := rfl
            omega
          · rw [sliced, Nat.add_sub_cancel' some_'.le]
          · rw [sliced, Nat.add_sub_cancel' some_'.le]
            refine go end_ ?_
            by_cases beyond : end_ ≤ (front ++ part).length
            · exact .inl beyond
            · exact .inr ⟨start, by omega, again beyond rfl⟩
        next other =>
          refine go limit ?_
          by_cases beyond : limit ≤ (front ++ part).length
          · exact .inl beyond
          · rcases behind with before | ⟨other, less, found⟩
            · exact absurd (before.trans (by omega)) beyond
            · cases first.symm.trans found
              exact .inr ⟨start, by omega, again beyond rfl⟩
      next outside =>
        refine plain ?_
        rcases behind with before | ⟨other, less, found⟩
        · exact before
        · cases first.symm.trans found
          exact absurd ⟨less.le, open_⟩ outside

private theorem mem_mergeMarkers (marks : ∀ start end_, (start, end_) ∈ markers → Marks line start end_)
    (member : (index, segment) ∈ mergeMarkers line segments markers) :
    segment ∈ segments.map Prod.snd ∨ isPrintableAscii segment := by
  induction segments generalizing markers with
  | nil => cases member
  | cons pair rest ih =>
    obtain ⟨place, part⟩ := pair
    rw [mergeMarkers] at member
    dsimp only at member
    have marks' : ∀ start end_, (start, end_) ∈ (markers.dropWhile fun (_, end_) => end_ ≤ place) →
        Marks line start end_ := fun start end_ member => marks start end_ ((List.dropWhile_suffix _).subset member)
    have later (member : (index, segment) ∈ mergeMarkers line rest (markers.dropWhile fun (_, end_) => end_ ≤ place)) :
        segment ∈ ((place, part) :: rest).map Prod.snd ∨ isPrintableAscii segment :=
      (ih marks' member).imp_left (List.mem_cons_of_mem _)
    have plain (member : (index, segment) ∈ (place, part) ::
        mergeMarkers line rest (markers.dropWhile fun (_, end_) => end_ ≤ place)) :
        segment ∈ ((place, part) :: rest).map Prod.snd ∨ isPrintableAscii segment := by
      rcases List.mem_cons.mp member with same | member
      · cases same
        exact .inl List.mem_cons_self
      · exact later member
    split at member
    next start end_ first =>
      split at member
      · split at member
        · rcases List.mem_cons.mp member with same | member
          · cases same
            exact .inr (marks' _ _ (List.mem_of_mem_head? first)).ascii
          · exact later member
        · exact later member
      · exact plain member
    · exact plain member

end Markers

section Lines

variable {fuel : ℕ}

/-- One line, when its wide segments can be wrapped alone. -/
private theorem wordWrapLine_succ (positive : 0 < maxWidth) (placed : Placed line 0 segments)
    (rewraps : Rewraps unicode (fun grapheme => wordWrapLine unicode fuel grapheme maxWidth
      (indexed 0 (unicode.segment grapheme))) maxWidth segments) :
    ∃ chunks last, wordWrapLine unicode (fuel + 1) line maxWidth segments = some (chunks ++ [last]) ∧
      Tiles line 0 line.length (chunks ++ [last]) ∧
      (SideBySide unicode line segments → ∀ chunk ∈ chunks ++ [last], visibleWidth unicode chunk.text ≤ maxWidth) := by
  rw [wordWrapLine]
  by_cases empty : line = []
  · rw [if_pos (.inl empty), empty]
    refine ⟨[], ⟨[], 0, 0⟩, rfl, ⟨rfl, le_rfl, le_rfl, rfl, rfl⟩, fun _ chunk member => ?_⟩
    rw [List.mem_singleton.mp member]
    exact Nat.zero_le _
  rw [if_neg (not_or.mpr ⟨empty, by omega⟩)]
  by_cases fits : visibleWidth unicode line ≤ maxWidth
  · rw [if_pos fits]
    refine ⟨[], ⟨line, 0, line.length⟩, rfl, ⟨rfl, Nat.zero_le _, le_rfl, ?_, rfl⟩, fun _ chunk member => ?_⟩
    · rw [slice, List.take_length, List.drop_zero]
    · rw [List.mem_singleton.mp member]
      exact fits
  · obtain ⟨final, runs, tiles, within⟩ := wrapSegments_tiles rewraps placed
      (⟨rfl, le_rfl, fun _ none_ => by cases none_⟩ : Progress line 0 segments {})
    have text : line.drop final.chunkStart = slice line final.chunkStart line.length := by
      rw [slice, List.take_length]
    rw [if_neg fits]
    dsimp only
    rw [runs]
    refine ⟨final.chunks, ⟨line.drop final.chunkStart, final.chunkStart, line.length⟩, rfl, ?_, fun beside => ?_⟩
    · rw [text]
      exact tiles.append (tiles_single within le_rfl)
    · have cells : Cells unicode line [] (segments.flatMap fun segment => finest segment.2) :=
        ⟨(flatten_cells.trans beside.covers).symm, List.not_mem_nil, beside.beside⟩
      obtain ⟨done, cells, counted⟩ := wrapSegments_counted rewraps placed cells
        ⟨⟨[], [], rfl, rfl, rfl, fun _ none_ => by cases none_⟩, Nat.zero_le _, fun _ member => absurd member List.not_mem_nil⟩ runs
      intro chunk member
      rcases List.mem_append.mp member with inside | last
      · exact counted.chunks chunk inside
      · obtain ⟨before, current, split, begins, sum, -⟩ := counted.open_
        have whole : line = before.flatten ++ current.flatten := by
          rw [cells.covers, List.append_nil, split, List.flatten_append]
        rw [List.mem_singleton.mp last]
        show visibleWidth unicode (line.drop final.chunkStart) ≤ maxWidth
        rw [← begins, whole, List.drop_left]
        refine (cells.beside current ⟨before, [], ?_⟩).trans (sum.trans_le counted.within)
        rw [split, List.append_nil]

private theorem segments_singles {index : ℕ} (parts : List JsString) :
    (indexed index parts).map Prod.snd = parts := by
  induction parts generalizing index with
  | nil => rfl
  | cons part parts ih => exact congrArg (part :: ·) ih

private theorem placed_graphemes (line : JsString) : Placed line 0 (indexed 0 (unicode.segment line)) :=
  @placed_indexed line [] _ (fun member => unicode.nonempty_of_segment line _ member rfl)
    (unicode.flatten_segment line).symm

/-- A text of printable ASCII, such as a marker, can be wrapped alone. -/
private theorem wordWrapLine_ascii (positive : 0 < maxWidth) (ascii : isPrintableAscii text) (fuel : ℕ) :
    ∃ chunks last, wordWrapLine unicode (fuel + 1) text maxWidth (indexed 0 (unicode.segment text)) =
        some (chunks ++ [last]) ∧ Tiles text 0 text.length (chunks ++ [last]) ∧
      ∀ chunk ∈ chunks ++ [last], visibleWidth unicode chunk.text ≤ maxWidth := by
  have each : ∀ unit ∈ text, isPrintableAscii [unit] := fun unit member =>
    (List.all_cons.trans (Bool.and_true _)).trans (List.all_eq_true.mp ascii unit member)
  have singles : unicode.segment text = text.map ([·]) := unicode.segment_ascii text ascii
  obtain ⟨chunks, last, same, tiles, widths⟩ := @wordWrapLine_succ unicode text maxWidth _ fuel positive
    (placed_graphemes text) (by
      intro index segment member wide
      have part := List.mem_map_of_mem (f := Prod.snd) member
      rw [segments_singles, singles] at part
      obtain ⟨unit, inside, rfl⟩ := List.mem_map.mp part
      have single : visibleWidth unicode [unit] = 1 := visibleWidth_ascii (each unit inside)
      omega)
  refine ⟨chunks, last, same, tiles, widths ⟨?_, fun run infix_ => ?_⟩⟩
  · rw [segments_singles, unicode.flatten_segment]
  · have one : ∀ unit ∈ text, finest [unit] = [[unit]] := fun unit member => if_pos (each unit member)
    have cells : ((indexed 0 (unicode.segment text)).flatMap fun segment => finest segment.2) = text.map ([·]) := by
      rw [← List.flatMap_map Prod.snd finest, segments_singles, singles, List.flatMap_map, List.flatMap_congr one]
      exact List.map_eq_flatMap.symm
    rw [cells] at infix_
    obtain ⟨front, back, whole⟩ := infix_
    obtain ⟨_, _, rfl, whole, -⟩ := List.map_eq_append_iff.mp whole.symm
    obtain ⟨_, part, rfl, -, rfl⟩ := List.map_eq_append_iff.mp whole
    rw [flatten_singles, sum_singles]
    exact (ascii_append.mp (ascii_append.mp ascii).1).2

end Lines

end PieAgent.Soundness.WrappedLines
