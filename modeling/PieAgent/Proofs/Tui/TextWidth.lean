import PieAgent.Model.Tui.TextWidth

/-! # What is measured of a text

Escape codes are found whatever follows them, and with tabs or with spaces in their place. So the width of every text
is the number of columns of its clusters, without its codes and with three spaces for a tab.
-/

namespace PieAgent.Model.Tui.TextWidth

open JavaScript Framing

variable {unicode : Unicode} {text rest ended code more : JsString} {unit : CodeUnit}

section Codes

private theorem controlEnd?_some (found : controlEnd? rest = some ended) :
    ended <+: rest ∧ ∀ more, controlEnd? (ended ++ more) = some ended := by
  induction rest generalizing ended with
  | nil => cases found
  | cons unit rest ih =>
    rw [controlEnd?] at found
    split at found
    next final =>
      obtain rfl := Option.some.inj found
      refine ⟨⟨rest, rfl⟩, fun more => ?_⟩
      rw [List.singleton_append, controlEnd?, if_pos final]
    next not_final =>
      obtain ⟨inner, inside, rfl⟩ := Option.map_eq_some_iff.mp found
      refine ⟨List.cons_prefix_cons.mpr ⟨rfl, (ih inside).1⟩, fun more => ?_⟩
      rw [List.cons_append, controlEnd?, if_neg not_final, (ih inside).2 more]
      rfl

private theorem commandEnd?_some (found : commandEnd? rest = some ended) :
    ended <+: rest ∧ ∀ more, commandEnd? (ended ++ more) = some ended := by
  induction rest generalizing ended with
  | nil => cases found
  | cons unit rest ih =>
    rw [commandEnd?] at found
    split_ifs at found with bell string
    · obtain rfl := Option.some.inj found
      refine ⟨⟨rest, rfl⟩, fun more => ?_⟩
      rw [List.singleton_append, commandEnd?, if_pos bell]
    · obtain rfl := Option.some.inj found
      obtain ⟨last, rest, rfl⟩ := List.exists_cons_of_ne_nil (l := rest) fun empty => by
        rw [empty] at string
        cases string.2
      refine ⟨⟨rest, rfl⟩, fun more => ?_⟩
      rw [List.cons_append, commandEnd?, if_neg bell, if_pos ⟨string.1, string.2⟩]
      rfl
    · obtain ⟨inner, inside, rfl⟩ := Option.map_eq_some_iff.mp found
      obtain ⟨front, whatever⟩ := ih inside
      refine ⟨List.cons_prefix_cons.mpr ⟨rfl, front⟩, fun more => ?_⟩
      rw [List.cons_append, commandEnd?, if_neg bell, if_neg, whatever more]
      · rfl
      · cases inner with
        | nil => cases whatever []
        | cons first inner =>
          obtain ⟨behind, rfl⟩ := front
          exact string

theorem selfDelimiting : SelfDelimiting extractAnsiCode? := by
  have both {text code : JsString} (found : extractAnsiCode? text = some code) :
      code <+: text ∧ code ≠ [] ∧ ∀ more, extractAnsiCode? (code ++ more) = some code := by
    unfold extractAnsiCode? at found
    split at found
    next first next_ rest =>
      split_ifs at found with not_esc control command
      · obtain ⟨ended, inside, rfl⟩ := Option.map_eq_some_iff.mp found
        obtain ⟨front, whatever⟩ := controlEnd?_some inside
        refine ⟨?_, List.cons_ne_nil _ _, fun more => ?_⟩
        · exact List.cons_prefix_cons.mpr ⟨rfl, List.cons_prefix_cons.mpr ⟨rfl, front⟩⟩
        · rw [List.cons_append, List.cons_append, extractAnsiCode?, if_neg not_esc, if_pos control, whatever]
          rfl
      · obtain ⟨ended, inside, rfl⟩ := Option.map_eq_some_iff.mp found
        obtain ⟨front, whatever⟩ := commandEnd?_some inside
        refine ⟨?_, List.cons_ne_nil _ _, fun more => ?_⟩
        · exact List.cons_prefix_cons.mpr ⟨rfl, List.cons_prefix_cons.mpr ⟨rfl, front⟩⟩
        · rw [List.cons_append, List.cons_append, extractAnsiCode?, if_neg not_esc, if_neg control, if_pos command,
            whatever]
          rfl
    · cases found
  exact ⟨fun found => (both found).1, fun found => (both found).2.1, fun found => (both found).2.2⟩

theorem extractAnsiCode?_of_ne (other : unit ≠ esc) : extractAnsiCode? (unit :: rest) = none := by
  cases rest with
  | nil => rfl
  | cons next_ rest => rw [extractAnsiCode?, if_pos other]

/-- Where there is no escape there is no code. -/
theorem ansiPieces_of_not_mem (plain : esc ∉ text) : ansiPieces text = text.map .char := by
  induction text with
  | nil => rfl
  | cons unit rest ih =>
    rw [List.mem_cons, not_or] at plain
    rw [ansiPieces, pieces_of_none (extractAnsiCode?_of_ne (Ne.symm plain.1)), List.map_cons, ← ansiPieces, ih plain.2]

theorem stripAnsi_of_not_mem (plain : esc ∉ text) : stripAnsi text = text := by
  rw [stripAnsi, ansiPieces_of_not_mem plain, chars_map_char]

end Codes

section Tabs

@[simp] theorem expandTabs_nil : expandTabs [] = [] := rfl

theorem expandTabs_cons : expandTabs (unit :: rest) = (if unit = tab then js "   " else [unit]) ++ expandTabs rest := rfl

theorem expandTabs_cons_of_ne (other : unit ≠ tab) : expandTabs (unit :: rest) = unit :: expandTabs rest := by
  rw [expandTabs_cons, if_neg other]
  rfl

@[simp] theorem expandTabs_append : expandTabs (text ++ rest) = expandTabs text ++ expandTabs rest :=
  List.flatMap_append

theorem expandTabs_of_not_mem (plain : tab ∉ text) : expandTabs text = text := by
  induction text with
  | nil => rfl
  | cons unit rest ih =>
    rw [List.mem_cons, not_or] at plain
    rw [expandTabs_cons_of_ne (Ne.symm plain.1), ih plain.2]

private theorem threeSpaces : js "   " = [0x20, 0x20, 0x20] := by decide

private theorem esc_ne_tab : esc ≠ tab := by decide

private theorem controlEnd?_expandTabs : controlEnd? (expandTabs rest) = (controlEnd? rest).map expandTabs := by
  induction rest with
  | nil => rfl
  | cons unit rest ih =>
    by_cases is_tab : unit = tab
    · subst is_tab
      have space (more : JsString) : controlEnd? (0x20 :: more) = (controlEnd? more).map (0x20 :: ·) := by
        rw [controlEnd?, if_neg (by decide)]
      rw [expandTabs_cons, if_pos rfl, threeSpaces, controlEnd?, if_neg (by decide)]
      simp only [List.cons_append, List.nil_append, space, ih]
      cases controlEnd? rest with
      | none => rfl
      | some ended => simp [expandTabs_cons, threeSpaces]
    · rw [expandTabs_cons_of_ne is_tab, controlEnd?, controlEnd?, ih]
      split
      · rw [Option.map_some, expandTabs_cons_of_ne is_tab]
        rfl
      · cases controlEnd? rest with
        | none => rfl
        | some ended => rw [Option.map_some, Option.map_some, Option.map_some, Option.map_some, expandTabs_cons_of_ne is_tab]

private theorem head?_expandTabs : (expandTabs rest).head? = some 0x5C ↔ rest.head? = some 0x5C := by
  cases rest with
  | nil => rfl
  | cons unit rest =>
    by_cases is_tab : unit = tab
    · subst is_tab
      exact ⟨nofun, nofun⟩
    · rw [expandTabs_cons_of_ne is_tab]
      rfl

private theorem commandEnd?_expandTabs : commandEnd? (expandTabs rest) = (commandEnd? rest).map expandTabs := by
  induction rest with
  | nil => rfl
  | cons unit rest ih =>
    by_cases is_tab : unit = tab
    · subst is_tab
      have space (more : JsString) : commandEnd? (0x20 :: more) = (commandEnd? more).map (0x20 :: ·) := by
        rw [commandEnd?, if_neg (by decide), if_neg fun escape => absurd escape.1 (by decide)]
      rw [expandTabs_cons, if_pos rfl, threeSpaces, commandEnd?, if_neg (by decide),
        if_neg fun escape => esc_ne_tab escape.1.symm]
      simp only [List.cons_append, List.nil_append, space, ih]
      cases commandEnd? rest with
      | none => rfl
      | some ended => simp [expandTabs_cons, threeSpaces]
    · rw [expandTabs_cons_of_ne is_tab, commandEnd?, commandEnd?, ih]
      simp only [head?_expandTabs]
      split_ifs with bell string
      · rw [Option.map_some, expandTabs_cons_of_ne is_tab]
        rfl
      · obtain ⟨last, rest, rfl⟩ := List.exists_cons_of_ne_nil (l := rest) fun empty => by
          rw [empty] at string
          cases string.2
        obtain rfl := Option.some.inj string.2
        rw [Option.map_some, expandTabs_cons_of_ne is_tab, expandTabs_cons_of_ne (by decide)]
        rfl
      · cases commandEnd? rest with
        | none => rfl
        | some ended =>
          rw [Option.map_some, Option.map_some, Option.map_some, Option.map_some, expandTabs_cons_of_ne is_tab]

/-- Spaces in the place of tabs move no code. -/
theorem extractAnsiCode?_expandTabs :
    extractAnsiCode? (expandTabs text) = (extractAnsiCode? text).map expandTabs := by
  cases text with
  | nil => rfl
  | cons first rest =>
    by_cases is_esc : first = esc
    · subst is_esc
      rw [expandTabs_cons_of_ne esc_ne_tab]
      cases rest with
      | nil => rfl
      | cons next_ rest =>
        by_cases is_tab : next_ = tab
        · subst is_tab
          rw [expandTabs_cons, if_pos rfl, threeSpaces]
          rfl
        · rw [expandTabs_cons_of_ne is_tab, extractAnsiCode?, extractAnsiCode?, controlEnd?_expandTabs,
            commandEnd?_expandTabs]
          have both (ended : JsString) : expandTabs (esc :: next_ :: ended) = esc :: next_ :: expandTabs ended := by
            rw [expandTabs_cons_of_ne esc_ne_tab, expandTabs_cons_of_ne is_tab]
          split_ifs
          · rfl
          · rw [Option.map_map, Option.map_map]
            exact congrArg (Option.map · _) (funext fun ended => (both ended).symm)
          · rw [Option.map_map, Option.map_map]
            exact congrArg (Option.map · _) (funext fun ended => (both ended).symm)
          · rfl
    · rw [extractAnsiCode?_of_ne is_esc]
      by_cases is_tab : first = tab
      · rw [expandTabs_cons, if_pos is_tab, threeSpaces]
        exact extractAnsiCode?_of_ne (by decide)
      · rw [expandTabs_cons_of_ne is_tab, extractAnsiCode?_of_ne is_esc]
        rfl

theorem stripAnsi_expandTabs : stripAnsi (expandTabs text) = expandTabs (stripAnsi text) := by
  rw [stripAnsi, stripAnsi, ansiPieces, ansiPieces]
  induction text using (selfDelimiting).induction with
  | nil => rfl
  | marked code rest found ih =>
    have again : extractAnsiCode? (expandTabs code) = some (expandTabs code) := by
      rw [extractAnsiCode?_expandTabs, found]
      rfl
    rw [expandTabs_append, (selfDelimiting).pieces_append again, (selfDelimiting).pieces_append found, chars_mark,
      chars_mark, ih]
  | plain unit rest none_ ih =>
    rw [pieces_of_none none_, chars_char]
    by_cases is_tab : unit = tab
    · have space (more : JsString) : pieces extractAnsiCode? (0x20 :: more) =
          .char 0x20 :: pieces extractAnsiCode? more := pieces_of_none (extractAnsiCode?_of_ne (by decide))
      rw [expandTabs_cons, expandTabs_cons, if_pos is_tab, threeSpaces]
      simp only [List.cons_append, List.nil_append, space, chars_char, ih]
    · have none_' := @extractAnsiCode?_expandTabs (unit :: rest)
      rw [none_, expandTabs_cons_of_ne is_tab] at none_'
      rw [expandTabs_cons_of_ne is_tab, expandTabs_cons_of_ne is_tab, pieces_of_none none_', chars_char, ih]

end Tabs

section Columns

theorem segment_nil : unicode.segment [] = [] := by
  apply List.eq_nil_iff_forall_not_mem.mpr
  intro cluster member
  have flat := unicode.flatten_segment []
  rw [List.flatten_eq_nil_iff] at flat
  exact unicode.nonempty_of_segment [] cluster member (flat cluster member)

theorem graphemeWidth_printable (least : 0x20 ≤ unit) (most : unit ≤ 0x7E) :
    graphemeWidth unicode [unit] = 1 := by
  have value : codePoint [unit] = unit.toNat := rfl
  obtain ⟨visible, printing, single⟩ := unicode.printable unit.toNat (UInt16.le_iff_toNat_le.mp least)
    (UInt16.le_iff_toNat_le.mp most)
  have ascii : unit.toNat ≤ 0x7E := UInt16.le_iff_toNat_le.mp most
  have chars : characters [unit] = [[unit]] := rfl
  have emoji : couldBeEmoji [unit] = false := by
    have selector : (0xFE0F : CodeUnit) ≠ unit := by
      rintro rfl
      exact absurd ascii (by decide)
    simp only [couldBeEmoji, chars, List.headD_cons, value]
    simp [selector]
    omega
  rw [graphemeWidth, chars, if_neg, emoji]
  · simp only [Bool.false_and, Bool.false_eq_true, if_false, List.dropWhile_cons, value, printing, List.drop_one,
      List.tail_cons]
    rw [if_neg (by omega), single]
    rfl
  · simp [value, visible]

/-- Printable ASCII takes one column for each character. -/
theorem columns_ascii (ascii : isPrintableAscii text) : columns unicode text = text.length := by
  rw [columns, unicode.segment_ascii text ascii, List.map_map]
  have each : ∀ unit ∈ text, (graphemeWidth unicode ∘ ([·])) unit = 1 := by
    intro unit member
    have bounds := List.all_eq_true.mp ascii unit member
    rw [Bool.and_eq_true, decide_eq_true_iff, decide_eq_true_iff] at bounds
    exact graphemeWidth_printable bounds.1 bounds.2
  rw [List.map_congr_left each, List.map_const', List.sum_replicate_nat, Nat.mul_one]

theorem not_mem_of_ascii (ascii : isPrintableAscii text) (low : unit.toNat < 0x20) : unit ∉ text := by
  intro member
  have bounds := List.all_eq_true.mp ascii unit member
  rw [Bool.and_eq_true, decide_eq_true_iff, UInt16.le_iff_toNat_le] at bounds
  exact absurd bounds.1 (not_le.mpr low)

/-- What `visibleWidth` measures. -/
theorem visibleWidth_eq : visibleWidth unicode text = columns unicode (expandTabs (stripAnsi text)) := by
  rw [visibleWidth]
  by_cases empty : text = []
  · rw [if_pos empty, empty]
    show 0 = columns unicode []
    rw [columns, segment_nil]
    rfl
  rw [if_neg empty]
  by_cases ascii : isPrintableAscii text
  · rw [if_pos ascii, stripAnsi_of_not_mem (not_mem_of_ascii ascii (by decide)),
      expandTabs_of_not_mem (not_mem_of_ascii ascii (by decide)), columns_ascii ascii]
  · have tabs : (if text.contains tab then expandTabs text else text) = expandTabs text := by
      by_cases has : text.contains tab
      · rw [if_pos has]
      · rw [if_neg has, expandTabs_of_not_mem (by simpa using has)]
    have codes : (if (expandTabs text).contains esc then stripAnsi (expandTabs text) else expandTabs text) =
        stripAnsi (expandTabs text) := by
      by_cases has : (expandTabs text).contains esc
      · rw [if_pos has]
      · rw [if_neg has, stripAnsi_of_not_mem (by simpa using has)]
    rw [if_neg ascii]
    dsimp only
    rw [tabs, codes, stripAnsi_expandTabs]

end Columns

section Pieces

variable {line stretch : JsString} {ts : List Token}

def Token.pieces : Token → List (Piece CodeUnit)
  | .code text => [.mark text]
  | .cluster segment => segment.map .char

theorem render_pieces (token : Token) : render (Token.pieces token) = token.text := by
  cases token with
  | code text => exact List.append_nil _
  | cluster segment => exact render_map_char segment

theorem render_flatMap : render (ts.flatMap Token.pieces) = ts.flatMap Token.text := by
  induction ts with
  | nil => rfl
  | cons token ts ih => rw [List.flatMap_cons, render_append, render_pieces, ih, List.flatMap_cons]

theorem chars_flatMap : chars (ts.flatMap Token.pieces) = (ts.filterMap Token.cluster?).flatten := by
  induction ts with
  | nil => rfl
  | cons token ts ih =>
    rw [List.flatMap_cons, chars_append, ih]
    cases token with
    | code text => rfl
    | cluster segment => exact congrArg (· ++ _) (chars_map_char segment)

theorem flatMap_segments (text : JsString) :
    ((unicode.segment text).map Token.cluster).flatMap Token.pieces = text.map .char := by
  rw [List.flatMap_map]
  show (unicode.segment text).flatMap (fun segment => segment.map Piece.char) = _
  rw [← List.map_flatMap, List.flatMap_id', unicode.flatten_segment]

theorem flatMap_tokensFrom (pieces : List (Piece CodeUnit)) :
    (tokensFrom unicode stretch pieces).flatMap Token.pieces = stretch.map .char ++ pieces := by
  induction pieces generalizing stretch with
  | nil => rw [tokensFrom, flatMap_segments, List.append_nil]
  | cons piece pieces ih =>
    cases piece with
    | char unit =>
      rw [tokensFrom, ih, List.map_append, List.append_assoc]
      rfl
    | mark code =>
      rw [tokensFrom, List.flatMap_append, flatMap_segments, List.flatMap_cons, ih]
      rfl

theorem lexed_tokens : Lexed extractAnsiCode? ((tokens unicode line).flatMap Token.pieces) := by
  rw [tokens, flatMap_tokensFrom, List.map_nil, List.nil_append]
  exact (selfDelimiting).lexed_pieces line

end Pieces

section Simple

private theorem characters_cons_of_not {first : CodeUnit} (single : ¬isHighSurrogate first) :
    characters (first :: rest) = [first] :: characters rest := by
  cases rest with
  | nil => rfl
  | cons second rest => rw [characters, if_neg (by simp [single])]

private theorem not_mem_characters : [] ∉ characters text := by
  induction text using characters_induction with
  | nil => nofun
  | last unit => simp [characters]
  | pair first second rest pair ih => simp [characters, pair, ih]
  | single first second rest single ih => simp [characters, single, ih]

private theorem characters_ascii (ascii : isPrintableAscii text) : characters text = text.map ([·]) := by
  induction text with
  | nil => rfl
  | cons unit rest ih =>
    obtain ⟨bounds, ascii⟩ := (Bool.and_eq_true _ _).mp (List.all_cons.symm.trans ascii)
    rw [Bool.and_eq_true, decide_eq_true_iff, decide_eq_true_iff, UInt16.le_iff_toNat_le, UInt16.le_iff_toNat_le] at bounds
    rw [characters_cons_of_not, ih ascii, List.map_cons]
    have low : unit.toNat ≤ 0x7E := bounds.2
    rw [isHighSurrogate, Bool.and_eq_true, decide_eq_true_iff, UInt16.le_iff_toNat_le]
    intro high
    exact absurd (show 0xD800 ≤ unit.toNat from high.1) (by omega)

/-- An emoji presentation selector or a halfwidth voiced sound mark belongs to the character before it. -/
def joinExtenders : List JsString → List JsString
  | first :: second :: rest =>
    if second = [0xFE0F] ∨ second = [0xFF9E] then (first ++ second) :: joinExtenders rest
    else first :: joinExtenders (second :: rest)
  | rest => rest

private theorem joinExtenders_induction {motive : List JsString → Prop}
    (joined : ∀ first second rest, second = [0xFE0F] ∨ second = [0xFF9E] → motive rest → motive (first :: second :: rest))
    (apart : ∀ first second rest, ¬(second = [0xFE0F] ∨ second = [0xFF9E]) → motive (second :: rest) →
      motive (first :: second :: rest))
    (short : ∀ rest, (∀ first second tail, rest = first :: second :: tail → False) → motive rest)
    (parts : List JsString) : motive parts :=
  joinExtenders.induct motive joined apart short parts

private theorem joinExtenders_cons (first second : JsString) (rest : List JsString) :
    joinExtenders (first :: second :: rest) = if second = [0xFE0F] ∨ second = [0xFF9E] then
      (first ++ second) :: joinExtenders rest else first :: joinExtenders (second :: rest) := rfl

private theorem joinExtenders_short {rest : List JsString}
    (short : ∀ first second tail, rest = first :: second :: tail → False) : joinExtenders rest = rest := by
  match rest with
  | [] | [_] => rfl
  | first :: second :: tail => exact (short first second tail rfl).elim

private theorem flatten_joinExtenders (parts : List JsString) : (joinExtenders parts).flatten = parts.flatten := by
  induction parts using joinExtenders_induction with
  | joined first second rest extends_ ih => simp [joinExtenders_cons, extends_, ih]
  | apart first second rest other ih => simp [joinExtenders_cons, other, ih]
  | short rest short =>
    rw [joinExtenders_short short]

private theorem nonempty_of_joinExtenders {parts : List JsString} (nonempty : [] ∉ parts) : [] ∉ joinExtenders parts := by
  induction parts using joinExtenders_induction with
  | joined first second rest extends_ ih =>
    simp only [List.mem_cons, not_or] at nonempty
    rw [joinExtenders_cons, if_pos extends_, List.mem_cons, not_or]
    exact ⟨fun same => nonempty.1 (List.append_eq_nil_iff.mp same.symm).1.symm, ih nonempty.2.2⟩
  | apart first second rest other ih =>
    rw [List.mem_cons, not_or] at nonempty
    rw [joinExtenders_cons, if_neg other, List.mem_cons, not_or]
    exact ⟨nonempty.1, ih nonempty.2⟩
  | short rest short =>
    rwa [joinExtenders_short short]

private theorem joinExtenders_of_not_mem {parts : List JsString} (selector : [0xFE0F] ∉ parts) (mark : [0xFF9E] ∉ parts) :
    joinExtenders parts = parts := by
  induction parts using joinExtenders_induction with
  | joined first second rest extends_ _ =>
    rcases extends_ with rfl | rfl
    · exact absurd (by simp) selector
    · exact absurd (by simp) mark
  | apart first second rest other ih =>
    rw [joinExtenders_cons, if_neg other, ih (fun member => selector (List.mem_cons_of_mem _ member))
      fun member => mark (List.mem_cons_of_mem _ member)]
  | short rest short => exact joinExtenders_short short

/-- The library on texts whose characters are clusters of their own, but for presentation selectors and voiced sound
marks. Controls, the selector and the zero width space have no width, and the one emoji is a smiling face with its
selector. -/
def simple : Unicode where
  segment text := joinExtenders (characters text)
  isZeroWidth code := code < 0x20 || (0x7F ≤ code && code ≤ 0x9F) || code = 0x200B || code = 0xFE0F
  isNonPrinting code := code < 0x20 || (0x7F ≤ code && code ≤ 0x9F) || code = 0x200B || code = 0xFE0F
  isRgiEmoji segment := segment = [0x263A, 0xFE0F]
  eastAsianWidth _ := 1
  flatten_segment text := (flatten_joinExtenders _).trans (flatten_characters text)
  nonempty_of_segment text cluster member empty := nonempty_of_joinExtenders not_mem_characters (empty ▸ member)
  segment_ascii text ascii := by
    have absent {unit : CodeUnit} (high : ¬unit ≤ 0x7E) : [unit] ∉ text.map ([·]) := by
      intro member
      obtain ⟨_, inside, same⟩ := List.mem_map.mp member
      obtain rfl := (List.cons.inj same).1
      have bounds := List.all_eq_true.mp ascii _ inside
      rw [Bool.and_eq_true, decide_eq_true_iff, decide_eq_true_iff] at bounds
      exact high bounds.2
    rw [characters_ascii ascii, joinExtenders_of_not_mem (absent (by decide)) (absent (by decide))]
  printable code least most := by
    refine ⟨?_, ?_, rfl⟩
    all_goals
      simp
      omega

end Simple

end PieAgent.Model.Tui.TextWidth
