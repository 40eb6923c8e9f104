import PieAgent.Model.Tui.TextWidth

/-! # The rows of the feed

A paragraph is broken at the last space that fits, and a word that is longer than a row wherever the row is full.
-/

namespace PieAgent.Model.Feed

open JavaScript Tui.TextWidth

section Widths

variable (unicode : Unicode)

/-- Control characters have no width, not even a tab. -/
def charWidth (ch : JsString) : ℕ :=
  let cp := codePoint ch
  if cp < 0x20 ∨ (0x7F ≤ cp ∧ cp ≤ 0x9F) then 0
  else if cp < 0x7F then 1
  else visibleWidth unicode ch

/-- The widths of the characters, added up. -/
def strWidth (s : JsString) : ℕ := ((characters s).map (charWidth unicode)).sum

end Widths

def trimStartSpaces (s : JsString) : JsString := s.dropWhile (· == 0x20)

/-- `String.prototype.trimEnd`. -/
def trimEnd (text : JsString) : JsString := text.rdropWhile fun unit => isWhitespace unit.toNat

/-- The state of the loop: the rows that are complete, the row that is being filled with its width, and the place behind
its last space. -/
structure Wrapping where
  rows : List JsString
  cur : JsString
  curW : ℕ
  lastSpace : Option ℕ

variable (unicode : Unicode)

/-- The row is full: it is broken at its last space, or as a whole. -/
def breakRow (st : Wrapping) : Wrapping :=
  match st.lastSpace with
  | some bp =>
    let rest := trimStartSpaces (st.cur.drop bp)
    { rows := st.rows ++ [trimEnd (st.cur.take bp)], cur := rest, curW := strWidth unicode rest, lastSpace := none }
  | none => { rows := st.rows ++ [st.cur], cur := [], curW := 0, lastSpace := none }

/-- The character is appended to the row. -/
def pushChar (st : Wrapping) (ch : JsString) : Wrapping :=
  let cur := st.cur ++ ch
  { st with cur, curW := st.curW + charWidth unicode ch
            lastSpace := if ch = js " " then some cur.length else st.lastSpace }

def wrapChar (w : ℕ) (st : Wrapping) (ch : JsString) : Wrapping :=
  if w < st.curW + charWidth unicode ch ∧ st.cur ≠ [] then pushChar unicode (breakRow unicode st) ch
  else pushChar unicode st ch

def wrapStr (text : JsString) (width : ℕ) : List JsString :=
  let w := max width 1
  if text = [] then [[]]
  else
    let last := (characters text).foldl (wrapChar unicode w) ⟨[], [], 0, none⟩
    last.rows ++ [last.cur]

end PieAgent.Model.Feed
