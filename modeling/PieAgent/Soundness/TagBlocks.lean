import PieAgent.Model.Triggers.Promotion

/-! # The last block of a reply

A job's notes for its next run are in the last complete block of its reply. `extractTagBlock` looks behind the last
opening tag only: when that one is not closed, an earlier complete block is lost.
-/

namespace PieAgent.Soundness.TagBlocks

open JavaScript Model LoopProtocol

variable {text tag front back content : JsString}

/-- A complete block: its opening tag stands behind `front`, and its content ends at the first closing tag. -/
def Block (text tag front content : JsString) : Prop :=
  ∃ back, text = front ++ openTag tag ++ content ++ closeTag tag ++ back ∧
    ¬closeTag tag <:+: (content ++ closeTag tag).dropLast

/-- The complete block that begins behind all others. -/
structure LastBlock (text tag front content : JsString) : Prop where
  block : Block text tag front content
  last : ∀ front' content', Block text tag front' content' → front'.length ≤ front.length

/-- What the extraction has to return: the trimmed content of the last complete block, and nothing when there is none. -/
structure ReturnsLast (text tag : JsString) (result : Option JsString) : Prop where
  some_ : (∃ front content, Block text tag front content) →
    ∃ front content, LastBlock text tag front content ∧ result = some (trim content)
  none_ : (∀ front content, ¬Block text tag front content) → result = none

/-- Every opening tag has a closing tag behind it, or none has. -/
def ClosedAlike (text tag : JsString) : Prop :=
  (∀ front back, text = front ++ openTag tag ++ back → closeTag tag <:+: back) ∨
    ∀ front back, text = front ++ openTag tag ++ back → ¬closeTag tag <:+: back

private theorem closeTag_ne_nil (tag : JsString) : closeTag tag ≠ [] := by
  intro empty
  have length := congrArg List.length empty
  simp [closeTag, js, ofText, utf16] at length

/-- A complete block is an opening tag with a closing tag behind it. -/
private theorem exists_block_iff : (∃ front content, Block text tag front content) ↔
    ∃ front back, text = front ++ openTag tag ++ back ∧ closeTag tag <:+: back := by
  constructor
  · rintro ⟨front, content, back, rfl, -⟩
    refine ⟨front, content ++ closeTag tag ++ back, by simp, ⟨content, back, rfl⟩⟩
  · rintro ⟨front, back, rfl, closed⟩
    cases found : cut? (closeTag tag) back with
    | none => exact absurd closed (cut?_eq_none.mp found)
    | some place =>
      obtain ⟨same, first⟩ := (cut?_eq_some (closeTag_ne_nil tag)).mp found
      refine ⟨front, place.1, place.2, ?_, first⟩
      rw [same]
      simp

/-- Behind the last opening tag, the first closing tag ends the last complete block. -/
private theorem lastBlock_of_cuts {rest back : JsString} (opened : lastCut? (openTag tag) text = some (front, rest))
    (closed : cut? (closeTag tag) rest = some (content, back)) : LastBlock text tag front content := by
  obtain ⟨same, first⟩ := (cut?_eq_some (closeTag_ne_nil tag)).mp closed
  refine ⟨⟨back, ?_, first⟩, ?_⟩
  · rw [eq_of_lastCut? opened, same]
    simp
  · rintro front' content' ⟨back', place, -⟩
    have behind : text = front' ++ openTag tag ++ (content' ++ closeTag tag ++ back') := by
      rw [place]
      simp
    exact le_of_lastCut? opened behind

private theorem extractTagBlock_of_cuts {rest back : JsString}
    (opened : lastCut? (openTag tag) text = some (front, rest))
    (closed : cut? (closeTag tag) rest = some (content, back)) : extractTagBlock text tag = some (trim content) := by
  rw [extractTagBlock, opened]
  dsimp only
  rw [closed]

/-- What stands behind the last opening tag stands behind every opening tag. -/
private theorem suffix_of_lastCut? {rest : JsString} (opened : lastCut? (openTag tag) text = some (front, rest))
    {before behind : JsString} (place : text = before ++ openTag tag ++ behind) : rest <:+ behind := by
  have earlier := le_of_lastCut? opened place
  have whole : rest <:+ text := ⟨front ++ openTag tag, (eq_of_lastCut? opened).symm⟩
  have lengths := congrArg List.length ((eq_of_lastCut? opened).symm.trans place)
  simp only [List.length_append] at lengths
  exact List.suffix_of_suffix_length_le whole ⟨before ++ openTag tag, place.symm⟩ (by omega)

/-- The extraction returns nothing when the last opening tag is not closed. -/
private theorem extractTagBlock_eq_none (unclosed : ∀ front rest, lastCut? (openTag tag) text = some (front, rest) →
    ¬closeTag tag <:+: rest) : extractTagBlock text tag = none := by
  unfold extractTagBlock
  split
  · rfl
  next opened => rw [cut?_eq_none.mpr (unclosed _ _ opened)]

/-- `extractTagBlock` returns the content of the last complete block exactly when the opening tags of the text are all
closed or all unclosed. -/
theorem returnsLast_iff (text tag : JsString) :
    ReturnsLast text tag (extractTagBlock text tag) ↔ ClosedAlike text tag := by
  constructor
  · intro returns
    by_contra mixed
    obtain ⟨notAll, notNone⟩ := not_or.mp mixed
    push Not at notAll notNone
    obtain ⟨front, back, place, unclosed⟩ := notAll
    obtain ⟨_, _, _, result⟩ := returns.some_ (exists_block_iff.mpr notNone)
    rw [extractTagBlock_eq_none] at result
    · cases result
    · exact fun _ rest opened closed => unclosed (closed.trans (suffix_of_lastCut? opened place).isInfix)
  · rintro (closed | unclosed)
    · cases opened : lastCut? (openTag tag) text with
      | none =>
        have absent := lastCut?_eq_none.mp opened
        refine ⟨fun blocks => ?_, fun _ => ?_⟩
        · obtain ⟨front, back, place, -⟩ := (exists_block_iff).mp blocks
          exact absurd ⟨front, back, place.symm⟩ absent
        · exact extractTagBlock_eq_none fun _ _ opened' => by rw [opened] at opened'; cases opened'
      | some place =>
        have ends := closed _ _ (eq_of_lastCut? opened)
        cases found : cut? (closeTag tag) place.2 with
        | none => exact absurd ends (cut?_eq_none.mp found)
        | some cut =>
          have last := lastBlock_of_cuts opened found
          refine ⟨fun _ => ⟨_, _, last, extractTagBlock_of_cuts opened found⟩, fun none_ => ?_⟩
          exact absurd last.block (none_ _ _)
    · refine ⟨fun blocks => ?_, fun _ => ?_⟩
      · obtain ⟨front, back, place, closed⟩ := (exists_block_iff).mp blocks
        exact absurd closed (unclosed _ _ place)
      · exact extractTagBlock_eq_none fun _ _ opened => unclosed _ _ (eq_of_lastCut? opened)

/-- An unclosed tag at the end of a reply hides the notes before it. -/
theorem loses_notes : ¬∀ text tag, ReturnsLast text tag (extractTagBlock text tag) := by
  intro returns
  have closed : Block (js "<loop-state>seen: a</loop-state> <loop-state>") (js "loop-state") [] (js "seen: a") :=
    ⟨js " <loop-state>", by decide_cbv, by decide +kernel⟩
  obtain ⟨_, _, _, result⟩ := (returns _ _).some_ ⟨_, _, closed⟩
  have lost : extractTagBlock (js "<loop-state>seen: a</loop-state> <loop-state>") (js "loop-state") = none := by
    decide
  rw [lost] at result
  cases result

end PieAgent.Soundness.TagBlocks
