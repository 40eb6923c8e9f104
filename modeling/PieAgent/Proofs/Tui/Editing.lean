import PieAgent.Model.Tui.Editor

/-! # Editing a text whose units are rendered

When every unit of a text is rendered as a text that is not empty, editing the text and editing its rendering
agree as long as they delete the same and move equally far. What holds of the units that are put in holds of all
units that the editor keeps, and a yanked text stands before the cursor until another key is used.
-/

namespace PieAgent.Model.Tui.Editing

variable {α β : Type} (render : β → List α)

def Text.rendered (text : Text β) : Text α := ⟨text.before.flatMap render, text.after.flatMap render⟩

theorem Text.whole_rendered (text : Text β) : (text.rendered render).whole = text.whole.flatMap render :=
  List.flatMap_append.symm

/-! ## The kill ring -/

namespace KillRing

theorem peek?_map (ring : List (List β)) :
    peek? (ring.map (·.flatMap render)) = (peek? ring).map (·.flatMap render) := List.getLast?_map

theorem rotate_map (ring : List (List β)) :
    rotate (ring.map (·.flatMap render)) = (rotate ring).map (·.flatMap render) := by
  rw [rotate, rotate, List.getLast?_map]
  cases ring.getLast? with
  | none => rfl
  | some last =>
    dsimp only [Option.map_some]
    rw [List.length_map, apply_ite (List.map _), List.map_cons, List.map_dropLast]

private theorem push_of_ne_nil {text : List β} (nonempty : text ≠ []) (ring : List (List β)) (prepend accumulate : Bool) :
    push ring text prepend accumulate =
      match accumulate, ring.getLast? with
      | true, some last => ring.dropLast ++ [if prepend then text ++ last else last ++ text]
      | _, _ => ring ++ [text] := by
  cases text with
  | nil => exact absurd rfl nonempty
  | cons unit rest =>
    rw [push.eq_def]
    cases accumulate <;> cases ring.getLast? <;> rfl

variable {render}

theorem push_map (shows : ∀ unit, render unit ≠ []) (ring : List (List β)) (text : List β) (prepend accumulate : Bool) :
    push (ring.map (·.flatMap render)) (text.flatMap render) prepend accumulate =
      (push ring text prepend accumulate).map (·.flatMap render) := by
  cases text with
  | nil => rfl
  | cons unit rest =>
    have shown : (unit :: rest).flatMap render ≠ [] := by
      rw [List.flatMap_cons]
      exact List.append_ne_nil_of_left_ne_nil (shows unit) _
    rw [push_of_ne_nil shown, push_of_ne_nil (List.cons_ne_nil _ _), List.getLast?_map]
    cases accumulate with
    | false => simp only [List.map_append, List.map_cons, List.map_nil]
    | true =>
      cases ring.getLast? with
      | none => simp only [Option.map_none, List.map_append, List.map_cons, List.map_nil]
      | some last =>
        simp only [Option.map_some, List.map_append, List.map_dropLast, List.map_cons, List.map_nil]
        cases prepend <;> simp only [List.flatMap_append, if_true, if_false, Bool.false_eq_true]

theorem mem_push {ring : List (List β)} {text entry : List β} {prepend accumulate : Bool}
    (member : entry ∈ push ring text prepend accumulate) :
    entry ∈ ring ∨ ∀ unit ∈ entry, unit ∈ text ∨ ∃ other ∈ ring, unit ∈ other := by
  rw [push.eq_def] at member
  split at member
  · exact .inl member
  · next last _ found =>
    have last_ := List.mem_of_getLast? found
    rcases List.mem_append.mp member with kept | new
    · exact .inl (List.dropLast_subset _ kept)
    · refine .inr fun unit unit_ => ?_
      rw [List.mem_singleton] at new
      rw [new] at unit_
      split at unit_
      · exact (List.mem_append.mp unit_).imp_right fun old => ⟨last, last_, old⟩
      · exact (List.mem_append.mp unit_).symm.imp_right fun old => ⟨last, last_, old⟩
  · rcases List.mem_append.mp member with kept | new
    · exact .inl kept
    · rw [List.mem_singleton] at new
      exact .inr fun unit unit_ => .inl (new ▸ unit_)

theorem mem_rotate {ring : List (List β)} {entry : List β} (member : entry ∈ rotate ring) : entry ∈ ring := by
  rw [rotate.eq_def] at member
  split at member
  · next last found =>
    split at member
    · rcases List.mem_cons.mp member with rfl | kept
      · exact List.mem_of_getLast? found
      · exact List.dropLast_subset _ kept
    · exact member
  · exact member

end KillRing

/-! ## Rendering an editor -/

namespace Editor

/-- The editor of the rendered text. -/
def rendered (editor : Editor β) : Editor α where
  state := editor.state.rendered render
  killRing := editor.killRing.map (·.flatMap render)
  lastAction := editor.lastAction
  undoStack := editor.undoStack.map (Text.rendered render)
  history := editor.history
  historyIndex := editor.historyIndex

variable {editor : Editor β}

theorem rendered_insertTextAtCursorInternal (new : List β) :
    (editor.insertTextAtCursorInternal new).rendered render =
      (editor.rendered render).insertTextAtCursorInternal (new.flatMap render) := by
  simp only [rendered, insertTextAtCursorInternal, Text.rendered, List.flatMap_append]

theorem rendered_insertCharacter (new : List β) (whitespace : Bool) :
    (editor.insertCharacter new whitespace).rendered render =
      (editor.rendered render).insertCharacter (new.flatMap render) whitespace := by
  have same : (editor.rendered render).lastAction = editor.lastAction := rfl
  rw [insertCharacter, insertCharacter, rendered_insertTextAtCursorInternal, same]
  cases whitespace || editor.lastAction != some .typeWord <;> rfl

theorem rendered_addNewLine (newLine : List β) :
    (editor.addNewLine newLine).rendered render = (editor.rendered render).addNewLine (newLine.flatMap render) :=
  rendered_insertTextAtCursorInternal render newLine

private theorem isEmpty_flatMap {render : β → List α} (shows : ∀ unit, render unit ≠ []) (text : List β) :
    (text.flatMap render).isEmpty = text.isEmpty := by
  cases text with
  | nil => rfl
  | cons unit rest =>
    rw [List.flatMap_cons, List.isEmpty_cons, List.isEmpty_eq_false_iff]
    exact List.append_ne_nil_of_left_ne_nil (shows unit) _

private theorem flatMap_rdrop {count units : ℕ} {text : List β}
    (reach : units = ((text.rtake count).flatMap render).length) :
    (text.flatMap render).rdrop units = (text.rdrop count).flatMap render ∧
      (text.flatMap render).rtake units = (text.rtake count).flatMap render := by
  have split : text.flatMap render = (text.rdrop count).flatMap render ++ (text.rtake count).flatMap render := by
    rw [← List.flatMap_append, List.rdrop, List.rtake, List.take_append_drop]
  rw [split, reach, List.rdrop_append_length]
  refine ⟨rfl, ?_⟩
  rw [List.rtake, List.length_append, Nat.add_sub_cancel, List.drop_left]

private theorem flatMap_take {count units : ℕ} {text : List β}
    (reach : units = ((text.take count).flatMap render).length) :
    (text.flatMap render).take units = (text.take count).flatMap render ∧
      (text.flatMap render).drop units = (text.drop count).flatMap render := by
  have split : text.flatMap render = (text.take count).flatMap render ++ (text.drop count).flatMap render := by
    rw [← List.flatMap_append, List.take_append_drop]
  rw [split, reach, List.take_left, List.drop_left]
  exact ⟨rfl, rfl⟩

variable {render} {count units : ℕ}

theorem rendered_handleBackspace (shows : ∀ unit, render unit ≠ [])
    (reach : units = ((editor.state.before.rtake count).flatMap render).length) :
    (editor.handleBackspace count).rendered render = (editor.rendered render).handleBackspace units := by
  have empty : (editor.state.before.flatMap render).isEmpty = editor.state.before.isEmpty := isEmpty_flatMap shows _
  simp only [handleBackspace, rendered, Text.rendered, empty, pushUndoSnapshot]
  split
  · rfl
  · simp only [(flatMap_rdrop render reach).1, List.map_cons, Text.rendered]

theorem rendered_handleForwardDelete (shows : ∀ unit, render unit ≠ [])
    (reach : units = ((editor.state.after.take count).flatMap render).length) :
    (editor.handleForwardDelete count).rendered render = (editor.rendered render).handleForwardDelete units := by
  have empty : (editor.state.after.flatMap render).isEmpty = editor.state.after.isEmpty := isEmpty_flatMap shows _
  simp only [handleForwardDelete, rendered, Text.rendered, empty, pushUndoSnapshot]
  split
  · rfl
  · simp only [(flatMap_take render reach).2, List.map_cons, Text.rendered]

theorem rendered_deleteBackwards (shows : ∀ unit, render unit ≠ [])
    (reach : units = ((editor.state.before.rtake count).flatMap render).length) :
    (editor.deleteBackwards count).rendered render = (editor.rendered render).deleteBackwards units := by
  have empty : (editor.state.before.flatMap render).isEmpty = editor.state.before.isEmpty := isEmpty_flatMap shows _
  simp only [deleteBackwards, rendered, Text.rendered, empty, pushUndoSnapshot]
  split
  · rfl
  · rw [(flatMap_rdrop render reach).1, (flatMap_rdrop render reach).2, KillRing.push_map shows]
    rfl

theorem rendered_deleteForwards (shows : ∀ unit, render unit ≠ [])
    (reach : units = ((editor.state.after.take count).flatMap render).length) :
    (editor.deleteForwards count).rendered render = (editor.rendered render).deleteForwards units := by
  have empty : (editor.state.after.flatMap render).isEmpty = editor.state.after.isEmpty := isEmpty_flatMap shows _
  simp only [deleteForwards, rendered, Text.rendered, empty, pushUndoSnapshot]
  split
  · rfl
  · rw [(flatMap_take render reach).1, (flatMap_take render reach).2, KillRing.push_map shows]
    rfl

theorem rendered_moveCursor (reach : units = ((editor.state.whole.take count).flatMap render).length) :
    (editor.moveCursor count).rendered render = (editor.rendered render).moveCursor units := by
  have whole := editor.state.whole_rendered render
  obtain ⟨taken, dropped⟩ := flatMap_take render reach
  simp only [rendered, moveCursor, Text.rendered] at whole ⊢
  rw [whole, taken, dropped]

theorem rendered_yank : editor.yank.rendered render = (editor.rendered render).yank := by
  rw [yank, yank]
  dsimp only [rendered]
  rw [KillRing.peek?_map]
  cases KillRing.peek? editor.killRing with
  | none => rfl
  | some text =>
    have inserted := @rendered_insertTextAtCursorInternal _ _ render
      { editor.pushUndoSnapshot with historyIndex := -1 } text
    exact congrArg (fun next : Editor α => { next with lastAction := some LastAction.yank }) inserted

theorem rendered_undo : editor.undo.rendered render = (editor.rendered render).undo := by
  rw [undo, undo]
  dsimp only [rendered]
  cases editor.undoStack <;> rfl

theorem rendered_navigateHistory {ofText : JavaScript.JsString → List α} {ofText' : JavaScript.JsString → List β}
    (same : ∀ text, (ofText' text).flatMap render = ofText text) (older : Bool) :
    (editor.navigateHistory ofText' older).rendered render = (editor.rendered render).navigateHistory ofText older := by
  have recalled : ofText = fun text => (ofText' text).flatMap render := funext fun text => (same text).symm
  rw [navigateHistory, navigateHistory, recalled]
  dsimp only
  have index : (editor.rendered render).historyIndex = editor.historyIndex := rfl
  have history : (editor.rendered render).history = editor.history := rfl
  rw [index, history]
  generalize (if older then editor.historyIndex + 1 else editor.historyIndex - 1) = newIndex
  split_ifs <;> rfl

theorem rendered_addToHistory (text : JavaScript.JsString) :
    (editor.addToHistory text).rendered render = (editor.rendered render).addToHistory text := by
  have history : (editor.rendered render).history = editor.history := rfl
  rw [addToHistory, addToHistory, history]
  dsimp only
  split_ifs <;> rfl

/-! ## The yanked text -/

/-- Behind a yank, what the ring yields stands before the cursor. -/
def Yanked (editor : Editor β) : Prop :=
  editor.lastAction = some .yank → ∀ text, KillRing.peek? editor.killRing = some text → text <:+ editor.state.before

theorem yanked_of_ne (other : editor.lastAction ≠ some .yank) : editor.Yanked := fun yank => absurd yank other

theorem yanked_insertCharacter (new : List β) (whitespace : Bool) : (editor.insertCharacter new whitespace).Yanked :=
  yanked_of_ne (nomatch ·)

theorem yanked_addNewLine (newLine : List β) : (editor.addNewLine newLine).Yanked := yanked_of_ne (nomatch ·)

theorem yanked_handleBackspace (count : ℕ) : (editor.handleBackspace count).Yanked := by
  refine yanked_of_ne ?_
  simp only [handleBackspace]
  split <;> nofun

theorem yanked_handleForwardDelete (count : ℕ) : (editor.handleForwardDelete count).Yanked := by
  refine yanked_of_ne ?_
  simp only [handleForwardDelete]
  split <;> nofun

theorem Yanked.deleteBackwards (yanked : editor.Yanked) (count : ℕ) : (editor.deleteBackwards count).Yanked := by
  simp only [Editor.deleteBackwards]
  split
  · exact yanked
  · exact yanked_of_ne (nomatch ·)

theorem Yanked.deleteForwards (yanked : editor.Yanked) (count : ℕ) : (editor.deleteForwards count).Yanked := by
  simp only [Editor.deleteForwards]
  split
  · exact yanked
  · exact yanked_of_ne (nomatch ·)

theorem yanked_moveCursor (position : ℕ) : (editor.moveCursor position).Yanked := yanked_of_ne (nomatch ·)

theorem Yanked.yank (yanked : editor.Yanked) : editor.yank.Yanked := by
  cases found : KillRing.peek? editor.killRing with
  | none =>
    rw [Editor.yank, found]
    exact yanked
  | some text =>
    intro _ other same
    rw [Editor.yank, found] at same ⊢
    obtain rfl : text = other := Option.some.inj (found.symm.trans same)
    exact List.suffix_append _ _

theorem Yanked.yankPop (yanked : editor.Yanked) : editor.yankPop.Yanked := by
  rw [Editor.yankPop]
  split
  · exact yanked
  · dsimp only
    cases found : KillRing.peek? (KillRing.rotate editor.pushUndoSnapshot.deleteYankedText.killRing) with
    | none =>
      intro _ other same
      exact absurd (found.symm.trans same) nofun
    | some text =>
      intro _ other same
      obtain rfl : text = other := Option.some.inj (found.symm.trans same)
      exact List.suffix_append _ _

theorem Yanked.undo (yanked : editor.Yanked) : editor.undo.Yanked := by
  rw [Editor.undo]
  dsimp only
  cases editor.undoStack with
  | nil => exact yanked
  | cons snapshot undoStack => exact yanked_of_ne (nomatch ·)

theorem yanked_navigateHistory (ofText : JavaScript.JsString → List β) (older : Bool) :
    (editor.navigateHistory ofText older).Yanked := by
  refine yanked_of_ne ?_
  rw [navigateHistory]
  dsimp only
  generalize (if older then editor.historyIndex + 1 else editor.historyIndex - 1) = newIndex
  split_ifs <;> nofun

theorem Yanked.addToHistory (yanked : editor.Yanked) (text : JavaScript.JsString) :
    (editor.addToHistory text).Yanked := by
  rw [Editor.addToHistory]
  dsimp only
  split
  · exact yanked
  · exact yanked

theorem yanked_cleared : editor.cleared.Yanked := yanked_of_ne (nomatch ·)

/-- The yanked text is taken back whatever it is rendered as. -/
theorem rendered_deleteYankedText (yanked : editor.Yanked) (yank : editor.lastAction = some .yank) :
    editor.deleteYankedText.rendered render = (editor.rendered render).deleteYankedText := by
  rw [deleteYankedText, deleteYankedText]
  have peek : KillRing.peek? (editor.rendered render).killRing =
      (KillRing.peek? editor.killRing).map (·.flatMap render) := KillRing.peek?_map render _
  rw [peek]
  cases found : KillRing.peek? editor.killRing with
  | none => rfl
  | some text =>
    obtain ⟨front, before⟩ := yanked yank text found
    have shown : (editor.rendered render).state.before = front.flatMap render ++ text.flatMap render := by
      rw [← List.flatMap_append, before]
      rfl
    simp only [Option.map_some, shown, List.rdrop_append_length]
    rw [← before, List.rdrop_append_length]
    rfl

theorem rendered_yankPop (yanked : editor.Yanked) :
    editor.yankPop.rendered render = (editor.rendered render).yankPop := by
  have length : (editor.rendered render).killRing.length = editor.killRing.length := List.length_map _
  have last : (editor.rendered render).lastAction = editor.lastAction := rfl
  rw [yankPop, yankPop, length, last]
  split
  · rfl
  next pops =>
    obtain ⟨yank, _⟩ := not_or.mp pops
    have deleted : editor.pushUndoSnapshot.deleteYankedText.rendered render =
        (editor.rendered render).pushUndoSnapshot.deleteYankedText :=
      @rendered_deleteYankedText _ _ render editor.pushUndoSnapshot yanked (not_not.mp yank)
    rw [← deleted]
    generalize editor.pushUndoSnapshot.deleteYankedText = before
    dsimp only [rendered]
    rw [KillRing.rotate_map, KillRing.peek?_map]
    cases KillRing.peek? (KillRing.rotate before.killRing) with
    | none => rfl
    | some text =>
      have inserted := @rendered_insertTextAtCursorInternal _ _ render
        { before with historyIndex := -1, killRing := KillRing.rotate before.killRing } text
      exact congrArg (fun next : Editor α => { next with lastAction := some LastAction.yank }) inserted

/-! ## What holds of all units -/

/-- Every unit of the text, of the kill ring and of the texts to go back to satisfies the property. -/
structure Holds (property : β → Prop) (editor : Editor β) : Prop where
  state : ∀ unit ∈ editor.state.whole, property unit
  ring : ∀ entry ∈ editor.killRing, ∀ unit ∈ entry, property unit
  undo : ∀ text ∈ editor.undoStack, ∀ unit ∈ text.whole, property unit

variable {property : β → Prop}

theorem Holds.imp {weaker : β → Prop} (holds : editor.Holds property) (imp : ∀ unit, property unit → weaker unit) :
    editor.Holds weaker where
  state unit member := imp unit (holds.state unit member)
  ring entry entry_ unit member := imp unit (holds.ring entry entry_ unit member)
  undo text text_ unit member := imp unit (holds.undo text text_ unit member)

private theorem Holds.snapshot (holds : editor.Holds property) : ∀ text ∈ editor.state :: editor.undoStack,
    ∀ unit ∈ text.whole, property unit :=
  List.forall_mem_cons.mpr ⟨holds.state, holds.undo⟩

private theorem Holds.inserted (holds : editor.Holds property) {new : List β} (new_ : ∀ unit ∈ new, property unit) :
    ∀ unit ∈ (editor.state.before ++ new) ++ editor.state.after, property unit := by
  intro unit member
  rcases List.mem_append.mp member with front | after
  · rcases List.mem_append.mp front with before | inserted
    · exact holds.state unit (List.mem_append_left _ before)
    · exact new_ unit inserted
  · exact holds.state unit (List.mem_append_right _ after)

private theorem Holds.deleted (holds : editor.Holds property) {before after : List β}
    (front : before ⊆ editor.state.before) (back : after ⊆ editor.state.after) :
    ∀ unit ∈ before ++ after, property unit := by
  intro unit member
  rcases List.mem_append.mp member with member | member
  · exact holds.state unit (List.mem_append_left _ (front member))
  · exact holds.state unit (List.mem_append_right _ (back member))

private theorem Holds.push (holds : editor.Holds property) {text : List β} (killed : ∀ unit ∈ text, property unit)
    (prepend accumulate : Bool) :
    ∀ entry ∈ KillRing.push editor.killRing text prepend accumulate, ∀ unit ∈ entry, property unit := by
  intro entry entry_ unit member
  rcases KillRing.mem_push entry_ with kept | units
  · exact holds.ring entry kept unit member
  · rcases units unit member with new | ⟨other, other_, old⟩
    · exact killed unit new
    · exact holds.ring other other_ unit old

private theorem rdrop_subset (text : List β) (count : ℕ) : text.rdrop count ⊆ text := List.take_subset _ _

private theorem rtake_subset (text : List β) (count : ℕ) : text.rtake count ⊆ text := List.drop_subset _ _

theorem Holds.insertTextAtCursorInternal (holds : editor.Holds property) {new : List β}
    (new_ : ∀ unit ∈ new, property unit) : (editor.insertTextAtCursorInternal new).Holds property :=
  ⟨holds.inserted new_, holds.ring, holds.undo⟩

theorem Holds.pushUndoSnapshot (holds : editor.Holds property) : editor.pushUndoSnapshot.Holds property :=
  ⟨holds.state, holds.ring, holds.snapshot⟩

theorem Holds.insertCharacter (holds : editor.Holds property) {new : List β} (new_ : ∀ unit ∈ new, property unit)
    (whitespace : Bool) : (editor.insertCharacter new whitespace).Holds property := by
  rw [Editor.insertCharacter]
  cases whitespace || editor.lastAction != some .typeWord with
  | false => exact ⟨holds.inserted new_, holds.ring, holds.undo⟩
  | true => exact ⟨holds.inserted new_, holds.ring, holds.snapshot⟩

theorem Holds.addNewLine (holds : editor.Holds property) {newLine : List β} (new_ : ∀ unit ∈ newLine, property unit) :
    (editor.addNewLine newLine).Holds property :=
  ⟨holds.inserted new_, holds.ring, holds.snapshot⟩

theorem Holds.handleBackspace (holds : editor.Holds property) (count : ℕ) :
    (editor.handleBackspace count).Holds property := by
  simp only [Editor.handleBackspace]
  split
  · exact ⟨holds.state, holds.ring, holds.undo⟩
  · exact ⟨holds.deleted (rdrop_subset _ _) (List.Subset.refl _), holds.ring, holds.snapshot⟩

theorem Holds.handleForwardDelete (holds : editor.Holds property) (count : ℕ) :
    (editor.handleForwardDelete count).Holds property := by
  simp only [Editor.handleForwardDelete]
  split
  · exact ⟨holds.state, holds.ring, holds.undo⟩
  · exact ⟨holds.deleted (List.Subset.refl _) (List.drop_subset _ _), holds.ring, holds.snapshot⟩

theorem Holds.deleteBackwards (holds : editor.Holds property) (count : ℕ) :
    (editor.deleteBackwards count).Holds property := by
  simp only [Editor.deleteBackwards]
  split
  · exact ⟨holds.state, holds.ring, holds.undo⟩
  · have killed := fun unit member => holds.state unit (List.mem_append_left _ (rtake_subset _ count member))
    exact ⟨holds.deleted (rdrop_subset _ _) (List.Subset.refl _), holds.push killed _ _, holds.snapshot⟩

theorem Holds.deleteForwards (holds : editor.Holds property) (count : ℕ) :
    (editor.deleteForwards count).Holds property := by
  simp only [Editor.deleteForwards]
  split
  · exact ⟨holds.state, holds.ring, holds.undo⟩
  · have killed := fun unit member => holds.state unit (List.mem_append_right _ (List.take_subset count _ member))
    exact ⟨holds.deleted (List.Subset.refl _) (List.drop_subset _ _), holds.push killed _ _, holds.snapshot⟩

theorem Holds.moveCursor (holds : editor.Holds property) (position : ℕ) :
    (editor.moveCursor position).Holds property := by
  refine ⟨fun unit member => holds.state unit ?_, holds.ring, holds.undo⟩
  have whole : (editor.moveCursor position).state.whole = editor.state.whole := List.take_append_drop _ _
  exact whole ▸ member

theorem Holds.yank (holds : editor.Holds property) : editor.yank.Holds property := by
  rw [Editor.yank]
  cases found : KillRing.peek? editor.killRing with
  | none => exact holds
  | some text => exact ⟨holds.inserted (holds.ring text (List.mem_of_getLast? found)), holds.ring, holds.snapshot⟩

theorem Holds.deleteYankedText (holds : editor.Holds property) : editor.deleteYankedText.Holds property := by
  rw [Editor.deleteYankedText]
  cases KillRing.peek? editor.killRing with
  | none => exact holds
  | some text => exact ⟨holds.deleted (rdrop_subset _ _) (List.Subset.refl _), holds.ring, holds.undo⟩

theorem Holds.yankPop (holds : editor.Holds property) : editor.yankPop.Holds property := by
  rw [Editor.yankPop]
  split
  · exact holds
  · have deleted := holds.pushUndoSnapshot.deleteYankedText
    generalize editor.pushUndoSnapshot.deleteYankedText = before at deleted
    have rotated : ∀ entry ∈ KillRing.rotate before.killRing, ∀ unit ∈ entry, property unit := fun entry member =>
      deleted.ring entry (KillRing.mem_rotate member)
    dsimp only
    cases found : KillRing.peek? (KillRing.rotate before.killRing) with
    | none => exact ⟨deleted.state, rotated, deleted.undo⟩
    | some text => exact ⟨deleted.inserted (rotated text (List.mem_of_getLast? found)), rotated, deleted.undo⟩

theorem Holds.undo_ (holds : editor.Holds property) : editor.undo.Holds property := by
  rw [Editor.undo]
  cases stack : editor.undoStack with
  | nil => exact ⟨holds.state, holds.ring, nofun⟩
  | cons snapshot undoStack =>
    obtain ⟨top, below⟩ := List.forall_mem_cons.mp (stack ▸ holds.undo)
    exact ⟨top, holds.ring, below⟩

theorem Holds.navigateHistory (holds : editor.Holds property) {ofText : JavaScript.JsString → List β}
    (recalled : ∀ text, ∀ unit ∈ ofText text, property unit) (older : Bool) :
    (editor.navigateHistory ofText older).Holds property := by
  rw [Editor.navigateHistory]
  dsimp only
  generalize (if older then editor.historyIndex + 1 else editor.historyIndex - 1) = newIndex
  have text_ (text : JavaScript.JsString) : ∀ unit ∈ (⟨ofText text, []⟩ : Text β).whole, property unit := by
    rw [Text.whole, List.append_nil]
    exact recalled text
  split_ifs
  · exact ⟨holds.state, holds.ring, holds.undo⟩
  · exact ⟨nofun, holds.ring, holds.snapshot⟩
  · exact ⟨nofun, holds.ring, holds.undo⟩
  · exact ⟨text_ _, holds.ring, holds.snapshot⟩
  · exact ⟨text_ _, holds.ring, holds.undo⟩

theorem Holds.addToHistory (holds : editor.Holds property) (text : JavaScript.JsString) :
    (editor.addToHistory text).Holds property := by
  rw [Editor.addToHistory]
  dsimp only
  split <;> exact ⟨holds.state, holds.ring, holds.undo⟩

theorem Holds.cleared (holds : editor.Holds property) : editor.cleared.Holds property := ⟨nofun, holds.ring, nofun⟩

theorem holds_initial : (initial : Editor β).Holds property := ⟨nofun, nofun, nofun⟩

end Editor

end PieAgent.Model.Tui.Editing
