import PieAgent.Model.Session.Transcript

/-! # The context of a path, piece by piece

The last compaction splits a path: before it only the entries from the first kept one on count, after it all
of them. Settings are those of the last entry that sets one.
-/

namespace PieAgent.Proofs

open JavaScript PieAgent.Model.Transcript

variable {path front back cut kept labels : List Json} {compaction entry : Json}

theorem contextMessages_append (front back : List Json) :
    contextMessages (front ++ back) = contextMessages front ++ contextMessages back :=
  List.filterMap_append

theorem lastSet?_append {α : Type} (set? : Json → Option α) (front back : List Json) :
    lastSet? set? (front ++ back) = (lastSet? set? back).or (lastSet? set? front) := by
  rw [lastSet?, List.reverse_append, List.findSome?_append]
  rfl

/-- A path has no compaction, or a last one. -/
theorem compaction_cases (path : List Json) : (∀ entry ∈ path, isCompaction entry = false) ∨
    ∃ front compaction back, path = front ++ compaction :: back ∧ isCompaction compaction = true ∧
      ∀ entry ∈ back, isCompaction entry = false := by
  cases found : path.reverse.find? isCompaction with
  | none => exact .inl fun entry member => by simpa using List.find?_eq_none.mp found entry (List.mem_reverse.mpr member)
  | some compaction =>
    obtain ⟨holds, behind, before, split, others⟩ := List.find?_eq_some_iff_append.mp found
    refine .inr ⟨before.reverse, compaction, behind.reverse, ?_, holds, fun entry member => ?_⟩
    · rw [← List.reverse_reverse path, split]
      simp
    · simpa using others entry (List.mem_reverse.mp member)

theorem find?_compaction_none (none_ : ∀ entry ∈ path, isCompaction entry = false) :
    path.reverse.find? isCompaction = none :=
  List.find?_eq_none.mpr fun entry member => by simp [none_ entry (List.mem_reverse.mp member)]

theorem find?_compaction_last (holds : isCompaction compaction = true)
    (none_ : ∀ entry ∈ back, isCompaction entry = false) :
    (front ++ compaction :: back).reverse.find? isCompaction = some compaction := by
  simp [List.find?_append, find?_compaction_none none_, holds]

theorem messages_none (none_ : ∀ entry ∈ path, isCompaction entry = false) :
    (pathContext path).messages = contextMessages path := by
  simp only [pathContext, find?_compaction_none none_]

theorem messages_last (distinct : ((front ++ compaction :: back).map (·.get? (js "id"))).Nodup)
    (holds : isCompaction compaction = true) (none_ : ∀ entry ∈ back, isCompaction entry = false) :
    (pathContext (front ++ compaction :: back)).messages =
      compactionSummary compaction :: contextMessages (fromFirstKept compaction front) ++ contextMessages back := by
  have index : (front ++ compaction :: back).findIdx (fun entry => isCompaction entry &&
      entry.get? (js "id") == compaction.get? (js "id")) = front.length := by
    rw [List.findIdx_append, if_neg, List.findIdx_cons]
    · simp [holds]
    · rw [List.findIdx_lt_length]
      rintro ⟨entry, member, same⟩
      rw [List.map_append, List.map_cons, List.nodup_append] at distinct
      simp only [Bool.and_eq_true, beq_iff_eq] at same
      exact distinct.2.2 _ (List.mem_map_of_mem member) _ List.mem_cons_self same.2
  simp only [pathContext, find?_compaction_last holds none_, index]
  simp

theorem isCompaction_of_isLabel (label : isLabel entry = true) : isCompaction entry = false := by
  simp only [isLabel, decide_eq_true_eq] at label
  simp only [isCompaction, label]
  decide

private theorem set_label (label : isLabel entry = true) :
    contextMessage? entry = none ∧ thinkingLevel? entry = none ∧ model? entry = none := by
  simp only [isLabel, decide_eq_true_eq] at label
  have others : js "label" ≠ js "message" ∧ js "label" ≠ js "custom_message" ∧ js "label" ≠ js "branch_summary" ∧
    js "label" ≠ js "thinking_level_change" ∧ js "label" ≠ js "model_change" := by decide
  simp [contextMessage?, thinkingLevel?, model?, isAssistant, label, others]

private theorem lastSet?_labels {α : Type} {set? : Json → Option α} (nothing : ∀ entry ∈ labels, set? entry = none) :
    lastSet? set? labels = none :=
  List.findSome?_eq_none_iff.mpr fun entry member => nothing entry (List.mem_reverse.mp member)

/-- Labels at the end of a path add nothing to its context. -/
theorem pathContext_append_labels (distinct : ((path ++ labels).map (·.get? (js "id"))).Nodup)
    (all : ∀ entry ∈ labels, isLabel entry = true) : pathContext (path ++ labels) = pathContext path := by
  have silent : contextMessages labels = [] :=
    List.filterMap_eq_nil_iff.mpr fun entry member => (set_label (all entry member)).1
  have messages : (pathContext (path ++ labels)).messages = (pathContext path).messages := by
    have others : ∀ entry ∈ labels, isCompaction entry = false := fun entry member =>
      isCompaction_of_isLabel (all entry member)
    rcases compaction_cases path with none_ | ⟨front, compaction, back, rfl, holds, none_⟩
    · rw [messages_none none_, messages_none (List.forall_mem_append.mpr ⟨none_, others⟩), contextMessages_append, silent,
        List.append_nil]
    · rw [messages_last (distinct.sublist ((List.sublist_append_left _ _).map _)) holds none_]
      rw [List.append_assoc, List.cons_append] at distinct ⊢
      rw [messages_last distinct holds (List.forall_mem_append.mpr ⟨none_, others⟩), contextMessages_append, silent,
        List.append_nil]
  have thinking := lastSet?_labels fun entry member => (set_label (all entry member)).2.1
  have model := lastSet?_labels fun entry member => (set_label (all entry member)).2.2
  refine SessionContext.ext messages ?_ ?_
  · simp only [pathContext, lastSet?_append, thinking, Option.none_or]
  · simp only [pathContext, lastSet?_append, model, Option.none_or]

/-- Whether entries at the front of a path add nothing to the context of the rest. -/
structure AddsNothing (cut kept : List Json) : Prop where
  messages : match kept.reverse.find? isCompaction with
    | none => (∀ entry ∈ cut, isCompaction entry = false) ∧ contextMessages cut = []
    | some compaction => fromFirstKept compaction cut ≠ [] →
      contextMessages (fromFirstKept compaction cut) = [] ∧ contextMessages (kept.takeWhile (· ≠ compaction)) = []
  thinkingLevel : lastSet? thinkingLevel? kept = none →
    (lastSet? thinkingLevel? cut).getD SessionContext.empty.thinkingLevel = SessionContext.empty.thinkingLevel
  model : lastSet? model? kept = none → lastSet? model? cut = none

private theorem fromFirstKept_append (compaction : Json) (cut front : List Json) :
    fromFirstKept compaction (cut ++ front) = if fromFirstKept compaction cut = [] then fromFirstKept compaction front
      else fromFirstKept compaction cut ++ front := by
  rw [fromFirstKept, List.dropWhile_append]
  refine if_congr List.isEmpty_iff rfl rfl

/-- The first kept entry stands in one part of a path only. -/
private theorem fromFirstKept_eq_nil (distinct : ((cut ++ front).map (·.get? (js "id"))).Nodup)
    (kept : fromFirstKept compaction cut ≠ []) : fromFirstKept compaction front = [] := by
  simp only [fromFirstKept, ne_eq, List.dropWhile_eq_nil_iff, decide_eq_true_eq, not_forall, not_not] at kept ⊢
  obtain ⟨entry, member, names⟩ := kept
  intro other inFront same
  rw [List.map_append, List.nodup_append] at distinct
  exact distinct.2.2 _ (List.mem_map_of_mem member) _ (List.mem_map_of_mem inFront) (names.trans same.symm)

private theorem takeWhile_ne (fresh : compaction ∉ front) :
    (front ++ compaction :: back).takeWhile (· ≠ compaction) = front := by
  rw [List.takeWhile_append_of_pos, List.takeWhile_cons_of_neg (by simp), List.append_nil]
  intro entry member
  simpa using ne_of_mem_of_not_mem member fresh

private theorem messages_iff (distinct : ((cut ++ kept).map (·.get? (js "id"))).Nodup) :
    (pathContext kept).messages = (pathContext (cut ++ kept)).messages ↔
      match kept.reverse.find? isCompaction with
      | none => (∀ entry ∈ cut, isCompaction entry = false) ∧ contextMessages cut = []
      | some compaction => fromFirstKept compaction cut ≠ [] →
        contextMessages (fromFirstKept compaction cut) = [] ∧
          contextMessages (kept.takeWhile (· ≠ compaction)) = [] := by
  rcases compaction_cases kept with none_ | ⟨front, compaction, back, rfl, holds, none_⟩
  · rw [find?_compaction_none none_, messages_none none_]
    dsimp only
    rcases compaction_cases cut with noneCut | ⟨before, compaction, after, rfl, holds, noneAfter⟩
    · rw [messages_none (List.forall_mem_append.mpr ⟨noneCut, none_⟩), contextMessages_append, List.self_eq_append_left]
      exact ⟨fun nothing => ⟨noneCut, nothing⟩, And.right⟩
    · rw [List.append_assoc, List.cons_append] at distinct ⊢
      rw [messages_last distinct holds (List.forall_mem_append.mpr ⟨noneAfter, none_⟩), contextMessages_append]
      constructor
      · intro same
        have lengths := congrArg List.length same
        simp only [List.length_append, List.length_cons] at lengths
        omega
      · rintro ⟨noneAll, _⟩
        rw [noneAll compaction (by simp)] at holds
        cases holds
  · have whole : cut ++ (front ++ compaction :: back) = (cut ++ front) ++ compaction :: back := by simp
    rw [whole] at distinct ⊢
    have inner : ((front ++ compaction :: back).map (·.get? (js "id"))).Nodup :=
      distinct.sublist ((by simp : (front ++ compaction :: back).Sublist _).map _)
    rw [find?_compaction_last holds none_, messages_last distinct holds none_, messages_last inner holds none_]
    dsimp only
    have fresh : compaction ∉ front := fun member => by
      rw [List.map_append, List.map_cons, List.nodup_append] at inner
      exact inner.2.2 _ (List.mem_map_of_mem member) _ List.mem_cons_self rfl
    rw [takeWhile_ne fresh, List.append_cancel_right_eq, List.cons.injEq, and_iff_right rfl, fromFirstKept_append]
    split
    · next nothing => exact iff_of_true rfl fun some_ => absurd nothing some_
    · next some_ =>
      rw [fromFirstKept_eq_nil (distinct.sublist ((List.sublist_append_left _ _).map _)) some_, contextMessages_append]
      simp [contextMessages, some_]

/-- The front of a path can be left out exactly when it adds nothing to the context of the rest. -/
theorem pathContext_eq_iff (distinct : ((cut ++ kept).map (·.get? (js "id"))).Nodup) :
    pathContext kept = pathContext (cut ++ kept) ↔ AddsNothing cut kept := by
  have thinking : (pathContext kept).thinkingLevel = (pathContext (cut ++ kept)).thinkingLevel ↔
      (lastSet? thinkingLevel? kept = none →
        (lastSet? thinkingLevel? cut).getD SessionContext.empty.thinkingLevel = SessionContext.empty.thinkingLevel) := by
    simp only [pathContext, lastSet?_append]
    cases lastSet? thinkingLevel? kept with
    | none => simp [SessionContext.empty, eq_comm]
    | some level => simp
  have model : (pathContext kept).model = (pathContext (cut ++ kept)).model ↔
      (lastSet? model? kept = none → lastSet? model? cut = none) := by
    simp only [pathContext, lastSet?_append]
    cases lastSet? model? kept <;> simp [eq_comm]
  rw [SessionContext.ext_iff, messages_iff distinct, thinking, model]
  exact ⟨fun ⟨messages, thinkingLevel, model⟩ => ⟨messages, thinkingLevel, model⟩,
    fun nothing => ⟨nothing.messages, nothing.thinkingLevel, nothing.model⟩⟩

end PieAgent.Proofs
