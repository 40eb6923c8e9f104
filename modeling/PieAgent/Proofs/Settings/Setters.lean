import PieAgent.Proofs.Settings.MergedSettings

/-! # What setters leave in memory

A setter changes and marks its own key. The marks of a session are sound after any setters.
-/

namespace PieAgent.Proofs.Settings

open JavaScript Model.Settings

variable {setter : Setter} {change : Change} {changes : List Change} {memory memory' : ScopedSettings}
  {scope : SettingsScope} {wanted : Key}

/-- The changes that setters make. -/
structure Good (change : Change) : Prop where
  proper : (key change).Proper
  settled : change.nested = none → Settled change.field change.value
  nested : ∀ nested, change.nested = some nested → nested ≠ js "maxDelayMs"

private theorem good_ofField {field : String} {value : Option JsonValue} (plain : js field ∉ nestedFields)
    (settled : Settled (js field) value) : Good (.ofField field value) :=
  ⟨iff_of_false Bool.false_ne_true plain, fun _ => settled, nofun⟩

private theorem good_ofNested {field nested : String} {value : JsonValue} (isNested : js field ∈ nestedFields)
    (other : js nested ≠ js "maxDelayMs") : Good (.ofNested field nested value) :=
  ⟨iff_of_true rfl isNested, nofun, fun _ same => Option.some.inj same ▸ other⟩

private theorem settled_some {field : JsString} {value : JsonValue} (notQueueMode : field ≠ js "queueMode")
    (notWebsockets : field ≠ js "websockets") (skills : field ≠ js "skills") : Settled field (some value) :=
  ⟨notQueueMode, notWebsockets, fun _ => rfl, fun same => absurd same skills⟩

private theorem settled_free {field : JsString} {value : Option JsonValue}
    (free : field ∉ [js "queueMode", js "websockets", js "steeringMode", js "transport", js "skills"]) :
    Settled field value := by
  simp only [List.mem_cons, List.not_mem_nil, or_false, not_or] at free
  exact ⟨free.1, free.2.1, fun same => absurd same (not_or.mpr ⟨free.2.2.1, free.2.2.2.1⟩),
    fun same => absurd same free.2.2.2.2⟩

private theorem settled_strings (texts : List JsString) : Settled (js "skills") (some (.arr (texts.map .str))) :=
  ⟨by simp [js_inj], by simp [js_inj], fun _ => rfl, nofun⟩

theorem good_of_changes? (found : setter.changes? = some changes) : ∀ change ∈ changes, Good change := by
  cases setter with
  | setDefaultModelAndProvider provider modelId =>
    cases found
    refine List.forall_mem_cons.mpr ⟨?_, List.forall_mem_singleton.mpr ?_⟩
    · exact good_ofField (by simp [nestedFields, js_inj]) (settled_free (by simp [js_inj]))
    · exact good_ofField (by simp [nestedFields, js_inj]) (settled_free (by simp [js_inj]))
  | setHttpIdleTimeoutMs timeoutMs =>
    rw [Setter.changes?] at found
    split_ifs at found
    cases found
    exact List.forall_mem_singleton.mpr (good_ofField (by simp [nestedFields, js_inj]) (settled_free (by simp [js_inj])))
  | setSteeringMode mode =>
    cases found
    exact List.forall_mem_singleton.mpr
      (good_ofField (by simp [nestedFields, js_inj]) (settled_some (by simp [js_inj]) (by simp [js_inj]) (by simp [js_inj])))
  | setTransport transport =>
    cases found
    exact List.forall_mem_singleton.mpr
      (good_ofField (by simp [nestedFields, js_inj]) (settled_some (by simp [js_inj]) (by simp [js_inj]) (by simp [js_inj])))
  | setSkillPaths paths =>
    cases found
    exact List.forall_mem_singleton.mpr (good_ofField (by simp [nestedFields, js_inj]) (settled_strings paths))
  | setProjectSkillPaths paths =>
    cases found
    exact List.forall_mem_singleton.mpr (good_ofField (by simp [nestedFields, js_inj]) (settled_strings paths))
  | setCompactionEnabled enabled | setRetryEnabled enabled | setShowImages enabled | setImageWidthCells width
  | setClearOnShrink enabled | setShowTerminalProgress enabled | setImageAutoResize enabled
  | setBlockImages enabled =>
    cases found
    exact List.forall_mem_singleton.mpr (good_ofNested (by simp [nestedFields]) (by simp [js_inj]))
  | _ =>
    cases found
    exact List.forall_mem_singleton.mpr (good_ofField (by simp [nestedFields, js_inj]) (settled_free (by simp [js_inj])))

theorem mem_addMark {α : Type} [DecidableEq α] {marks : List α} {mark item : α} :
    item ∈ ScopedSettings.addMark marks mark ↔ item = mark ∨ item ∈ marks := by
  rw [ScopedSettings.addMark]
  split
  next member => exact ⟨.inr, fun h => h.elim (fun same => same ▸ member) id⟩
  · rw [List.mem_append, List.mem_singleton, or_comm]

private theorem spread_of_not_truthy {value : JsonValue} (falsy : ¬isTruthy value) : spread value = [] := by
  cases value with
  | str text =>
    have empty : text = [] := by simpa [isTruthy] using falsy
    rw [empty]
    rfl
  | arr items => exact absurd rfl falsy
  | obj fields => exact absurd rfl falsy
  | null => rfl
  | bool value => rfl
  | num value => rfl

/-- The field of a setter with a key holds an object afterwards, with the other keys as they were. -/
private theorem assign?_nested {settings : Settings} {nested : JsString} (isNested : change.nested = some nested)
    (changed : memory.assign? change = some settings) : ∃ fields, getField settings change.field = some (.obj fields) ∧
      ∀ other, getField fields other = if other = nested then change.value
        else getField (spread ((getField memory.settings change.field).getD .null)) other := by
  rw [ScopedSettings.assign?, isNested] at changed
  dsimp only at changed
  split_ifs at changed with _ truthy
  · cases changed
    exact ⟨_, getField_assign_self _ _ _, fun other => getField_assign _ _ _ _⟩
  · cases changed
    refine ⟨_, getField_assign_self _ _ _, fun other => ?_⟩
    rw [getField_assign, spread_of_not_truthy truthy]

private theorem assign?_other {settings : Settings} {field : JsString} (differs : field ≠ change.field)
    (changed : memory.assign? change = some settings) : getField settings field = getField memory.settings field := by
  rw [ScopedSettings.assign?] at changed
  split at changed
  · cases changed
    exact getField_assign_of_ne _ _ differs
  · dsimp only at changed
    split_ifs at changed
    · cases changed
      exact getField_assign_of_ne _ _ differs
    · cases changed
      exact getField_assign_of_ne _ _ differs

private theorem assign?_plain {settings : Settings} (plain : change.nested = none)
    (changed : memory.assign? change = some settings) : getField settings change.field = change.value := by
  rw [ScopedSettings.assign?, plain] at changed
  cases changed
  exact getField_assign_self _ _ _

private theorem read_assign? {settings : Settings} (good : Good change) (changed : memory.assign? change = some settings)
    (proper : wanted.Proper) :
    read settings wanted = if wanted = key change then change.value else read memory.settings wanted := by
  by_cases here : wanted.field = change.field
  · obtain ⟨field, wantedNested⟩ := wanted
    obtain rfl : field = change.field := here
    cases isNested : change.nested with
    | none =>
      have plain : change.field ∉ nestedFields := fun member => absurd (good.proper.mpr member) (by rw [key, isNested]; nofun)
      cases wantedNested with
      | none =>
        rw [if_pos (by rw [key, isNested])]
        exact assign?_plain isNested changed
      | some nested => exact absurd (proper.mp rfl) plain
    | some nested =>
      have member : change.field ∈ nestedFields := good.proper.mp (by rw [key, isNested]; rfl)
      cases wantedNested with
      | none => exact absurd (proper.mpr member) Bool.false_ne_true
      | some other =>
        obtain ⟨fields, held, yields⟩ := assign?_nested isNested changed
        have same : (⟨change.field, some other⟩ : Key) = key change ↔ other = nested := by
          rw [key, isNested, Key.mk.injEq, Option.some.injEq]
          exact and_iff_right rfl
        rw [read, read, held]
        simp only [Option.bind_some, spread, yields, same]
        split
        · rfl
        · cases getField memory.settings change.field with
          | none => rfl
          | some value => rfl
  · rw [if_neg fun same => here (congrArg Key.field same)]
    exact read_congr (assign?_other here changed)

/-- A setter changes and marks its own key. -/
structure Changed (scope : SettingsScope) (memory : ScopedSettings) (change : Change) (memory' : ScopedSettings) : Prop where
  sound : Sound (memory'.writeTask scope)
  carries : ∀ wanted, wanted.Proper →
    (Carries (memory'.writeTask scope) wanted ↔ wanted = key change ∨ Carries (memory.writeTask scope) wanted)
  yields : ∀ wanted, wanted.Proper →
    read memory'.settings wanted = if wanted = key change then change.value else read memory.settings wanted
  loadError : memory'.loadError = memory.loadError

private theorem nested_of_mem (good : Good change) (member : change.field ∈ nestedFields) :
    ∃ nested, change.nested = some nested :=
  Option.isSome_iff_exists.mp (good.proper.mpr member)

private theorem carries_markModified (good : Good change) (settings : Settings) (proper : wanted.Proper) :
    Carries (({ memory with settings := settings }.markModified change.field change.nested).writeTask scope) wanted ↔
      wanted = key change ∨ Carries (memory.writeTask scope) wanted := by
  obtain ⟨field, _ | nested⟩ := wanted
  · have plain : field ∉ nestedFields := fun member => absurd (proper.mpr member) Bool.false_ne_true
    simp only [Carries, ScopedSettings.writeTask, ScopedSettings.markModified, mem_addMark, key, Key.mk.injEq, plain,
      not_false_eq_true, and_true]
    refine or_congr_left (and_iff_left_of_imp fun same => ?_).symm
    exact (Option.not_isSome_iff_eq_none.mp fun some_ => plain (same ▸ good.proper.mp some_)).symm
  · simp only [Carries, ScopedSettings.writeTask, ScopedSettings.markModified, key, Key.mk.injEq]
    cases change.nested with
    | none => simp
    | some other =>
      dsimp only
      rw [mem_addMark, Prod.mk.injEq, Option.some.injEq]

private theorem sound_markModified {settings : Settings} (good : Good change) (sound : Sound (memory.writeTask scope))
    (assigned : memory.assign? change = some settings) :
    Sound (({ memory with settings := settings }.markModified change.field change.nested).writeTask scope) where
  nested mark marked := by
    have known : mark = (change.field, mark.2) ∧ change.nested = some mark.2 ∨
        mark ∈ memory.modifiedNestedFields := by
      simp only [ScopedSettings.writeTask, ScopedSettings.markModified] at marked
      cases isNested : change.nested with
      | none =>
        rw [isNested] at marked
        exact .inr marked
      | some nested =>
        rw [isNested] at marked
        rcases (mem_addMark).mp marked with rfl | marked
        · exact .inl ⟨rfl, rfl⟩
        · exact .inr marked
    rcases known with ⟨same, isNested⟩ | marked
    · obtain ⟨fields, held, -⟩ := assign?_nested isNested assigned
      rw [same]
      exact ⟨(mem_addMark).mpr (.inl rfl), good.proper.mp (by rw [key, isNested]; rfl), good.nested _ isNested,
        _, held, rfl⟩
    · obtain ⟨listed, member, other, value, held, object⟩ := sound.nested mark marked
      refine ⟨(mem_addMark).mpr (.inr listed), member, other, ?_⟩
      by_cases here : mark.1 = change.field
      · obtain ⟨nested, isNested⟩ := nested_of_mem good (here ▸ member)
        obtain ⟨fields, held, -⟩ := assign?_nested isNested assigned
        exact ⟨_, here ▸ held, rfl⟩
      · exact ⟨value, (assign?_other here assigned).trans held, object⟩
  marked field listed member := by
    rcases (mem_addMark).mp listed with rfl | listed
    · obtain ⟨nested, isNested⟩ := nested_of_mem good member
      refine ⟨nested, ?_⟩
      simp only [ScopedSettings.writeTask, ScopedSettings.markModified, isNested]
      exact (mem_addMark).mpr (.inl rfl)
    · obtain ⟨nested, marked⟩ := sound.marked field listed member
      refine ⟨nested, ?_⟩
      simp only [ScopedSettings.writeTask, ScopedSettings.markModified]
      split
      · exact marked
      · exact (mem_addMark).mpr (.inr marked)
  settled field listed := by
    by_cases here : field = change.field
    · rw [here]
      cases isNested : change.nested with
      | none =>
        have held := assign?_plain isNested assigned
        exact held.symm ▸ good.settled isNested
      | some nested =>
        obtain ⟨fields, held, -⟩ := assign?_nested isNested assigned
        have member : change.field ∈ nestedFields := good.proper.mp (by rw [key, isNested]; rfl)
        have skills : change.field ≠ js "skills" := by
          intro same
          rw [same] at member
          exact absurd member (by decide)
        refine held.symm ▸ settled_some ?_ ?_ skills
        · intro same
          rw [same] at member
          exact absurd member (by decide)
        · intro same
          rw [same] at member
          exact absurd member (by decide)
    · have old := sound.settled field (((mem_addMark).mp listed).resolve_left here)
      exact (assign?_other here assigned).symm ▸ old

theorem changed_of_change? (good : Good change) (sound : Sound (memory.writeTask scope))
    (changed : memory.change? change = some memory') : Changed scope memory change memory' := by
  obtain ⟨settings, assigned, rfl⟩ := Option.map_eq_some_iff.mp changed
  exact ⟨sound_markModified good sound assigned, fun wanted proper => carries_markModified good settings proper,
    fun wanted proper => read_assign? good assigned proper, rfl⟩

/-- What the last of the changes assigns to a key. -/
def assigned? (changes : List Change) (wanted : Key) : Option (Option JsonValue) :=
  match changes with
  | [] => none
  | change :: changes => (assigned? changes wanted).or (if wanted = key change then some change.value else none)

theorem isSome_assigned? : (assigned? changes wanted).isSome ↔ wanted ∈ changes.map key := by
  induction changes with
  | nil => simp [assigned?]
  | cons change changes ih =>
    rw [assigned?, Option.isSome_or, Bool.or_eq_true, ih, List.map_cons, List.mem_cons, or_comm]
    by_cases here : wanted = key change
    · simp [here]
    · simp [here]

/-- Setters change and mark their keys. -/
structure ChangedAll (scope : SettingsScope) (memory : ScopedSettings) (changes : List Change)
    (memory' : ScopedSettings) : Prop where
  sound : Sound (memory'.writeTask scope)
  carries : ∀ wanted, wanted.Proper →
    (Carries (memory'.writeTask scope) wanted ↔ wanted ∈ changes.map key ∨ Carries (memory.writeTask scope) wanted)
  yields : ∀ wanted, wanted.Proper →
    read memory'.settings wanted = (assigned? changes wanted).getD (read memory.settings wanted)
  loadError : memory'.loadError = memory.loadError

theorem changedAll_of_changeAll? (good : ∀ change ∈ changes, Good change) (sound : Sound (memory.writeTask scope))
    (changed : memory.changeAll? changes = some memory') : ChangedAll scope memory changes memory' := by
  induction changes generalizing memory with
  | nil =>
    cases changed
    exact ⟨sound, by simp, fun _ _ => rfl, rfl⟩
  | cons change changes ih =>
    obtain ⟨middle, first, rest⟩ := Option.bind_eq_some_iff.mp changed
    have step := changed_of_change? (good change List.mem_cons_self) sound first
    have all := ih (fun other member => good other (List.mem_cons_of_mem _ member)) step.sound rest
    refine ⟨all.sound, fun wanted proper => ?_, fun wanted proper => ?_, all.loadError.trans step.loadError⟩
    · rw [all.carries wanted proper, step.carries wanted proper, List.map_cons, List.mem_cons, or_left_comm, or_assoc]
    · rw [all.yields wanted proper, step.yields wanted proper, assigned?]
      cases assigned? changes wanted with
      | some value => rfl
      | none =>
        by_cases here : wanted = key change
        · simp [here]
        · simp [here]

end PieAgent.Proofs.Settings
