import PieAgent.Model.Settings.SettingsManager

/-! # Settings key by key

What a setter, a migration and a write do is stated by what each key yields afterwards.
-/

namespace PieAgent.Proofs.Settings

open JavaScript Model.Settings

/-- A field of the settings, or a key of the object that it holds. -/
structure Key where
  field : JsString
  nested : Option JsString
deriving DecidableEq

/-- The fields that setters change key by key. -/
def nestedFields : List JsString := [js "compaction", js "retry", js "terminal", js "images"]

/-- A key as setters name it. -/
def Key.Proper (key : Key) : Prop := key.nested.isSome ↔ key.field ∈ nestedFields

/-- One is the other or holds it. -/
def Key.Overlaps (key other : Key) : Prop :=
  key.field = other.field ∧ (key.nested = none ∨ other.nested = none ∨ key.nested = other.nested)

def key (change : Change) : Key := ⟨change.field, change.nested⟩

def read (settings : Settings) (key : Key) : Option JsonValue :=
  match key.nested with
  | none => getField settings key.field
  | some nested => (getField settings key.field).bind fun value => getField (spread value) nested

/-- The write sets the key. -/
def Carries (task : WriteTask) (key : Key) : Prop :=
  match key.nested with
  | none => key.field ∈ task.modifiedFields ∧ key.field ∉ nestedFields
  | some nested => (key.field, nested) ∈ task.modifiedNestedFields

instance (task : WriteTask) (key : Key) : Decidable (Carries task key) := by
  unfold Carries
  split
  · infer_instance
  · infer_instance

variable {settings current other : Settings} {task : WriteTask} {wanted : Key} {field nested : JsString}

theorem read_congr (same : getField settings wanted.field = getField other wanted.field) :
    read settings wanted = read other wanted := by
  rw [read, read, same]

theorem read_nil (wanted : Key) : read [] wanted = none := by
  rw [read]
  split
  · rfl
  · rfl

/-- What a setter may leave in a field, so that no migration changes it. -/
structure Settled (field : JsString) (value : Option JsonValue) : Prop where
  notQueueMode : field ≠ js "queueMode"
  notWebsockets : field ≠ js "websockets"
  present : field = js "steeringMode" ∨ field = js "transport" → value.isSome
  skills : field = js "skills" → ∀ fields, value ≠ some (.obj fields)

/-- The marks of a write are those that setters leave. -/
structure Sound (task : WriteTask) : Prop where
  nested : ∀ mark ∈ task.modifiedNestedFields, mark.1 ∈ task.modifiedFields ∧ mark.1 ∈ nestedFields ∧
    mark.2 ≠ js "maxDelayMs" ∧ ∃ value, getField task.snapshotSettings mark.1 = some value ∧ isObject value
  marked : ∀ field ∈ task.modifiedFields, field ∈ nestedFields → ∃ nested, (field, nested) ∈ task.modifiedNestedFields
  settled : ∀ field ∈ task.modifiedFields, Settled field (getField task.snapshotSettings field)

section Writes

theorem getField_mergedSettings (task : WriteTask) (current : Settings) (field : JsString) :
    getField (task.mergedSettings current) field =
      if field ∈ task.modifiedFields then task.mergedField current field else getField current field :=
  getField_foldl_assign task.modifiedFields (task.mergedField current) current field

private theorem mem_nestedModified : nested ∈ (task.modifiedNestedFields.filter fun mark => mark.1 = field).map (·.2) ↔
    (field, nested) ∈ task.modifiedNestedFields := by
  simp only [List.mem_map, List.mem_filter, decide_eq_true_eq]
  constructor
  · rintro ⟨⟨_, _⟩, ⟨member, rfl⟩, rfl⟩
    exact member
  · exact fun member => ⟨_, ⟨member, rfl⟩, rfl⟩

theorem mergedField_of_plain (sound : Sound task) (plain : field ∉ nestedFields) :
    task.mergedField current field = getField task.snapshotSettings field := by
  have none_ : (task.modifiedNestedFields.filter fun mark => mark.1 = field).map (·.2) = [] := by
    refine List.eq_nil_iff_forall_not_mem.mpr fun nested member => ?_
    exact plain (sound.nested _ ((mem_nestedModified).mp member)).2.1
  rw [WriteTask.mergedField]
  simp only [none_, ne_eq, not_true_eq_false, false_and, if_false]
  cases getField task.snapshotSettings field with
  | none => rfl
  | some value => rfl

/-- The object that a write leaves in a field that it changes key by key. -/
theorem mergedField_of_nested (sound : Sound task) (marked : (field, nested) ∈ task.modifiedNestedFields) :
    ∃ value fields, getField task.snapshotSettings field = some value ∧
      task.mergedField current field = some (.obj fields) ∧ ∀ other, getField fields other =
        if (field, other) ∈ task.modifiedNestedFields then getField (spread value) other
        else getField (spread ((getField current field).getD .null)) other := by
  obtain ⟨value, value_, object⟩ := (sound.nested _ marked).2.2.2
  have some_ : (task.modifiedNestedFields.filter fun mark => mark.1 = field).map (·.2) ≠ [] :=
    List.ne_nil_of_mem ((mem_nestedModified).mpr marked)
  have merged : task.mergedField current field = some (.obj
      (((task.modifiedNestedFields.filter fun mark => mark.1 = field).map (·.2)).foldl
        (fun merged key => assign merged key (getField (spread value) key))
        (spread ((getField current field).getD .null)))) := by
    rw [WriteTask.mergedField, value_]
    exact if_pos ⟨some_, object⟩
  refine ⟨value, _, value_, merged, fun other => ?_⟩
  rw [getField_foldl_assign]
  simp only [mem_nestedModified]

private theorem read_nested (settings : Settings) (field nested : JsString) :
    read settings ⟨field, some nested⟩ = getField (spread ((getField settings field).getD .null)) nested := by
  rw [read]
  cases getField settings field with
  | none => rfl
  | some value => rfl

/-- A write sets what it carries and leaves every other key. -/
theorem read_mergedSettings (sound : Sound task) (proper : wanted.Proper) (current : Settings) :
    read (task.mergedSettings current) wanted =
      if Carries task wanted then read task.snapshotSettings wanted else read current wanted := by
  obtain ⟨field, _ | nested⟩ := wanted
  · have plain : field ∉ nestedFields := fun member => absurd (proper.mpr member) Bool.false_ne_true
    rw [read, read, read, getField_mergedSettings, mergedField_of_plain sound plain]
    simp only [Carries, plain, not_false_eq_true, and_true]
  · have isNested : field ∈ nestedFields := proper.mp rfl
    rw [read_nested, read_nested, read_nested, getField_mergedSettings]
    by_cases marked : field ∈ task.modifiedFields
    · obtain ⟨first, first_⟩ := sound.marked field marked isNested
      obtain ⟨value, fields, value_, merged, yields⟩ := mergedField_of_nested sound first_
      rw [if_pos marked, merged, value_]
      exact yields nested
    · have absent : ¬Carries task ⟨field, some nested⟩ := fun member => marked (sound.nested _ member).1
      rw [if_neg marked, if_neg absent]

/-- A write leaves what it does not overlap. -/
theorem read_mergedSettings_of_not_overlaps (sound : Sound task)
    (apart : ∀ other : Key, Carries task other → ¬other.Overlaps wanted) (current : Settings) :
    read (task.mergedSettings current) wanted = read current wanted := by
  by_cases marked : wanted.field ∈ task.modifiedFields
  · by_cases isNested : wanted.field ∈ nestedFields
    · obtain ⟨first, first_⟩ := sound.marked _ marked isNested
      obtain ⟨field, _ | nested⟩ := wanted
      · exact absurd ⟨rfl, .inr (.inl rfl)⟩ (apart ⟨field, some first⟩ first_)
      · have proper : Key.Proper ⟨field, some nested⟩ := iff_of_true rfl isNested
        rw [read_mergedSettings sound proper, if_neg fun carried => apart _ carried ⟨rfl, .inr (.inr rfl)⟩]
    · exact absurd ⟨rfl, .inl rfl⟩ (apart ⟨wanted.field, none⟩ ⟨marked, isNested⟩)
  · exact read_congr (by rw [getField_mergedSettings, if_neg marked])

/-- What a write leaves under a key depends only on what was there. -/
theorem read_mergedSettings_congr (sound : Sound task) (same : read current wanted = read other wanted) :
    read (task.mergedSettings current) wanted = read (task.mergedSettings other) wanted := by
  by_cases isNested : wanted.field ∈ nestedFields
  · obtain ⟨field, _ | nested⟩ := wanted
    · have same' : getField current field = getField other field := same
      refine read_congr ?_
      rw [getField_mergedSettings, getField_mergedSettings, WriteTask.mergedField, WriteTask.mergedField, same']
    · have proper : Key.Proper ⟨field, some nested⟩ := iff_of_true rfl isNested
      rw [read_mergedSettings sound proper, read_mergedSettings sound proper, same]
  · by_cases marked : wanted.field ∈ task.modifiedFields
    · refine read_congr ?_
      rw [getField_mergedSettings, getField_mergedSettings, if_pos marked, if_pos marked,
        mergedField_of_plain sound isNested, mergedField_of_plain sound isNested]
    · have left : read (task.mergedSettings current) wanted = read current wanted :=
        read_congr (by rw [getField_mergedSettings, if_neg marked])
      have right : read (task.mergedSettings other) wanted = read other wanted :=
        read_congr (by rw [getField_mergedSettings, if_neg marked])
      rw [left, right, same]

end Writes

section Migration

/-- No migration applies. -/
structure Migrated (settings : Settings) : Prop where
  queueMode : getField settings (js "queueMode") ≠ none → getField settings (js "steeringMode") ≠ none
  websockets : ∀ enabled, getField settings (js "websockets") = some (.bool enabled) →
    getField settings (js "transport") ≠ none
  skills : ∀ fields, getField settings (js "skills") ≠ some (.obj fields)
  retry : ∀ fields, getField settings (js "retry") = some (.obj fields) → getField fields (js "maxDelayMs") = none

theorem getField_migrateWebsockets (settings : Settings) (transport : field ≠ js "transport")
    (websockets : field ≠ js "websockets") : getField (migrateWebsockets settings) field = getField settings field := by
  rw [migrateWebsockets]
  split
  · rw [getField_assign_of_ne _ _ websockets, getField_assign_of_ne _ _ transport]
  · rfl

theorem getField_migrateSkills (settings : Settings) (skills : field ≠ js "skills")
    (enabled : field ≠ js "enableSkillCommands") : getField (migrateSkills settings) field = getField settings field := by
  rw [migrateSkills]
  split
  · dsimp only
    split
    · rw [getField_assign_of_ne _ _ skills]
      split
      · rw [getField_assign_of_ne _ _ enabled]
      · rfl
    · rw [getField_assign_of_ne _ _ skills]
      split
      · rw [getField_assign_of_ne _ _ enabled]
      · rfl
  · rfl

theorem getField_migrateRetry (settings : Settings) (retry : field ≠ js "retry") :
    getField (migrateRetry settings) field = getField settings field := by
  rw [migrateRetry]
  split
  · exact getField_assign_of_ne _ _ retry
  · rfl

private theorem queueMode_migrated (settings : Settings) :
    getField (migrateQueueMode settings) (js "queueMode") ≠ none →
      getField (migrateQueueMode settings) (js "steeringMode") ≠ none := by
  rw [migrateQueueMode]
  split
  · rw [getField_assign_self]
    exact fun absent => absurd rfl absent
  next absent =>
    intro mode steering
    obtain ⟨value, value_⟩ := Option.ne_none_iff_exists'.mp mode
    exact absent value value_ steering

private theorem websockets_migrated (settings : Settings) (enabled : Bool)
    (websockets : getField (migrateWebsockets settings) (js "websockets") = some (.bool enabled)) :
    getField (migrateWebsockets settings) (js "transport") ≠ none := by
  rw [migrateWebsockets] at websockets ⊢
  split at websockets
  · rw [getField_assign_self] at websockets
    cases websockets
  next other => exact fun absent => other enabled absent websockets

private theorem skills_migrated (settings : Settings) (fields : JsObject) :
    getField (migrateSkills settings) (js "skills") ≠ some (.obj fields) := by
  rw [migrateSkills]
  split
  · dsimp only
    split
    · rw [getField_assign_self]
      nofun
    · rw [getField_assign_self]
      nofun
  next other => exact other fields

private theorem retry_migrated (settings : Settings) (fields : JsObject)
    (retry : getField (migrateRetry settings) (js "retry") = some (.obj fields)) :
    getField fields (js "maxDelayMs") = none := by
  rw [migrateRetry] at retry
  split at retry
  · rw [getField_assign_self] at retry
    cases retry
    exact getField_assign_self _ _ none
  next other => exact absurd retry (other fields)

theorem migrated_migrateSettings (settings : Settings) : Migrated (migrateSettings settings) where
  queueMode := by
    rw [migrateSettings, getField_migrateRetry _ (by decide), getField_migrateSkills _ (by decide) (by decide),
      getField_migrateWebsockets _ (by decide) (by decide), getField_migrateRetry _ (by decide),
      getField_migrateSkills _ (by decide) (by decide), getField_migrateWebsockets _ (by decide) (by decide)]
    exact queueMode_migrated settings
  websockets enabled := by
    rw [migrateSettings, getField_migrateRetry _ (by decide), getField_migrateSkills _ (by decide) (by decide),
      getField_migrateRetry _ (by decide), getField_migrateSkills _ (by decide) (by decide)]
    exact websockets_migrated _ enabled
  skills fields := by
    rw [migrateSettings, getField_migrateRetry _ (by decide)]
    exact skills_migrated _ fields
  retry fields := retry_migrated _ fields

private theorem migrateRetryFields_eq {fields : JsObject} (absent : getField fields (js "maxDelayMs") = none) :
    migrateRetryFields fields = fields := by
  have kept : assign fields (js "maxDelayMs") none = fields :=
    List.filter_eq_self.mpr fun entry member => decide_eq_true (getField_eq_none.mp absent entry member)
  rw [migrateRetryFields, absent]
  exact kept

/-- A migration is final. -/
theorem getField_migrateSettings (migrated : Migrated settings) (field : JsString) :
    getField (migrateSettings settings) field = getField settings field := by
  have first : migrateQueueMode settings = settings := by
    rw [migrateQueueMode]
    split
    next mode_ steering => exact absurd steering (migrated.queueMode (by rw [mode_]; nofun))
    · rfl
  have second : migrateWebsockets settings = settings := by
    rw [migrateWebsockets]
    split
    next absent websockets => exact absurd absent (migrated.websockets _ websockets)
    · rfl
  have third : migrateSkills settings = settings := by
    rw [migrateSkills]
    split
    next skills => exact absurd skills (migrated.skills _)
    · rfl
  rw [migrateSettings, first, second, third, migrateRetry]
  split
  next fields retry =>
    rw [migrateRetryFields_eq (migrated.retry fields retry), getField_assign]
    split
    next same => rw [same, retry]
    · rfl
  · rfl

theorem read_migrateSettings (migrated : Migrated settings) (wanted : Key) :
    read (migrateSettings settings) wanted = read settings wanted :=
  read_congr (getField_migrateSettings migrated _)

theorem migrated_nil : Migrated [] := ⟨nofun, nofun, nofun, nofun⟩

/-- No migration applies to what a write leaves. -/
theorem Migrated.mergedSettings (migrated : Migrated current) (sound : Sound task) :
    Migrated (task.mergedSettings current) := by
  have plain {field : JsString} (plain_ : field ∉ nestedFields) : getField (task.mergedSettings current) field =
      if field ∈ task.modifiedFields then getField task.snapshotSettings field else getField current field := by
    rw [getField_mergedSettings, mergedField_of_plain sound plain_]
  constructor
  · rw [plain (by decide), plain (by decide), if_neg fun member => (sound.settled _ member).notQueueMode rfl]
    intro mode
    split
    next member => exact Option.isSome_iff_ne_none.mp ((sound.settled _ member).present (.inl rfl))
    · exact migrated.queueMode mode
  · intro enabled
    rw [plain (by decide), plain (by decide), if_neg fun member => (sound.settled _ member).notWebsockets rfl]
    intro websockets
    split
    next member => exact Option.isSome_iff_ne_none.mp ((sound.settled _ member).present (.inr rfl))
    · exact migrated.websockets enabled websockets
  · intro fields
    rw [plain (by decide)]
    split
    next member => exact (sound.settled _ member).skills rfl fields
    · exact migrated.skills fields
  · intro fields retry
    rw [getField_mergedSettings] at retry
    split at retry
    next member =>
      obtain ⟨nested, marked⟩ := sound.marked _ member (by decide)
      obtain ⟨value, merged, -, merged_, yields⟩ := @mergedField_of_nested current _ _ _ sound marked
      rw [merged_] at retry
      cases retry
      rw [yields, if_neg fun marked => (sound.nested _ marked).2.2.1 rfl]
      refine getField_spread _ (by decide) fun base same => migrated.retry base ?_
      cases retry : getField current (js "retry") with
      | none =>
        rw [retry] at same
        cases same
      | some value =>
        rw [retry, Option.getD_some] at same
        rw [same]
    · exact migrated.retry fields retry

end Migration

end PieAgent.Proofs.Settings
