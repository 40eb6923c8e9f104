import PieAgent.Machine.Core.Labeled
import PieAgent.Proofs.Settings.Setters

/-! # Settings that are written

Beside the run stand what this session has set, and what the files would hold had this session written nothing. A set
key is lost in two ways: a write clears the marks of later setters whose own write then fails, and a file that two
processes create is written by the one that has not seen it. Apart from these steps nothing is lost.
-/

namespace PieAgent.Soundness.SettingsWrites

open JavaScript Model.Settings Proofs.Settings

variable {manager : SettingsManager} {task : WriteTask} {queue : List WriteTask} {scope : SettingsScope} {wanted : Key}
  {value : Option JsonValue}

/-- The setters of this session mark the key. -/
def Marked (manager : SettingsManager) (scope : SettingsScope) (wanted : Key) : Prop :=
  Carries ((manager.scopes scope).writeTask scope) wanted

/-- The key in a file, as it is loaded. -/
def readBack (file : Option SettingsFile) (wanted : Key) : Option JsonValue :=
  (SettingsManager.current? file).bind fun settings => read settings wanted

/-- What the last queued write that carries the key sets. -/
def lastCarried (queue : List WriteTask) (scope : SettingsScope) (wanted : Key) : Option (Option JsonValue) :=
  (queue.filter fun task => task.scope = scope ∧ Carries task wanted).getLast?.map
    fun task => read task.snapshotSettings wanted

/-- A run, with what it is compared to. -/
structure Watched where
  manager : SettingsManager
  /-- What this session has set last, since its last call of `reload` and the last write of another process. -/
  lastSet : SettingsScope → Key → Option (Option JsonValue) := fun _ _ => none
  /-- The keys that this session has ever set. -/
  touched : SettingsScope → List Key := fun _ => []
  /-- The files if only other processes wrote. -/
  others : SettingsScope → Option SettingsFile

namespace Watched

variable (watched : Watched)

def keys (foreign : Foreign) : List Key := foreign.changes.map key

/-- Another process writes, over what it had read. -/
def foreign (foreign : Foreign) : Watched :=
  { watched with
    lastSet := Function.update watched.lastSet foreign.scope fun wanted =>
      if wanted ∈ keys foreign then none else watched.lastSet foreign.scope wanted
    others := match foreign.writeTask? with
      | some task => Function.update watched.others foreign.scope
        (some (.settings (task.mergedSettings ((SettingsManager.current? (watched.others foreign.scope)).getD []))))
      | none => watched.others }

def observe : Event → Watched
  | .set setter =>
    let changes := setter.changes?.getD []
    { watched with
      lastSet := Function.update watched.lastSet setter.scope fun wanted =>
        (assigned? changes wanted).or (watched.lastSet setter.scope wanted)
      touched := Function.update watched.touched setter.scope (watched.touched setter.scope ++ changes.map key) }
  | .reload => { watched with lastSet := fun _ _ => none }
  | .foreignWrite foreign | .foreignCreate foreign => watched.foreign foreign
  | _ => watched

def step? (watched : Watched) (event : Event) : Option Watched :=
  (watched.manager.step? event).map fun manager => { watched.observe event with manager := manager }

def start (files : SettingsScope → Option SettingsFile) (unreadable : List SettingsScope) : Watched where
  manager := .create files unreadable
  others := files

end Watched

/-- The steps at which nothing is lost. -/
def Careful (watched : Watched) : Event → Prop
  | .set setter => (watched.manager.scopes setter.scope).loadError → watched.manager.reloads = []
  | .saved => ∀ task ∈ watched.manager.writeQueue.head?,
    (watched.manager.found = some none → watched.manager.files task.scope = none) ∧
    ∀ wanted, wanted.Proper → Marked watched.manager task.scope wanted →
      lastCarried watched.manager.writeQueue task.scope wanted =
        some (read (watched.manager.scopes task.scope).settings wanted)
  | .failed => ∀ task ∈ watched.manager.writeQueue.head?, ∀ wanted, wanted.Proper → Carries task wanted →
    Marked watched.manager task.scope wanted ∨
      (∃ later ∈ watched.manager.writeQueue.tail, later.scope = task.scope ∧ Carries later wanted) ∨
      readBack (watched.manager.files task.scope) wanted = read task.snapshotSettings wanted
  | .foreignCreate foreign => watched.manager.files foreign.scope = none
  | _ => True

/-- Once the queue is empty, what this session has set last is in the file or will be in the next write; what it has
not set is as if it had written nothing. -/
structure Kept (watched : Watched) : Prop where
  set : watched.manager.writeQueue = [] → ∀ scope wanted value, watched.lastSet scope wanted = some value →
    Marked watched.manager scope wanted ∧ read (watched.manager.scopes scope).settings wanted = value ∨
      readBack (watched.manager.files scope) wanted = value
  others : ∀ scope wanted, (∀ other ∈ watched.touched scope, ¬other.Overlaps wanted) →
    readBack (watched.manager.files scope) wanted = readBack (watched.others scope) wanted

section Queue

theorem lastCarried_nil : lastCarried [] scope wanted = none := rfl

theorem lastCarried_concat (queue : List WriteTask) (task : WriteTask) : lastCarried (queue ++ [task]) scope wanted =
    if task.scope = scope ∧ Carries task wanted then some (read task.snapshotSettings wanted)
    else lastCarried queue scope wanted := by
  rw [lastCarried, List.filter_append]
  split
  next carried => rw [List.filter_cons_of_pos (by simpa using carried), List.filter_nil, List.getLast?_concat]; rfl
  next other => rw [List.filter_cons_of_neg (by simpa using other), List.filter_nil, List.append_nil]; rfl

theorem lastCarried_cons (task : WriteTask) (queue : List WriteTask) : lastCarried (task :: queue) scope wanted =
    (lastCarried queue scope wanted).or
      (if task.scope = scope ∧ Carries task wanted then some (read task.snapshotSettings wanted) else none) := by
  rw [lastCarried, lastCarried]
  split
  next carried =>
    rw [List.filter_cons_of_pos (by simpa using carried), List.getLast?_cons]
    cases (queue.filter fun task => task.scope = scope ∧ Carries task wanted).getLast? with
    | none => rfl
    | some last => rfl
  next other => rw [List.filter_cons_of_neg (by simpa using other), Option.or_none]

/-- A write that is queued counts if it carries the key. -/
theorem lastCarried_push (refused : Bool) (task : WriteTask) {n : ℕ} (inside : n ≤ queue.length) :
    lastCarried ((if refused then queue else queue ++ [task]).drop n) scope wanted =
      if ¬refused ∧ task.scope = scope ∧ Carries task wanted then some (read task.snapshotSettings wanted)
      else lastCarried (queue.drop n) scope wanted := by
  cases refused with
  | true => rw [if_pos rfl, if_neg fun carried => carried.1 rfl]
  | false =>
    rw [if_neg Bool.false_ne_true, List.drop_append_of_le_length inside, lastCarried_concat]
    simp only [Bool.false_eq_true, not_false_eq_true, true_and]

/-- The first write is the last that carries a key if no later one does. -/
theorem lastCarried_cons_some (carried : lastCarried (task :: queue) scope wanted = some value) :
    lastCarried queue scope wanted = some value ∨ lastCarried queue scope wanted = none ∧ task.scope = scope ∧
      Carries task wanted ∧ read task.snapshotSettings wanted = value := by
  rw [lastCarried_cons] at carried
  cases later : lastCarried queue scope wanted with
  | some value' =>
    rw [later, Option.some_or] at carried
    exact .inl carried
  | none =>
    rw [later, Option.none_or] at carried
    split_ifs at carried with first
    exact .inr ⟨rfl, first.1, first.2, Option.some.inj carried⟩

theorem lastCarried_cons_none (carried : lastCarried (task :: queue) scope wanted = none) :
    lastCarried queue scope wanted = none ∧ ¬(task.scope = scope ∧ Carries task wanted) := by
  rw [lastCarried_cons, Option.or_eq_none_iff] at carried
  refine ⟨carried.1, fun first => ?_⟩
  rw [if_pos first] at carried
  cases carried.2

theorem lastCarried_cons_of_ne (differs : scope ≠ task.scope) :
    lastCarried (task :: queue) scope wanted = lastCarried queue scope wanted := by
  rw [lastCarried_cons, if_neg fun first => differs first.1.symm, Option.or_none]

theorem lastCarried_ne_none (later : task ∈ queue) (carried : Carries task wanted) :
    lastCarried queue task.scope wanted ≠ none := by
  rw [lastCarried, ne_eq, Option.map_eq_none_iff, List.getLast?_eq_none_iff]
  exact List.ne_nil_of_mem (List.mem_filter.mpr ⟨later, by simpa using carried⟩)

end Queue

section Files

variable {file : Option SettingsFile} {current : Settings}

theorem migrated_of_current? (read_ : SettingsManager.current? file = some current) : Migrated current := by
  rcases file with _ | ⟨settings⟩ | _
  · cases read_
    exact migrated_nil
  · cases read_
    exact migrated_migrateSettings settings
  · cases read_

theorem readBack_eq (read_ : SettingsManager.current? file = some current) (wanted : Key) :
    readBack file wanted = read current wanted := by
  rw [readBack, read_, Option.bind_some]

theorem readBack_written (sound : Sound task) (migrated : Migrated current) (wanted : Key) :
    readBack (some (.settings (task.mergedSettings current))) wanted = read (task.mergedSettings current) wanted :=
  read_migrateSettings (migrated.mergedSettings sound) wanted

theorem migrated_getD (file : Option SettingsFile) : Migrated ((SettingsManager.current? file).getD []) := by
  cases read_ : SettingsManager.current? file with
  | none => exact migrated_nil
  | some current => exact migrated_of_current? read_

theorem readBack_getD (file : Option SettingsFile) (wanted : Key) :
    readBack file wanted = read ((SettingsManager.current? file).getD []) wanted := by
  cases read_ : SettingsManager.current? file with
  | none =>
    rw [readBack, read_, Option.getD_none, read_nil]
    rfl
  | some current => exact readBack_eq read_ wanted

end Files

section Foreign

variable {foreign : Foreign}

theorem sound_clearModified (memory : ScopedSettings) (scope : SettingsScope) :
    Sound (memory.clearModified.writeTask scope) :=
  ⟨nofun, nofun, nofun⟩

theorem not_carries_clearModified (memory : ScopedSettings) (scope : SettingsScope) (wanted : Key) :
    ¬Carries (memory.clearModified.writeTask scope) wanted := by
  obtain ⟨field, _ | nested⟩ := wanted
  · exact fun carried => List.not_mem_nil carried.1
  · exact List.not_mem_nil

theorem good_changes (foreign : Foreign) : ∀ change ∈ foreign.changes, Good change := by
  intro change member
  obtain ⟨setter, -, member⟩ := List.mem_flatMap.mp member
  cases found : setter.changes? with
  | none =>
    rw [found] at member
    cases member
  | some changes =>
    rw [found] at member
    exact good_of_changes? found change member

/-- Another process writes the keys of its setters. -/
theorem writeTask?_spec (made : foreign.writeTask? = some task) :
    Sound task ∧ ∀ wanted : Key, wanted.Proper → (Carries task wanted ↔ wanted ∈ Watched.keys foreign) := by
  rw [Foreign.writeTask?] at made
  split_ifs at made
  obtain ⟨memory, changed, rfl⟩ := Option.map_eq_some_iff.mp made
  have sound : Sound (({ settings := foreign.settings } : ScopedSettings).writeTask foreign.scope) :=
    sound_clearModified { settings := foreign.settings } foreign.scope
  have all := changedAll_of_changeAll? (good_changes foreign) sound changed
  refine ⟨all.sound, fun wanted proper => (all.carries wanted proper).trans (or_iff_left ?_)⟩
  exact not_carries_clearModified { settings := foreign.settings } foreign.scope wanted

end Foreign

/-- Setters name keys properly. -/
theorem proper_of_carries (sound : Sound task) (carried : Carries task wanted) : wanted.Proper := by
  obtain ⟨field, _ | nested⟩ := wanted
  · exact iff_of_false Bool.false_ne_true carried.2
  · exact iff_of_true rfl (sound.nested _ carried).2.1

section Steps

/-- What holds of a key that this session has set. -/
structure Held (manager : SettingsManager) (scope : SettingsScope) (wanted : Key) (value : Option JsonValue) : Prop where
  proper : wanted.Proper
  marked : Marked manager scope wanted → read (manager.scopes scope).settings wanted = value
  carried : lastCarried manager.writeQueue scope wanted = some value ∨ Marked manager scope wanted ∨
    lastCarried manager.writeQueue scope wanted = none ∧
      readBack (manager.files scope) wanted = value
  awaited : ∀ n ∈ manager.reloads, lastCarried (manager.writeQueue.drop n) scope wanted = some value

structure Tracked (watched : Watched) : Prop where
  sound : ∀ task ∈ watched.manager.writeQueue, Sound task
  memory : ∀ scope, Sound ((watched.manager.scopes scope).writeTask scope)
  found : ∀ task ∈ watched.manager.writeQueue.head?, ∀ file, watched.manager.found = some (some file) →
    watched.manager.files task.scope = some file
  waiting : watched.manager.found.isSome → 0 ∉ watched.manager.reloads
  reloads : ∀ n ∈ watched.manager.reloads, n ≤ watched.manager.writeQueue.length
  held : ∀ scope wanted value, watched.lastSet scope wanted = some value → Held watched.manager scope wanted value
  marked : ∀ scope wanted, wanted.Proper → Marked watched.manager scope wanted → wanted ∈ watched.touched scope
  carried : ∀ task ∈ watched.manager.writeQueue, ∀ wanted, wanted.Proper → Carries task wanted →
    wanted ∈ watched.touched task.scope
  others : ∀ scope wanted, (∀ other ∈ watched.touched scope, ¬other.Overlaps wanted) →
    readBack (watched.manager.files scope) wanted = readBack (watched.others scope) wanted

theorem Tracked.kept {watched : Watched} (tracked : Tracked watched) : Kept watched where
  set := by
    intro empty scope wanted value set_
    have held := tracked.held scope wanted value set_
    rcases held.carried with carried | marked | ⟨-, saved⟩
    · rw [empty, lastCarried_nil] at carried
      cases carried
    · exact .inl ⟨marked, held.marked marked⟩
    · exact .inr saved
  others := tracked.others

variable {watched next : Watched}

/-- What the new settings of a scope and the write that a setter queues mean for a key. -/
private theorem held_set {memory : ScopedSettings} {changes : List Change} {changed : SettingsScope}
    (tracked : Tracked watched) (careful : (watched.manager.scopes changed).loadError → watched.manager.reloads = [])
    (good : ∀ change ∈ changes, Good change)
    (all : ChangedAll changed (watched.manager.scopes changed) changes memory)
    (set_ : Function.update watched.lastSet changed
      (fun wanted => (assigned? changes wanted).or (watched.lastSet changed wanted)) scope wanted = some value) :
    Held { watched.manager with
      scopes := Function.update watched.manager.scopes changed memory
      writeQueue := if memory.loadError then watched.manager.writeQueue
        else watched.manager.writeQueue ++ [memory.writeTask changed] } scope wanted value := by
  have pushed {n : ℕ} (inside : n ≤ watched.manager.writeQueue.length) :=
    @lastCarried_push watched.manager.writeQueue scope wanted memory.loadError (memory.writeTask changed) n inside
  by_cases here : scope = changed
  · subst here
    rw [Function.update_self] at set_
    cases assigned : assigned? changes wanted with
    | some value' =>
      rw [assigned] at set_
      cases set_
      have listed : wanted ∈ changes.map key := isSome_assigned?.mp (by rw [assigned]; rfl)
      obtain ⟨change, member, rfl⟩ := List.mem_map.mp listed
      have proper := (good change member).proper
      have yields : read memory.settings (key change) = value := by
        rw [all.yields _ proper, assigned, Option.getD_some]
      have marks : Carries (memory.writeTask scope) (key change) := (all.carries _ proper).mpr (.inl listed)
      refine ⟨proper, fun _ => ?_, .inr (.inl ?_), fun n waits => ?_⟩
      · simp only [Function.update_self]
        exact yields
      · simp only [Marked, Function.update_self]
        exact marks
      · have loaded : memory.loadError = false := by
          rw [all.loadError, ← Bool.not_eq_true]
          intro loadError
          rw [careful loadError] at waits
          cases waits
        rw [pushed (tracked.reloads n waits), if_pos ⟨by rw [loaded]; exact Bool.false_ne_true, rfl, marks⟩]
        exact congrArg some yields
    | none =>
      rw [assigned, Option.none_or] at set_
      have held := tracked.held scope wanted value set_
      have unlisted : wanted ∉ changes.map key := by
        intro listed
        have some_ := isSome_assigned?.mpr listed
        rw [assigned] at some_
        cases some_
      have marks : Carries (memory.writeTask scope) wanted ↔ Marked watched.manager scope wanted := by
        rw [all.carries wanted held.proper, or_iff_right unlisted, Marked]
      have yields : read memory.settings wanted = read (watched.manager.scopes scope).settings wanted := by
        rw [all.yields wanted held.proper, assigned, Option.getD_none]
      refine ⟨held.proper, fun marked => ?_, ?_, fun n waits => ?_⟩
      · simp only [Marked, Function.update_self, marks] at marked
        simp only [Function.update_self, yields]
        exact held.marked marked
      · simp only [Marked, Function.update_self, marks]
        have first := pushed (Nat.zero_le _)
        rw [List.drop_zero, List.drop_zero] at first
        rw [first]
        split
        next carried =>
          have same : read (memory.writeTask scope).snapshotSettings wanted = value :=
            yields.trans (held.marked (marks.mp carried.2.2))
          exact .inl (congrArg some same)
        · exact held.carried
      · rw [pushed (tracked.reloads n waits)]
        split
        next carried => exact congrArg some (yields.trans (held.marked (marks.mp carried.2.2)))
        · exact held.awaited n waits
  · rw [Function.update_of_ne here] at set_
    have held := tracked.held scope wanted value set_
    have other : ¬(¬memory.loadError ∧ (memory.writeTask changed).scope = scope ∧
        Carries (memory.writeTask changed) wanted) := fun carried => here carried.2.1.symm
    refine ⟨held.proper, ?_, ?_, fun n waits => ?_⟩
    · simp only [Marked, Function.update_of_ne here]
      exact held.marked
    · have first := pushed (Nat.zero_le _)
      rw [List.drop_zero, List.drop_zero, if_neg other] at first
      simp only [Marked, Function.update_of_ne here, first]
      exact held.carried
    · rw [pushed (tracked.reloads n waits), if_neg other]
      exact held.awaited n waits

private theorem tracked_set {setter : Setter} (tracked : Tracked watched) (careful : Careful watched (.set setter))
    (stepped : watched.manager.step? (.set setter) = some manager) :
    Tracked { watched.observe (.set setter) with manager := manager } := by
  simp only [SettingsManager.step?] at stepped
  split_ifs at stepped with running
  obtain ⟨changes, found, stepped⟩ := Option.bind_eq_some_iff.mp stepped
  obtain ⟨memory, changed, same⟩ := Option.bind_eq_some_iff.mp stepped
  cases same
  have good := good_of_changes? found
  have all := changedAll_of_changeAll? good (tracked.memory setter.scope) changed
  have touches (wanted : Key) (proper : wanted.Proper) (carried : Carries (memory.writeTask setter.scope) wanted) :
      wanted ∈ watched.touched setter.scope ++ changes.map key := by
    rcases (all.carries wanted proper).mp carried with listed | marked
    · exact List.mem_append_right _ listed
    · exact List.mem_append_left _ (tracked.marked _ wanted proper marked)
  simp only [Watched.observe, found, Option.getD_some]
  constructor
  · intro task member
    split_ifs at member
    · exact tracked.sound task member
    · rcases List.mem_append.mp member with member | member
      · exact tracked.sound task member
      · exact List.mem_singleton.mp member ▸ all.sound
  · intro scope
    by_cases here : scope = setter.scope
    · subst here
      simp only [Function.update_self]
      exact all.sound
    · simp only [Function.update_of_ne here]
      exact tracked.memory scope
  · intro task _ file found
    rw [found] at running
    exact absurd rfl running
  · exact fun found => absurd found running
  · intro n waits
    have inside := tracked.reloads n waits
    split_ifs
    · exact inside
    · rw [List.length_append]
      omega
  · exact fun scope wanted value set_ => held_set tracked careful good all set_
  · intro scope wanted proper marked
    by_cases here : scope = setter.scope
    · subst here
      simp only [Marked, Function.update_self] at marked
      simp only [Function.update_self]
      exact touches wanted proper marked
    · simp only [Marked, Function.update_of_ne here] at marked
      simp only [Function.update_of_ne here]
      exact tracked.marked scope wanted proper marked
  · have old (task : WriteTask) (member : task ∈ watched.manager.writeQueue) (wanted : Key) (proper : wanted.Proper)
        (carried : Carries task wanted) : wanted ∈ Function.update watched.touched setter.scope
          (watched.touched setter.scope ++ changes.map key) task.scope := by
      have known := tracked.carried task member wanted proper carried
      by_cases here : task.scope = setter.scope
      · simp only [here, Function.update_self]
        exact List.mem_append_left _ (here ▸ known)
      · simp only [Function.update_of_ne here]
        exact known
    intro task member
    split_ifs at member
    · exact old task member
    · rcases List.mem_append.mp member with member | member
      · exact old task member
      · obtain rfl := List.mem_singleton.mp member
        intro wanted proper carried
        simp only [ScopedSettings.writeTask, Function.update_self]
        exact touches wanted proper carried
  · intro scope wanted apart
    refine tracked.others scope wanted fun other member => apart other ?_
    by_cases here : scope = setter.scope
    · subst here
      simp only [Function.update_self]
      exact List.mem_append_left _ member
    · simp only [Function.update_of_ne here]
      exact member

private theorem tracked_reload (tracked : Tracked watched) (stepped : watched.manager.step? .reload = some manager) :
    Tracked { watched.observe .reload with manager := manager } := by
  simp only [SettingsManager.step?] at stepped
  split_ifs at stepped with running
  cases stepped
  refine ⟨tracked.sound, tracked.memory, tracked.found, fun found => absurd found running, fun n waits => ?_, nofun,
    tracked.marked, tracked.carried, tracked.others⟩
  rcases List.mem_append.mp waits with waits | waits
  · exact tracked.reloads n waits
  · exact (List.mem_singleton.mp waits).le

private theorem tryLoad_unmarked (file : Option SettingsFile) (unreadable : Bool) (memory : ScopedSettings)
    (scope : SettingsScope) : Sound ((SettingsManager.tryLoadFromStorage file unreadable memory).writeTask scope) ∧
      ∀ wanted, ¬Carries ((SettingsManager.tryLoadFromStorage file unreadable memory).writeTask scope) wanted := by
  rw [SettingsManager.tryLoadFromStorage]
  split
  · exact ⟨⟨nofun, nofun, nofun⟩, not_carries_clearModified memory scope⟩
  · exact ⟨⟨nofun, nofun, nofun⟩, not_carries_clearModified memory scope⟩

private theorem tracked_reloaded {unreadable : List SettingsScope} (tracked : Tracked watched)
    (stepped : watched.manager.step? (.reloaded unreadable) = some manager) :
    Tracked { watched.observe (.reloaded unreadable) with manager := manager } := by
  simp only [SettingsManager.step?] at stepped
  split_ifs at stepped with refused
  cases stepped
  rw [not_or, not_not] at refused
  have unmarked (scope : SettingsScope) := tryLoad_unmarked (watched.manager.files scope) (scope ∈ unreadable)
    (watched.manager.scopes scope) scope
  refine ⟨tracked.sound, fun scope => (unmarked scope).1, tracked.found, fun found => absurd found refused.1,
    fun n waits => tracked.reloads n (List.mem_of_mem_erase waits), fun scope wanted value set_ => ?_,
    fun scope wanted _ marked => absurd marked ((unmarked scope).2 wanted), tracked.carried, tracked.others⟩
  have held := tracked.held scope wanted value set_
  -- The reload clears the mark, but the write of what was set after its call is still queued.
  have queued := held.awaited 0 refused.2
  rw [List.drop_zero] at queued
  exact ⟨held.proper, fun marked => absurd marked ((unmarked scope).2 wanted), .inl queued,
    fun n waits => held.awaited n (List.mem_of_mem_erase waits)⟩

private theorem tracked_found (tracked : Tracked watched) (stepped : watched.manager.step? .found = some manager) :
    Tracked { watched.observe .found with manager := manager } := by
  simp only [SettingsManager.step?] at stepped
  split_ifs at stepped with refused
  obtain ⟨task, first, rfl⟩ := Option.map_eq_some_iff.mp stepped
  rw [not_or] at refused
  refine ⟨tracked.sound, tracked.memory, fun other other_ file found => ?_, fun _ => refused.2, tracked.reloads,
    fun scope wanted value set_ => ?_, tracked.marked, tracked.carried, tracked.others⟩
  · have same : task = other := Option.some.inj (first.symm.trans other_)
    exact same ▸ Option.some.inj found
  · have held := tracked.held scope wanted value set_
    exact ⟨held.proper, held.marked, held.carried, held.awaited⟩

/-- Reloads wait for one write less. -/
private theorem awaited_dequeue {queue : List WriteTask} {reloads : List ℕ} (waiting : 0 ∉ reloads)
    (awaited : ∀ n ∈ reloads, lastCarried ((task :: queue).drop n) scope wanted = some value) :
    ∀ n ∈ reloads.map (· - 1), lastCarried (queue.drop n) scope wanted = some value := by
  intro n waits
  obtain ⟨m, member, rfl⟩ := List.mem_map.mp waits
  cases m with
  | zero => exact absurd member waiting
  | succ m => exact awaited (m + 1) member

private theorem reloads_dequeue {reloads : List ℕ} (bounded : ∀ n ∈ reloads, n ≤ (task :: queue).length) :
    ∀ n ∈ reloads.map (· - 1), n ≤ queue.length := by
  intro n waits
  obtain ⟨m, member, rfl⟩ := List.mem_map.mp waits
  exact Nat.sub_le_of_le_add (bounded m member)

private theorem tracked_failed (tracked : Tracked watched) (careful : Careful watched .failed)
    (stepped : watched.manager.step? .failed = some manager) :
    Tracked { watched.observe .failed with manager := manager } := by
  simp only [SettingsManager.step?] at stepped
  obtain ⟨found, running, stepped⟩ := Option.bind_eq_some_iff.mp stepped
  obtain ⟨task, first, same⟩ := Option.bind_eq_some_iff.mp stepped
  cases same
  obtain ⟨queue, whole⟩ := List.head?_eq_some_iff.mp first
  have waiting := tracked.waiting (by rw [running]; rfl)
  have careful := careful task first
  obtain ⟨sound, memory, -, -, reloads, held, marked, carried, others⟩ := tracked
  rw [whole] at sound reloads carried careful
  simp only [SettingsManager.dequeue, whole, List.tail_cons] at careful ⊢
  refine ⟨fun other member => sound other (List.mem_cons_of_mem _ member), memory, nofun, nofun,
    reloads_dequeue reloads, fun scope wanted value set_ => ?_, marked,
    fun other member => carried other (List.mem_cons_of_mem _ member), others⟩
  obtain ⟨proper, mark, support, awaited⟩ := held scope wanted value set_
  rw [whole] at support awaited
  refine ⟨proper, mark, ?_, awaited_dequeue waiting awaited⟩
  rcases support with queued | support | ⟨none_, saved⟩
  · rcases lastCarried_cons_some queued with later | ⟨none_, rfl, carries, same⟩
    · exact .inl later
    · rcases careful wanted proper carries with support | ⟨later, member, scope_, carries'⟩ | saved
      · exact .inr (.inl support)
      · exact absurd (scope_ ▸ none_) (lastCarried_ne_none member carries')
      · exact .inr (.inr ⟨none_, saved.trans same⟩)
  · exact .inr (.inl support)
  · exact .inr (.inr ⟨(lastCarried_cons_none none_).1, saved⟩)

private theorem tracked_saved (tracked : Tracked watched) (careful : Careful watched .saved)
    (stepped : watched.manager.step? .saved = some manager) :
    Tracked { watched.observe .saved with manager := manager } := by
  simp only [SettingsManager.step?] at stepped
  obtain ⟨found, running, stepped⟩ := Option.bind_eq_some_iff.mp stepped
  obtain ⟨task, first, stepped⟩ := Option.bind_eq_some_iff.mp stepped
  obtain ⟨current, read_, same⟩ := Option.bind_eq_some_iff.mp stepped
  cases same
  obtain ⟨queue, whole⟩ := List.head?_eq_some_iff.mp first
  have waiting := tracked.waiting (by rw [running]; rfl)
  obtain ⟨creates, marks⟩ := careful task first
  have present : watched.manager.files task.scope = found := by
    cases found with
    | none => exact creates running
    | some file => exact tracked.found task first file running
  have before (wanted : Key) := readBack_eq (present ▸ read_) wanted
  obtain ⟨sound, memory, -, -, reloads, held, marked, carried, others⟩ := tracked
  rw [whole] at sound reloads carried marks
  have own := sound task List.mem_cons_self
  have written := readBack_written own (migrated_of_current? read_)
  simp only [SettingsManager.dequeue, SettingsManager.setFile, whole, List.tail_cons]
  refine ⟨fun other member => sound other (List.mem_cons_of_mem _ member), fun scope => ?_, nofun, nofun,
    reloads_dequeue reloads, fun scope wanted value set_ => ?_, fun scope wanted proper marks => ?_,
    fun other member => carried other (List.mem_cons_of_mem _ member), fun scope wanted apart => ?_⟩
  · by_cases here : scope = task.scope
    · subst here
      simp only [Function.update_self]
      exact sound_clearModified _ _
    · simp only [Function.update_of_ne here]
      exact memory scope
  · obtain ⟨proper, mark, support, awaited⟩ := held scope wanted value set_
    rw [whole] at support awaited
    by_cases here : scope = task.scope
    · subst here
      simp only [Marked] at *
      refine ⟨proper, ?_, ?_, awaited_dequeue waiting awaited⟩
      · simp only [Marked, Function.update_self]
        exact fun marked => absurd marked (not_carries_clearModified _ _ _)
      · have after := written wanted
        rw [read_mergedSettings own proper] at after
        simp only [Function.update_self, after]
        have support : lastCarried (task :: queue) task.scope wanted = some value ∨
            lastCarried (task :: queue) task.scope wanted = none ∧
              readBack (watched.manager.files task.scope) wanted = value := by
          rcases support with queued | marked | saved
          · exact .inl queued
          · exact .inl ((marks wanted proper marked).trans (congrArg some (mark marked)))
          · exact .inr saved
        rcases support with queued | ⟨none_, saved⟩
        · rcases lastCarried_cons_some queued with later | ⟨none_, -, carries, same⟩
          · exact .inl later
          · exact .inr (.inr ⟨none_, by rw [if_pos carries, same]⟩)
        · obtain ⟨none_, other⟩ := lastCarried_cons_none none_
          have kept : ¬Carries task wanted := fun carries => other ⟨rfl, carries⟩
          exact .inr (.inr ⟨none_, by rw [if_neg kept, ← before, saved]⟩)
    · rw [lastCarried_cons_of_ne here] at support
      refine ⟨proper, ?_, ?_, awaited_dequeue waiting awaited⟩
      · simp only [Marked, Function.update_of_ne here]
        exact mark
      · simp only [Marked, Function.update_of_ne here]
        exact support
  · by_cases here : scope = task.scope
    · subst here
      simp only [Marked, Function.update_self] at marks
      exact absurd marks (not_carries_clearModified _ _ _)
    · simp only [Marked, Function.update_of_ne here] at marks
      exact marked scope wanted proper marks
  · by_cases here : scope = task.scope
    · subst here
      simp only [Function.update_self]
      have kept := read_mergedSettings_of_not_overlaps own (fun other carries =>
        apart other (carried task List.mem_cons_self other (proper_of_carries own carries) carries)) current
      rw [written wanted, kept, ← before]
      exact others task.scope wanted apart
    · simp only [Function.update_of_ne here]
      exact others scope wanted apart

/-- A write of another process. -/
private theorem tracked_foreign {foreign : Foreign} {current : Settings} (tracked : Tracked watched)
    (read_ : SettingsManager.current? (watched.manager.files foreign.scope) = some current)
    (made : foreign.writeTask? = some task) (unlocked : ¬watched.manager.isLocked foreign.scope)
    (creating : SettingsScope → ℕ) :
    Tracked { watched.foreign foreign with manager :=
      { watched.manager.setFile foreign.scope (task.mergedSettings current) with creating := creating } } := by
  obtain ⟨sound, carries⟩ := writeTask?_spec made
  have written := readBack_written sound (migrated_of_current? read_)
  have written' := readBack_written sound (migrated_getD (watched.others foreign.scope))
  simp only [Watched.foreign, made, SettingsManager.setFile]
  refine ⟨tracked.sound, tracked.memory, fun other first file found => ?_, tracked.waiting, tracked.reloads,
    fun scope wanted value set_ => ?_, tracked.marked, tracked.carried, fun scope wanted apart => ?_⟩
  · have differs : other.scope ≠ foreign.scope := by
      intro same
      refine unlocked ⟨?_, other, first, same⟩
      rw [show watched.manager.found = some (some file) from found]
      rfl
    simp only [Function.update_of_ne differs]
    exact tracked.found other first file found
  · by_cases here : scope = foreign.scope
    · subst here
      simp only [Function.update_self] at set_
      split_ifs at set_ with named
      have held := tracked.held foreign.scope wanted value set_
      have kept : ¬Carries task wanted := fun carried => named ((carries wanted held.proper).mp carried)
      have same : readBack (some (.settings (task.mergedSettings current))) wanted =
          readBack (watched.manager.files foreign.scope) wanted := by
        rw [written, read_mergedSettings sound held.proper, if_neg kept, readBack_eq read_]
      refine ⟨held.proper, held.marked, ?_, held.awaited⟩
      simp only [Marked, Function.update_self, same]
      exact held.carried
    · simp only [Function.update_of_ne here] at set_
      have held := tracked.held scope wanted value set_
      refine ⟨held.proper, held.marked, ?_, held.awaited⟩
      simp only [Marked, Function.update_of_ne here]
      exact held.carried
  · have before := tracked.others scope wanted apart
    by_cases here : scope = foreign.scope
    · subst here
      simp only [Function.update_self, written, written']
      rw [readBack_eq read_, readBack_getD] at before
      exact read_mergedSettings_congr sound before
    · simp only [Function.update_of_ne here]
      exact before

private theorem tracked_step {event : Event} (tracked : Tracked watched) (careful : Careful watched event)
    (stepped : watched.step? event = some next) : Tracked next := by
  obtain ⟨manager, moved, rfl⟩ := Option.map_eq_some_iff.mp stepped
  cases event with
  | set setter => exact tracked_set tracked careful moved
  | flush =>
    simp only [SettingsManager.step?] at moved
    split_ifs at moved
    cases moved
    exact tracked
  | reload => exact tracked_reload tracked moved
  | reloaded unreadable => exact tracked_reloaded tracked moved
  | found => exact tracked_found tracked moved
  | saved => exact tracked_saved tracked careful moved
  | failed => exact tracked_failed tracked careful moved
  | foreignWrite foreign =>
    simp only [SettingsManager.step?] at moved
    obtain ⟨file, file_, moved⟩ := Option.bind_eq_some_iff.mp moved
    obtain ⟨current, read_, moved⟩ := Option.bind_eq_some_iff.mp moved
    obtain ⟨task, made, moved⟩ := Option.bind_eq_some_iff.mp moved
    split_ifs at moved with locked
    cases moved
    exact tracked_foreign tracked (file_.symm ▸ read_) made locked watched.manager.creating
  | foreignFound scope =>
    simp only [SettingsManager.step?] at moved
    split_ifs at moved
    cases moved
    refine ⟨tracked.sound, tracked.memory, tracked.found, tracked.waiting, tracked.reloads,
      fun scope wanted value set_ => ?_, tracked.marked, tracked.carried, tracked.others⟩
    have held := tracked.held scope wanted value set_
    exact ⟨held.proper, held.marked, held.carried, held.awaited⟩
  | foreignCreate foreign =>
    simp only [SettingsManager.step?] at moved
    obtain ⟨task, made, moved⟩ := Option.bind_eq_some_iff.mp moved
    split_ifs at moved with refused
    cases moved
    have none_ : watched.manager.files foreign.scope = none := careful
    exact tracked_foreign tracked (none_ ▸ rfl) made (fun locked => refused (.inl locked)) _

private theorem tracked_start (files : SettingsScope → Option SettingsFile) (unreadable : List SettingsScope) :
    Tracked (.start files unreadable) where
  sound := nofun
  memory scope := (tryLoad_unmarked _ _ _ scope).1
  found := nofun
  waiting := nofun
  reloads := nofun
  held := nofun
  marked scope wanted _ marked := absurd marked ((tryLoad_unmarked _ _ _ scope).2 wanted)
  carried := nofun
  others _ _ _ := rfl

end Steps

section Runs

variable {files : SettingsScope → Option SettingsFile} {unreadable : List SettingsScope} {events : List Event}
  {final : Watched}

/-- A run of careful steps loses nothing. -/
theorem settings_kept (meets : Machine.Meets Watched.step? Careful (.start files unreadable) events)
    (run : Machine.run? Watched.step? (.start files unreadable) events = some final) : Kept final := by
  have tracked := Machine.run?_invariant Tracked
    (fun watched event next tracked careful stepped => tracked_step tracked careful stepped)
    (tracked_start files unreadable) meets run
  exact tracked.kept

/-- Two setters at once. The write of the first clears the marks of both. -/
def clearedMarks : List Event :=
  [.set (.setTheme (js "dark")), .set (.setDefaultProvider (js "other")), .found, .saved, .found, .failed]

instance (manager : SettingsManager) (scope : SettingsScope) (wanted : Key) : Decidable (Marked manager scope wanted) :=
  inferInstanceAs (Decidable (Carries _ _))

/-- The provider is neither in the file nor marked. -/
theorem settings_lost : ¬∀ files unreadable events final,
    Machine.run? Watched.step? (.start files unreadable) events = some final → Kept final := by
  intro always
  have reached : (Machine.run? Watched.step? (.start (fun _ => none) []) clearedMarks).isSome := by decide
  have lost : ∀ final ∈ Machine.run? Watched.step? (.start (fun _ => none) []) clearedMarks,
      final.manager.writeQueue.length = 0 ∧ (final.lastSet .global ⟨js "defaultProvider", none⟩).join.isSome ∧
        ¬Marked final.manager .global ⟨js "defaultProvider", none⟩ ∧
        (readBack (final.manager.files .global) ⟨js "defaultProvider", none⟩).isNone := by
    decide
  obtain ⟨final, run⟩ := Option.isSome_iff_exists.mp reached
  obtain ⟨empty, some_, unmarked, absent⟩ := lost final run
  obtain ⟨value, set_⟩ := Option.isSome_iff_exists.mp some_
  have kept := always _ _ _ final run
  rcases kept.set (List.length_eq_zero_iff.mp empty) _ _ _ (Option.join_eq_some_iff.mp set_) with marked | saved
  · exact unmarked marked.1
  · rw [Option.isNone_iff_eq_none.mp absent] at saved
    cases saved

/-- A setting that is written before the next one is set. -/
theorem settings_kept_theme : ∃ final, Machine.run? Watched.step? (.start (fun _ => none) [])
    [.set (.setTheme (js "dark")), .found, .saved] = some final ∧ Kept final := by
  have reached : (Machine.run? Watched.step? (.start (fun _ => none) [])
      [.set (.setTheme (js "dark")), .found, .saved]).isSome := by decide
  obtain ⟨final, run⟩ := Option.isSome_iff_exists.mp reached
  refine ⟨final, run, settings_kept ?_ run⟩
  refine .cons (fun _ => rfl) rfl (.cons trivial rfl (.cons ?_ (by decide) Machine.meets_nil))
  intro task first
  obtain rfl := Option.some.inj first
  exact ⟨fun _ => rfl, fun wanted _ marked => (lastCarried_concat [] _).trans (if_pos ⟨rfl, marked⟩)⟩

end Runs

end PieAgent.Soundness.SettingsWrites
