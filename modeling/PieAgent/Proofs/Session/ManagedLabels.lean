import PieAgent.Forest.Core.Chain
import PieAgent.Proofs.Session.EntryLiterals

/-! # The labels of a manager

The labels are what the label entries say, the last one for each target. Every value that a manager may write
into a label entry is ordinary, so the entry can be written and read back.
-/

/-! ## The session tree of a manager

The entries of a manager form a forest in which every entry was added with an id that was neither in use nor
named as a parent. A label entry that an extraction leaves out becomes an unknown parent, and stays one.
-/

namespace PieAgent.Proofs

open JavaScript PieAgent.Model.Transcript

section Walk

variable {entries path : List Json} {start : Option Json} {entry : Json} {rounds : ℕ}

abbrev Trail (entries : List Json) : Option Json → List Json → Prop := Forest.Trail entryId parentId entries

/-- The walk follows the trail, when it has a round for every entry on it. -/
theorem walkToRoot?_eq_some : walkToRoot? entries rounds start = some path ↔
    Trail entries start path ∧ path.length ≤ rounds := by
  induction rounds generalizing start path with
  | zero =>
    cases start with
    | none => exact ⟨fun same => by cases same; exact ⟨.stop, le_rfl⟩, fun ⟨trail, _⟩ => by cases trail; rfl⟩
    | some current =>
      refine ⟨nofun, fun ⟨trail, short⟩ => ?_⟩
      cases trail
      simp at short
  | succ rounds ih =>
    cases start with
    | none =>
      exact ⟨fun same => by cases same; exact ⟨.stop, Nat.zero_le _⟩, fun ⟨trail, _⟩ => by cases trail; rfl⟩
    | some current =>
      rw [walkToRoot?, Option.map_eq_some_iff]
      constructor
      · rintro ⟨above, walked, rfl⟩
        obtain ⟨trail, short⟩ := ih.mp walked
        exact ⟨.step trail, by simpa using short⟩
      · rintro ⟨trail, short⟩
        cases trail with
        | step rest => exact ⟨_, ih.mpr ⟨rest, by simpa using short⟩, rfl⟩

/-- A trail that has no more nodes than the tree is the path to its last entry. -/
theorem pathTo?_eq_some (trail : Trail entries start path) (short : path.length ≤ entries.length) :
    pathTo? entries start = some path :=
  (walkToRoot?_eq_some).mpr ⟨trail, Nat.le_succ_of_le short⟩

theorem byId_eq_some (distinct : (entries.map entryId).Nodup) (member : entry ∈ entries) :
    byId entries (entryId entry) = some entry :=
  Forest.find?_of_nodup distinct member

theorem isSome_byId {id : JsString} : (byId entries id).isSome ↔ id ∈ entries.map entryId := by
  rw [← not_iff_not, Bool.not_eq_true, Option.isSome_eq_false_iff, Option.isNone_iff_eq_none]
  exact Forest.find?_eq_none

end Walk

/-- What the entries and the leaf of a manager always satisfy. -/
structure SessionTree (entries : List Json) (leafId : Option JsString) : Prop where
  loose : Forest.Loose entryId parentId entries
  named : ∀ entry ∈ entries, entryId entry ≠ []
  leaf : ∀ id ∈ leafId, id ∈ entries.map entryId

/-- An id that is not empty, that no entry has and that no entry names as its parent. -/
def UnusedId (entries : List Json) (id : JsString) : Prop := id ≠ [] ∧ Forest.Unused entryId parentId entries id

section Tree

variable {entries path : List Json} {leafId : Option JsString} {id : JsString} {entry : Json}

theorem sessionTree_nil : SessionTree [] none := ⟨.nil, nofun, nofun⟩

theorem SessionTree.exists_path (tree : SessionTree entries leafId) (member : entry ∈ entries) :
    ∃ path, Trail entries (some entry) path ∧ path.Sublist entries ∧ pathTo? entries (some entry) = some path := by
  obtain ⟨path, trail, inside⟩ := tree.loose.exists_trail member
  exact ⟨path, trail, inside, pathTo?_eq_some trail inside.length_le⟩

/-- An entry with an unused id below the leaf is added to the tree. -/
theorem SessionTree.snoc (tree : SessionTree entries leafId) (unused : UnusedId entries (entryId entry))
    (below : ∀ above, parentId entry = some above → above ∈ entries.map entryId) :
    SessionTree (entries ++ [entry]) (some (entryId entry)) where
  loose := tree.loose.snoc unused.2 fun own => unused.2.1 (below _ own)
  named := List.forall_mem_append.mpr ⟨tree.named, by simpa using unused.1⟩
  leaf := by simp

theorem SessionTree.at (tree : SessionTree entries leafId) (known : id ∈ entries.map entryId) :
    SessionTree entries (some id) :=
  ⟨tree.loose, tree.named, by simpa using known⟩

theorem SessionTree.reset (tree : SessionTree entries leafId) : SessionTree entries none :=
  ⟨tree.loose, tree.named, nofun⟩

end Tree

section Operations

variable (workspace : Workspace) (write : WriteOutcome) (entry : Json)

@[simp] theorem manager_rewriteFile : (workspace.rewriteFile write).1.manager = workspace.manager := by
  unfold Workspace.rewriteFile
  split <;> rfl

/-- Persisting an entry changes the file and the flag alone. -/
theorem persist_manager : ∃ flushed, (workspace.persist entry write).1.manager = { workspace.manager with flushed } := by
  unfold Workspace.persist
  split
  · split
    · exact ⟨false, rfl⟩
    · split
      · have kept := manager_rewriteFile workspace write
        split
        · next written same =>
          rw [same] at kept
          exact ⟨true, by rw [← kept]; rfl⟩
        · next written error same =>
          rw [same] at kept
          exact ⟨_, kept⟩
      · exact ⟨_, rfl⟩
  · exact ⟨_, rfl⟩

/-- An append adds the entry and moves the leaf to it. -/
theorem appendEntry_manager : ∃ flushed, (workspace.appendEntry entry write).1.manager =
    { workspace.manager with entries := workspace.manager.entries ++ [entry], leafId := some (entryId entry), flushed } :=
  persist_manager _ write entry

variable (manager : SessionManager) (targetId : JsString) (label : Option JsString) (time : Option Json)

@[simp] theorem entries_applyLabel : (manager.applyLabel targetId label time).entries = manager.entries := by
  unfold SessionManager.applyLabel
  split <;> rfl

@[simp] theorem leafId_applyLabel : (manager.applyLabel targetId label time).leafId = manager.leafId := by
  unfold SessionManager.applyLabel
  split <;> rfl

@[simp] theorem entries_indexEntry : (manager.indexEntry entry).entries = manager.entries := by
  unfold SessionManager.indexEntry
  dsimp only
  split
  · exact entries_applyLabel ..
  · rfl

@[simp] theorem leafId_indexEntry : (manager.indexEntry entry).leafId = some (entryId entry) := by
  unfold SessionManager.indexEntry
  dsimp only
  split
  · exact leafId_applyLabel ..
  · rfl

private theorem foldl_indexEntry (entries : List Json) :
    (entries.foldl SessionManager.indexEntry manager).entries = manager.entries ∧
      (entries.foldl SessionManager.indexEntry manager).leafId =
        (entries.getLast?.map entryId <|> manager.leafId) := by
  induction entries using List.reverseRecOn with
  | nil => exact ⟨rfl, rfl⟩
  | append_singleton entries entry ih =>
    rw [List.foldl_append, List.foldl_cons, List.foldl_nil, entries_indexEntry, leafId_indexEntry, List.getLast?_concat]
    exact ⟨ih.1, rfl⟩

@[simp] theorem entries_buildIndex : manager.buildIndex.entries = manager.entries := (foldl_indexEntry _ _).1

@[simp] theorem leafId_buildIndex : manager.buildIndex.leafId = manager.entries.getLast?.map entryId := by
  rw [SessionManager.buildIndex, (foldl_indexEntry _ _).2]
  cases manager.entries.getLast? <;> rfl

end Operations

end PieAgent.Proofs

namespace PieAgent.Proofs

open JavaScript PieAgent.Model.Transcript
open PieAgent.Model (textField?)

section Labels

variable {entries : List Json} {entry : Json} {labels : JsMap JsString JsString}

/-- The labels after a target is labelled. An empty label deletes. -/
def setLabel (labels : JsMap JsString JsString) (targetId : JsString) (label : Option JsString) : JsMap JsString JsString :=
  match label.filter (· ≠ []) with
  | some label => labels.set targetId label
  | none => labels.delete targetId

/-- The labels after an entry. -/
def labelStep (labels : JsMap JsString JsString) (entry : Json) : JsMap JsString JsString :=
  if isLabel entry then setLabel labels ((textField? entry "targetId").getD []) (textField? entry "label") else labels

/-- The labels that entries set. -/
def labelsOf (entries : List Json) : JsMap JsString JsString := entries.foldl labelStep .empty

theorem labelsOf_concat (entries : List Json) (entry : Json) :
    labelsOf (entries ++ [entry]) = labelStep (labelsOf entries) entry := by
  rw [labelsOf, List.foldl_append]
  rfl

theorem labelStep_of_other (other : isLabel entry = false) : labelStep labels entry = labels :=
  if_neg (by simp [other])

theorem labelStep_labelEntry (id : JsString) (above : Option JsString) (time : Option Json) (targetId : JsString)
    (label : Option JsString) : labelStep labels (labelEntry id above time targetId label) = setLabel labels targetId label := by
  have target : textField? (labelEntry id above time targetId label) "targetId" = some targetId := by
    simp (disch := decide) [textField?, labelEntry, get?_fields_of_ne, Json.str?]
  have name : textField? (labelEntry id above time targetId label) "label" = label := by
    cases label <;> simp (disch := decide) [textField?, labelEntry, get?_fields_of_ne, get?_fields_cons, Json.str?]
  rw [labelStep, if_pos (isLabel_labelEntry ..), target, name]
  rfl

theorem isLabel_branchSummaryEntry (id : JsString) (above : Option JsString) (timestamp summary : JsString)
    (details : Option Json) (fromHook : Option Bool) :
    isLabel (branchSummaryEntry id above timestamp summary details fromHook) = false := rfl

end Labels

section Times

variable {times : JsMap JsString (Option Json)} {key : JsString} {time : Option Json}

/-- The times of the labels are ordinary values. -/
def OrdinaryTimes (times : JsMap JsString (Option Json)) : Prop :=
  ∀ id value, times.get? id = some (some value) → value.ordinary = true

theorem ordinaryTimes_empty : OrdinaryTimes .empty := nofun

theorem OrdinaryTimes.set (ordinary : OrdinaryTimes times) (new : ∀ value ∈ time, value.ordinary = true) :
    OrdinaryTimes (times.set key time) := by
  intro id value held
  by_cases same : id = key
  · rw [same, JsMap.get?_set_self] at held
    exact new value (Option.some.inj held)
  · rw [JsMap.get?_set_of_ne _ _ same] at held
    exact ordinary id value held

theorem OrdinaryTimes.delete (ordinary : OrdinaryTimes times) : OrdinaryTimes (times.delete key) := by
  intro id value held
  by_cases same : id = key
  · rw [same, JsMap.get?_delete_self] at held
    cases held
  · rw [JsMap.get?_delete_of_ne _ same] at held
    exact ordinary id value held

/-- The fields of an ordinary value are ordinary. -/
theorem ordinary_get? {entry value : Json} {name : JsString} (ordinary : entry.ordinary = true)
    (held : entry.get? name = some value) : value.ordinary = true := by
  cases entry with
  | obj members =>
    obtain ⟨front, back, rfl, _⟩ := List.lookup_eq_some_iff.mp held
    exact (ordinary_obj_iff.mp ordinary).2.2 (name, value) (by simp)
  | _ => cases held

end Times

section Managers

variable (manager : SessionManager) (targetId : JsString) (label : Option JsString) (time : Option Json) (entry : Json)

/-- Labelling changes the label maps alone. -/
theorem applyLabel_frame : ∃ labelTimestampsById, manager.applyLabel targetId label time =
    { manager with labelsById := setLabel manager.labelsById targetId label, labelTimestampsById } := by
  unfold SessionManager.applyLabel setLabel
  cases label.filter (· ≠ []) with
  | some label => exact ⟨_, rfl⟩
  | none => exact ⟨_, rfl⟩

theorem ordinaryTimes_applyLabel {manager : SessionManager} (ordinary : OrdinaryTimes manager.labelTimestampsById)
    (new : ∀ value ∈ time, value.ordinary = true) :
    OrdinaryTimes (manager.applyLabel targetId label time).labelTimestampsById := by
  unfold SessionManager.applyLabel
  split
  · exact ordinary.set new
  · exact ordinary.delete

/-- Indexing an entry changes the label maps and the leaf alone. -/
theorem indexEntry_frame : ∃ labelTimestampsById leafId, manager.indexEntry entry =
    { manager with labelsById := labelStep manager.labelsById entry, labelTimestampsById, leafId } := by
  unfold SessionManager.indexEntry labelStep
  dsimp only
  split
  · obtain ⟨times, same⟩ := applyLabel_frame { manager with leafId := some (entryId entry) }
      ((textField? entry "targetId").getD []) (textField? entry "label") (entry.get? (js "timestamp"))
    exact ⟨times, _, same⟩
  · exact ⟨_, _, rfl⟩

theorem ordinaryTimes_indexEntry {manager : SessionManager} (times : OrdinaryTimes manager.labelTimestampsById)
    (ordinary : entry.ordinary = true) : OrdinaryTimes (manager.indexEntry entry).labelTimestampsById := by
  unfold SessionManager.indexEntry
  dsimp only
  split
  · exact ordinaryTimes_applyLabel _ _ _ times fun value held => ordinary_get? ordinary held
  · exact times

private theorem foldl_indexEntry_frame (times : OrdinaryTimes manager.labelTimestampsById) {entries : List Json}
    (ordinary : ∀ entry ∈ entries, entry.ordinary = true) :
    ∃ labelTimestampsById leafId, OrdinaryTimes labelTimestampsById ∧ entries.foldl SessionManager.indexEntry manager =
      { manager with labelsById := entries.foldl labelStep manager.labelsById, labelTimestampsById, leafId } := by
  induction entries generalizing manager with
  | nil => exact ⟨_, _, times, rfl⟩
  | cons entry entries ih =>
    obtain ⟨first, others⟩ := List.forall_mem_cons.mp ordinary
    obtain ⟨_, _, moved⟩ := indexEntry_frame manager entry
    obtain ⟨times', leafId, plain, same⟩ := ih (manager.indexEntry entry) (ordinaryTimes_indexEntry entry times first) others
    refine ⟨times', leafId, plain, ?_⟩
    rw [List.foldl_cons, same, moved]
    rfl

/-- Building the index changes the label maps and the leaf alone, and yields the labels of the entries. -/
theorem buildIndex_frame (ordinary : ∀ entry ∈ manager.entries, entry.ordinary = true) :
    ∃ labelTimestampsById leafId, OrdinaryTimes labelTimestampsById ∧ manager.buildIndex =
      { manager with labelsById := labelsOf manager.entries, labelTimestampsById, leafId } :=
  foldl_indexEntry_frame _ ordinaryTimes_empty ordinary

theorem labelsById_buildIndex (ordinary : ∀ entry ∈ manager.entries, entry.ordinary = true) :
    manager.buildIndex.labelsById = labelsOf manager.entries := by
  obtain ⟨_, _, _, same⟩ := buildIndex_frame manager ordinary
  rw [same]

end Managers

end PieAgent.Proofs
