import PieAgent.Proofs.Session.OpenedTranscript

/-! # Forking a transcript

`forkFrom` copies the entries of a transcript as they are below a header of the current version, while opening
the transcript migrates them. A fork of an old transcript is therefore never migrated: messages keep a role
that is no longer known, and entries without ids leave only the last one in reach.
-/

namespace PieAgent.Soundness

open JavaScript PieAgent.Model.Transcript PieAgent.Proofs
open PieAgent.Model (nonemptyField? textField?)

section Fork

variable {files : Files} {path sourcePath targetCwd dir newSessionId timestamp newId : JsString} {ids : ℕ → JsString}
  {content : List UInt8} {source : LoadedFile}

private theorem appendValues_get? (value : Json) (values : List Json) :
    (appendValues files path (value :: values)).get? path =
      some ((files.get? path).getD [] ++ encodeUtf8 (unlines ((value :: values).map stringify))) := by
  induction values generalizing files value with
  | nil => simp [appendValues, appendFile, unlines]
  | cons next values ih =>
    have first := @ih (appendFile files path (encodeUtf8 (stringify value ++ ['\n'])) .completed).1 next
    rw [appendValues, List.foldl_cons]
    rw [appendValues] at first
    rw [first]
    simp [appendFile, unlines]

/-- A fork stands at the last entry of its source, whose entries it has unchanged. -/
theorem forkFrom_loads (held : files.get? sourcePath = some content)
    (loads : loadEntriesFromFile sourcePath content = .ok (some source))
    (absent : files.get? (sessionPath dir newSessionId) = none) (named : newSessionId ≠ []) :
    ∃ fork, Workspace.forkFrom files sourcePath targetCwd dir newSessionId timestamp newId ids = .ok fork ∧
      fork.manager.buildSessionContext = (lastPath? source.entries).map pathContext := by
  have wired : HasWireShape (forkHeader sourcePath targetCwd newSessionId timestamp) :=
    ⟨rfl, named, ⟨_, rfl⟩, ⟨_, rfl⟩, .inr ⟨_, rfl⟩, nofun⟩
  have written := @appendValues_get? files (sessionPath dir newSessionId)
    (serializeSessionHeader (forkHeader sourcePath targetCwd newSessionId timestamp) (sessionPath dir newSessionId))
    source.entries
  rw [absent, Option.getD_none, List.nil_append, ← intercalate_eq_unlines (by simp)] at written
  obtain ⟨fork, opened, context⟩ := @openSession_loads _ _ targetCwd dir newId timestamp ids _ _ written
    (fileHolds_fileContent wired (ordinary_of_loads loads)).loads
  refine ⟨fork, ?_, context.trans ?_⟩
  · rw [Workspace.forkFrom, held]
    dsimp only
    rw [loads]
    dsimp only
    rw [opened]
    rfl
  · rw [migrate_current rfl]

end Fork

section Roles

variable {entry : Json} {path entries : List Json}

private theorem obj_of_get? {value : Json} {key : JsString} {found : Json} (held : value.get? key = some found) :
    ∃ members, value = .obj members := by
  cases value with
  | obj members => exact ⟨members, rfl⟩
  | _ => cases held

/-- A message with the role that version 3 renamed. -/
def isHookMessage (entry : Json) : Bool :=
  entryType entry = js "message" && messageField? entry "role" == some (.str (js "hookMessage"))

/-- The entries whose messages stand in the context of a path behind the summary. -/
def shownEntries (path : List Json) : List Json :=
  match path.reverse.find? isCompaction with
  | none => path
  | some compaction =>
    let compactionIdx := path.findIdx fun entry => isCompaction entry && entry.get? (js "id") == compaction.get? (js "id")
    fromFirstKept compaction (path.take compactionIdx) ++ path.drop (compactionIdx + 1)

/-- The summary in front of the context of a path. -/
def shownSummary (path : List Json) : List ContextMessage :=
  ((path.reverse.find? isCompaction).map compactionSummary).toList

theorem messages_shown (path : List Json) :
    (pathContext path).messages = shownSummary path ++ contextMessages (shownEntries path) := by
  simp only [pathContext, shownSummary, shownEntries]
  cases path.reverse.find? isCompaction with
  | none => rfl
  | some compaction => simp [contextMessages_append]

/-- A renaming changes the message of an entry and nothing else. -/
private theorem get?_renameRole {key : JsString} (differ : key ≠ js "message") :
    (renameRole entry).get? key = entry.get? key := by
  unfold renameRole
  split
  · split
    · exact get?_setField_of_ne _ differ
    · rfl
  · rfl

private theorem textField?_renameRole {key : String} (differ : js key ≠ js "message") :
    textField? (renameRole entry) key = textField? entry key := by
  rw [textField?, get?_renameRole differ]
  rfl

@[simp] private theorem entryType_renameRole : entryType (renameRole entry) = entryType entry := by
  rw [entryType, textField?_renameRole (by decide)]
  rfl

@[simp] private theorem entryId_renameRole : entryId (renameRole entry) = entryId entry := by
  rw [entryId, textField?_renameRole (by decide)]
  rfl

@[simp] private theorem parentId_renameRole : parentId (renameRole entry) = parentId entry := by
  rw [parentId, nonemptyField?, textField?_renameRole (by decide)]
  rfl

@[simp] private theorem isCompaction_renameRole : isCompaction (renameRole entry) = isCompaction entry := by
  rw [isCompaction, entryType_renameRole]
  rfl

theorem renameRole_of_other (other : entryType entry ≠ js "message") : renameRole entry = entry := by
  unfold renameRole
  split
  · exact if_neg fun renamed => other renamed.1
  · rfl

/-- The message of an entry stays the same exactly when it has no role to rename. -/
theorem contextMessage?_renameRole : contextMessage? (renameRole entry) = contextMessage? entry ↔
    isHookMessage entry = false := by
  by_cases type : entryType entry = js "message"
  · cases held : entry.get? (js "message") with
    | none =>
      have same : renameRole entry = entry := by
        rw [renameRole, held]
      simp [same, isHookMessage, messageField?, held]
    | some message =>
      by_cases hook : message.get? (js "role") = some (.str (js "hookMessage"))
      · obtain ⟨members, rfl⟩ := obj_of_get? held
        obtain ⟨fields', rfl⟩ := obj_of_get? hook
        have renamed : renameRole (.obj members) =
            setField (.obj members) "message" (setField (.obj fields') "role" (.str (js "custom"))) := by
          rw [renameRole, held]
          exact if_pos ⟨type, hook⟩
        refine iff_of_false (fun same => ?_) (by simp [isHookMessage, messageField?, held, hook, type])
        have type' := @entryType_renameRole (.obj members)
        rw [contextMessage?, contextMessage?, type', if_pos type, if_pos type, renamed, get?_setField_self, held] at same
        have roles := congrArg (fun value => Json.get? value (js "role"))
          (ContextMessage.stored.inj (Option.some.inj same))
        rw [get?_setField_self, hook] at roles
        cases (Json.str.inj (Option.some.inj roles) : js "custom" = js "hookMessage")
      · have same : renameRole entry = entry := by
          rw [renameRole, held]
          exact if_neg fun renamed => hook renamed.2
        simp [same, isHookMessage, messageField?, held, hook]
  · rw [renameRole_of_other type]
    simp [isHookMessage, type]

theorem isSome_contextMessage?_renameRole :
    (contextMessage? (renameRole entry)).isSome = (contextMessage? entry).isSome := by
  by_cases type : entryType entry = js "message"
  · rw [contextMessage?, contextMessage?, entryType_renameRole, if_pos type, if_pos type, Option.isSome_map,
      Option.isSome_map]
    unfold renameRole
    split
    · next message held =>
      split
      · obtain ⟨members, rfl⟩ := obj_of_get? held
        rw [get?_setField_self, held]
        rfl
      · rfl
    · rfl
  · rw [renameRole_of_other type]

end Roles

section Walks

variable {change : Json → Json} {entries path : List Json} {start : Option Json} {rounds : ℕ}

private theorem byId_map (sameId : ∀ entry, entryId (change entry) = entryId entry) (id : JsString) :
    byId (entries.map change) id = (byId entries id).map change := by
  rw [byId, byId, Forest.find?, Forest.find?, ← List.map_reverse, List.find?_map]
  simp only [Function.comp_def, sameId]

private theorem walkToRoot?_map (sameId : ∀ entry, entryId (change entry) = entryId entry)
    (sameParent : ∀ entry, parentId (change entry) = parentId entry) :
    walkToRoot? (entries.map change) rounds (start.map change) =
      (walkToRoot? entries rounds start).map (List.map change) := by
  induction rounds generalizing start with
  | zero => cases start <;> rfl
  | succ rounds ih =>
    cases start with
    | none => rfl
    | some current =>
      have above : (parentId (change current)).bind (byId (entries.map change)) =
          ((parentId current).bind (byId entries)).map change := by
        rw [sameParent]
        cases parentId current with
        | none => rfl
        | some id => exact byId_map sameId id
      rw [Option.map_some, walkToRoot?, above, ih, walkToRoot?]
      cases walkToRoot? entries rounds ((parentId current).bind (byId entries)) <;> simp

/-- A change that keeps ids and parents changes the path entry by entry. -/
theorem lastPath?_map (sameId : ∀ entry, entryId (change entry) = entryId entry)
    (sameParent : ∀ entry, parentId (change entry) = parentId entry) :
    lastPath? (entries.map change) = (lastPath? entries).map (List.map change) := by
  rw [lastPath?, pathTo?, List.length_map, List.getLast?_map, walkToRoot?_map sameId sameParent]
  rfl

private theorem shown_renameRole (path : List Json) : shownSummary (path.map renameRole) = shownSummary path ∧
    shownEntries (path.map renameRole) = (shownEntries path).map renameRole := by
  have found : (path.map renameRole).reverse.find? isCompaction = path.reverse.find? isCompaction := by
    rw [← List.map_reverse, List.find?_map]
    simp only [Function.comp_def, isCompaction_renameRole]
    cases hit : path.reverse.find? isCompaction with
    | none => rfl
    | some compaction =>
      have type : entryType compaction = js "compaction" := by simpa [isCompaction] using List.find?_some hit
      rw [Option.map_some, renameRole_of_other (by rw [type]; decide)]
  simp only [shownSummary, shownEntries, found]
  cases path.reverse.find? isCompaction with
  | none => exact ⟨trivial, rfl⟩
  | some compaction =>
    have sameId : ∀ entry, (renameRole entry).get? (js "id") = entry.get? (js "id") := fun entry =>
      get?_renameRole (by decide)
    simp only [fromFirstKept, List.findIdx_map, Function.comp_def, isCompaction_renameRole, sameId, true_and,
      ← List.map_take, ← List.map_drop, List.dropWhile_map, List.map_append]

private theorem filterMap_eq_iff {α β : Type} {first second : α → Option β} {items : List α}
    (alike : ∀ item, (first item).isSome = (second item).isSome) :
    items.filterMap first = items.filterMap second ↔ ∀ item ∈ items, first item = second item := by
  induction items with
  | nil => simp
  | cons item items ih =>
    have here := alike item
    cases one : first item <;> cases two : second item <;> simp_all

/-- After the renaming a path has the same messages exactly when none of those it shows has the old role. -/
theorem messages_renameRole_iff (path : List Json) :
    (pathContext path).messages = (pathContext (path.map renameRole)).messages ↔
      ∀ entry ∈ shownEntries path, isHookMessage entry = false := by
  obtain ⟨summary, shown⟩ := shown_renameRole path
  rw [messages_shown, messages_shown, summary, shown, List.append_cancel_left_eq, contextMessages, contextMessages,
    List.filterMap_map, eq_comm]
  exact (filterMap_eq_iff fun _ => isSome_contextMessage?_renameRole).trans
    (forall₂_congr fun entry _ => contextMessage?_renameRole)

end Walks

section Linked

variable {ids : ℕ → JsString} {entries init : List Json} {entry last : Json} {i : ℕ}

/-- An entry of a version 1 transcript: an object without the fields that later versions added. -/
structure IsLegacyEntry (entry : Json) : Prop where
  object : ∃ members, entry = .obj members
  noId : entry.get? (js "id") = none
  noParent : entry.get? (js "parentId") = none
  noFirstKept : entry.get? (js "firstKeptEntryId") = none

/-- The entries that a version 1 compaction keeps of those before it. -/
def keptByIndex (compaction : Json) (before : List Json) : List Json :=
  match (compaction.get? (js "firstKeptEntryIndex")).bind natural? with
  | some (index + 1) => before.drop index
  | _ => []

/-- The entry at an index after both migrations. -/
def migrated (ids : ℕ → JsString) (entries : List Json) (i : ℕ) (entry : Json) : Json :=
  renameRole (linkEntry ids entries i entry)

/-- Linking an entry changes no field but the four that it is about. -/
private theorem get?_linkEntry {key : JsString} (id : key ≠ js "id") (parent : key ≠ js "parentId")
    (kept : key ≠ js "firstKeptEntryId") (index : key ≠ js "firstKeptEntryIndex") :
    (linkEntry ids entries i entry).get? key = entry.get? key := by
  unfold linkEntry
  dsimp only
  split
  · rw [get?_deleteField_of_ne index]
    repeat' split
    all_goals simp only [get?_setField_of_ne _ kept, get?_setField_of_ne _ id, get?_setField_of_ne _ parent,
      get?_deleteField_of_ne kept]
  · rw [get?_setField_of_ne _ parent, get?_setField_of_ne _ id]

private theorem get?_linked {key : JsString} (kept : key ≠ js "firstKeptEntryId")
    (index : key ≠ js "firstKeptEntryIndex") : (linkEntry ids entries i entry).get? key =
      (setField (setField entry "id" (.str (ids i))) "parentId" (if i = 0 then .null else .str (ids (i - 1)))).get? key := by
  unfold linkEntry
  dsimp only
  split
  · rw [get?_deleteField_of_ne index]
    repeat' split
    all_goals simp only [get?_setField_of_ne _ kept, get?_deleteField_of_ne kept]
  · rfl

private theorem id_migrated (legacy : IsLegacyEntry entry) :
    (migrated ids entries i entry).get? (js "id") = some (.str (ids i)) := by
  obtain ⟨members, rfl⟩ := legacy.object
  rw [migrated, get?_renameRole (by decide), get?_linked (by decide) (by decide),
    get?_setField_of_ne _ (by decide), get?_setField_self]

private theorem entryId_migrated (legacy : IsLegacyEntry entry) : entryId (migrated ids entries i entry) = ids i := by
  rw [entryId, textField?, id_migrated legacy]
  rfl

private theorem parentId_migrated (legacy : IsLegacyEntry entry) (named : ∀ j, ids j ≠ []) :
    parentId (migrated ids entries i entry) = if i = 0 then none else some (ids (i - 1)) := by
  obtain ⟨members, rfl⟩ := legacy.object
  obtain ⟨changed, same⟩ : ∃ changed, setField (.obj members) "id" (.str (ids i)) = .obj changed := ⟨_, rfl⟩
  have held : (migrated ids entries i (.obj members)).get? (js "parentId") =
      some (if i = 0 then .null else .str (ids (i - 1))) := by
    rw [migrated, get?_renameRole (by decide), get?_linked (by decide) (by decide), same, get?_setField_self]
  rw [parentId, nonemptyField?, textField?, held]
  split
  · rfl
  · simp [Json.str?, named]

private theorem entryType_linkEntry : entryType (linkEntry ids entries i entry) = entryType entry := by
  rw [entryType, textField?, get?_linkEntry (by decide) (by decide) (by decide) (by decide)]
  rfl

private theorem contextMessage?_linkEntry : contextMessage? (linkEntry ids entries i entry) = contextMessage? entry := by
  simp (disch := decide) only [contextMessage?, entryType_linkEntry, nonemptyField?, textField?, get?_linkEntry]
  rfl

private theorem isCompaction_migrated : isCompaction (migrated ids entries i entry) = isCompaction entry := by
  rw [migrated, isCompaction_renameRole, isCompaction, entryType_linkEntry]
  rfl

private theorem isSome_contextMessage?_migrated :
    (contextMessage? (migrated ids entries i entry)).isSome = (contextMessage? entry).isSome := by
  rw [migrated, isSome_contextMessage?_renameRole, contextMessage?_linkEntry]

private theorem isHookMessage_linkEntry : isHookMessage (linkEntry ids entries i entry) = isHookMessage entry := by
  simp (disch := decide) only [isHookMessage, entryType_linkEntry, messageField?, get?_linkEntry]

private theorem entryType_of_compaction (holds : isCompaction entry = true) : entryType entry = js "compaction" := by
  simpa [isCompaction] using holds

private theorem migrated_compaction (holds : isCompaction entry = true) :
    migrated ids entries i entry = linkEntry ids entries i entry :=
  renameRole_of_other (by rw [entryType_linkEntry, entryType_of_compaction holds]; decide)

private theorem compactionSummary_migrated (holds : isCompaction entry = true) :
    compactionSummary (migrated ids entries i entry) = compactionSummary entry := by
  rw [migrated_compaction holds]
  simp (disch := decide) only [compactionSummary, get?_linkEntry]

private theorem get?_deleteField_self {members : List (JsString × Json)} {key : String} :
    (deleteField (.obj members) key).get? (js key) = none := by
  rw [deleteField, Json.get?, List.lookup_eq_none_iff]
  intro member inside
  exact bne_iff_ne.mpr (Ne.symm (of_decide_eq_true (List.mem_filter.mp inside).2))

/-- The first kept entry after the migration, in terms of the index before it. -/
private theorem firstKept_migrated (all : ∀ entry ∈ entries, IsLegacyEntry entry) (legacy : IsLegacyEntry entry)
    (holds : isCompaction entry = true) :
    (migrated ids entries i entry).get? (js "firstKeptEntryId") =
      match (entry.get? (js "firstKeptEntryIndex")).bind natural? with
      | some (target + 1) => if target ≤ i then some (.str (ids target)) else none
      | _ => none := by
  obtain ⟨members, rfl⟩ := legacy.object
  have bare : (setField (setField (.obj members) "id" (.str (ids i))) "parentId"
      (if i = 0 then .null else .str (ids (i - 1)))).get? (js "firstKeptEntryId") = none := by
    rw [get?_setField_of_ne _ (by decide), get?_setField_of_ne _ (by decide), legacy.noFirstKept]
  obtain ⟨changed, same⟩ : ∃ changed, setField (setField (.obj members) "id" (.str (ids i))) "parentId"
      (if i = 0 then .null else .str (ids (i - 1))) = .obj changed := ⟨_, rfl⟩
  rw [migrated_compaction holds, linkEntry, holds]
  dsimp only
  rw [same] at bare ⊢
  cases index : (Json.obj members).get? (js "firstKeptEntryIndex") with
  | none => exact bare
  | some value =>
    cases value with
    | num literal =>
      rw [get?_deleteField_of_ne (by decide), Option.bind_some]
      rcases natural? (.num literal) with _ | _ | target
      · exact bare
      · exact bare
      · dsimp only
        split
        · exact get?_setField_self _
        · cases later : entries[target]? with
          | none => exact bare
          | some other =>
            have noId : textField? other "id" = none := by
              rw [textField?, (all other (List.mem_of_getElem? later)).noId]
              rfl
            rw [Option.map_some, noId]
            exact get?_deleteField_self
    | _ => exact bare

private theorem dropWhile_ids {change : ℕ → Json → Json} (distinct : ids.Injective) (offset index : ℕ)
    (numbered : ∀ entry ∈ init, ∀ j, (change j entry).get? (js "id") = some (.str (ids (offset + j)))) :
    (init.mapIdx change).dropWhile (fun entry => entry.get? (js "id") ≠ some (.str (ids (offset + index)))) =
      (init.mapIdx change).drop index := by
  induction init generalizing change offset index with
  | nil => simp
  | cons entry init ih =>
    obtain ⟨here, others⟩ := List.forall_mem_cons.mp numbered
    rw [List.mapIdx_cons]
    cases index with
    | zero => exact List.dropWhile_cons_of_neg (by simp [here 0])
    | succ index =>
      have differ : ids (offset + 0) ≠ ids (offset + (index + 1)) := fun same => by
        have := distinct same
        omega
      rw [List.dropWhile_cons_of_pos (by simpa [here 0] using differ), List.drop_succ_cons]
      have shift : offset + (index + 1) = offset + 1 + index := by omega
      rw [shift]
      refine ih (offset + 1) index fun entry member j => ?_
      rw [others entry member (j + 1)]
      congr 3
      omega

private theorem contextMessages_mapIdx {change : ℕ → Json → Json} (index : ℕ)
    (alike : ∀ j entry, (contextMessage? (change j entry)).isSome = (contextMessage? entry).isSome) :
    contextMessages ((init.mapIdx change).drop index) = [] ↔ contextMessages (init.drop index) = [] := by
  induction init generalizing change index with
  | nil => simp
  | cons entry init ih =>
    have rest := fun index => @ih (fun j => change (j + 1)) index fun j => alike (j + 1)
    rw [List.mapIdx_cons]
    cases index with
    | succ index => exact rest index
    | zero =>
      have here := alike 0 entry
      have others := rest 0
      simp only [List.drop_zero, contextMessages, List.filterMap_cons] at others ⊢
      cases one : contextMessage? (change 0 entry) <;> cases two : contextMessage? entry <;> simp_all

/-- A field that depends on the place of an entry alone. -/
private theorem map_migrated {α : Type} {field : Json → α} {value : ℕ → α}
    (legacy : ∀ entry ∈ init, IsLegacyEntry entry)
    (here : ∀ i entry, IsLegacyEntry entry → field (migrated ids entries i entry) = value i) :
    (init.mapIdx (migrated ids entries)).map field = (List.range init.length).map value := by
  refine List.ext_getElem (by simp) fun i bound _ => ?_
  simp only [List.getElem_map, List.getElem_mapIdx, List.getElem_range]
  exact here i _ (legacy _ (List.getElem_mem _))

variable (distinct : ids.Injective) (legacy : ∀ entry ∈ init ++ [last], IsLegacyEntry entry)
include distinct legacy

/-- What a compaction at the end keeps after the migration carries a message exactly when it did before. -/
private theorem kept_migrated (holds : isCompaction last = true) :
    contextMessages (fromFirstKept (migrated ids (init ++ [last]) init.length last)
      (init.mapIdx (migrated ids (init ++ [last])))) = [] ↔ contextMessages (keptByIndex last init) = [] := by
  have numbered : ∀ entry ∈ init, ∀ j, (migrated ids (init ++ [last]) j entry).get? (js "id") = some (.str (ids (0 + j))) :=
    fun entry member j => by
      rw [Nat.zero_add]
      exact id_migrated (legacy entry (List.mem_append_left _ member))
  have nothing : (init.mapIdx (migrated ids (init ++ [last]))).dropWhile (fun entry => entry.get? (js "id") ≠ none) = [] :=
    List.dropWhile_eq_nil_iff.mpr fun entry member => by
      obtain ⟨j, bound, rfl⟩ := List.mem_mapIdx.mp member
      simp [numbered _ (List.getElem_mem bound) j]
  rw [fromFirstKept, firstKept_migrated legacy (legacy last (by simp)) holds, keptByIndex]
  rcases (last.get? (js "firstKeptEntryIndex")).bind natural? with _ | _ | index
  · dsimp only
    rw [nothing]
  · dsimp only
    rw [nothing]
  · dsimp only
    split
    · have dropped := dropWhile_ids distinct 0 index numbered
      rw [Nat.zero_add] at dropped
      rw [dropped]
      exact contextMessages_mapIdx index fun _ _ => isSome_contextMessage?_migrated
    · next late =>
      rw [nothing, List.drop_eq_nil_of_le (by omega)]

omit distinct legacy in
private theorem toList_inj {α : Type} {first second : Option α} : first.toList = second.toList ↔ first = second := by
  cases first <;> cases second <;> simp

/-- The last entry of a version 1 transcript shows what the migrated transcript shows exactly when nothing before it
counts. -/
theorem messages_linked_iff : (pathContext [last]).messages =
      (pathContext ((init ++ [last]).mapIdx (migrated ids (init ++ [last])))).messages ↔
    if isCompaction last then contextMessages (keptByIndex last init) = []
    else (∀ entry ∈ init, isCompaction entry = false ∧ contextMessage? entry = none) ∧ isHookMessage last = false := by
  have ids' : (((init ++ [last]).mapIdx (migrated ids (init ++ [last]))).map (·.get? (js "id"))).Nodup := by
    rw [map_migrated legacy fun _ _ => id_migrated]
    exact List.nodup_range.map fun first second same => distinct (by simpa using same)
  rw [List.mapIdx_append, List.mapIdx_singleton, Nat.zero_add] at ids' ⊢
  cases holds : isCompaction last with
  | true =>
    have alone := @messages_last [] [] _ (by simp) holds nofun
    have whole := @messages_last _ [] _ (by simpa using ids')
      ((@isCompaction_migrated ids (init ++ [last]) _ init.length).trans holds) nofun
    rw [List.nil_append] at alone
    have empty : fromFirstKept last [] = [] := rfl
    rw [alone, whole, compactionSummary_migrated holds, if_pos rfl, ← kept_migrated distinct legacy holds, empty,
      List.append_cancel_right_eq, List.cons.injEq, and_iff_right rfl, eq_comm]
    rfl
  | false =>
    rw [if_neg nofun, messages_none (by simpa using holds)]
    have ends : isCompaction (migrated ids (init ++ [last]) init.length last) = false := (isCompaction_migrated).trans holds
    have single (entry : Json) : contextMessages [entry] = (contextMessage? entry).toList := by
      cases one : contextMessage? entry <;> simp [contextMessages, one]
    have role : (contextMessage? last).toList =
        (contextMessage? (migrated ids (init ++ [last]) init.length last)).toList ↔ isHookMessage last = false := by
      have renamed := @contextMessage?_renameRole (linkEntry ids (init ++ [last]) init.length last)
      rw [contextMessage?_linkEntry, isHookMessage_linkEntry] at renamed
      exact (toList_inj).trans (eq_comm.trans renamed)
    have sizes : (contextMessage? last).toList.length =
        (contextMessage? (migrated ids (init ++ [last]) init.length last)).toList.length := by
      rw [Option.length_toList, Option.length_toList, isSome_contextMessage?_migrated]
    have before : contextMessages (init.mapIdx (migrated ids (init ++ [last]))) = [] ↔
        ∀ entry ∈ init, contextMessage? entry = none := by
      have same := @contextMessages_mapIdx init _ 0 fun j entry =>
        (isSome_contextMessage?_migrated : (contextMessage? (migrated ids (init ++ [last]) j entry)).isSome = _)
      rw [List.drop_zero, List.drop_zero] at same
      exact same.trans List.filterMap_eq_nil_iff
    rcases compaction_cases (init.mapIdx (migrated ids (init ++ [last]))) with
      none_ | ⟨front, compaction, back, split, isOne, none_⟩
    · have noneHere : ∀ entry ∈ init, isCompaction entry = false := fun entry member => by
        obtain ⟨j, bound, rfl⟩ := List.mem_iff_getElem.mp member
        rw [← @isCompaction_migrated ids (init ++ [last]) _ j]
        exact none_ _ (List.mem_mapIdx.mpr ⟨j, bound, rfl⟩)
      rw [messages_none (List.forall_mem_append.mpr ⟨none_, by simpa using ends⟩), contextMessages_append, single, single]
      constructor
      · intro same
        have nothing : contextMessages (init.mapIdx (migrated ids (init ++ [last]))) = [] := by
          have lengths := congrArg List.length same
          rw [List.length_append, sizes] at lengths
          exact List.length_eq_zero_iff.mp (by omega)
        rw [nothing, List.nil_append] at same
        exact ⟨fun entry member => ⟨noneHere entry member, before.mp nothing entry member⟩, role.mp same⟩
      · rintro ⟨nothing, known⟩
        rw [before.mpr fun entry member => (nothing entry member).2, List.nil_append]
        exact role.mpr known
    · rw [split] at ids' ⊢
      rw [List.append_assoc, List.cons_append] at ids' ⊢
      rw [messages_last ids' isOne (List.forall_mem_append.mpr ⟨none_, by simpa using ends⟩), contextMessages_append,
        single, single]
      constructor
      · intro same
        have lengths := congrArg List.length same
        simp only [List.length_append, List.length_cons, sizes] at lengths
        omega
      · rintro ⟨nothing, _⟩
        have inside : compaction ∈ init.mapIdx (migrated ids (init ++ [last])) := by simp [split]
        obtain ⟨j, bound, rfl⟩ := List.mem_mapIdx.mp inside
        rw [isCompaction_migrated, (nothing _ (List.getElem_mem bound)).1] at isOne
        cases isOne

/-- The migrated transcript is the path to its last entry. -/
theorem lastPath?_linked (named : ∀ j, ids j ≠ []) :
    lastPath? ((init ++ [last]).mapIdx (migrated ids (init ++ [last]))) =
      some ((init ++ [last]).mapIdx (migrated ids (init ++ [last]))) := by
  refine pathTo?_eq_some (Forest.trail_of_linked ?_ ?_ ?_) le_rfl
  · refine List.isChain_iff_getElem.mpr fun i bound => ?_
    rw [List.getElem_mapIdx, List.getElem_mapIdx, parentId_migrated (legacy _ (List.getElem_mem _)) named,
      entryId_migrated (legacy _ (List.getElem_mem _)), if_neg (Nat.succ_ne_zero i), Nat.add_sub_cancel]
  · have nodup : (((init ++ [last]).mapIdx (migrated ids (init ++ [last]))).map entryId).Nodup := by
      rw [map_migrated legacy fun _ _ => entryId_migrated]
      exact List.nodup_range.map distinct
    exact fun entry member => Forest.find?_of_nodup nodup member
  · intro first leads
    obtain ⟨j, bound, rfl⟩ := List.mem_mapIdx.mp (List.mem_of_head? leads)
    rw [List.head?_eq_getElem?, List.getElem?_eq_getElem (by simp), Option.mem_some_iff, List.getElem_mapIdx] at leads
    rw [← leads, parentId_migrated (legacy _ (List.getElem_mem _)) named, if_pos rfl]
    rfl

omit distinct in
/-- Without ids a walk ends where it starts. -/
theorem lastPath?_legacy : lastPath? (init ++ [last]) = some [last] := by
  have noParent : parentId last = none := by
    rw [parentId, nonemptyField?, textField?, (legacy last (by simp)).noParent]
    rfl
  refine pathTo?_eq_some ?_ (by simp)
  rw [List.getLast?_concat]
  refine @Forest.Trail.step _ _ _ _ _ _ last [] ?_
  rw [noParent]
  exact .stop

end Linked

section Agreement

variable {files : Files} {sourcePath targetCwd dir newSessionId timestamp newId cwd sessionDir time freshId : JsString}
  {ids forkIds : ℕ → JsString} {content : List UInt8} {source : LoadedFile}

/-- Whether a transcript shows the same messages when it is not migrated. -/
def ShownUnmigrated (source : LoadedFile) : Prop :=
  match versionNumber? source.header with
  | none => True
  | some version =>
    if 3 ≤ version then True
    else if version = 2 then
      ∀ path, lastPath? source.entries = some path → ∀ entry ∈ shownEntries path, isHookMessage entry = false
    else
      match source.entries.getLast? with
      | none => True
      | some last =>
        if isCompaction last then contextMessages (keptByIndex last source.entries.dropLast) = []
        else (∀ entry ∈ source.entries.dropLast, isCompaction entry = false ∧ contextMessage? entry = none) ∧
          isHookMessage last = false

private theorem context_migrated_iff (distinct : ids.Injective) (named : ∀ i, ids i ≠ [])
    (legacy : ∀ version, versionNumber? source.header = some version → version < 2 →
      ∀ entry ∈ source.entries, IsLegacyEntry entry) :
    ((lastPath? source.entries).map pathContext).map (·.messages) =
        ((lastPath? (migrateToCurrentVersion ids source.header source.entries).entries).map pathContext).map (·.messages) ↔
      ShownUnmigrated source := by
  unfold ShownUnmigrated migrateToCurrentVersion
  cases number : versionNumber? source.header with
  | none => simp
  | some version =>
    dsimp only
    split
    · simp
    · next old =>
      dsimp only
      by_cases second : version = 2
      · subst second
        rw [if_neg (by decide), if_pos rfl, migrateV2ToV3, lastPath?_map (fun _ => entryId_renameRole) fun _ =>
          parentId_renameRole]
        cases lastPath? source.entries with
        | none => simp
        | some path => simpa using messages_renameRole_iff path
      · have both (entries : List Json) : migrateV2ToV3 (migrateV1ToV2 ids entries) =
            entries.mapIdx (migrated ids entries) := List.ext_getElem (by simp [migrateV2ToV3, migrateV1ToV2]) fun i _ _ => by
          simp [migrateV2ToV3, migrateV1ToV2, migrated]
        rw [if_pos (by omega), if_neg second, both]
        have legacy := legacy version number (by omega)
        rcases List.eq_nil_or_concat' source.entries with nothing | ⟨init, last, split⟩
        · rw [nothing]
          simp
        · rw [split] at legacy ⊢
          have whole := lastPath?_linked distinct legacy named
          rw [List.getLast?_concat, List.dropLast_concat, lastPath?_legacy legacy]
          dsimp only
          rw [whole]
          simpa using messages_linked_iff distinct legacy

end Agreement

section Legacy

private def spokenMessage (text : String) : Json := .obj [(js "role", .str (js "user")), (js "content", .str (js text))]

/-- An entry of a version 1 transcript with a message. -/
private def legacyMessage (text : String) : Json :=
  .obj [(js "type", .str (js "message")), (js "timestamp", .str (js "2024-01-01T00:00:00.000Z")),
    (js "message", spokenMessage text)]

private def legacyHeader : Json :=
  .obj [(js "type", .str (js "session")), (js "id", .str (js "old")), (js "timestamp", .str (js "2024-01-01T00:00:00.000Z")),
    (js "cwd", .str (js "/project"))]

/-- A version 1 transcript with two messages. -/
def legacyFile : List UInt8 :=
  encodeUtf8 (unlines ([legacyHeader, legacyMessage "first", legacyMessage "second"].map stringify))

private def legacySource : LoadedFile where
  header := ⟨none, js "old", some (.str (js "2024-01-01T00:00:00.000Z")), some (.str (js "/project")), none, none⟩
  entries := [legacyMessage "first", legacyMessage "second"]
  salvagedLine := none

private def legacyFiles : Files := JsMap.empty.set (js "/old.jsonl") legacyFile

private def countedIds (i : ℕ) : JsString := List.replicate (i + 1) 97

private theorem legacyEntries : ∀ entry ∈ legacySource.entries, IsLegacyEntry entry := by
  intro entry member
  have object : ∀ text, IsLegacyEntry (legacyMessage text) := fun text =>
    ⟨⟨_, rfl⟩, rfl, rfl, rfl⟩
  simp only [legacySource, List.mem_cons, List.not_mem_nil, or_false] at member
  rcases member with rfl | rfl
  · exact object _
  · exact object _

private theorem legacy_facts : legacyFiles.get? (js "/old.jsonl") = some legacyFile ∧
    loadEntriesFromFile (js "/old.jsonl") legacyFile = .ok (some legacySource) ∧
    legacyFiles.get? (sessionPath (js "/sessions") (js "new")) = none ∧
    ((lastPath? legacySource.entries).map pathContext).map (·.messages) ≠
      ((lastPath? (migrateToCurrentVersion countedIds legacySource.header legacySource.entries).entries).map
        pathContext).map (·.messages) := by
  decide +kernel

private theorem countedIds_injective : countedIds.Injective := fun i j same => by
  simpa [countedIds] using congrArg List.length same

end Legacy

end PieAgent.Soundness
