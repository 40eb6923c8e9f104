import PieAgent.Soundness.BranchExtraction
import PieAgent.Soundness.TranscriptAgreement

/-! # Appends whose writes fail

Until the whole file has been written once, the entries are in memory alone and a failed write is made good by
the next one. From then on every entry is a line of its own: when a last write fails or is cut short at any byte,
the file still yields every entry whose append has returned, on the path of the leaf.
-/

namespace PieAgent.Soundness

open JavaScript PieAgent.Model.Transcript PieAgent.Proofs

/-- A session while entries are appended to it, and the entries whose append has returned. -/
structure Appending where
  workspace : Workspace
  returned : List Json

namespace Appending

variable (state : Appending)

/-- The session after an append. -/
def record (result : Workspace × Except ManagerError JsString) : Appending where
  workspace := result.1
  returned :=
    match result.2 with
    | .ok _ => state.returned ++ result.1.manager.entries.getLast?.toList
    | .error _ => state.returned

/-- An append; no other operation is taken. -/
def step? : Operation → Option Appending
  | .append content id timestamp write => some (state.record (state.workspace.append content id timestamp write))
  | .appendLabelChange targetId label id timestamp write =>
    some (state.record (state.workspace.appendLabelChange targetId label id timestamp write))
  | _ => none

end Appending

/-- The fate of the write of an append. -/
def writeOutcome : Operation → WriteOutcome
  | .append _ _ _ write | .appendLabelChange _ _ _ _ write => write
  | _ => .completed

/-- An append draws an unused id for ordinary data. -/
def Draws (state : Appending) (operation : Operation) : Prop :=
  UnusedIds state.workspace operation ∧
    match operation with
    | .append content _ _ _ => OrdinaryContent content
    | _ => True

/-- A write may fail while the manager is not flushed. -/
def Disciplined (state : Appending) (operation : Operation) : Prop :=
  Draws state operation ∧ (writeOutcome operation = .completed ∨ state.workspace.manager.flushed = false)

/-- A session that operations without failed writes have led to. -/
def ReachedSoundly (workspace : Workspace) : Prop :=
  ∃ (files : Files) (cwd sessionDir : JsString) (persist : Bool) (operations : List Operation),
    Machine.Meets workspaceStep (fun workspace operation => Sound workspace operation ∧ UnusedIds workspace operation)
        ⟨.blank cwd sessionDir persist, files⟩ operations ∧
      Machine.run? workspaceStep ⟨.blank cwd sessionDir persist, files⟩ operations = some workspace

/-- Opening the file succeeds, and the leaf leads back to all the entries. -/
def ReturnedSurvive (files : Files) (path : JsString) (returned : List Json) : Prop :=
  ∀ cwd sessionDir newId timestamp ids, ∃ reopened branch,
    Workspace.openSession files cwd sessionDir path newId timestamp ids = .ok reopened ∧
      reopened.manager.leafId.elim (some []) reopened.manager.getBranch = some branch ∧ returned ⊆ branch

section Chain

variable {entries returned : List Json} {leafId : Option JsString} {entry : Json}

/-- The entries whose append has returned are on the path of the last entry, which is the leaf. -/
structure Chained (entries : List Json) (leafId : Option JsString) (returned : List Json) : Prop where
  tree : SessionTree entries leafId
  reached : returned = [] ∨ leafId = entries.getLast?.map entryId ∧ ∃ path, Trail entries entries.getLast? path ∧ returned ⊆ path

/-- An entry below the leaf is on the path with those before it. -/
theorem Chained.push (chained : Chained entries leafId returned) (unused : UnusedId entries (entryId entry))
    (below : parentId entry = leafId.filter (· ≠ [])) {more : List Json} (fewer : more ⊆ returned ++ [entry]) :
    Chained (entries ++ [entry]) (some (entryId entry)) more := by
  have tree := chained.tree.snoc unused fun above names =>
    chained.tree.leaf above (Option.filter_eq_some_iff.mp (below ▸ names)).1
  refine ⟨tree, .inr ⟨by rw [List.getLast?_concat]; rfl, ?_⟩⟩
  rw [List.getLast?_concat]
  rcases chained.reached with rfl | ⟨isLast, path, trail, inside⟩
  · obtain ⟨path, trail, _, _⟩ := tree.exists_path (List.mem_append_right entries (List.mem_singleton_self entry))
    have last : entry ∈ path := List.mem_of_getLast? trail.getLast?
    exact ⟨path, trail, List.Subset.trans fewer (by simpa using last)⟩
  · have onPath : returned ++ [entry] ⊆ path ++ [entry] :=
      List.append_subset.mpr ⟨List.subset_append_of_subset_left _ inside, List.subset_append_right _ _⟩
    refine ⟨path ++ [entry], .step ?_, List.Subset.trans fewer onPath⟩
    rw [below, isLast]
    cases last : entries.getLast? with
    | none =>
      rw [last] at trail
      cases trail
      exact .stop
    | some top =>
      have known := List.mem_of_getLast? last
      have found : Forest.find? entryId (entries ++ [entry]) (entryId top) = some top := by
        rw [Forest.find?_snoc_of_ne fun same => unused.2.1 (by rw [same]; exact List.mem_map_of_mem known)]
        exact byId_eq_some chained.tree.loose.nodup known
      rw [Option.map_some, Option.filter_some_pos (by simpa using chained.tree.named top known), Option.bind_some, found]
      rw [last] at trail
      exact trail.snoc unused.2 (by simpa using known)

variable {files : Files} {path : JsString} {bytes : List UInt8} {header : SessionHeader} {salvaged : Option ℕ} {version : ℕ}

/-- A file of chained entries keeps them. -/
theorem Chained.survives (chained : Chained entries leafId returned) (held : files.get? path = some bytes)
    (loads : loadEntriesFromFile path bytes = .ok (some ⟨header, entries, salvaged⟩))
    (named : versionNumber? header = some version) (current : 3 ≤ version) : ReturnedSurvive files path returned := by
  intro cwd sessionDir newId timestamp ids
  obtain ⟨reopened, success, same, leaf⟩ := @openSession_manager _ _ cwd sessionDir newId timestamp ids _ _ held loads
  rw [migrate_current_le named current] at same leaf
  cases last : entries.getLast? with
  | none =>
    obtain rfl := List.getLast?_eq_none_iff.mp last
    refine ⟨reopened, [], success, by rw [leaf]; rfl, ?_⟩
    rcases chained.reached with rfl | ⟨_, path, trail, inside⟩
    · exact List.nil_subset _
    · cases trail
      exact inside
  | some top =>
    have known := List.mem_of_getLast? last
    obtain ⟨path, trail, _, walked⟩ := chained.tree.exists_path known
    refine ⟨reopened, path, success, ?_, ?_⟩
    · rw [leaf, last, Option.map_some, Option.elim_some, SessionManager.getBranch, same,
        Option.filter_some_pos (by simpa using chained.tree.named top known), Option.bind_some,
        byId_eq_some chained.tree.loose.nodup known, walked]
    · rcases chained.reached with rfl | ⟨_, other, trail', inside⟩
      · exact List.nil_subset _
      · rw [last] at trail'
        exact trail.unique trail' ▸ inside

end Chain

section Steps

variable {state next : Appending} {operation : Operation}

private theorem getLast?_appendEntry (workspace : Workspace) (entry : Json) (write : WriteOutcome) :
    (workspace.appendEntry entry write).1.manager.entries.getLast? = some entry := by
  obtain ⟨flushed, same⟩ := appendEntry_manager workspace write entry
  rw [same]
  exact List.getLast?_concat

/-- What an append can do: nothing, for a label without a target, or to add an entry below the leaf, which counts
as returned when the write does not fail. -/
theorem Appending.step?_cases (stepped : state.step? operation = some next) (draws : Draws state operation) :
    next = state ∨ ∃ members labelsById labelTimestampsById, (Json.obj members).ordinary = true ∧
      UnusedId state.workspace.manager.entries (entryId (.obj members)) ∧
      parentId (.obj members) = state.workspace.manager.leafId.filter (· ≠ []) ∧
      next.workspace =
        ⟨{ (state.workspace.appendEntry (.obj members) (writeOutcome operation)).1.manager with
            labelsById, labelTimestampsById },
          (state.workspace.appendEntry (.obj members) (writeOutcome operation)).1.files⟩ ∧
      match (state.workspace.appendEntry (.obj members) (writeOutcome operation)).2 with
      | .ok _ => next.returned = state.returned ++ [.obj members]
      | .error _ => next.returned = state.returned := by
  cases operation with
  | append content id timestamp write =>
    cases stepped
    obtain ⟨unused, plain⟩ := draws
    have ordinary := ordinary_content id state.workspace.manager.leafId timestamp content plain
    have own := entryId_content id state.workspace.manager.leafId timestamp content
    have below := parentId_content id state.workspace.manager.leafId timestamp content
    obtain ⟨members, same⟩ : ∃ members, content.entry id state.workspace.manager.leafId timestamp = .obj members := by
      cases content <;> exact ⟨_, rfl⟩
    rw [same] at ordinary own below
    refine .inr ⟨members, (state.workspace.appendEntry (.obj members) write).1.manager.labelsById,
      (state.workspace.appendEntry (.obj members) write).1.manager.labelTimestampsById, ordinary,
      by rw [own]; exact unused, below, ?_, ?_⟩
    · rw [Appending.record, Workspace.append, same]
      rfl
    · rw [Appending.record, Workspace.append, same]
      dsimp only [writeOutcome]
      cases result : (state.workspace.appendEntry (.obj members) write).2 with
      | ok _ =>
        dsimp only [Except.map]
        rw [getLast?_appendEntry]
        rfl
      | error error => rfl
  | appendLabelChange targetId label id timestamp write =>
    cases stepped
    rw [Workspace.appendLabelChange]
    split
    · exact .inl rfl
    · have ordinary := ordinary_labelEntry id state.workspace.manager.leafId (some (.str timestamp)) targetId label
        (fun value held => by cases held; rfl)
      have own := entryId_labelEntry id state.workspace.manager.leafId (some (.str timestamp)) targetId label
      have below := parentId_labelEntry id state.workspace.manager.leafId (some (.str timestamp)) targetId label
      obtain ⟨members, same⟩ : ∃ members,
          labelEntry id state.workspace.manager.leafId (some (.str timestamp)) targetId label = .obj members := ⟨_, rfl⟩
      rw [same] at ordinary own below ⊢
      dsimp only [writeOutcome]
      have last := getLast?_appendEntry state.workspace (.obj members) write
      split
      · next appended error result =>
        rw [result] at last
        exact .inr ⟨members, appended.manager.labelsById, appended.manager.labelTimestampsById, ordinary,
          by rw [own]; exact draws.1, below, by rw [result]; rfl, by rw [result]; rfl⟩
      · next appended result =>
        rw [result] at last
        obtain ⟨labelTimestampsById, labelled⟩ := applyLabel_frame appended.manager targetId label (some (.str timestamp))
        refine .inr ⟨members, setLabel appended.manager.labelsById targetId label, labelTimestampsById, ordinary,
          by rw [own]; exact draws.1, below, ?_, ?_⟩
        · rw [Appending.record, labelled, result]
        · rw [result, Appending.record, labelled, last]
          rfl
  | _ => cases stepped

/-- What holds while every write that fails is made good. -/
structure Appendable (state : Appending) : Prop where
  file : HasRecoverableFile state.workspace
  chained : Chained state.workspace.manager.entries state.workspace.manager.leafId state.returned

private theorem returned_subset {result : Except ManagerError Unit} {before after : List Json} {entry : Json}
    (same : match result with
      | .ok _ => after = before ++ [entry]
      | .error _ => after = before) : after ⊆ before ++ [entry] := by
  cases result with
  | ok _ => exact same ▸ List.Subset.refl _
  | error error => exact same ▸ List.subset_append_left _ _

theorem Appendable.step (appendable : Appendable state) (disciplined : Disciplined state operation)
    (stepped : state.step? operation = some next) : Appendable next := by
  obtain ⟨draws, disciplined⟩ := disciplined
  rcases Appending.step?_cases stepped draws with
    rfl | ⟨members, labelsById, labelTimestampsById, ordinary, unused, below, workspace, returned⟩
  · exact appendable
  · obtain ⟨flushed, files, result, appended, file, _⟩ := appendable.file.appendEntry ordinary disciplined
    have chained := appendable.chained.push unused below (returned_subset returned)
    rw [appended] at workspace
    refine ⟨?_, ?_⟩
    · rw [workspace]
      exact ⟨file.ordinary, file.persists, file.file⟩
    · rw [workspace]
      exact chained

/-- A last append may fail in any way. -/
theorem Appendable.last (appendable : Appendable state) (draws : Draws state operation)
    (stepped : state.step? operation = some next) (flushed : next.workspace.manager.flushed = true) {path : JsString}
    (isFile : next.workspace.manager.sessionFile = some path) :
    ReturnedSurvive next.workspace.files path next.returned := by
  by_cases disciplined : writeOutcome operation = .completed ∨ state.workspace.manager.flushed = false
  · obtain ⟨file, chained⟩ := appendable.step ⟨draws, disciplined⟩ stepped
    obtain ⟨held, _, version, named, current⟩ := file.file path isFile
    obtain ⟨bytes, content, holds⟩ := held flushed
    exact chained.survives content holds.loads named current
  · obtain ⟨failed, wasFlushed⟩ := not_or.mp disciplined
    rw [Bool.not_eq_false] at wasFlushed
    rcases Appending.step?_cases stepped draws with
      rfl | ⟨members, labelsById, labelTimestampsById, ordinary, unused, below, workspace, returned⟩
    · obtain ⟨held, _, version, named, current⟩ := appendable.file.file path isFile
      obtain ⟨bytes, content, holds⟩ := held flushed
      exact appendable.chained.survives content holds.loads named current
    · obtain ⟨cut, outcome⟩ : ∃ cut, writeOutcome operation = .failed cut := by
        cases same : writeOutcome operation with
        | completed => exact absurd same failed
        | failed cut => exact ⟨cut, rfl⟩
      rw [outcome] at workspace returned
      rw [workspace] at flushed isFile ⊢
      obtain ⟨_, kept⟩ := appendEntry_manager state.workspace (.failed cut) (.obj members)
      have file : state.workspace.manager.sessionFile = some path := by
        rw [kept] at isFile
        exact isFile
      obtain ⟨files, bytes, n, appended, holds, content⟩ := appendable.file.appendEntry_cut file wasFlushed cut flushed
      rw [appended] at returned ⊢
      obtain ⟨_, _, version, named, current⟩ := appendable.file.file path file
      obtain ⟨entries, salvaged, loads, rfl | rfl⟩ := @FileHolds.loads_cut path _ _ _ _ holds ordinary n
      · rw [show next.returned = state.returned from returned]
        exact appendable.chained.survives content loads named current
      · exact (appendable.chained.push unused below (by
          rw [show next.returned = state.returned from returned]
          exact List.subset_append_left _ _)).survives content loads named current

end Steps

section Runs

variable {workspace : Workspace} {state final : Appending} {appends : List Operation} {last : Operation} {path : JsString}

private theorem appendable_of_reached (reached : ReachedSoundly workspace) : Appendable ⟨workspace, []⟩ := by
  obtain ⟨files, cwd, sessionDir, persist, operations, meets, run⟩ := reached
  have both : Agreement workspace ∧ Built workspace :=
    Machine.run?_invariant (fun workspace => Agreement workspace ∧ Built workspace)
      (fun workspace operation next holds condition stepped => by
        cases stepped
        exact ⟨holds.1.perform condition.1, holds.2.step condition.2⟩)
      ⟨agreement_blank .., .blank ..⟩ meets run
  exact ⟨both.1.toHasRecoverableFile, built_tree both.2, .inl rfl⟩

end Runs

section Deferred

private def spoken (role : String) : Content := .message (.obj [(js "role", .str (js role)), (js "content", .str (js "hello"))])

private def freshSession : Workspace :=
  .construct .empty (js "/project") (js "/sessions") true (js "session") (js "2026-01-01T00:00:00.000Z")

private theorem reached_freshSession : ReachedSoundly freshSession := by
  have named : js "session" ≠ [] := by decide
  exact ⟨.empty, js "/project", js "/sessions", true, [.newSession {} (js "session") (js "2026-01-01T00:00:00.000Z")],
    .cons ⟨⟨trivial, named⟩, trivial⟩ rfl Machine.meets_nil, rfl⟩

private def question : Operation := .append (spoken "user") (js "q") (js "2026-01-01T00:00:01.000Z") .completed

/-- The reply is cut short while the whole file is written. -/
private def cutReply : Operation := .append (spoken "assistant") (js "a") (js "2026-01-01T00:00:02.000Z") (.failed (some 7))

private def reply : Operation := .append (spoken "assistant") (js "b") (js "2026-01-01T00:00:03.000Z") .completed

/-- A last question is cut short inside its line. -/
private def cutQuestion : Operation := .append (spoken "user") (js "c") (js "2026-01-01T00:00:04.000Z") (.failed (some 9))

private def afterAppends (operations : List Operation) : Appending :=
  (Machine.run? Appending.step? ⟨freshSession, []⟩ operations).getD ⟨freshSession, []⟩

private theorem appends_facts :
    (∀ role ∈ ["user", "assistant"],
      (Json.obj [(js "role", .str (js role)), (js "content", .str (js "hello"))]).ordinary = true) ∧
    UnusedId freshSession.manager.entries (js "q") ∧
    UnusedId (afterAppends [question]).workspace.manager.entries (js "a") ∧
    UnusedId (afterAppends [question, cutReply]).workspace.manager.entries (js "b") ∧
    UnusedId (afterAppends [question, cutReply, reply]).workspace.manager.entries (js "c") ∧
    (afterAppends [question]).workspace.manager.flushed = false ∧
    (afterAppends [question, cutReply, reply, cutQuestion]).workspace.manager.flushed = true ∧
    (afterAppends [question, cutReply, reply, cutQuestion]).workspace.manager.sessionFile =
      some (js "/sessions/session.jsonl") ∧
    (afterAppends [question]).workspace.manager.sessionFile = some (js "/sessions/session.jsonl") ∧
    (Workspace.openSession (afterAppends [question]).workspace.files (js "/project") (js "/sessions")
      (js "/sessions/session.jsonl") (js "unused") (js "now") fun _ => js "id").toOption.map
        (fun reopened => reopened.manager.leafId) = some none ∧
    (afterAppends [question]).returned.length = 1 := by
  decide +kernel

end Deferred

end PieAgent.Soundness
