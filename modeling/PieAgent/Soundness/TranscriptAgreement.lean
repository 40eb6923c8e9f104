import PieAgent.Machine.Core.Labeled
import PieAgent.Proofs.Session.BranchedEntries

/-! # The file of a manager agrees with its memory

The entries wait in memory until a message of the assistant is among them; from then on the file holds what the
manager holds. A manager that switches to a file takes it over as it is found, so the agreement is lost with a
file that cannot be loaded, whose last line is not terminated, or whose header cannot be written back.
-/

namespace PieAgent.Soundness

open JavaScript PieAgent.Model.Transcript PieAgent.Proofs
open PieAgent.Model (textField?)

section Invariant

/-- What holds of a manager and its file after every operation. -/
structure Agreement (workspace : Workspace) extends HasRecoverableFile workspace where
  labels : workspace.manager.labelsById = labelsOf workspace.manager.entries
  times : OrdinaryTimes workspace.manager.labelTimestampsById
  waiting : ∀ path, workspace.manager.sessionFile = some path → workspace.manager.flushed = false →
    workspace.manager.hasAssistant = false

/-- Whenever the session has a message of the assistant, the file is loaded as the header and the entries in
memory, and a manager that opens it has the same labels. -/
def FileAgrees (workspace : Workspace) : Prop :=
  workspace.manager.hasAssistant = true → ∀ path, workspace.manager.sessionFile = some path →
    ∃ bytes, workspace.files.get? path = some bytes ∧
      loadEntriesFromFile path bytes = .ok (some ⟨workspace.manager.header, workspace.manager.entries, none⟩) ∧
      ∀ cwd sessionDir newId timestamp ids, ∃ reopened,
        Workspace.openSession workspace.files cwd sessionDir path newId timestamp ids = .ok reopened ∧
          reopened.manager.labelsById = workspace.manager.labelsById

theorem Agreement.fileAgrees {workspace : Workspace} (agreement : Agreement workspace) : FileAgrees workspace := by
  intro assistant path isFile
  obtain ⟨held, _, version, named, current⟩ := agreement.file path isFile
  cases flushed : workspace.manager.flushed with
  | false =>
    rw [agreement.waiting path isFile flushed] at assistant
    cases assistant
  | true =>
    obtain ⟨bytes, content, holds⟩ := held flushed
    refine ⟨bytes, content, holds.loads, fun cwd sessionDir newId timestamp ids => ?_⟩
    unfold Workspace.openSession Workspace.openFile Workspace.setSessionFile
    dsimp only
    rw [content]
    dsimp only
    rw [holds.loads]
    dsimp only
    rw [migrate_current_le named current]
    refine ⟨_, rfl, ?_⟩
    dsimp only
    rw [if_neg (by simp)]
    rw [labelsById_buildIndex _ (by exact agreement.ordinary), agreement.labels]

end Invariant

section Steps

variable {workspace : Workspace} {manager : SessionManager} {files : Files} {path id newId timestamp : JsString}

/-- A manager that starts a session with a file. -/
private theorem agreement_fresh (persists : manager.persist = true) (isFile : manager.sessionFile = some path)
    (nothing : manager.entries = []) (labels : manager.labelsById = .empty)
    (times : OrdinaryTimes manager.labelTimestampsById) (wired : HasWireShape manager.header) :
    Agreement ⟨manager, files.set path (fileContent manager.header manager.entries path)⟩ := by
  refine ⟨⟨?_, fun _ _ => persists, fun same found => ?_⟩, ?_, times, fun _ _ _ => ?_⟩
  · rw [nothing]
    exact nofun
  · obtain rfl : path = same := Option.some.inj (isFile.symm.trans found)
    rw [JsMap.get?_set_self, nothing]
    exact ⟨fun _ => ⟨_, rfl, fileHolds_fileContent wired nofun⟩, .inl wired, versionNumber?_wired wired⟩
  · rw [labels, nothing]
    rfl
  · rw [SessionManager.hasAssistant, nothing]
    rfl

theorem agreement_blank (files : Files) (cwd sessionDir : JsString) (persist : Bool) :
    Agreement ⟨.blank cwd sessionDir persist, files⟩ :=
  ⟨⟨nofun, nofun, nofun⟩, rfl, ordinaryTimes_empty, nofun⟩

variable (agreement : Agreement workspace)
include agreement

theorem Agreement.newSession {options : NewSessionOptions} (named : options.id.getD newId ≠ []) :
    Agreement (workspace.newSession options newId timestamp) := by
  unfold Workspace.newSession
  dsimp only
  split
  · next persists =>
    rw [rewriteFile_completed (by exact persists) rfl]
    exact agreement_fresh (by exact persists) rfl rfl rfl agreement.times (hasWireShape_mintHeader _ named _)
  · next memory =>
    have unkept (path : JsString) : workspace.manager.sessionFile ≠ some path := fun isFile =>
      memory (agreement.persists path isFile)
    exact ⟨⟨nofun, fun path isFile => absurd isFile (unkept path), fun path isFile => absurd isFile (unkept path)⟩, rfl,
      agreement.times, fun path isFile => absurd isFile (unkept path)⟩

/-- Moving the leaf changes nothing of it. -/
theorem Agreement.at (leafId : Option JsString) :
    Agreement { workspace with manager := { workspace.manager with leafId } } :=
  ⟨⟨agreement.ordinary, agreement.persists, agreement.file⟩, agreement.labels, agreement.times, agreement.waiting⟩

/-- Appending an entry that is no label. -/
theorem Agreement.appendOther {members : List (JsString × Json)} (ordinary : (Json.obj members).ordinary = true)
    (other : isLabel (.obj members) = false) : Agreement (workspace.appendEntry (.obj members) .completed).1 := by
  obtain ⟨flushed, files, result, appended, recoverable, completed⟩ :=
    agreement.toHasRecoverableFile.appendEntry ordinary (.inl rfl)
  rw [appended]
  refine ⟨recoverable, ?_, agreement.times, (completed rfl).2⟩
  show workspace.manager.labelsById = labelsOf (workspace.manager.entries ++ [Json.obj members])
  rw [labelsOf_concat, labelStep_of_other other, agreement.labels]

theorem Agreement.append {content : Content} (ordinary : OrdinaryContent content) :
    Agreement (workspace.append content id timestamp .completed).1 := by
  have plain := ordinary_content id workspace.manager.leafId timestamp content ordinary
  have other := isLabel_content id workspace.manager.leafId timestamp content
  obtain ⟨members, same⟩ : ∃ members, content.entry id workspace.manager.leafId timestamp = .obj members := by
    cases content <;> exact ⟨_, rfl⟩
  rw [same] at plain other
  show Agreement (workspace.appendEntry (content.entry id workspace.manager.leafId timestamp) .completed).1
  rw [same]
  exact agreement.appendOther plain other

theorem Agreement.appendLabelChange {targetId : JsString} {label : Option JsString} :
    Agreement (workspace.appendLabelChange targetId label id timestamp .completed).1 := by
  unfold Workspace.appendLabelChange
  split
  · exact agreement
  · have plain := ordinary_labelEntry id workspace.manager.leafId (some (.str timestamp)) targetId label
      (fun value held => by cases held; rfl)
    have step := @labelStep_labelEntry workspace.manager.labelsById id workspace.manager.leafId
      (some (.str timestamp)) targetId label
    obtain ⟨members, same⟩ : ∃ members,
        labelEntry id workspace.manager.leafId (some (.str timestamp)) targetId label = .obj members := ⟨_, rfl⟩
    rw [same] at plain step ⊢
    obtain ⟨flushed, files, result, appended, recoverable, completed⟩ :=
      agreement.toHasRecoverableFile.appendEntry plain (.inl rfl)
    obtain ⟨rfl, waiting⟩ := completed rfl
    rw [appended]
    dsimp only
    have times := @ordinaryTimes_applyLabel targetId label (some (.str timestamp))
      (pushed workspace.manager (.obj members) flushed) agreement.times (fun value held => by cases held; rfl)
    obtain ⟨labelTimestampsById, labelled⟩ := applyLabel_frame (pushed workspace.manager (.obj members) flushed)
      targetId label (some (.str timestamp))
    rw [labelled] at times ⊢
    refine ⟨⟨recoverable.ordinary, recoverable.persists, recoverable.file⟩, ?_, times, waiting⟩
    show setLabel workspace.manager.labelsById targetId label = labelsOf (workspace.manager.entries ++ [Json.obj members])
    rw [labelsOf_concat, ← agreement.labels, step]

theorem Agreement.branchWithSummary {branchFromId : Option JsString} {summary : JsString} {details : Option Json}
    {fromHook : Option Bool} (ordinary : ∀ value ∈ details, value.ordinary = true) :
    Agreement (workspace.branchWithSummary branchFromId summary details fromHook id timestamp .completed).1 := by
  unfold Workspace.branchWithSummary
  split
  · exact agreement
  · exact (agreement.at branchFromId).appendOther
      (ordinary_branchSummaryEntry id branchFromId timestamp summary details fromHook ordinary)
      (isLabel_branchSummaryEntry ..)

theorem Agreement.branch {branchFromId : JsString} : Agreement (workspace.branch branchFromId).1 := by
  unfold Workspace.branch
  split
  · exact agreement
  · exact agreement.at _

/-- An extraction writes the branch, or lets it wait. -/
theorem Agreement.createBranchedSession {leafId : JsString} {labelIds : ℕ → JsString} (named : newId ≠ []) :
    Agreement (workspace.createBranchedSession leafId newId timestamp labelIds).1 := by
  unfold Workspace.createBranchedSession
  split
  · exact agreement
  · exact agreement
  · next path _ walked =>
    have ordinary := @ordinary_branchedEntries _ labelIds _ agreement.times agreement.ordinary (getBranch_subset walked)
    have wired := @hasWireShape_mintHeader workspace.manager _ timestamp named
      (if workspace.manager.persist then workspace.manager.sessionFile else none)
    obtain ⟨times, leaf, plain, indexed⟩ := buildIndex_frame { workspace.manager with
      header := workspace.manager.mintHeader newId timestamp
        (if workspace.manager.persist then workspace.manager.sessionFile else none)
      entries := workspace.manager.branchedEntries path labelIds
      sessionId := newId
      sessionFile := if workspace.manager.persist then some (sessionPath workspace.manager.sessionDir newId)
        else workspace.manager.sessionFile } ordinary
    dsimp only
    split
    · next persists =>
      simp only [if_pos persists] at indexed wired ⊢
      rw [indexed]
      split
      · next assistant =>
        rw [rewriteFile_completed (by exact persists) rfl]
        refine ⟨⟨ordinary, fun _ _ => persists, fun same found => ?_⟩, rfl, plain, nofun⟩
        cases found
        exact ⟨fun _ => ⟨_, JsMap.get?_set_self .., fileHolds_fileContent wired ordinary⟩, .inl wired,
          versionNumber?_wired wired⟩
      · next waits =>
        exact ⟨⟨ordinary, fun _ _ => persists, fun same found => ⟨nofun, .inl wired, versionNumber?_wired wired⟩⟩, rfl,
          plain, fun _ _ _ => Bool.eq_false_iff.mpr waits⟩
    · next memory =>
      simp only [if_neg memory] at indexed ⊢
      have unkept (path : JsString) : workspace.manager.sessionFile ≠ some path := fun isFile =>
        memory (agreement.persists path isFile)
      rw [indexed]
      exact ⟨⟨ordinary, fun path isFile => absurd isFile (unkept path), fun path isFile => absurd isFile (unkept path)⟩,
        rfl, plain, fun path isFile => absurd isFile (unkept path)⟩

end Steps

section Switch

/-- A line that a manager takes for an entry: it reads a field of every entry, and of the message of every message. -/
def IsEntry (entry : Json) : Prop :=
  (∃ members, entry = .obj members) ∧
    (entryType entry = js "message" → ∃ members, entry.get? (js "message") = some (.obj members))

/-- What the file holds is what the manager writes back: when it repairs or migrates the file the header has the
wire shape, and otherwise the last line is terminated and the header is not written before the session has a
message of the assistant, unless it has the wire shape. -/
def Survives (ids : ℕ → JsString) (bytes : List UInt8) (loaded : LoadedFile) : Prop :=
  let migrated := migrateToCurrentVersion ids loaded.header loaded.entries
  if migrated.applied ∨ loaded.salvagedLine.isSome then HasWireShape migrated.header
  else FileHolds bytes migrated.header migrated.entries ∧
    (HasWireShape migrated.header ∨ migrated.entries.any isAssistant = true)

/-- A path that a manager can be switched to: the file there is absent, has no header, or survives. -/
def Admits (files : Files) (path : JsString) (ids : ℕ → JsString) : Prop :=
  ∀ bytes, files.get? path = some bytes → ∃ content, loadEntriesFromFile path bytes = .ok content ∧
    ∀ loaded, content = some loaded → (∀ entry ∈ loaded.entries, IsEntry entry) ∧ Survives ids bytes loaded

variable {workspace : Workspace} {path newId timestamp : JsString} {ids : ℕ → JsString}

theorem Agreement.setSessionFile (agreement : Agreement workspace) (persists : workspace.manager.persist = true)
    (named : newId ≠ []) (admits : Admits workspace.files path ids) :
    Agreement (workspace.setSessionFile path newId timestamp ids).1 := by
  have fresh (flushed : Bool) : Agreement ((Workspace.rewriteFile
      ⟨{ workspace.manager with sessionFile := some path }.resetToNewSession {} newId timestamp, workspace.files⟩
      .completed).1.setFlushed flushed) := by
    rw [rewriteFile_completed (by exact persists) rfl]
    exact @agreement_fresh { workspace.manager.resetToNewSession {} newId timestamp with
      sessionFile := some path, flushed } _ _ (by exact persists) rfl rfl rfl
        agreement.times (hasWireShape_mintHeader _ named _)
  unfold Workspace.setSessionFile
  dsimp only
  cases held : workspace.files.get? path with
  | none =>
    have opened := fresh false
    rw [rewriteFile_completed (by exact persists) rfl] at opened ⊢
    exact opened
  | some bytes =>
    obtain ⟨content, loads, survives⟩ := admits bytes held
    dsimp only
    rw [loads]
    cases content with
    | none => exact fresh true
    | some loaded =>
      obtain ⟨_, survives⟩ := survives loaded rfl
      have ordinary := @ordinary_migrateToCurrentVersion ids _ loaded.header (ordinary_of_loads loads)
      have known := @versionNumber?_migrated ids loaded.entries loaded.header
      unfold Survives at survives
      dsimp only at survives ⊢
      generalize migrateToCurrentVersion ids loaded.header loaded.entries = migrated at *
      split
      · next rewritten =>
        rw [if_pos rewritten] at survives
        rw [rewriteFile_completed (by exact persists) rfl]
        dsimp only
        obtain ⟨times, leafId, plain, indexed⟩ := buildIndex_frame { workspace.manager with
          sessionFile := some path, sessionId := loaded.header.id, header := migrated.header
          entries := migrated.entries } ordinary
        rw [indexed]
        refine ⟨⟨ordinary, fun _ _ => persists, fun same found => ?_⟩, rfl, plain, nofun⟩
        cases found
        exact ⟨fun _ => ⟨_, JsMap.get?_set_self .., fileHolds_fileContent survives ordinary⟩, .inl survives,
          known (.inl survives)⟩
      · next taken =>
        rw [if_neg taken] at survives
        dsimp only
        obtain ⟨times, leafId, plain, indexed⟩ := buildIndex_frame { workspace.manager with
          sessionFile := some path, sessionId := loaded.header.id, header := migrated.header
          entries := migrated.entries } ordinary
        rw [indexed]
        refine ⟨⟨ordinary, fun _ _ => persists, fun same found => ?_⟩, rfl, plain, nofun⟩
        cases found
        exact ⟨fun _ => ⟨_, held, survives.1⟩, survives.2.imp_right fun assistant => ⟨rfl, assistant⟩,
          known (.inr (Bool.eq_false_iff.mpr fun applied => taken (.inl applied)))⟩

end Switch

section Runs

/-- No write fails, and what is appended is ordinary data. -/
def Written : Operation → Prop
  | .append content _ _ write => OrdinaryContent content ∧ write = .completed
  | .appendLabelChange _ _ _ _ write => write = .completed
  | .branchWithSummary _ _ details _ _ _ write => (∀ value ∈ details, value.ordinary = true) ∧ write = .completed
  | .newSession .. | .branch .. | .resetLeaf | .createBranchedSession .. | .setSessionFile .. => True

/-- The id of a new session is not empty, and only a manager that persists is switched to a file, to one that it
can take over. -/
def TakesOver (workspace : Workspace) : Operation → Prop
  | .newSession options newId _ => options.id.getD newId ≠ []
  | .createBranchedSession _ newSessionId _ _ => newSessionId ≠ []
  | .setSessionFile path newId _ ids =>
    workspace.manager.persist = true ∧ newId ≠ [] ∧ Admits workspace.files path ids
  | .append .. | .appendLabelChange .. | .branch .. | .resetLeaf | .branchWithSummary .. => True

/-- An operation that keeps the agreement. -/
def Sound (workspace : Workspace) (operation : Operation) : Prop := Written operation ∧ TakesOver workspace operation

/-- An operation as a step, which is never refused. -/
def workspaceStep (workspace : Workspace) (operation : Operation) : Option Workspace :=
  some (workspace.perform operation)

variable {workspace final : Workspace} {operation : Operation} {operations : List Operation} {files : Files}
  {cwd sessionDir : JsString} {persist : Bool}

/-- An operation that takes over what it finds keeps the agreement. -/
theorem Agreement.perform (agreement : Agreement workspace) (sound : Sound workspace operation) :
    Agreement (workspace.perform operation) := by
  obtain ⟨written, takesOver⟩ := sound
  cases operation with
  | newSession options newId timestamp => exact agreement.newSession takesOver
  | append content id timestamp write =>
    obtain ⟨ordinary, rfl⟩ := written
    exact agreement.append ordinary
  | appendLabelChange targetId label id timestamp write =>
    cases written
    exact agreement.appendLabelChange
  | branch branchFromId => exact agreement.branch
  | resetLeaf => exact agreement.at none
  | branchWithSummary branchFromId summary details fromHook id timestamp write =>
    obtain ⟨ordinary, rfl⟩ := written
    exact agreement.branchWithSummary ordinary
  | createBranchedSession leafId newSessionId timestamp labelIds => exact agreement.createBranchedSession takesOver
  | setSessionFile path newId timestamp ids =>
    obtain ⟨persists, named, admits⟩ := takesOver
    exact agreement.setSessionFile persists named admits

end Runs

section Switched

private def storedMessage (role id : String) : Json :=
  (Content.message (.obj [(js "role", .str (js role)), (js "content", .str (js "hello"))])).entry (js id) none (js "now")

private def otherHeader : SessionHeader :=
  (SessionManager.blank (js "/project") (js "/sessions") true).mintHeader (js "other") (js "2026-01-01T00:00:00.000Z") none

private def otherTranscript : List UInt8 := fileContent otherHeader [storedMessage "user" "q"] (js "/o")

/-- A session that is switched to another file and gets a reply there. -/
private def replyAfterSwitch : List Operation :=
  [.newSession {} (js "session") (js "2026-01-01T00:00:00.000Z"),
    .setSessionFile (js "/o") (js "unused") (js "2026-01-01T00:00:01.000Z") fun _ => js "id",
    .append (.message (.obj [(js "role", .str (js "assistant")), (js "content", .str (js "hello"))])) (js "a")
      (js "2026-01-01T00:00:02.000Z") .completed]

private def beforeSwitch (other : List UInt8) : Workspace :=
  ⟨.blank (js "/project") (js "/sessions") true, JsMap.empty.set (js "/o") other⟩

private def afterReply (other : List UInt8) : Workspace := replyAfterSwitch.foldl Workspace.perform (beforeSwitch other)

private theorem run_replyAfterSwitch (other : List UInt8) :
    Machine.run? workspaceStep (beforeSwitch other) replyAfterSwitch = some (afterReply other) := rfl

private theorem switch_facts :
    (Json.obj [(js "role", .str (js "assistant")), (js "content", .str (js "hello"))]).ordinary = true ∧
    (storedMessage "user" "q").ordinary = true ∧
    ((beforeSwitch otherTranscript).perform
      (.newSession {} (js "session") (js "2026-01-01T00:00:00.000Z"))).files.get? (js "/o") = some otherTranscript ∧
    (afterReply otherTranscript.dropLast).manager.hasAssistant = true ∧
    (afterReply otherTranscript.dropLast).manager.sessionFile = some (js "/o") ∧
    ((afterReply otherTranscript.dropLast).files.get? (js "/o")).map (loadEntriesFromFile (js "/o")) =
      some (.ok (some ⟨otherHeader, [], some 2⟩)) := by
  decide +kernel

end Switched

end PieAgent.Soundness
