import Mathlib.Data.List.DropRight
import PieAgent.Proofs.Session.ManagedLabels
import PieAgent.Proofs.Session.OpenedTranscript
import PieAgent.Proofs.Session.PathContext

/-! # The entries of an extracted branch

An extraction keeps the parents of the entries on a path but leaves its labels out. So the walk from the new
leaf ends at the first entry below a label, and the entries before it are in the session but out of reach.
-/

namespace PieAgent.Proofs

open JavaScript PieAgent.Model.Transcript

section Split

/-- The entries of a path that stay in reach of the leaf when its labels are left out. -/
def survivors (path : List Json) : List Json := (path.rdropWhile isLabel).rtakeWhile fun entry => !isLabel entry

/-- The entries of a path up to the last label that another entry follows. -/
def cutOff (path : List Json) : List Json := (path.rdropWhile isLabel).rdropWhile fun entry => !isLabel entry

private theorem rdropWhile_append_rtakeWhile {α : Type} (test : α → Bool) (list : List α) :
    list.rdropWhile test ++ list.rtakeWhile test = list := by
  rw [List.rdropWhile, List.rtakeWhile, ← List.reverse_append, List.takeWhile_append_dropWhile, List.reverse_reverse]

variable {path : List Json} {entry : Json}

theorem cutOff_append_survivors (path : List Json) : cutOff path ++ survivors path = path.rdropWhile isLabel :=
  rdropWhile_append_rtakeWhile _ _

theorem path_split (path : List Json) : path = cutOff path ++ survivors path ++ path.rtakeWhile isLabel := by
  rw [cutOff_append_survivors, rdropWhile_append_rtakeWhile]

theorem isLabel_survivors (member : entry ∈ survivors path) : isLabel entry = false := by
  simpa using List.mem_rtakeWhile_imp member

theorem isLabel_trailing (member : entry ∈ path.rtakeWhile isLabel) : isLabel entry = true :=
  List.mem_rtakeWhile_imp member

/-- What is cut off ends in a label. -/
theorem isLabel_cutOff (last : entry ∈ (cutOff path).getLast?) : isLabel entry = true := by
  obtain ⟨nonempty, same⟩ := List.mem_getLast?_eq_getLast last
  have ends : ¬ (!isLabel ((cutOff path).getLast nonempty)) = true :=
    List.rdropWhile_last_not (fun entry => !isLabel entry) (path.rdropWhile isLabel) nonempty
  rw [same]
  simpa using ends

/-- When nothing survives, the path had labels only. -/
theorem cutOff_eq_nil (nothing : survivors path = []) : cutOff path = [] := by
  have kept := cutOff_append_survivors path
  rw [nothing, List.append_nil] at kept
  rw [kept]
  by_contra some_
  refine List.rdropWhile_last_not isLabel path some_ (@isLabel_cutOff path _ ?_)
  rw [kept, List.getLast?_eq_some_getLast some_]
  rfl

theorem filter_path (path : List Json) : path.filter (fun entry => !isLabel entry) =
    (cutOff path).filter (fun entry => !isLabel entry) ++ survivors path := by
  conv_lhs => rw [path_split path]
  have trailing : (path.rtakeWhile isLabel).filter (fun entry => !isLabel entry) = [] :=
    List.filter_eq_nil_iff.mpr fun entry member => by simp [isLabel_trailing member]
  have all : (survivors path).filter (fun entry => !isLabel entry) = survivors path :=
    List.filter_eq_self.mpr fun entry member => by simp [isLabel_survivors member]
  rw [List.filter_append, List.filter_append, trailing, List.append_nil, all]

theorem getLast?_filter_path (path : List Json) :
    (path.filter fun entry => !isLabel entry).getLast? = (survivors path).getLast? := by
  rw [filter_path]
  cases last : (survivors path).getLast? with
  | none =>
    have nothing := List.getLast?_eq_none_iff.mp last
    rw [nothing, cutOff_eq_nil nothing]
    rfl
  | some entry => rw [List.getLast?_append, last, Option.some_or]

end Split

section Labels

variable {manager : SessionManager} {ids : ℕ → JsString} {i : ℕ} {above : Option JsString}
  {labels : List (JsString × JsString)} {base : List Json} {entry : Json}

theorem mem_labelEntries (member : entry ∈ manager.labelEntries ids i above labels) :
    isLabel entry = true ∧ ∃ j, i ≤ j ∧ entryId entry = ids j := by
  induction labels generalizing i above with
  | nil => cases member
  | cons label labels ih =>
    rcases List.mem_cons.mp member with rfl | rest
    · exact ⟨isLabel_labelEntry .., i, le_rfl, entryId_labelEntry ..⟩
    · obtain ⟨isLabel, j, later, same⟩ := ih rest
      exact ⟨isLabel, j, by omega, same⟩

theorem parentId_labelEntries (leads : entry ∈ (manager.labelEntries ids i above labels).head?) :
    parentId entry = above.filter (· ≠ []) := by
  cases labels with
  | nil => cases leads
  | cons label labels =>
    cases leads
    exact parentId_labelEntry ..

theorem labelEntries_linked (named : ∀ j, ids j ≠ []) :
    Forest.Linked entryId parentId (manager.labelEntries ids i above labels) := by
  induction labels generalizing i above with
  | nil => exact List.isChain_nil
  | cons label labels ih =>
    refine List.IsChain.cons ih fun below leads => ?_
    rw [parentId_labelEntries leads, entryId_labelEntry]
    simpa using named i

/-- Label entries with unused ids are added to a tree one by one. -/
theorem labelEntries_loose (loose : Forest.Loose entryId parentId base) (distinct : ids.Injective)
    (unused : ∀ j, i ≤ j → UnusedId base (ids j)) (apart : ∀ id ∈ above, ∀ j, i ≤ j → id ≠ ids j) :
    Forest.Loose entryId parentId (base ++ manager.labelEntries ids i above labels) := by
  induction labels generalizing i above base with
  | nil => simpa [SessionManager.labelEntries] using loose
  | cons label labels ih =>
    have apart' : ∀ j, i ≤ j → above.filter (· ≠ []) ≠ some (ids j) := fun j later same =>
      apart _ (Option.filter_eq_some_iff.mp same).1 j later rfl
    rw [SessionManager.labelEntries, List.append_cons]
    refine ih (loose.snoc ?_ ?_) (fun j later => ?_) fun id same j later => ?_
    · rw [entryId_labelEntry]
      exact (unused i le_rfl).2
    · rw [entryId_labelEntry, parentId_labelEntry]
      exact apart' i le_rfl
    · obtain ⟨named, noId, noParent⟩ := unused j (by omega)
      refine ⟨named, ?_, ?_⟩
      · rw [List.map_append, List.map_singleton, entryId_labelEntry, List.mem_append, List.mem_singleton]
        exact not_or.mpr ⟨noId, fun same => by have := distinct same; omega⟩
      · rw [List.map_append, List.map_singleton, parentId_labelEntry, List.mem_append, List.mem_singleton]
        exact not_or.mpr ⟨noParent, fun same => apart' j (by omega) same.symm⟩
    · cases same
      exact fun same => by have := distinct same; omega

end Labels

section Ordinary

variable {manager : SessionManager} {ids : ℕ → JsString} {path : List Json} {entry : Json} {fromId : JsString}

/-- A branch has entries of the session alone. -/
theorem getBranch_subset (walked : manager.getBranch fromId = some path) : path ⊆ manager.entries := by
  refine (walkToRoot?_eq_some.mp walked).1.subset fun last found => ?_
  obtain ⟨_, _, hit⟩ := Option.bind_eq_some_iff.mp found
  exact Forest.find?_mem hit

private theorem ordinary_labelEntries {i : ℕ} {above : Option JsString} {labels : List (JsString × JsString)}
    (times : OrdinaryTimes manager.labelTimestampsById) (member : entry ∈ manager.labelEntries ids i above labels) :
    entry.ordinary = true := by
  induction labels generalizing i above with
  | nil => cases member
  | cons label labels ih =>
    rcases List.mem_cons.mp member with rfl | rest
    · exact ordinary_labelEntry _ _ _ _ _ fun value held => times _ _ (Option.join_eq_some_iff.mp held)
    · exact ih rest

theorem ordinary_branchedEntries (times : OrdinaryTimes manager.labelTimestampsById)
    (ordinary : ∀ entry ∈ manager.entries, entry.ordinary = true) (inside : path ⊆ manager.entries) :
    ∀ entry ∈ manager.branchedEntries path ids, entry.ordinary = true :=
  List.forall_mem_append.mpr ⟨fun entry member => ordinary entry (inside (List.mem_of_mem_filter member)),
    fun _ => ordinary_labelEntries times⟩

end Ordinary

end PieAgent.Proofs

/-! ## The file behind a manager

Once a manager is flushed, its file holds the header and the entries in memory. An append keeps that when its
write completes, and also when the manager is not flushed: then whatever a failed write has left is replaced as
a whole by the next one.
-/

namespace PieAgent.Proofs

open JavaScript PieAgent.Model.Transcript
open PieAgent.Model (textField?)

section Headers

variable {header : SessionHeader}

theorem versionNumber?_wired (wired : HasWireShape header) : ∃ version, versionNumber? header = some version ∧ 3 ≤ version :=
  ⟨3, by rw [versionNumber?, wired.version]; rfl, le_rfl⟩

theorem hasWireShape_mintHeader (manager : SessionManager) {id timestamp : JsString} (named : id ≠ [])
    (parentSession : Option JsString) : HasWireShape (manager.mintHeader id timestamp parentSession) := by
  refine ⟨rfl, named, ⟨_, rfl⟩, ⟨_, rfl⟩, ?_, nofun⟩
  cases parentSession with
  | none => exact .inl rfl
  | some parent => exact .inr ⟨parent, rfl⟩

end Headers

section Writes

variable {workspace : Workspace} {path : JsString}

theorem rewriteFile_persists (persists : workspace.manager.persist = true) (isFile : workspace.manager.sessionFile = some path)
    (write : WriteOutcome) : workspace.rewriteFile write =
      (⟨workspace.manager, (writeFile workspace.files path
        (fileContent workspace.manager.header workspace.manager.entries path) write).1⟩,
        (writeFile workspace.files path (fileContent workspace.manager.header workspace.manager.entries path) write).2) := by
  rw [Workspace.rewriteFile, persists, isFile]

theorem rewriteFile_completed (persists : workspace.manager.persist = true) (isFile : workspace.manager.sessionFile = some path) :
    workspace.rewriteFile .completed = (⟨workspace.manager,
      workspace.files.set path (fileContent workspace.manager.header workspace.manager.entries path)⟩, .ok ()) :=
  rewriteFile_persists persists isFile .completed

end Writes

/-- What can be found in the file, and what can be written to it. -/
structure Recoverable (header : SessionHeader) (entries : List Json) (flushed : Bool) (content : Option (List UInt8)) :
    Prop where
  held : flushed = true → ∃ bytes, content = some bytes ∧ FileHolds bytes header entries
  writable : HasWireShape header ∨ (flushed = true ∧ entries.any isAssistant = true)
  version : ∃ version, versionNumber? header = some version ∧ 3 ≤ version

/-- The file of a manager, when it has one. -/
structure HasRecoverableFile (workspace : Workspace) : Prop where
  ordinary : ∀ entry ∈ workspace.manager.entries, entry.ordinary = true
  persists : ∀ path, workspace.manager.sessionFile = some path → workspace.manager.persist = true
  file : ∀ path, workspace.manager.sessionFile = some path →
    Recoverable workspace.manager.header workspace.manager.entries workspace.manager.flushed (workspace.files.get? path)

section Append

variable {workspace : Workspace} {members : List (JsString × Json)} {write : WriteOutcome}

/-- The manager after an entry is added to its memory. -/
def pushed (manager : SessionManager) (entry : Json) (flushed : Bool) : SessionManager :=
  { manager with entries := manager.entries ++ [entry], leafId := some (entryId entry), flushed }

/-- An append keeps the file recoverable, when its write completes or the manager is not flushed. -/
theorem HasRecoverableFile.appendEntry (recoverable : HasRecoverableFile workspace)
    (ordinary : (Json.obj members).ordinary = true)
    (disciplined : write = .completed ∨ workspace.manager.flushed = false) :
    ∃ flushed files result, workspace.appendEntry (.obj members) write =
        (⟨pushed workspace.manager (.obj members) flushed, files⟩, result) ∧
      HasRecoverableFile ⟨pushed workspace.manager (.obj members) flushed, files⟩ ∧
      (write = .completed → result = .ok () ∧ (∀ path, workspace.manager.sessionFile = some path → flushed = false →
        (workspace.manager.entries ++ [Json.obj members]).any isAssistant = false)) := by
  have all := List.forall_mem_append.mpr ⟨recoverable.ordinary, List.forall_mem_singleton.mpr ordinary⟩
  unfold Workspace.appendEntry Workspace.persist
  dsimp only
  split
  · next path persists isFile =>
    obtain ⟨held, writable, version⟩ := recoverable.file path isFile
    have whole {flushed : Bool} {files : Files} (file : Recoverable workspace.manager.header
        (workspace.manager.entries ++ [Json.obj members]) flushed (files.get? path)) :
        HasRecoverableFile ⟨pushed workspace.manager (.obj members) flushed, files⟩ := by
      refine ⟨all, recoverable.persists, fun same found => ?_⟩
      obtain rfl : path = same := Option.some.inj (isFile.symm.trans found)
      exact file
    have stays (assistant : workspace.manager.entries.any isAssistant = true) :
        (workspace.manager.entries ++ [Json.obj members]).any isAssistant = true := by
      rw [List.any_append, assistant, Bool.true_or]
    unfold SessionManager.hasAssistant
    dsimp only
    cases assistant : (workspace.manager.entries ++ [Json.obj members]).any isAssistant with
    | false =>
      refine ⟨false, workspace.files, .ok (), rfl, whole ⟨nofun, .inl ?_, version⟩, fun _ => ⟨rfl, fun _ _ _ => rfl⟩⟩
      refine writable.resolve_right fun earlier => ?_
      rw [stays earlier.2] at assistant
      cases assistant
    | true =>
      cases flushed : workspace.manager.flushed with
      | false =>
        have wired : HasWireShape workspace.manager.header := writable.resolve_right (by simp [flushed])
        have rewritten := @rewriteFile_persists
          ⟨pushed workspace.manager (.obj members) false, workspace.files⟩ _ persists isFile write
        rw [if_neg (by decide), if_pos (by decide)]
        unfold pushed at rewritten
        rw [rewritten]
        cases write with
        | completed =>
          refine ⟨true, _, .ok (), rfl, whole ⟨fun _ => ⟨_, JsMap.get?_set_self .., ?_⟩, .inl wired, version⟩,
            fun _ => ⟨rfl, nofun⟩⟩
          exact fileHolds_fileContent wired all
        | failed cut =>
          have waits (files : Files) := @whole false files ⟨nofun, .inl wired, version⟩
          cases cut with
          | none => exact ⟨false, _, .error .writeFailed, rfl, waits _, nofun⟩
          | some length => exact ⟨false, _, .error .writeFailed, rfl, waits _, nofun⟩
      | true =>
        obtain rfl : write = .completed := disciplined.resolve_right (by simp [flushed])
        obtain ⟨bytes, content, holds⟩ := held flushed
        refine ⟨true, _, .ok (), rfl, whole ⟨fun _ => ⟨_, JsMap.get?_set_self .., ?_⟩, .inr ⟨rfl, assistant⟩, version⟩,
          fun _ => ⟨rfl, nofun⟩⟩
        rw [content]
        exact holds.append ordinary
  · next unkept =>
    refine ⟨_, _, _, rfl, ⟨all, recoverable.persists, fun path isFile => ?_⟩, fun _ => ⟨rfl, fun path isFile => ?_⟩⟩
    · exact absurd isFile (unkept path (recoverable.persists path isFile))
    · exact absurd isFile (unkept path (recoverable.persists path isFile))

/-- An append that fails once the manager is flushed leaves some bytes of its line, when it is written at all. -/
theorem HasRecoverableFile.appendEntry_cut (recoverable : HasRecoverableFile workspace) {path : JsString}
    (isFile : workspace.manager.sessionFile = some path) (flushed : workspace.manager.flushed = true)
    (cut : Option ℕ) (still : (workspace.appendEntry (.obj members) (.failed cut)).1.manager.flushed = true) :
    ∃ files bytes n, workspace.appendEntry (.obj members) (.failed cut) =
        (⟨pushed workspace.manager (.obj members) true, files⟩, .error .writeFailed) ∧
      FileHolds bytes workspace.manager.header workspace.manager.entries ∧
      files.get? path = some (bytes ++ (encodeUtf8 (stringify (.obj members) ++ ['\n'])).take n) := by
  obtain ⟨held, _⟩ := recoverable.file path isFile
  obtain ⟨bytes, content, holds⟩ := held flushed
  have persists := recoverable.persists path isFile
  unfold Workspace.appendEntry Workspace.persist SessionManager.hasAssistant at still ⊢
  dsimp only at still ⊢
  rw [persists, isFile] at still ⊢
  dsimp only at still ⊢
  cases assistant : (workspace.manager.entries ++ [Json.obj members]).any isAssistant with
  | false =>
    rw [assistant] at still
    cases still
  | true =>
    have same : ({ workspace.manager with
        persist := true, sessionFile := some path, flushed := true
        entries := workspace.manager.entries ++ [.obj members]
        leafId := some (entryId (.obj members)) } : SessionManager) = pushed workspace.manager (.obj members) true := by
      rw [pushed, ← persists, ← isFile]
    rw [flushed, if_neg (by decide), if_neg (by decide), same]
    cases cut with
    | none => exact ⟨_, bytes, 0, rfl, holds, by rw [List.take_zero, List.append_nil]; exact content⟩
    | some length => exact ⟨_, bytes, length, rfl, holds, by rw [appendFile, JsMap.get?_set_self, content]; rfl⟩

end Append

end PieAgent.Proofs
