import PieAgent.Proofs.Session.ManagedLabels
import PieAgent.Proofs.Session.PathContext
import PieAgent.Proofs.Session.TranscriptLines

/-! # Opening a transcript

A manager that opens a file stands at the last entry of it. Entries of the current version are taken as they
are, and the values that a file yields survive being written and read again.
-/

namespace PieAgent.Proofs

open JavaScript PieAgent.Model.Transcript
open PieAgent.Model (nonemptyField? textField?)

variable {files : Files} {filePath path cwd sessionDir newId timestamp : JsString} {ids : ℕ → JsString}
  {bytes : List UInt8} {loaded : LoadedFile} {entries : List Json} {header : SessionHeader}

/-- The path from the root to the last entry of a transcript. -/
def lastPath? (entries : List Json) : Option (List Json) := pathTo? entries entries.getLast?

/-- The last entry is what its own id yields, or it has no id to look up. -/
theorem byId_last {last : Json} (isLast : entries.getLast? = some last) : byId entries (entryId last) = some last := by
  obtain ⟨front, rfl⟩ := List.getLast?_eq_some_iff.mp isLast
  exact Forest.find?_snoc_self

/-- The context at the last entry. -/
theorem buildSessionContext_last (entries : List Json) :
    buildSessionContext entries (entries.getLast?.map entryId) = (lastPath? entries).map pathContext := by
  cases isLast : entries.getLast? with
  | none =>
    rw [lastPath?, isLast]
    rfl
  | some last =>
    have found : (((some (entryId last)).filter (· ≠ [])).bind (byId entries) <|> entries.getLast?) = some last := by
      by_cases named : entryId last = []
      · rw [Option.filter_some_neg (by simpa using named), isLast]
        rfl
      · rw [Option.filter_some_pos (by simpa using named), Option.bind_some, byId_last isLast]
        rfl
    rw [isLast] at found
    rw [Option.map_some, buildSessionContext, lastPath?, isLast, found]

/-- What a file yields is ordinary. -/
theorem ordinary_of_loads (loads : loadEntriesFromFile filePath bytes = .ok (some loaded)) :
    ∀ entry ∈ loaded.entries, entry.ordinary = true := by
  unfold loadEntriesFromFile at loads
  dsimp only at loads
  split at loads
  · cases loads
  · split at loads
    · cases loads
    · next header parsed =>
      cases read : loadLines filePath _ _ [] with
      | error error =>
        rw [read] at loads
        cases loads
      | ok lines =>
        rw [read] at loads
        cases loads
        obtain ⟨entries, same, ⟨_, holds⟩ | ⟨_, _, _, _, _, holds⟩⟩ := loadLines_ok read <;>
        · rw [same, List.nil_append]
          exact fun entry member => holds.ordinary member

/-- Opening a file that loads leads to the last of its migrated entries. -/
theorem openSession_manager (held : files.get? path = some bytes)
    (loads : loadEntriesFromFile path bytes = .ok (some loaded)) :
    ∃ opened, Workspace.openSession files cwd sessionDir path newId timestamp ids = .ok opened ∧
      opened.manager.entries = (migrateToCurrentVersion ids loaded.header loaded.entries).entries ∧
      opened.manager.leafId = (migrateToCurrentVersion ids loaded.header loaded.entries).entries.getLast?.map entryId := by
  unfold Workspace.openSession Workspace.openFile Workspace.setSessionFile
  dsimp only
  rw [held]
  dsimp only
  rw [loads]
  refine ⟨_, rfl, ?_⟩
  dsimp only
  rw [entries_buildIndex, leafId_buildIndex]
  split
  · rw [manager_rewriteFile]
    exact ⟨rfl, rfl⟩
  · exact ⟨rfl, rfl⟩

theorem openSession_loads (held : files.get? path = some bytes)
    (loads : loadEntriesFromFile path bytes = .ok (some loaded)) :
    ∃ opened, Workspace.openSession files cwd sessionDir path newId timestamp ids = .ok opened ∧
      opened.manager.buildSessionContext =
        (lastPath? (migrateToCurrentVersion ids loaded.header loaded.entries).entries).map pathContext := by
  obtain ⟨opened, success, entries, leaf⟩ := openSession_manager held loads
  refine ⟨opened, success, ?_⟩
  rw [SessionManager.buildSessionContext, entries, leaf, buildSessionContext_last]

/-- A header that the manager mints has the current version. -/
theorem migrate_current (current : header.version = some currentSessionVersion) :
    migrateToCurrentVersion ids header entries = ⟨header, entries, false⟩ := by
  have version : versionNumber? header = some 3 := by
    rw [versionNumber?, current]
    rfl
  rw [migrateToCurrentVersion, version]
  rfl

section Migrated

variable {entry value : Json} {key : String} {i : ℕ}

private theorem ordinary_setField (plain : arrayIndex? (js key) = none) (ordinary : entry.ordinary = true)
    (valueOrdinary : value.ordinary = true) : (setField entry key value).ordinary = true := by
  cases entry with
  | obj members => exact ordinary_setMember plain ordinary valueOrdinary
  | _ => exact ordinary

private theorem ordinary_deleteField (ordinary : entry.ordinary = true) : (deleteField entry key).ordinary = true := by
  cases entry with
  | obj members => exact ordinary_filter ordinary _
  | _ => exact ordinary

private theorem ordinary_linkEntry (ordinary : entry.ordinary = true) : (linkEntry ids entries i entry).ordinary = true := by
  have linked : (setField (setField entry "id" (.str (ids i))) "parentId"
      (if i = 0 then .null else .str (ids (i - 1)))).ordinary = true := by
    refine ordinary_setField (by decide) (ordinary_setField (by decide) ordinary rfl) ?_
    split <;> rfl
  have kept (id : JsString) := @ordinary_setField _ (.str id) ("firstKeptEntryId") (by decide) linked rfl
  unfold linkEntry
  dsimp only
  split
  · refine ordinary_deleteField ?_
    split
    · split
      · exact kept _
      · split
        · exact kept _
        · exact ordinary_deleteField linked
        · exact linked
    · exact linked
  · exact linked

private theorem ordinary_renameRole (ordinary : entry.ordinary = true) : (renameRole entry).ordinary = true := by
  unfold renameRole
  split
  · next message held =>
    split
    · exact ordinary_setField (by decide) ordinary
        (ordinary_setField (by decide) (ordinary_get? ordinary held) rfl)
    · exact ordinary
  · exact ordinary

/-- A migration keeps values ordinary. -/
theorem ordinary_migrateToCurrentVersion (ordinary : ∀ entry ∈ entries, entry.ordinary = true) :
    ∀ entry ∈ (migrateToCurrentVersion ids header entries).entries, entry.ordinary = true := by
  have renamed (entries : List Json) (ordinary : ∀ entry ∈ entries, entry.ordinary = true) :
      ∀ entry ∈ migrateV2ToV3 entries, entry.ordinary = true := by
    intro entry member
    obtain ⟨old, listed, rfl⟩ := List.mem_map.mp member
    exact ordinary_renameRole (ordinary old listed)
  unfold migrateToCurrentVersion
  split
  · exact ordinary
  · dsimp only
    split
    · exact ordinary
    · refine renamed _ ?_
      split
      · intro entry member
        obtain ⟨i, inside, rfl⟩ := List.mem_mapIdx.mp member
        exact ordinary_linkEntry (ordinary _ (List.getElem_mem inside))
      · exact ordinary

/-- After a migration the header has the current version or a later one, when it has the wire shape or the file
is left as it is. -/
theorem versionNumber?_migrated (known : HasWireShape (migrateToCurrentVersion ids header entries).header ∨
    (migrateToCurrentVersion ids header entries).applied = false) :
    ∃ version, versionNumber? (migrateToCurrentVersion ids header entries).header = some version ∧ 3 ≤ version := by
  rcases known with wired | unchanged
  · refine ⟨3, ?_, le_rfl⟩
    rw [versionNumber?, wired.version]
    rfl
  · unfold migrateToCurrentVersion at *
    split
    · next unknown =>
      rw [unknown] at unchanged
      cases unchanged
    · next version named =>
      rw [named] at unchanged
      dsimp only at *
      split
      · next current => exact ⟨version, named, current⟩
      · next old =>
        rw [if_neg old] at unchanged
        cases unchanged

/-- Entries of the current version or a later one are taken as they are. -/
theorem migrate_current_le {version : ℕ} (named : versionNumber? header = some version) (current : 3 ≤ version) :
    migrateToCurrentVersion ids header entries = ⟨header, entries, false⟩ := by
  rw [migrateToCurrentVersion, named]
  exact if_pos current

end Migrated

end PieAgent.Proofs
