import PieAgent.Model.Session.SessionArchive

/-! # Accepted archives

An archive should be accepted only if each entry has one of the four known names, no name occurs twice, and each content
is within the limit of its name. The limits are looked up in an object, which inherits properties, and an entry without
a name is skipped: archives with such entries, and only these, are accepted although they should not be.
-/

namespace PieAgent.Soundness.ArchiveAcceptance

open JavaScript Model.SessionArchive

variable {entries : List TarEntry} {entry : TarEntry} {files after : Files} {name : JsString}

/-- A known name with a content within its limit. -/
def Listed (entry : TarEntry) : Prop := ∃ limit, (entry.name, limit) ∈ limits ∧ entry.content.length ≤ limit

/-- What an accepted archive should consist of. -/
structure Acceptable (entries : List TarEntry) : Prop where
  listed : ∀ entry ∈ entries, Listed entry
  distinct : (entries.map (·.name)).Nodup

/-- The entries that are added as files. -/
def named (entries : List TarEntry) : List TarEntry := entries.filter fun entry => entry.name ≠ []

def IsFile (entry : TarEntry) : Prop := entry.typeflag = 0x30 ∨ entry.typeflag = 0

/-- A name that is looked up in vain, or not at all. -/
def Unchecked (entry : TarEntry) : Prop := entry.name = [] ∨ entry.name ∈ inheritedProperties

/-- Nothing but such a name speaks against the archive. -/
structure Unobjectionable (entries : List TarEntry) : Prop where
  file : ∀ entry ∈ named entries, IsFile entry
  distinct : ((named entries).map (·.name)).Nodup
  listed : ∀ entry ∈ named entries, entry.name ∈ inheritedProperties ∨ Listed entry

section Files

/-- The files after an entry with a name. -/
private theorem addEntry_eq_ok (some_ : entry.name ≠ []) :
    addEntry files entry = .ok after ↔
      IsFile entry ∧ entry.name ∉ files.keys ∧ after.entries = files.entries ++ [(entry.name, entry.content)] := by
  rw [addEntry, if_neg some_, ← JsMap.get?_eq_none]
  by_cases other : entry.typeflag ≠ 0x30 ∧ entry.typeflag ≠ 0
  · rw [if_pos other]
    exact iff_of_false (by simp) fun ⟨file, _⟩ => file.elim other.1 other.2
  rw [if_neg other]
  have file : IsFile entry := by
    by_contra neither
    exact other (not_or.mp neither)
  cases known : files.get? entry.name with
  | some content => simp
  | none =>
    have fresh : entry.name ∉ files.entries.map (·.1) := JsMap.get?_eq_none.mp known
    have added : (files.set entry.name entry.content).entries = files.entries ++ [(entry.name, entry.content)] :=
      if_neg fresh
    simp only [Option.isSome_none, Bool.false_eq_true, if_false, Except.ok.injEq, file, true_and]
    constructor
    · rintro rfl
      exact added
    · intro same
      cases after
      exact JsMap.mk.injEq .. |>.mpr (added.trans same.symm)

/-- The files of an archive are its entries with a name. -/
private theorem addEntries_eq_ok : addEntries files entries = .ok after ↔
    (∀ entry ∈ named entries, IsFile entry) ∧ (files.keys ++ (named entries).map (·.name)).Nodup ∧
      after.entries = files.entries ++ (named entries).map fun entry => (entry.name, entry.content) := by
  induction entries generalizing files with
  | nil =>
    show Except.ok files = Except.ok after ↔ _
    simp only [named, List.filter_nil, List.not_mem_nil, false_implies, implies_true, List.map_nil, List.append_nil,
      true_and, Except.ok.injEq]
    constructor
    · rintro rfl
      exact ⟨files.nodup, rfl⟩
    · rintro ⟨-, same⟩
      cases files
      cases after
      exact JsMap.mk.injEq .. |>.mpr same.symm
  | cons entry entries ih =>
    show (addEntry files entry >>= fun files => addEntries files entries) = _ ↔ _
    by_cases none_ : entry.name = []
    · rw [addEntry, if_pos none_]
      have skipped : named (entry :: entries) = named entries := List.filter_cons_of_neg (by simp [none_])
      rw [skipped]
      exact ih
    · have kept : named (entry :: entries) = entry :: named entries := List.filter_cons_of_pos (by simp [none_])
      rw [kept, List.map_cons, List.map_cons, List.forall_mem_cons, List.append_cons files.keys,
        List.append_cons files.entries]
      cases added : addEntry files entry with
      | ok files' =>
        obtain ⟨file, fresh, same⟩ := (addEntry_eq_ok none_).mp added
        show addEntries files' entries = _ ↔ _
        have keys : files'.keys = files.keys ++ [entry.name] := by
          rw [JsMap.keys, same, List.map_append]
          rfl
        rw [ih, keys, same]
        rw [and_iff_right file]
      | error message =>
        refine iff_of_false (fun wrong => by cases wrong) ?_
        rintro ⟨⟨file, _⟩, distinct, _⟩
        have fresh : entry.name ∉ files.keys := fun known =>
          (List.nodup_append.mp (List.nodup_append.mp distinct).1).2.2 _ known _ (List.mem_singleton_self _) rfl
        have accepted : ∃ after, addEntry files entry = .ok after :=
          ⟨files.set entry.name entry.content, (addEntry_eq_ok none_).mpr ⟨file, fresh, if_neg fresh⟩⟩
        obtain ⟨after, same⟩ := accepted
        cases added.symm.trans same

end Files

section Limits

/-- The names that have a limit, or seem to have one, are valid paths. -/
private theorem validateArchivePath_of_known :
    ∀ name ∈ limits.map (·.1) ++ inheritedProperties, validateArchivePath name = true := by
  simp only [limits, inheritedProperties, List.map_cons, List.map_nil]
  decide

private theorem limitOf_inherited : ∀ name ∈ inheritedProperties, limitOf name = some .inherited := by
  simp [inheritedProperties, limitOf, limits, js_inj]

private theorem checked_of_known : ∀ name ∈ limits.map (·.1), name ≠ [] ∧ name ∉ inheritedProperties := by
  have nonempty : ∀ name ∈ limits.map (·.1), name ≠ [] := by decide
  have own : ∀ name ∈ limits.map (·.1), name ∉ inheritedProperties := by simp [limits, inheritedProperties, js_inj]
  exact fun name known => ⟨nonempty name known, own name known⟩

private theorem limits_nodup : (limits.map (·.1)).Nodup := by simp [limits, js_inj]

/-- A file passes if its name only seems to have a limit, or if it is within its limit. -/
private theorem checkFile_eq_ok (content : Buffer) : checkFile (name, content) = .ok () ↔
    name ∈ inheritedProperties ∨ ∃ limit, (name, limit) ∈ limits ∧ content.length ≤ limit := by
  rw [checkFile]
  cases found : limits.find? fun entry => entry.1 = name with
  | some known =>
    have listed : known ∈ limits := List.mem_of_find?_eq_some found
    obtain rfl : known.1 = name := by simpa using List.find?_some found
    have limit : limitOf known.1 = some (.number known.2) := by rw [limitOf, found]
    have valid := validateArchivePath_of_known known.1 (List.mem_append_left _ (List.mem_map_of_mem listed))
    have own := (checked_of_known known.1 (List.mem_map_of_mem listed)).2
    have only : ∀ limit, (known.1, limit) ∈ limits → limit = known.2 := fun limit listed' =>
      congrArg Prod.snd (List.inj_on_of_nodup_map limits_nodup listed' listed rfl)
    simp only [valid, limit, Property.isBelow, not_true, if_false, decide_eq_true_eq]
    constructor
    · intro passes
      refine .inr ⟨known.2, listed, ?_⟩
      by_contra above
      rw [if_pos (Nat.lt_of_not_le above)] at passes
      cases passes
    · rintro (inherited | ⟨limit, listed', within⟩)
      · exact absurd inherited own
      · rw [if_neg (Nat.not_lt.mpr (only limit listed' ▸ within))]
  | none =>
    have unlisted : ¬∃ limit, (name, limit) ∈ limits ∧ content.length ≤ limit := fun ⟨limit, listed, _⟩ =>
      List.find?_eq_none.mp found _ listed (decide_eq_true rfl)
    rw [or_iff_left unlisted]
    by_cases inherited : name ∈ inheritedProperties
    · rw [if_neg (by simp [validateArchivePath_of_known name (List.mem_append_right _ inherited)]),
        limitOf_inherited name inherited]
      exact iff_of_true rfl inherited
    · have none_ : limitOf name = none := by rw [limitOf, found, if_neg inherited]
      refine iff_of_false (fun passes => ?_) inherited
      rw [none_] at passes
      split at passes
      · cases passes
      · cases passes

private theorem forM_eq_ok {pairs : List (JsString × Buffer)} :
    pairs.forM checkFile = .ok () ↔ ∀ file ∈ pairs, checkFile file = .ok () := by
  induction pairs with
  | nil => exact iff_of_true rfl (by simp)
  | cons file pairs ih =>
    rw [List.forall_mem_cons, ← ih]
    show (checkFile file >>= fun _ => pairs.forM checkFile) = _ ↔ _
    cases checkFile file with
    | ok => exact (and_iff_right rfl).symm
    | error message => exact iff_of_false (fun wrong => by cases wrong) fun ⟨wrong, _⟩ => by cases wrong

end Limits

section Acceptance

/-- An archive is accepted exactly if nothing but an unchecked name speaks against it. -/
theorem readArchive_ok_iff : (∃ files, readArchive entries = .ok files) ↔ Unobjectionable entries := by
  constructor
  · rintro ⟨files, accepted⟩
    cases added : addEntries .empty entries with
    | error message => rw [readArchive, added] at accepted; cases accepted
    | ok files' =>
      obtain ⟨file, distinct, same⟩ := (addEntries_eq_ok).mp added
      rw [readArchive, added] at accepted
      have checked : files'.entries.forM checkFile = .ok () := by
        cases passes : files'.entries.forM checkFile with
        | ok => rfl
        | error message =>
          rw [show (Except.ok files' >>= checkFiles) = checkFiles files' from rfl, checkFiles, passes] at accepted
          cases accepted
      refine ⟨file, distinct, fun entry inside => ?_⟩
      have passes := (forM_eq_ok).mp checked (entry.name, entry.content) (by
        rw [same]
        exact List.mem_map_of_mem inside)
      exact (checkFile_eq_ok entry.content).mp passes
  · intro fine
    have keys : ((JsMap.empty : Files).keys ++ (named entries).map (·.name)).Nodup := fine.distinct
    let files : Files :=
      ⟨(named entries).map fun entry => (entry.name, entry.content), by rw [List.map_map]; exact fine.distinct⟩
    have added : addEntries .empty entries = .ok files := (addEntries_eq_ok).mpr ⟨fine.file, keys, rfl⟩
    have checked : files.entries.forM checkFile = .ok () := by
      refine (forM_eq_ok).mpr fun file inside => ?_
      obtain ⟨entry, inside', rfl⟩ := List.mem_map.mp inside
      exact (checkFile_eq_ok entry.content).mpr (fine.listed entry inside')
    refine ⟨files, ?_⟩
    rw [readArchive, added, show (Except.ok files >>= checkFiles) = checkFiles files from rfl, checkFiles, checked]
    rfl

/-- Only acceptable archives are accepted, exactly if no unchecked name is all that speaks against the archive. -/
theorem acceptance_exact_iff (entries : List TarEntry) :
    ((∃ files, readArchive entries = .ok files) → Acceptable entries) ↔
      (Unobjectionable entries → ∀ entry ∈ entries, ¬Unchecked entry) := by
  rw [readArchive_ok_iff]
  refine forall_congr' fun fine => ⟨fun acceptable entry inside unchecked => ?_, fun checked => ?_⟩
  · obtain ⟨limit, listed, -⟩ := acceptable.listed entry inside
    have checked := checked_of_known entry.name (List.mem_map_of_mem listed)
    exact unchecked.elim checked.1 checked.2
  · have all : named entries = entries :=
      List.filter_eq_self.mpr fun entry inside => by simpa using fun none_ => checked entry inside (.inl none_)
    refine ⟨fun entry inside => ?_, ?_⟩
    · exact (fine.listed entry (all.symm ▸ inside)).resolve_left fun inherited => checked entry inside (.inr inherited)
    · have distinct := fine.distinct
      rwa [all] at distinct

/-- The archive of one file that is named like a property of every object. -/
def constructorArchive : List TarEntry := [{ name := js "constructor", typeflag := 0x30, content := [] }]

/-- The archive is accepted, although its file has none of the four names. -/
theorem accepts_inherited : (∃ files, readArchive constructorArchive = .ok files) ∧ ¬Acceptable constructorArchive := by
  have inherited : js "constructor" ∈ inheritedProperties := by decide
  have some_ : js "constructor" ≠ [] := by decide
  have all : named constructorArchive = constructorArchive := List.filter_cons_of_pos (by simpa using some_)
  refine ⟨readArchive_ok_iff.mpr ⟨?_, ?_, ?_⟩, fun acceptable => ?_⟩
  · rw [all]
    exact List.forall_mem_singleton.mpr (.inl rfl)
  · rw [all]
    exact List.nodup_singleton _
  · rw [all]
    exact List.forall_mem_singleton.mpr (.inl inherited)
  · obtain ⟨limit, listed, -⟩ := acceptable.listed _ (List.mem_singleton_self _)
    exact (checked_of_known _ (List.mem_map_of_mem listed)).2 inherited

end Acceptance

end PieAgent.Soundness.ArchiveAcceptance
