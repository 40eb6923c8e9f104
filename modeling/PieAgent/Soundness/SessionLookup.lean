import PieAgent.Model.Session.Discovery

/-! # Looking a session up by its id

The scan takes the first file, in the order of the names, that has the argument as a prefix of its stem or of the id of
its header. A later file that the argument names exactly, or that it fits as well, is not looked at. The result is the
session that the argument singles out exactly when the first of the fitting files is named exactly or is the only one.
-/

namespace PieAgent.Soundness.SessionLookup

open JavaScript Model ArchiveImport Discovery

section Files

variable (id : JsString) (file : ListedFile)

/-- The argument is the stem of the file or the id of its header. -/
def Exact : Prop := stemOf file = id ∨ ∃ header, readSessionHeader file.content = some header ∧ header.id = id

/-- The argument is a prefix of one of the two. -/
def Prefixed : Prop :=
  id <+: stemOf file ∨ ∃ header, readSessionHeader file.content = some header ∧ id <+: header.id

variable {id file}

theorem Exact.prefixed (exact_ : Exact id file) : Prefixed id file := by
  rcases exact_ with stem | ⟨header, read, same⟩
  · exact .inl (stem ▸ List.prefix_rfl)
  · exact .inr ⟨header, read, same ▸ List.prefix_rfl⟩

theorem answersTo_iff : answersTo id file = true ↔ Prefixed id file := by
  have absorb (text : JsString) : (text = id ∨ id <+: text) ↔ id <+: text :=
    or_iff_right_of_imp fun same => same ▸ List.prefix_rfl
  simp only [answersTo, Prefixed, Bool.or_eq_true, beq_iff_eq, List.isPrefixOf_iff_prefix, Option.any_eq_true, absorb]

end Files

variable (directory : SessionDirectory) (id : JsString)

/-- The argument names the file exactly, or is a prefix for this file only. -/
def SinglesOut (file : ListedFile) : Prop :=
  Exact id file ∨ Prefixed id file ∧ ∀ other ∈ sessionFiles directory, Prefixed id other → other = file

/-- The operations return, delete and open no session but one that the argument singles out. Without an argument, the
newest session is opened. -/
structure Isolated : Prop where
  found : ∀ path, findSessionPathById directory id = some path →
    ∃ file ∈ sessionFiles directory, path = locationOf directory file ∧ SinglesOut directory id file
  deleted : ∀ deletion, deleteSessionById directory id = .ok deletion → ∀ file ∈ sessionFiles directory,
    locationOf directory file ∈ deletion.unlinked → SinglesOut directory id file
  opened : id ≠ [] → ∀ path, resolveResumeSessionPath directory (some id) = .ok path →
    ∃ file ∈ sessionFiles directory, path = locationOf directory file ∧ SinglesOut directory id file

/-- The argument names one of the files that it fits exactly, and no other one stands before it. -/
def FirstIsExact : Prop :=
  ∃ file ∈ sessionFiles directory, Exact id file ∧ ∀ other ∈ sessionFiles directory, Prefixed id other →
    (locationOf directory file).path ≤ (locationOf directory other).path

/-- The argument fits at most one file. -/
def FitsOne : Prop :=
  ∀ first ∈ sessionFiles directory, ∀ second ∈ sessionFiles directory,
    Prefixed id first → Prefixed id second → first = second

section Scan

variable {directory id} {file : ListedFile}

private theorem mem_sorted : file ∈ listSessionFilesSorted directory ↔ file ∈ sessionFiles directory :=
  List.mem_insertionSort _

private theorem pairwise_sorted : (listSessionFilesSorted directory).Pairwise fun first second =>
    (locationOf directory first).path ≤ (locationOf directory second).path := by
  have total : Std.Total fun first second : ListedFile =>
      (locationOf directory first).path ≤ (locationOf directory second).path :=
    ⟨fun first second => List.le_total _ _⟩
  have trans : IsTrans ListedFile fun first second =>
      (locationOf directory first).path ≤ (locationOf directory second).path :=
    ⟨fun _ _ _ => List.le_trans⟩
  exact List.pairwise_insertionSort _ _

/-- The scan finds a file that the argument fits, and no such file stands before it. -/
theorem find_eq_some (scan : (listSessionFilesSorted directory).find? (answersTo id) = some file) :
    file ∈ sessionFiles directory ∧ Prefixed id file ∧ ∀ other ∈ sessionFiles directory, Prefixed id other →
      (locationOf directory file).path ≤ (locationOf directory other).path := by
  obtain ⟨answers, before, behind, split, refused⟩ := List.find?_eq_some_iff_append.mp scan
  refine ⟨mem_sorted.mp (List.mem_of_find?_eq_some scan), (answersTo_iff).mp answers, fun other listed fits => ?_⟩
  have sorted := @pairwise_sorted directory
  have member := (mem_sorted).mpr listed
  rw [split] at sorted member
  rcases List.mem_append.mp member with early | late
  · exact absurd (answersTo_iff.mpr fits) (by simpa using refused other early)
  · rcases List.mem_cons.mp late with rfl | later
    · exact List.le_refl _
    · exact List.rel_of_pairwise_cons (List.pairwise_append.mp sorted).2.1 later

private theorem eq_of_path {other : ListedFile} (listed : file ∈ sessionFiles directory)
    (listed' : other ∈ sessionFiles directory)
    (same : (locationOf directory file).path = (locationOf directory other).path) : file = other :=
  List.inj_on_of_nodup_map directory.distinct (List.mem_of_mem_filter listed) (List.mem_of_mem_filter listed')
    (List.append_cancel_left same)

/-- The file that the scan finds is singled out under the condition. -/
theorem singlesOut_iff (scan : (listSessionFilesSorted directory).find? (answersTo id) = some file) :
    SinglesOut directory id file ↔ FirstIsExact directory id ∨ FitsOne directory id := by
  obtain ⟨listed, fits, least⟩ := find_eq_some scan
  constructor
  · rintro (exact_ | ⟨_, only⟩)
    · exact .inl ⟨file, listed, exact_, least⟩
    · refine .inr fun first member second member' fits' fits'' => ?_
      rw [only first member fits', only second member' fits'']
  · rintro (⟨first, member, exact_, earliest⟩ | one)
    · obtain rfl := eq_of_path member listed
        (List.le_antisymm (earliest file listed fits) (least first member exact_.prefixed))
      exact .inl exact_
    · exact .inr ⟨fits, fun other member fits' => one other member file listed fits' fits⟩

/-- A sidecar does not have the name of a session. -/
private theorem sidecar_ne (listed : file ∈ sessionFiles directory) {path : Location} {newExt : JsString}
    (other : ¬ js ".jsonl" <:+ js "." ++ newExt) (long : (js ".jsonl").length ≤ (js "." ++ newExt).length) :
    locationOf directory file ≠ withSidecarExtension path newExt := by
  intro same
  have name : file.name = _ ++ js "." ++ newExt := congrArg Location.fileName same
  have suffix : js ".jsonl" <:+ file.name := List.isSuffixOf_iff_suffix.mp (List.mem_filter.mp listed).2
  rw [name, List.append_assoc] at suffix
  exact other (List.suffix_of_suffix_length_le suffix (List.suffix_append _ _) long)

private theorem eq_of_mem_unlinked {path : Location} (listed : file ∈ sessionFiles directory)
    (unlinked : locationOf directory file ∈
      [path, triggerSidecarPath path, cronSidecarPath path, endpointSidecarPath path]) :
    locationOf directory file = path := by
  simp only [List.mem_cons, List.not_mem_nil, or_false] at unlinked
  rcases unlinked with same | trigger | cron | endpoint
  · exact same
  · exact absurd trigger (sidecar_ne listed (by decide) (by decide))
  · exact absurd cron (sidecar_ne listed (by decide) (by decide))
  · exact absurd endpoint (sidecar_ne listed (by decide) (by decide))

/-- An id that is not empty is resolved by the scan. -/
private theorem find_of_resolve {path : Location} (named : id ≠ [])
    (opened : resolveResumeSessionPath directory (some id) = .ok path) : findSessionPathById directory id = some path := by
  rw [resolveResumeSessionPath] at opened
  split at opened
  · cases opened
  · split at opened
    · cases ‹some id = none›
    · cases ‹some id = some []›
      exact absurd rfl named
    · cases ‹some id = some _›
      split at opened
      · cases opened
      · next found =>
        cases opened
        exact found

end Scan

private def sessionBytes (id : String) : List UInt8 :=
  encodeUtf8 ("\x7b\"id\":\"".toList ++ id.toList ++ "\",\"createdAt\":\"t\",\"cwd\":\"/\",\"path\":\"p\"\x7d\n".toList)

def named : ListedFile := ⟨js "ab.jsonl", 1, some (sessionBytes "ab")⟩

def longer : ListedFile := ⟨js "ab-1.jsonl", 2, some (sessionBytes "ab-1")⟩

/-- Two sessions; the hyphen stands before the dot in the order of the names. -/
def twoSessions : SessionDirectory where
  path := js "/s"
  files := [named, longer]
  distinct := by decide

private theorem header_longer : (readSessionHeader longer.content).map (·.id) = some (js "ab-1") := by decide +kernel

private theorem not_singlesOut : ¬ SinglesOut twoSessions (js "ab") longer := by
  rintro ((stem | ⟨header, read, same⟩) | ⟨_, only⟩)
  · exact absurd stem (by decide)
  · have known := header_longer
    rw [read, Option.map_some, same] at known
    exact absurd known (by decide)
  · have same := only named (by decide) (.inl (by decide))
    exact absurd (congrArg ListedFile.name same) (by decide)

end PieAgent.Soundness.SessionLookup
