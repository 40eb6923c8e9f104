import PieAgent.Proofs.Session.Discovery

/-! # The most recent session of a directory

The quick reader and the loader disagree on two kinds of files. One has its header behind a blank line or behind the
first 512 bytes of the line: discovery misses it. The other has an object in its first 512 bytes that the line goes on
behind: discovery takes it for a session. Discovery is right exactly when a newer file that both readers accept stands
in front of each of these.
-/

namespace PieAgent.Soundness.DiscoveredSession

open JavaScript Model Transcript Discovery Proofs.Discovery

section Files

variable (directory : SessionDirectory) (file : ListedFile)

def pathOf : JsString := joinPath directory.path file.name

/-- The loader finds a header in the file. -/
def loads : Bool := file.content.any (hasHeader (pathOf directory file))

/-- The first line is the header, and the buffer of the quick reader holds it. -/
def Plain : Prop :=
  loads directory file = true ∧ file.content.any startsBlank = false ∧ file.content.any runsOver = false

/-- The header stands behind a blank line, or is not held by the buffer. -/
def Missed : Prop :=
  loads directory file = true ∧ (file.content.any startsBlank = true ∨ file.content.any runsOver = true)

/-- The buffer holds a header, but the first line goes on behind it. -/
def Mistaken : Prop := isValidSessionFile file.content = true ∧ file.content.any runsOver = true

/-- The path is that of a session with the greatest modification time, or there is no session. -/
def IsMostRecent (path : Option JsString) : Prop :=
  match path with
  | none => ∀ file ∈ sessionFiles directory, loads directory file = false
  | some path => ∃ file ∈ sessionFiles directory, path = pathOf directory file ∧ loads directory file = true ∧
      ∀ other ∈ sessionFiles directory, loads directory other = true → other.mtime ≤ file.mtime

/-- The first file is newer than the second one, or as new and listed before it. -/
def InFront (first second : ListedFile) : Prop :=
  second.mtime < first.mtime ∨ second.mtime = first.mtime ∧ [first, second].Sublist directory.files

theorem plain_iff : Plain directory file ↔ loads directory file = true ∧ isValidSessionFile file.content = true := by
  rw [Plain, loads]
  cases file.content with
  | none => simp
  | some bytes => exact both_iff.symm

theorem missed_file_iff :
    Missed directory file ↔ loads directory file = true ∧ isValidSessionFile file.content = false := by
  rw [Missed, loads]
  cases file.content with
  | none => simp
  | some bytes => exact missed_iff.symm

theorem mistaken_file_iff : Mistaken file ↔ isValidSessionFile file.content = true ∧ loads directory file = false := by
  rw [Mistaken, loads]
  cases file.content with
  | none => simp [isValidSessionFile]
  | some bytes => exact mistaken_iff.symm

end Files

section Greatest

variable {α : Type} (key : α → ℤ)

/-- The first one of the items with the greatest key comes first when they are sorted. -/
private theorem greatest_of_head? {items : List α} {first : α}
    (head : (items.insertionSort fun first second => key second ≤ key first).head? = some first) :
    ∃ front back, items = front ++ first :: back ∧ (∀ item ∈ front, key item < key first) ∧
      ∀ item ∈ back, key item ≤ key first := by
  induction items generalizing first with
  | nil => cases head
  | cons item items ih =>
    rw [List.insertionSort_cons] at head
    cases sorted : items.insertionSort fun first second => key second ≤ key first with
    | nil =>
      obtain rfl : items = [] := by simpa [sorted] using (List.perm_insertionSort (fun first second =>
        key second ≤ key first) items).symm
      rw [sorted] at head
      obtain rfl := Option.some.inj head
      exact ⟨[], [], rfl, nofun, nofun⟩
    | cons greatest rest =>
      rw [sorted, List.orderedInsert_cons] at head
      obtain ⟨front, back, split, below, above⟩ := @ih greatest (by rw [sorted]; rfl)
      have most : ∀ other ∈ items, key other ≤ key greatest := by
        rw [split]
        refine List.forall_mem_append.mpr ⟨fun other member => (below other member).le, ?_⟩
        exact List.forall_mem_cons.mpr ⟨le_rfl, above⟩
      split at head
      · next least =>
        obtain rfl := Option.some.inj head
        exact ⟨[], items, rfl, nofun, fun other member => (most other member).trans least⟩
      · next smaller =>
        obtain rfl := Option.some.inj head
        refine ⟨item :: front, back, by rw [split]; rfl, ?_, above⟩
        exact List.forall_mem_cons.mpr ⟨not_le.mp smaller, below⟩

/-- What stands before an item that occurs once. -/
private theorem mem_front_of_sublist {first second : α} {front back : List α}
    (once : (front ++ second :: back).Nodup) (listed : [first, second].Sublist (front ++ second :: back)) :
    first ∈ front := by
  rw [List.nodup_append, List.nodup_cons] at once
  obtain ⟨_, ⟨notBehind, _⟩, apart⟩ := once
  obtain ⟨before, after, same, inFront, behind⟩ := List.sublist_append_iff.mp listed
  cases before with
  | nil =>
    rw [List.nil_append] at same
    subst same
    cases behind with
    | cons _ rest => exact absurd (rest.subset (by simp)) notBehind
    | cons_cons _ rest => exact absurd (rest.subset (by simp)) notBehind
  | cons item before =>
    obtain rfl := (List.cons.inj same).1
    exact inFront.subset List.mem_cons_self

end Greatest

variable (directory : SessionDirectory)

private theorem nodup_files : directory.files.Nodup := directory.distinct.of_map _

private theorem pathOf_inj {first second : ListedFile} (one : first ∈ sessionFiles directory)
    (other : second ∈ sessionFiles directory) (same : pathOf directory first = pathOf directory second) :
    first = second := by
  have names : first.name = second.name := List.append_cancel_left same
  exact List.inj_on_of_nodup_map directory.distinct (List.mem_of_mem_filter one) (List.mem_of_mem_filter other) names

/-- Discovery finds the most recent session exactly when every file that only the loader accepts is not newer than some
file that both readers accept, and every file that only the quick reader accepts stands behind one. -/
theorem finds_most_recent_iff : IsMostRecent directory (findMostRecentSession (some directory)) ↔
    (∀ file ∈ sessionFiles directory, Missed directory file →
      ∃ other ∈ sessionFiles directory, Plain directory other ∧ file.mtime ≤ other.mtime) ∧
    ∀ file ∈ sessionFiles directory, Mistaken file →
      ∃ other ∈ sessionFiles directory, Plain directory other ∧ InFront directory other file := by
  simp only [plain_iff, missed_file_iff, mistaken_file_iff directory]
  unfold findMostRecentSession
  dsimp only
  cases head : (((sessionFiles directory).filter fun file => isValidSessionFile file.content).insertionSort
      fun first second => second.mtime ≤ first.mtime).head? with
  | none =>
    have empty : (sessionFiles directory).filter (fun file => isValidSessionFile file.content) = [] := by
      rw [List.head?_eq_none_iff] at head
      have sorted := List.perm_insertionSort (fun first second : ListedFile => second.mtime ≤ first.mtime)
        ((sessionFiles directory).filter fun file => isValidSessionFile file.content)
      rwa [head, List.nil_perm] at sorted
    have invalid : ∀ file ∈ sessionFiles directory, isValidSessionFile file.content = false := by
      simpa using List.filter_eq_nil_iff.mp empty
    rw [Option.map_none, IsMostRecent]
    constructor
    · intro absent
      refine ⟨fun file member missed => ?_, fun file member mistaken => ?_⟩
      · exact absurd (missed.1.symm.trans (absent file member)) (by decide)
      · exact absurd (mistaken.1.symm.trans (invalid file member)) (by decide)
    · rintro ⟨overtaken, _⟩ file member
      by_contra loaded
      obtain ⟨other, listed, ⟨_, valid⟩, _⟩ := overtaken file member ⟨by simpa using loaded, invalid file member⟩
      exact absurd (valid.symm.trans (invalid other listed)) (by decide)
  | some newest =>
    obtain ⟨front, back, split, below, above⟩ := greatest_of_head? ListedFile.mtime head
    have valid_iff (file : ListedFile) : file ∈ front ++ newest :: back ↔
        file ∈ sessionFiles directory ∧ isValidSessionFile file.content = true := by
      rw [← split, List.mem_filter]
    obtain ⟨member, valid⟩ := (valid_iff newest).mp (by simp)
    have most (file : ListedFile) (listed : file ∈ sessionFiles directory)
        (accepted : isValidSessionFile file.content = true) : file.mtime ≤ newest.mtime := by
      rcases List.mem_append.mp ((valid_iff file).mpr ⟨listed, accepted⟩) with before | behind
      · exact (below file before).le
      · rcases List.mem_cons.mp behind with rfl | later
        · exact le_rfl
        · exact above file later
    have inside : (front ++ newest :: back).Sublist directory.files := by
      rw [← split]
      exact List.filter_sublist.trans List.filter_sublist
    have once : (front ++ newest :: back).Nodup := (nodup_files directory).sublist inside
    have found : IsMostRecent directory (some (pathOf directory newest)) ↔ loads directory newest = true ∧
        ∀ other ∈ sessionFiles directory, loads directory other = true → other.mtime ≤ newest.mtime := by
      constructor
      · rintro ⟨file, listed, same, facts⟩
        rwa [pathOf_inj directory member listed same]
      · exact fun facts => ⟨newest, member, rfl, facts⟩
    rw [Option.map_some]
    refine found.trans ⟨?_, ?_⟩
    · rintro ⟨loaded, greatest⟩
      refine ⟨fun file listed missed => ⟨newest, member, ⟨loaded, valid⟩, greatest file listed missed.1⟩, ?_⟩
      rintro file listed ⟨accepted, rejected⟩
      refine ⟨newest, member, ⟨loaded, valid⟩, ?_⟩
      rcases List.mem_append.mp ((valid_iff file).mpr ⟨listed, accepted⟩) with before | behind
      · exact .inl (below file before)
      · rcases List.mem_cons.mp behind with rfl | later
        · exact absurd (loaded.symm.trans rejected) (by decide)
        · have pair : [newest, file].Sublist (newest :: back) := (List.singleton_sublist.mpr later).cons_cons newest
          exact (above file later).lt_or_eq.imp id fun same =>
            ⟨same, (pair.trans (List.sublist_append_right front _)).trans inside⟩
    · rintro ⟨overtaken, behind⟩
      have loaded : loads directory newest = true := by
        by_contra rejected
        obtain ⟨other, listed, ⟨_, accepted⟩, newer | ⟨same, before⟩⟩ :=
          behind newest member ⟨valid, by simpa using rejected⟩
        · exact absurd (most other listed accepted) (not_le.mpr newer)
        · have filtered := before.filter fun file => (js ".jsonl").isSuffixOf file.name
          have kept : ([other, newest].filter fun file => (js ".jsonl").isSuffixOf file.name) = [other, newest] := by
            refine List.filter_eq_self.mpr fun file either => ?_
            rcases List.mem_pair.mp either with rfl | rfl
            · exact (List.mem_filter.mp listed).2
            · exact (List.mem_filter.mp member).2
          have again := filtered.filter fun file => isValidSessionFile file.content
          have kept' : ([other, newest].filter fun file => isValidSessionFile file.content) = [other, newest] := by
            refine List.filter_eq_self.mpr fun file either => ?_
            rcases List.mem_pair.mp either with rfl | rfl
            · exact accepted
            · exact valid
          rw [kept, kept', show directory.files.filter _ = sessionFiles directory from rfl, split] at again
          exact absurd same (below other (mem_front_of_sublist once again)).ne'
      refine ⟨loaded, fun other listed accepted => ?_⟩
      cases known : isValidSessionFile other.content with
      | true => exact most other listed known
      | false =>
        obtain ⟨plain, listed', ⟨_, valid'⟩, newer⟩ := overtaken other listed ⟨accepted, known⟩
        exact newer.trans (most plain listed' valid')

/-- A header line that is longer than the buffer: the working directory has 500 letters. -/
def longHeader : List UInt8 :=
  encodeUtf8 ("\x7b\"id\":\"a\",\"createdAt\":\"t\",\"cwd\":\"/".toList ++ List.replicate 500 'd' ++
    "\",\"path\":\"p\"\x7d\n".toList)

def shortHeader : List UInt8 :=
  encodeUtf8 "\x7b\"id\":\"b\",\"createdAt\":\"t\",\"cwd\":\"/\",\"path\":\"p\"\x7d\n".toList

def exampleDirectory : SessionDirectory where
  path := js "/s"
  files := [⟨js "old.jsonl", 1, some shortHeader⟩, ⟨js "new.jsonl", 2, some longHeader⟩]
  distinct := by decide

private theorem example_facts : (∀ file ∈ sessionFiles exampleDirectory, loads exampleDirectory file = true) ∧
    findMostRecentSession (some exampleDirectory) = some (js "/s/old.jsonl") ∧
    (∃ file ∈ sessionFiles exampleDirectory, file.mtime = 2) ∧
    ∀ file ∈ sessionFiles exampleDirectory, js "/s/old.jsonl" = pathOf exampleDirectory file → file.mtime = 1 := by
  decide +kernel

/-- The loader opens both files, and discovery returns the older one. -/
theorem misses_long_header :
    (∀ file ∈ sessionFiles exampleDirectory, loads exampleDirectory file = true) ∧
      findMostRecentSession (some exampleDirectory) = some (js "/s/old.jsonl") ∧
      ¬ IsMostRecent exampleDirectory (findMostRecentSession (some exampleDirectory)) := by
  obtain ⟨loaded, found, ⟨newest, listed, late⟩, early⟩ := example_facts
  refine ⟨loaded, found, ?_⟩
  rw [found]
  rintro ⟨file, member, path, _, greatest⟩
  have order := greatest newest listed (loaded newest listed)
  rw [late, early file member path] at order
  exact absurd order (by decide)

end PieAgent.Soundness.DiscoveredSession
