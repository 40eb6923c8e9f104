import PieAgent.JavaScript.Proofs.Decoding
import PieAgent.Model.Session.Discovery
import PieAgent.Proofs.Session.TranscriptLines

/-! # The quick reader and the loader

Both readers look at the first line of a file unless it is blank, which only the loader passes over. The quick reader
sees the first bytes of the line, so the two agree on a line that has nothing but white space behind these bytes. On
a longer line they never both find a header: the text of an object is complete at one place only.
-/

namespace PieAgent.Proofs.Discovery

open JavaScript Model Transcript Discovery

/-- The bytes of a file before the first line feed. -/
def firstLine (bytes : List UInt8) : List UInt8 := bytes.takeWhile (· != 10)

/-- The first line is blank. -/
def startsBlank (bytes : List UInt8) : Bool := isBlank (decodeUtf8 (firstLine bytes))

/-- The first line has a character other than white space behind the buffer of the quick reader. -/
def runsOver (bytes : List UInt8) : Bool :=
  ((firstLine bytes).drop bufferSize).any fun byte => !isJsonSpace (Char.ofNat byte.toNat)

/-- The loader finds a header: it does not treat the file as an empty one. -/
def hasHeader (filePath : JsString) (bytes : List UInt8) : Bool :=
  match loadEntriesFromFile filePath bytes with
  | .ok none => false
  | _ => true

def isHeaderLine (line : List Char) : Bool := (parseSessionHeaderLine line).isSome

section Headers

variable {line space : List Char} {members : List (JsString × Json)}

private theorem obj_of_parseSessionHeader {raw : Json} {header : Transcript.SessionHeader}
    (accepted : parseSessionHeader raw = some header) : ∃ members, raw = .obj members := by
  cases raw with
  | obj members => exact ⟨members, rfl⟩
  | _ => cases accepted

/-- A header line is the text of an object. -/
theorem isHeaderLine_eq_true : isHeaderLine line = true ↔
    ∃ members, parse? line = some (.obj members) ∧ (parseSessionHeader (.obj members)).isSome := by
  rw [isHeaderLine, parseSessionHeaderLine]
  constructor
  · intro accepted
    obtain ⟨header, parsed⟩ := Option.isSome_iff_exists.mp accepted
    obtain ⟨raw, reads, found⟩ := Option.bind_eq_some_iff.mp parsed
    obtain ⟨members, rfl⟩ := obj_of_parseSessionHeader found
    exact ⟨members, reads, Option.isSome_iff_exists.mpr ⟨header, found⟩⟩
  · rintro ⟨members, parsed, accepted⟩
    rw [parsed, Option.bind_some]
    exact accepted

private theorem parse?_between {space' used : List Char} {value : Json} (blank : Spaces space) (blank' : Spaces space')
    (reads : ReadsValue used value) : parse? (space ++ used ++ space') = some value := by
  rw [List.append_assoc]
  refine parse?_spaces blank (@parse?_of_parseValue? _ _ (2 * used.length) space' ?_ blank')
  obtain ⟨c, tail, rfl, solid, _⟩ := reads.opens
  rw [List.cons_append, show skipSpace (c :: (tail ++ space')) = c :: (tail ++ space') from
    skipSpace_append spaces_nil solid _, ← List.cons_append]
  exact reads.again _ _ le_rfl (fits_of_spaces blank')

/-- White space behind an object does not matter. -/
private theorem parse?_append_spaces (blank : Spaces space) :
    parse? (line ++ space) = some (.obj members) ↔ parse? line = some (.obj members) := by
  constructor
  · intro parsed
    obtain ⟨lead, used, trail, split, leads, trails, reads, ends⟩ := parse?_eq_some parsed
    have last : (lead ++ used).getLast? = some '\x7d' := by rw [List.getLast?_append, ends members rfl, Option.some_or]
    rcases List.append_eq_append_iff.mp split with ⟨more, whole, rest⟩ | ⟨more, whole, rest⟩
    · cases more using List.reverseRecOn with
      | nil =>
        rw [List.append_nil] at whole
        rw [← whole, ← List.append_nil (lead ++ used)]
        exact parse?_between leads spaces_nil reads
      | append_singleton more c =>
        rw [whole, ← List.append_assoc, List.getLast?_concat] at last
        have white := blank c (by rw [rest]; simp)
        rw [Option.some.inj last] at white
        cases white
    · rw [whole]
      exact parse?_between leads (fun c member => trails c (by rw [rest]; exact List.mem_append_left _ member)) reads
  · intro parsed
    obtain ⟨lead, used, trail, rfl, leads, trails, reads, _⟩ := parse?_eq_some parsed
    rw [List.append_assoc]
    exact parse?_between leads (List.forall_mem_append.mpr ⟨trails, blank⟩) reads

theorem isHeaderLine_append_spaces (blank : Spaces space) : isHeaderLine (line ++ space) = isHeaderLine line := by
  rw [Bool.eq_iff_iff, isHeaderLine_eq_true, isHeaderLine_eq_true]
  simp only [parse?_append_spaces blank]

/-- A header line ends with its brace or with white space. -/
theorem ends_of_isHeaderLine (accepted : isHeaderLine line = true) : line.getLast? ≠ some replacementChar := by
  obtain ⟨members, parsed, _⟩ := (isHeaderLine_eq_true).mp accepted
  obtain ⟨lead, used, trail, rfl, _, trails, _, ends⟩ := parse?_eq_some parsed
  intro last
  rw [List.getLast?_append] at last
  cases final : trail.getLast? with
  | none =>
    rw [final, Option.none_or, List.getLast?_append, ends members rfl, Option.some_or] at last
    exact absurd (Option.some.inj last) (by decide)
  | some c =>
    rw [final, Option.some_or] at last
    have white := trails c (List.mem_of_getLast? final)
    rw [Option.some.inj last] at white
    exact absurd white (by decide)

theorem isBlank_of_isHeaderLine (accepted : isHeaderLine line = true) : isBlank line = false := by
  obtain ⟨members, parsed, _⟩ := (isHeaderLine_eq_true).mp accepted
  exact isBlank_of_parse? parsed

/-- A header line is none any more with another token behind it. -/
theorem isHeaderLine_continued {more : List Char} (accepted : isHeaderLine line = true)
    (solid : ∃ c ∈ more, isJsonSpace c = false) : isHeaderLine (line ++ more) = false := by
  obtain ⟨members, parsed, _⟩ := (isHeaderLine_eq_true).mp accepted
  rw [isHeaderLine, parseSessionHeaderLine, parse?_object_continued parsed solid]
  rfl

end Headers

section Readers

variable {bytes : List UInt8} {filePath : JsString}

private theorem takeWhile_take {α : Type} (p : α → Bool) (n : ℕ) (items : List α) :
    (items.take n).takeWhile p = (items.takeWhile p).take n := by
  induction items generalizing n with
  | nil => simp
  | cons item items ih =>
    cases n with
    | zero => rfl
    | succ n =>
      rw [List.take_succ_cons, List.takeWhile_cons, List.takeWhile_cons, ih]
      split <;> rfl

/-- The quick reader sees the first bytes of the first line. -/
theorem isValidSessionFile_some (bytes : List UInt8) :
    isValidSessionFile (some bytes) = isHeaderLine (decodeUtf8 ((firstLine bytes).take bufferSize)) := by
  rw [isValidSessionFile, head?_splitOn_decodeUtf8, takeWhile_take, firstLine]
  split
  · next absent => cases absent
  · next empty =>
    rw [Option.some.inj empty]
    rfl
  · next line _ same => rw [Option.some.inj same, isHeaderLine]

/-- The loader looks at the first line that is not blank. -/
private theorem hasHeader_eq (filePath : JsString) (bytes : List UInt8) : hasHeader filePath bytes =
    (((decodeUtf8 bytes).splitOn '\n').find? fun line => !isBlank line).any isHeaderLine := by
  unfold hasHeader loadEntriesFromFile
  dsimp only
  generalize (decodeUtf8 bytes).splitOn '\n' = rawLines
  cases first : rawLines.findIdx? fun line => !isBlank line with
  | none =>
    have none_ : rawLines.find? (fun line => !isBlank line) = none :=
      List.find?_eq_none.mpr fun line member => by simpa using List.findIdx?_eq_none_iff.mp first line member
    rw [none_]
    rfl
  | some index =>
    obtain ⟨bound, solid, before⟩ := List.findIdx?_eq_some_iff_getElem.mp first
    have found : rawLines.find? (fun line => !isBlank line) = some rawLines[index] := by
      rw [List.find?_eq_some_iff_getElem]
      exact ⟨solid, index, bound, rfl, fun j earlier => by simpa using before j earlier⟩
    dsimp only
    rw [found, List.getD_eq_getElem _ _ bound, Option.any_some, isHeaderLine]
    cases parsed : parseSessionHeaderLine rawLines[index] with
    | none => rfl
    | some header =>
      dsimp only
      cases loadLines filePath (index + 1) _ [] with
      | error error => rfl
      | ok loaded => rfl

/-- A first line that is not blank decides. -/
theorem hasHeader_of_visible (visible : startsBlank bytes = false) :
    hasHeader filePath bytes = isHeaderLine (decodeUtf8 (firstLine bytes)) := by
  have head := head?_splitOn_decodeUtf8 bytes
  rw [hasHeader_eq]
  cases lines : (decodeUtf8 bytes).splitOn '\n' with
  | nil => rw [lines] at head; cases head
  | cons line rest =>
    rw [lines, List.head?_cons, Option.some.injEq] at head
    subst head
    rw [startsBlank, firstLine] at visible
    rw [List.find?_cons_of_pos (by rw [visible]; rfl)]
    rfl

/-- On a line with only white space behind the buffer the quick reader sees what the loader sees. -/
theorem isValidSessionFile_of_fits (fits : runsOver bytes = false) :
    isValidSessionFile (some bytes) = isHeaderLine (decodeUtf8 (firstLine bytes)) := by
  have white : ∀ byte ∈ (firstLine bytes).drop bufferSize, isJsonSpace (Char.ofNat byte.toNat) = true := by
    intro byte member
    simpa using List.any_eq_false.mp fits byte member
  have ascii : ∀ byte ∈ (firstLine bytes).drop bufferSize, byte.toNat < 0x80 := by
    intro byte member
    by_contra large
    have valid : byte.toNat.isValidChar := .inl (by have := byte.toNat_lt; omega)
    have code := toNat_charOfNat valid
    have space := white byte member
    simp only [isJsonSpace, Bool.or_eq_true, beq_iff_eq] at space
    rcases space with ((same | same) | same) | same <;>
    · rw [same] at code
      have small : (0x20 : ℕ) < byte.toNat := by omega
      rw [← code] at small
      exact absurd small (by decide)
  rw [isValidSessionFile_some]
  conv => rhs; rw [← List.take_append_drop bufferSize (firstLine bytes), decodeUtf8_append_bytes _ ascii]
  refine (isHeaderLine_append_spaces fun c member => ?_).symm
  obtain ⟨byte, listed, rfl⟩ := List.mem_map.mp member
  exact white byte listed

/-- On a longer line the readers do not both find a header. -/
theorem hasHeader_of_runsOver (beyond : runsOver bytes = true) (valid : isValidSessionFile (some bytes) = true) :
    hasHeader filePath bytes = false := by
  rw [isValidSessionFile_some] at valid
  have split := decodeUtf8_append_of_ends (ends_of_isHeaderLine valid) ((firstLine bytes).drop bufferSize)
  rw [List.take_append_drop] at split
  have solid : ∃ c ∈ decodeUtf8 ((firstLine bytes).drop bufferSize), isJsonSpace c = false := by
    by_contra none_
    have white : ∀ c ∈ decodeUtf8 ((firstLine bytes).drop bufferSize), isJsonSpace c = true := by simpa using none_
    obtain ⟨byte, listed, visible⟩ := List.any_eq_true.mp beyond
    have inside := mem_decodeUtf8_of_ascii (fun c member => ?_) listed
    · rw [white _ inside] at visible
      cases visible
    · have space := white c member
      simp only [isJsonSpace, Bool.or_eq_true, beq_iff_eq] at space
      rcases space with ((rfl | rfl) | rfl) | rfl <;> decide
  have visible : startsBlank bytes = false := by
    have front := isBlank_of_isHeaderLine valid
    rw [startsBlank, split]
    by_contra blank
    rw [Bool.not_eq_false, isBlank_iff] at blank
    have : isBlank (decodeUtf8 ((firstLine bytes).take bufferSize)) = true :=
      isBlank_iff.mpr fun unit member => blank unit (by
        rw [ofText, List.flatMap_append]
        exact List.mem_append_left _ member)
    rw [front] at this
    cases this
  rw [hasHeader_of_visible visible, split]
  exact isHeaderLine_continued valid solid

/-- Both readers find a header exactly in a first line that the loader accepts and the buffer holds. -/
theorem both_iff : (hasHeader filePath bytes = true ∧ isValidSessionFile (some bytes) = true) ↔
    hasHeader filePath bytes = true ∧ startsBlank bytes = false ∧ runsOver bytes = false := by
  constructor
  · rintro ⟨loads, valid⟩
    have fits : runsOver bytes = false := by
      by_contra beyond
      rw [hasHeader_of_runsOver (by simpa using beyond) valid] at loads
      cases loads
    rw [isValidSessionFile_of_fits fits] at valid
    exact ⟨loads, isBlank_of_isHeaderLine valid, fits⟩
  · rintro ⟨loads, visible, fits⟩
    rw [isValidSessionFile_of_fits fits, ← hasHeader_of_visible visible]
    exact ⟨loads, loads⟩

/-- Only the quick reader finds a header exactly when its bytes are a header that the line goes on behind. -/
theorem mistaken_iff : (isValidSessionFile (some bytes) = true ∧ hasHeader filePath bytes = false) ↔
    isValidSessionFile (some bytes) = true ∧ runsOver bytes = true := by
  refine and_congr_right fun valid => ⟨fun absent => ?_, fun beyond => hasHeader_of_runsOver beyond valid⟩
  by_contra fits
  rw [Bool.not_eq_true] at fits
  rw [isValidSessionFile_of_fits fits] at valid
  rw [hasHeader_of_visible (isBlank_of_isHeaderLine valid), valid] at absent
  cases absent

/-- Only the loader finds a header exactly when the first line is blank or the buffer does not hold it. -/
theorem missed_iff : (hasHeader filePath bytes = true ∧ isValidSessionFile (some bytes) = false) ↔
    hasHeader filePath bytes = true ∧ (startsBlank bytes = true ∨ runsOver bytes = true) := by
  refine and_congr_right fun loads => ?_
  have both := @both_iff bytes filePath
  rw [loads] at both
  simp only [true_and] at both
  rw [← Bool.not_eq_true, both, not_and_or, Bool.not_eq_false, Bool.not_eq_false]

end Readers

end PieAgent.Proofs.Discovery
