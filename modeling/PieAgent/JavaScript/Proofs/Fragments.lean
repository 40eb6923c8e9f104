import PieAgent.JavaScript.Core.Utf8
import PieAgent.JavaScript.Proofs.RoundTrip

/-! # Fragments of object texts are not JSON

The text of an object delimits itself: no proper part of it from the front on is JSON, not even with a
stray character behind it, and neither is the text with further tokens behind it.
-/

namespace JavaScript

variable {text front back used : List Char} {value : Json} {members : List (JsString × Json)}

private theorem obj_of_parseValue? {depth : ℕ} {rest : List Char}
    (read : parseValue? depth ('\x7b' :: text) = some (value, rest)) : ∃ members, value = .obj members := by
  cases depth with
  | zero => cases read
  | succ depth =>
    rw [parseValue?] at read
    split at read
    · cases read
      exact ⟨_, rfl⟩
    · obtain ⟨_, _, same⟩ := Option.map_eq_some_iff.mp read
      cases same
      exact ⟨_, rfl⟩

/-- A text that opens with a brace is parsed as an object that ends with one, or not at all. -/
private theorem object_of_parse? (parsed : parse? ('\x7b' :: text) = some value) :
    ∃ used space, '\x7b' :: text = used ++ space ∧ Spaces space ∧ used.getLast? = some '\x7d' ∧
      ∀ depth more, 2 * used.length ≤ depth → parseValue? depth (used ++ more) = some (value, more) := by
  obtain ⟨space, used, space', split, blank, blank', reads, ends⟩ := parse?_eq_some parsed
  cases space with
  | cons c space =>
    cases split
    cases blank _ List.mem_cons_self
  | nil =>
    obtain ⟨c, tail, same, _⟩ := reads.opens
    obtain rfl : c = '\x7b' := by
      rw [same] at split
      exact (List.cons.inj split).1.symm
    have read := reads.again _ [] le_rfl (fits_of_spaces spaces_nil)
    rw [same, List.cons_append] at read
    obtain ⟨members, rfl⟩ := obj_of_parseValue? read
    exact ⟨used, space', split, blank', ends members rfl, fun depth more enough => reads.again depth more enough trivial⟩

/-- Two readings of the same text at full depth agree. -/
private theorem readings_agree {value' : Json} {rest rest' used' : List Char}
    (first : ∀ depth more, 2 * used.length ≤ depth → parseValue? depth (used ++ more) = some (value, more))
    (second : ∀ depth more, 2 * used'.length ≤ depth → parseValue? depth (used' ++ more) = some (value', more))
    (same : used ++ rest = used' ++ rest') : rest = rest' := by
  have one := first (2 * used.length + 2 * used'.length) rest (by omega)
  have two := second (2 * used.length + 2 * used'.length) rest' (by omega)
  rw [same, two] at one
  exact (Prod.mk.inj (Option.some.inj one)).2.symm

/-- A text that opens with a brace is not JSON when it ends with a character other than white space or a brace. -/
theorem parse?_front_concat {c : Char} (solid : isJsonSpace c = false) (other : c ≠ '\x7d') :
    parse? ('\x7b' :: front ++ [c]) = none := by
  by_contra parsed
  obtain ⟨value, parsed⟩ := Option.ne_none_iff_exists'.mp parsed
  obtain ⟨used', space, split', blank, ends, _⟩ := object_of_parse? parsed
  have last : (used' ++ space).getLast? = some c := by
    rw [← split']
    change (('\x7b' :: front) ++ [c]).getLast? = some c
    exact List.getLast?_concat
  rw [List.getLast?_append] at last
  cases tail : space.getLast? with
  | none =>
    rw [tail, ends] at last
    exact other (Option.some.inj last).symm
  | some d =>
    rw [tail] at last
    cases last
    have := blank c (List.mem_of_getLast? tail)
    exact absurd (this.symm.trans solid) (by decide)

variable (reads : ReadsValue used (.obj members))
include reads

/-- A proper front of the text of an object is not JSON. -/
theorem parse?_front (split : used = '\x7b' :: front ++ back) (proper : back ≠ []) : parse? ('\x7b' :: front) = none := by
  by_contra parsed
  obtain ⟨value, parsed⟩ := Option.ne_none_iff_exists'.mp parsed
  obtain ⟨used', space, split', _, _, again⟩ := object_of_parse? parsed
  have agree : space ++ back = [] := by
    refine readings_agree again (fun depth more enough => reads.again depth more enough trivial) ?_
    rw [List.append_nil, split, split', List.append_assoc]
  exact proper (List.append_eq_nil_iff.mp agree).2

/-- The text of an object with a further token behind it, after any white space, is not JSON. -/
theorem parse?_continued {more : List Char} (solid : ∃ c ∈ more, isJsonSpace c = false) (opening : used = '\x7b' :: front) :
    parse? (used ++ more) = none := by
  by_contra parsed
  obtain ⟨value, parsed⟩ := Option.ne_none_iff_exists'.mp parsed
  rw [opening, List.cons_append] at parsed
  obtain ⟨used', space, split', blank, _, again⟩ := object_of_parse? parsed
  have agree : more = space := by
    refine readings_agree (fun depth more enough => reads.again depth more enough trivial) again ?_
    rw [opening, List.cons_append, split']
  obtain ⟨c, member, solid⟩ := solid
  exact absurd ((blank c (agree ▸ member)).symm.trans solid) (by decide)

/-- The text of an object with a further token right behind it is not JSON. -/
theorem parse?_glued {c : Char} (solid : isJsonSpace c = false) (opening : used = '\x7b' :: front) (more : List Char) :
    parse? (used ++ c :: more) = none :=
  parse?_continued reads ⟨c, List.mem_cons_self, solid⟩ opening

omit reads in
/-- The text of a value starts with an ASCII character that is no white space, and with a brace if it is an object. -/
theorem ReadsAs.head (reads : ReadsValue used value) : ∃ c tail, used = c :: tail ∧ isWhitespace c.toNat = false ∧
    c.toNat < 0x10000 ∧ ∀ members, value = .obj members → c = '\x7b' := by
  obtain ⟨c, tail, rfl, _⟩ := reads.opens
  refine ⟨c, tail, rfl, ?_⟩
  have read := reads.again _ [] le_rfl (fits_of_spaces spaces_nil)
  rw [List.append_nil, List.length_cons, Nat.mul_succ, parseValue?.eq_def] at read
  dsimp only at read
  split at read
  · next same => cases same; cases read; exact ⟨by decide, by decide, nofun⟩
  · next same => cases same; cases read; exact ⟨by decide, by decide, nofun⟩
  · next same => cases same; cases read; exact ⟨by decide, by decide, nofun⟩
  · next same =>
    cases same
    refine ⟨by decide, by decide, ?_⟩
    rintro members rfl
    obtain ⟨_, _, other⟩ := Option.map_eq_some_iff.mp read
    cases other
  · next same =>
    cases same
    refine ⟨by decide, by decide, ?_⟩
    rintro members rfl
    split at read
    · cases read
    · obtain ⟨_, _, other⟩ := Option.map_eq_some_iff.mp read
      cases other
  · next same => cases same; exact ⟨by decide, by decide, fun _ _ => rfl⟩
  · unfold parseNumber? at read
    split at read
    · cases read
    · next literal rest scanned =>
      obtain ⟨split_, ⟨d, head, number⟩, _⟩ := scanNumber?_spec scanned
      have same : c = d := by
        obtain ⟨others, rfl⟩ := List.head?_eq_some_iff.mp head
        exact (List.cons.inj split_).1
      subst same
      have code : 45 ≤ c.toNat ∧ c.toNat ≤ 57 := by
        rcases number with rfl | digit
        · decide
        · simp only [isDigit, Bool.and_eq_true, decide_eq_true_eq, Char.le_def, UInt32.le_iff_toNat_le] at digit
          exact ⟨le_trans (by decide) digit.1, digit.2⟩
      refine ⟨?_, by omega, ?_⟩
      · simp only [isWhitespace, Bool.or_eq_false_iff, Bool.and_eq_false_iff, beq_eq_false_iff_ne, decide_eq_false_iff_not]
        omega
      · rintro members rfl
        split at read
        · cases read
        · cases read

omit reads in
/-- The text of an object between white space, with a further token behind it, is not JSON. -/
theorem parse?_object_continued {more : List Char} (parsed : parse? text = some (.obj members))
    (solid : ∃ c ∈ more, isJsonSpace c = false) : parse? (text ++ more) = none := by
  obtain ⟨space, used, space', rfl, blank, _, reads, _⟩ := parse?_eq_some parsed
  obtain ⟨c, tail, rfl, _, _, brace⟩ := reads.head
  obtain rfl := brace members rfl
  have none_ : parse? ('\x7b' :: tail ++ (space' ++ more)) = none :=
    parse?_continued reads (solid.imp fun _ both => ⟨List.mem_append_right _ both.1, both.2⟩) rfl
  have start : skipSpace (space ++ '\x7b' :: tail ++ space' ++ more) = '\x7b' :: tail ++ (space' ++ more) := by
    have shape : space ++ '\x7b' :: tail ++ space' ++ more = space ++ '\x7b' :: (tail ++ (space' ++ more)) := by simp
    rw [shape, skipSpace_append blank (by decide)]
    rfl
  by_contra some_
  obtain ⟨value, parsed⟩ := Option.ne_none_iff_exists'.mp some_
  rw [← start, parse?_skipSpace parsed] at none_
  cases none_

omit reads in
/-- What stands before the value of a text, other than white space of JSON, contains a character that is no white
space at all. -/
theorem exists_visible_of_parse? (parsed : parse? (front ++ back) = some value)
    (solid : ∃ c ∈ front, isJsonSpace c = false) :
    ∃ c ∈ front, isWhitespace c.toNat = false ∧ c.toNat < 0x10000 := by
  obtain ⟨space, used, space', split, blank, _, reads, _⟩ := parse?_eq_some parsed
  obtain ⟨c, tail, rfl, visible, small, _⟩ := reads.head
  obtain ⟨d, member, solid⟩ := solid
  rw [List.append_assoc] at split
  rcases List.append_eq_append_iff.mp split with ⟨more, rfl, _⟩ | ⟨more, rfl, rest⟩
  · have := blank d (List.mem_append_left _ member)
    exact absurd (this.symm.trans solid) (by decide)
  · cases more with
    | nil =>
      rw [List.append_nil] at member
      exact absurd ((blank d member).symm.trans solid) (by decide)
    | cons e more =>
      obtain rfl : c = e := (List.cons.inj rest).1
      exact ⟨c, List.mem_append_right _ List.mem_cons_self, visible, small⟩

omit reads in
/-- Some but not all bytes of the text of an object decode to its brace and to what is no JSON behind it. -/
theorem decodeUtf8_cut_object (reads : ReadsValue text (.obj members)) {n : ℕ} (started : 0 < n)
    (short : n < (encodeUtf8 text).length) :
    ∃ back, (encodeUtf8 text).take n = encodeChar '\x7b' ++ back ∧ parse? ('\x7b' :: decodeUtf8 back) = none ∧
      ∀ c ∈ decodeUtf8 back, c ∈ text ∨ c = replacementChar := by
  obtain ⟨c, body, rfl, _, _, brace⟩ := reads.head
  obtain rfl := brace members rfl
  obtain ⟨n, rfl⟩ := Nat.exists_eq_succ_of_ne_zero started.ne'
  refine ⟨(encodeUtf8 body).take n, rfl, ?_⟩
  obtain ⟨front, back, rfl, complete | ⟨_, _, decoded⟩⟩ := decodeUtf8_take body n
  · have proper : back ≠ [] := by
      rintro rfl
      have taken := congrArg List.length complete
      rw [List.append_nil, List.length_take] at taken
      rw [List.append_nil, encodeUtf8_cons, List.length_append, show (encodeChar '\x7b').length = 1 from rfl] at short
      omega
    rw [complete, decodeUtf8_encodeUtf8]
    exact ⟨parse?_front reads rfl proper, fun c member => .inl (by simp [member])⟩
  · rw [decoded]
    refine ⟨parse?_front_concat (by decide) (by decide), fun c member => ?_⟩
    rcases List.mem_append.mp member with known | last
    · exact .inl (by simp [known])
    · exact .inr (List.mem_singleton.mp last)

end JavaScript
