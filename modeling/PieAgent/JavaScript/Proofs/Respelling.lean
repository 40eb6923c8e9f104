import PieAgent.JavaScript.Proofs.RoundTrip

/-! # Texts that differ only in how their string literals are spelled

A character of a string literal has several spellings. The parser reads a text with other spellings as the
same value, and every text that it accepts is a respelling of itself: its literals consist of spellings only.
-/

namespace JavaScript

/-- One spelling of some code units inside a string literal. -/
inductive Element : List Char → JsString → Prop
  | plain {c : Char} (printable : 0x20 ≤ c.toNat) (noQuote : c ≠ '"') (noEscape : c ≠ '\\') : Element [c] (utf16 c)
  | simple {c : Char} {unit : CodeUnit} (escape : simpleEscape? c = some unit) : Element ['\\', c] [unit]
  | unicode {a b c d : Char} {unit : CodeUnit} (escape : escapedUnit? a b c d = some unit) :
    Element ['\\', 'u', a, b, c, d] [unit]

/-- The texts agree outside string literals, and spell the same code units inside them. The flag says whether
they start inside a string literal. -/
inductive Respelled : Bool → List Char → List Char → Prop
  | nil : Respelled false [] []
  | outside {c : Char} {text other : List Char} (noQuote : c ≠ '"') (rest : Respelled false text other) :
    Respelled false (c :: text) (c :: other)
  | opens {text other : List Char} (rest : Respelled true text other) : Respelled false ('"' :: text) ('"' :: other)
  | closes {text other : List Char} (rest : Respelled false text other) : Respelled true ('"' :: text) ('"' :: other)
  | element {used used' text other : List Char} {units : JsString} (first : Element used units)
    (second : Element used' units) (rest : Respelled true text other) : Respelled true (used ++ text) (used' ++ other)

variable {text other rest used : List Char} {c : Char} {units : JsString}

private theorem Respelled.tail (respelled : Respelled false (c :: text) other) (noQuote : c ≠ '"') :
    ∃ other', other = c :: other' ∧ Respelled false text other' := by
  cases respelled with
  | outside _ rest => exact ⟨_, rfl, rest⟩
  | opens _ => exact absurd rfl noQuote

private theorem Respelled.inside (respelled : Respelled false ('"' :: text) other) :
    ∃ other', other = '"' :: other' ∧ Respelled true text other' := by
  cases respelled with
  | outside noQuote _ => exact absurd rfl noQuote
  | opens rest => exact ⟨_, rfl, rest⟩

private theorem Respelled.head? (respelled : Respelled false text other) : text.head? = other.head? := by
  cases respelled with
  | nil => rfl
  | outside _ _ => rfl
  | opens _ => rfl

private theorem Respelled.append (used : List Char) (noQuote : '"' ∉ used) (respelled : Respelled false text other) :
    Respelled false (used ++ text) (used ++ other) := by
  induction used with
  | nil => exact respelled
  | cons c used ih =>
    rw [List.mem_cons, not_or] at noQuote
    exact .outside (Ne.symm noQuote.1) (ih noQuote.2)

private theorem Respelled.drop (used : List Char) (noQuote : '"' ∉ used) (respelled : Respelled false (used ++ text) other) :
    ∃ other', other = used ++ other' ∧ Respelled false text other' := by
  induction used generalizing other with
  | nil => exact ⟨other, rfl, respelled⟩
  | cons c used ih =>
    rw [List.mem_cons, not_or] at noQuote
    obtain ⟨other, rfl, after⟩ := respelled.tail (Ne.symm noQuote.1)
    obtain ⟨other, rfl, left⟩ := ih noQuote.2 after
    exact ⟨other, rfl, left⟩

/-- A run of characters without quotes is the same in both texts. -/
private theorem Respelled.dropWhile {keep : Char → Bool} (noQuote : keep '"' = false)
    (respelled : Respelled false text other) :
    text.takeWhile keep = other.takeWhile keep ∧ Respelled false (text.dropWhile keep) (other.dropWhile keep) := by
  induction text generalizing other with
  | nil =>
    cases respelled
    exact ⟨rfl, .nil⟩
  | cons c text ih =>
    cases respelled with
    | outside ordinary rest =>
      cases kept : keep c with
      | true =>
        rw [List.takeWhile_cons_of_pos kept, List.takeWhile_cons_of_pos kept, List.dropWhile_cons_of_pos kept,
          List.dropWhile_cons_of_pos kept, (ih rest).1]
        exact ⟨rfl, (ih rest).2⟩
      | false =>
        have stop : ¬keep c = true := by simp [kept]
        rw [List.takeWhile_cons_of_neg stop, List.takeWhile_cons_of_neg stop, List.dropWhile_cons_of_neg stop,
          List.dropWhile_cons_of_neg stop]
        exact ⟨rfl, .outside ordinary rest⟩
    | opens rest =>
      have stop : ¬keep '"' = true := by simp [noQuote]
      rw [List.takeWhile_cons_of_neg stop, List.takeWhile_cons_of_neg stop, List.dropWhile_cons_of_neg stop,
        List.dropWhile_cons_of_neg stop]
      exact ⟨rfl, .opens rest⟩

private theorem noQuote_takeWhile {keep : Char → Bool} (noQuote : keep '"' = false) (text : List Char) :
    '"' ∉ text.takeWhile keep := fun member => by
  have kept := List.mem_takeWhile_imp member
  rw [noQuote] at kept
  cases kept

private theorem respelled_of_dropWhile {keep : Char → Bool} (noQuote : keep '"' = false)
    (respelled : Respelled false (text.dropWhile keep) (text.dropWhile keep)) : Respelled false text text := by
  have whole := Respelled.append _ (noQuote_takeWhile noQuote text) respelled
  rwa [List.takeWhile_append_dropWhile] at whole

private theorem Respelled.skipSpace (respelled : Respelled false text other) :
    Respelled false (skipSpace text) (skipSpace other) :=
  (respelled.dropWhile (by decide)).2

private theorem respelled_of_skipSpace (respelled : Respelled false (skipSpace text) (skipSpace text)) :
    Respelled false text text :=
  respelled_of_dropWhile (by decide) respelled

/-- The parser reads respelled texts alike, and reads spellings only. -/
def Respells {α : Type} (parser : List Char → Option (α × List Char)) : Prop :=
  ∀ text value rest, parser text = some (value, rest) →
    (Respelled false rest rest → Respelled false text text) ∧
      ∀ other, Respelled false text other →
        ∃ rest', parser other = some (value, rest') ∧ Respelled false rest rest'

section Numbers

variable {α β : Type} {parser : List Char → Option (α × List Char)}

private theorem Respells.bind {next : α → List Char → Option (β × List Char)} (first : Respells parser)
    (second : ∀ value, Respells (next value)) :
    Respells fun text => (parser text).bind fun read => next read.1 read.2 := by
  intro text value rest read
  obtain ⟨⟨head, left⟩, start, finish⟩ := Option.bind_eq_some_iff.mp read
  obtain ⟨spelled, alike⟩ := first _ _ _ start
  obtain ⟨spelled', alike'⟩ := second _ _ _ _ finish
  refine ⟨fun respelled => spelled (spelled' respelled), fun other respelled => ?_⟩
  obtain ⟨left', start', respelled'⟩ := alike other respelled
  obtain ⟨rest', finish', respelled''⟩ := alike' left' respelled'
  exact ⟨rest', Option.bind_eq_some_iff.mpr ⟨_, start', finish'⟩, respelled''⟩

private theorem Respells.map (first : Respells parser) (f : α → β) :
    Respells fun text => (parser text).map fun read => (f read.1, read.2) := by
  intro text value rest read
  obtain ⟨⟨head, left⟩, start, same⟩ := Option.map_eq_some_iff.mp read
  cases same
  obtain ⟨spelled, alike⟩ := first _ _ _ start
  refine ⟨spelled, fun other respelled => ?_⟩
  obtain ⟨rest', start', respelled'⟩ := alike other respelled
  exact ⟨rest', Option.map_eq_some_iff.mpr ⟨_, start', rfl⟩, respelled'⟩

private theorem spanDigits_eq (text : List Char) :
    spanDigits text = (text.takeWhile isDigit, text.dropWhile isDigit) := by
  rw [spanDigits, List.span_eq_takeWhile_dropWhile]

private theorem Respelled.spanDigits (respelled : Respelled false text other) :
    (spanDigits text).1 = (spanDigits other).1 ∧
      Respelled false (JavaScript.spanDigits text).2 (JavaScript.spanDigits other).2 := by
  rw [spanDigits_eq, spanDigits_eq]
  exact respelled.dropWhile (by decide)

private theorem respelled_of_spanDigits (respelled : Respelled false (spanDigits text).2 (spanDigits text).2) :
    Respelled false text text := by
  rw [spanDigits_eq] at respelled
  exact respelled_of_dropWhile (by decide) respelled

private theorem respells_integer : Respells scanInteger? := by
  intro text value rest read
  unfold scanInteger? at read
  split at read
  · cases read
    refine ⟨.outside (by decide), fun other respelled => ?_⟩
    obtain ⟨other, rfl, after⟩ := respelled.tail (by decide)
    exact ⟨other, rfl, after⟩
  · next c tail nonzero =>
    obtain ⟨digit, same⟩ := Option.ite_none_right_eq_some.mp read
    cases same
    have noQuote : c ≠ '"' := by
      rintro rfl
      cases digit
    refine ⟨fun respelled => .outside noQuote (respelled_of_spanDigits respelled), fun other respelled => ?_⟩
    obtain ⟨other, rfl, after⟩ := respelled.tail noQuote
    refine ⟨_, ?_, after.spanDigits.2⟩
    rw [scanInteger?, if_pos digit, after.spanDigits.1]
    exact nonzero
  · cases read

private theorem respells_fraction : Respells scanFraction? := by
  intro text value rest read
  unfold scanFraction? at read
  split at read
  · next tail =>
    obtain ⟨some_, same⟩ := Option.ite_none_left_eq_some.mp read
    cases same
    refine ⟨fun respelled => .outside (by decide) (respelled_of_spanDigits respelled), fun other respelled => ?_⟩
    obtain ⟨other, rfl, after⟩ := respelled.tail (by decide)
    refine ⟨_, ?_, after.spanDigits.2⟩
    rw [scanFraction?, ← after.spanDigits.1, if_neg some_]
  · next other_ =>
    cases read
    refine ⟨id, fun other respelled => ⟨other, ?_, respelled⟩⟩
    rw [scanFraction?]
    rintro tail rfl
    have same := respelled.head?
    obtain ⟨tail', rfl⟩ := List.head?_eq_some_iff.mp same
    exact other_ tail' rfl

private theorem Respelled.scanSign (respelled : Respelled false text other) :
    (JavaScript.scanSign text).1 = (JavaScript.scanSign other).1 ∧
      Respelled false (JavaScript.scanSign text).2 (JavaScript.scanSign other).2 := by
  cases respelled with
  | nil => exact ⟨rfl, .nil⟩
  | @outside c text other noQuote rest =>
    by_cases plus : c = '+'
    · cases plus
      exact ⟨rfl, rest⟩
    · by_cases minus : c = '-'
      · cases minus
        exact ⟨rfl, rest⟩
      · have whole (tail : List Char) : scanSign (c :: tail) = ([], c :: tail) := by
          rw [scanSign]
          · exact fun _ same => plus (List.cons.inj same).1
          · exact fun _ same => minus (List.cons.inj same).1
        rw [whole, whole]
        exact ⟨rfl, .outside noQuote rest⟩
  | opens rest => exact ⟨rfl, .opens rest⟩

private theorem respelled_of_scanSign (respelled : Respelled false (scanSign text).2 (scanSign text).2) :
    Respelled false text text := by
  unfold scanSign at respelled
  split at respelled
  · exact .outside (by decide) respelled
  · exact .outside (by decide) respelled
  · exact respelled

private theorem respells_exponent : Respells scanExponent? := by
  intro text value rest read
  unfold scanExponent? at read
  split at read
  · next c tail =>
    split at read
    · next marked =>
      obtain ⟨some_, same⟩ := Option.ite_none_left_eq_some.mp read
      cases same
      have noQuote : c ≠ '"' := by
        rintro rfl
        cases marked
      refine ⟨fun respelled => .outside noQuote (respelled_of_scanSign (respelled_of_spanDigits respelled)),
        fun other respelled => ?_⟩
      obtain ⟨other, rfl, after⟩ := respelled.tail noQuote
      have digits := after.scanSign.2.spanDigits
      refine ⟨_, ?_, digits.2⟩
      rw [scanExponent?, if_pos marked, ← digits.1, if_neg some_, after.scanSign.1]
    · next unmarked =>
      cases read
      refine ⟨id, fun other respelled => ⟨other, ?_, respelled⟩⟩
      have same := respelled.head?.symm
      obtain ⟨tail', rfl⟩ := List.head?_eq_some_iff.mp same
      rw [scanExponent?, if_neg unmarked]
  · cases read
    refine ⟨id, fun other respelled => ?_⟩
    cases respelled
    exact ⟨[], rfl, .nil⟩

private theorem respells_unsigned : Respells scanUnsigned? :=
  (respells_integer).bind fun integer => (respells_fraction).bind fun fraction =>
    (respells_exponent).map fun exponent => integer ++ fraction ++ exponent

/-- A number literal holds no string literal. -/
theorem respells_scanNumber : Respells scanNumber? := by
  intro text value rest read
  unfold scanNumber? at read
  split at read
  · next tail =>
    obtain ⟨spelled, alike⟩ := (respells_unsigned).map (fun literal => '-' :: literal) _ _ _ read
    refine ⟨fun respelled => .outside (by decide) (spelled respelled), fun other respelled => ?_⟩
    obtain ⟨other, rfl, after⟩ := respelled.tail (by decide)
    exact alike other after
  · next unsigned =>
    obtain ⟨spelled, alike⟩ := respells_unsigned _ _ _ read
    refine ⟨spelled, fun other respelled => ?_⟩
    rw [scanNumber?]
    · exact alike other respelled
    · rintro tail rfl
      obtain ⟨tail', rfl⟩ := List.head?_eq_some_iff.mp respelled.head?
      exact unsigned tail' rfl

end Numbers

section Strings

/-- One spelling is read as its code units. -/
theorem Element.read (element : Element used units) (rest : List Char) :
    parseString? (used ++ rest) = (parseString? rest).map fun read => (units ++ read.1, read.2) := by
  cases element with
  | @plain c printable noQuote noEscape =>
    have good : ¬(decide (c.toNat < 0x20) || c == '\\') = true := by simp [noEscape, Nat.not_lt.mpr printable]
    rw [List.singleton_append, parseString?, if_neg good]
    · cases parseString? rest <;> rfl
    · exact noQuote
    · exact fun _ _ _ _ _ same => absurd same noEscape
    · exact fun _ _ same => absurd same noEscape
  | @simple c unit escape =>
    rw [List.cons_append, List.singleton_append, parseString?, escape]
    · cases parseString? rest <;> rfl
    · rintro _ _ _ _ _ rfl
      cases escape
  | unicode escape =>
    simp only [List.cons_append, List.nil_append]
    rw [parseString?, escape]
    cases parseString? rest <;> rfl

private theorem respelled_of_parseString? {value : JsString} (read : parseString? text = some (value, rest))
    (respelled : Respelled false rest rest) : Respelled true text text := by
  induction text using parseString?.induct generalizing value rest with
  | case1 => cases read
  | case2 tail =>
    cases read
    exact .closes respelled
  | case3 a b c d tail ih =>
    rw [parseString?] at read
    obtain ⟨unit, escaped, read⟩ := Option.bind_eq_some_iff.mp read
    obtain ⟨⟨text, left⟩, inner, same⟩ := Option.bind_eq_some_iff.mp read
    cases same
    exact .element (.unicode escaped) (.unicode escaped) (ih inner respelled)
  | case4 c tail notUnicode ih =>
    rw [parseString?] at read
    · obtain ⟨unit, escaped, read⟩ := Option.bind_eq_some_iff.mp read
      obtain ⟨⟨text, left⟩, inner, same⟩ := Option.bind_eq_some_iff.mp read
      cases same
      exact .element (.simple escaped) (.simple escaped) (ih inner respelled)
    · exact notUnicode
  | case5 c tail notQuote notUnicode notEscape bad =>
    rw [parseString?, if_pos bad] at read
    · cases read
    · exact notQuote
    · exact notUnicode
    · exact notEscape
  | case6 c tail notQuote notUnicode notEscape good ih =>
    rw [parseString?, if_neg good] at read
    · obtain ⟨⟨text, left⟩, inner, same⟩ := Option.bind_eq_some_iff.mp read
      cases same
      rw [Bool.or_eq_true, not_or, decide_eq_true_eq, beq_iff_eq, not_lt] at good
      have element := Element.plain good.1 notQuote good.2
      exact .element element element (ih inner respelled)
    · exact notQuote
    · exact notUnicode
    · exact notEscape

/-- A respelled string literal is read as the same string. -/
private theorem parseString?_respelled {inside : Bool} (respelled : Respelled inside text other) (within : inside = true)
    {value : JsString} (read : parseString? text = some (value, rest)) :
    ∃ rest', parseString? other = some (value, rest') ∧ Respelled false rest rest' := by
  induction respelled generalizing value rest with
  | nil => cases within
  | outside _ _ _ => cases within
  | opens _ _ => cases within
  | closes left _ =>
    cases read
    exact ⟨_, rfl, left⟩
  | element first second _ ih =>
    rw [first.read] at read
    obtain ⟨⟨inner, left⟩, found, same⟩ := Option.map_eq_some_iff.mp read
    cases same
    obtain ⟨rest', found', left'⟩ := ih rfl found
    refine ⟨rest', ?_, left'⟩
    rw [second.read, found']
    rfl

end Strings

section Parser

variable {depth : ℕ}

/-- What parsing at one depth reads is respelled alike. -/
private structure RespellsAt (depth : ℕ) : Prop where
  value : Respells (parseValue? depth)
  items : Respells (parseItems? depth)
  members : Respells (parseMembers? depth)

private theorem respells_number (number : Json) (read : parseNumber? text = some (number, rest)) :
    (Respelled false rest rest → Respelled false text text) ∧
      ∀ other, Respelled false text other → ∃ rest', parseValue? (depth + 1) other = some (number, rest') ∧
        Respelled false rest rest' := by
  unfold parseNumber? at read
  split at read
  · cases read
  · next literal left scanned =>
    obtain ⟨complete, same⟩ := Option.dite_none_right_eq_some.mp read
    cases same
    obtain ⟨spelled, alike⟩ := respells_scanNumber _ _ _ scanned
    refine ⟨spelled, fun other respelled => ?_⟩
    obtain ⟨rest', scanned', respelled'⟩ := alike other respelled
    refine ⟨rest', ?_, respelled'⟩
    obtain ⟨split, ⟨c, start, head⟩, _⟩ := scanNumber?_spec scanned'
    obtain ⟨tail, rfl⟩ := List.head?_eq_some_iff.mp start
    have number : parseValue? (depth + 1) other = parseNumber? other := by
      rw [split, List.cons_append, parseValue?_number head]
    rw [number, parseNumber?, scanned']
    exact dif_pos complete

private theorem respells_items (respells : RespellsAt depth) : Respells (parseItems? (depth + 1)) := by
  intro text items rest read
  rw [parseItems?] at read
  obtain ⟨⟨item, left⟩, first, after⟩ := Option.bind_eq_some_iff.mp read
  obtain ⟨spelled, alike⟩ := respells.value _ _ _ first
  dsimp only at after
  split at after
  · next tail closed =>
    cases after
    refine ⟨fun respelled => spelled (respelled_of_skipSpace ?_), fun other respelled => ?_⟩
    · rw [closed]
      exact .outside (by decide) respelled
    · obtain ⟨left', first', behind⟩ := alike other respelled
      have spaced := behind.skipSpace
      rw [closed] at spaced
      obtain ⟨tail', closed', behind'⟩ := spaced.tail (by decide)
      refine ⟨tail', ?_, behind'⟩
      rw [parseItems?, first', Option.bind_eq_bind, Option.bind_some]
      simp only
      rw [closed']
      rfl
  · next tail comma =>
    obtain ⟨⟨others, left'⟩, more, same⟩ := Option.bind_eq_some_iff.mp after
    cases same
    obtain ⟨spelled', alike'⟩ := respells.items _ _ _ more
    refine ⟨fun respelled => spelled (respelled_of_skipSpace ?_), fun other respelled => ?_⟩
    · rw [comma]
      exact .outside (by decide) (respelled_of_skipSpace (spelled' respelled))
    · obtain ⟨left', first', behind⟩ := alike other respelled
      have spaced := behind.skipSpace
      rw [comma] at spaced
      obtain ⟨tail', comma', behind'⟩ := spaced.tail (by decide)
      obtain ⟨rest', more', behind''⟩ := alike' _ behind'.skipSpace
      refine ⟨rest', ?_, behind''⟩
      rw [parseItems?, first', Option.bind_eq_bind, Option.bind_some]
      simp only
      rw [comma']
      simp only
      rw [more']
      rfl
  · cases after

private theorem respells_members (respells : RespellsAt depth) : Respells (parseMembers? (depth + 1)) := by
  intro text members rest read
  rw [parseMembers?.eq_def] at read
  dsimp only at read
  split at read
  · next body =>
    obtain ⟨⟨key, left⟩, first, afterKey⟩ := Option.bind_eq_some_iff.mp read
    dsimp only at afterKey
    split at afterKey
    · next behindColon colon =>
      obtain ⟨⟨value, left'⟩, second, afterValue⟩ := Option.bind_eq_some_iff.mp afterKey
      obtain ⟨spelled, alike⟩ := respells.value _ _ _ second
      -- The front of the member, in both texts.
      have front (tail : Respelled false left' left') : Respelled false ('"' :: body) ('"' :: body) := by
        refine .opens (respelled_of_parseString? first (respelled_of_skipSpace ?_))
        rw [colon]
        exact .outside (by decide) (respelled_of_skipSpace (spelled tail))
      have alike (other : List Char) (respelled : Respelled false ('"' :: body) other) :
          ∃ body' left'' behind rest', other = '"' :: body' ∧ parseString? body' = some (key, left'') ∧
            skipSpace left'' = ':' :: behind ∧ parseValue? depth (skipSpace behind) = some (value, rest') ∧
            Respelled false (skipSpace left') (skipSpace rest') := by
        obtain ⟨body', rfl, inside⟩ := respelled.inside
        obtain ⟨left'', first', behindKey⟩ := parseString?_respelled inside rfl first
        have spaced := behindKey.skipSpace
        rw [colon] at spaced
        obtain ⟨behind, colon', behindColon'⟩ := spaced.tail (by decide)
        obtain ⟨rest', second', behindValue⟩ := alike _ behindColon'.skipSpace
        exact ⟨body', left'', behind, rest', rfl, first', colon', second', behindValue.skipSpace⟩
      dsimp only at afterValue
      split at afterValue
      · next tail closed =>
        cases afterValue
        refine ⟨fun respelled => front (respelled_of_skipSpace ?_), fun other respelled => ?_⟩
        · rw [closed]
          exact .outside (by decide) respelled
        · obtain ⟨body', left'', behind, rest', rfl, first', colon', second', spaced⟩ := alike other respelled
          rw [closed] at spaced
          obtain ⟨tail', closed', behind'⟩ := spaced.tail (by decide)
          refine ⟨tail', ?_, behind'⟩
          rw [parseMembers?, first', Option.bind_eq_bind, Option.bind_some]
          simp only
          rw [colon']
          simp only
          rw [second', Option.bind_eq_bind, Option.bind_some]
          simp only
          rw [closed']
          rfl
      · next tail comma =>
        obtain ⟨⟨others, last⟩, more, same⟩ := Option.bind_eq_some_iff.mp afterValue
        cases same
        obtain ⟨spelled', alike'⟩ := respells.members _ _ _ more
        refine ⟨fun respelled => front (respelled_of_skipSpace ?_), fun other respelled => ?_⟩
        · rw [comma]
          exact .outside (by decide) (respelled_of_skipSpace (spelled' respelled))
        · obtain ⟨body', left'', behind, rest', rfl, first', colon', second', spaced⟩ := alike other respelled
          rw [comma] at spaced
          obtain ⟨tail', comma', behind'⟩ := spaced.tail (by decide)
          obtain ⟨last', more', behind''⟩ := alike' _ behind'.skipSpace
          refine ⟨last', ?_, behind''⟩
          rw [parseMembers?, first', Option.bind_eq_bind, Option.bind_some]
          simp only
          rw [colon']
          simp only
          rw [second', Option.bind_eq_bind, Option.bind_some]
          simp only
          rw [comma']
          simp only
          rw [more']
          rfl
      · cases afterValue
    · cases afterKey
  · cases read

private theorem respells_value (respells : RespellsAt depth) : Respells (parseValue? (depth + 1)) := by
  intro text value rest read
  rw [parseValue?.eq_def] at read
  dsimp only at read
  split at read
  · cases read
    refine ⟨Respelled.append ['n', 'u', 'l', 'l'] (by decide), fun other respelled => ?_⟩
    obtain ⟨other, rfl, behind⟩ := Respelled.drop ['n', 'u', 'l', 'l'] (by decide) respelled
    exact ⟨other, rfl, behind⟩
  · cases read
    refine ⟨Respelled.append ['t', 'r', 'u', 'e'] (by decide), fun other respelled => ?_⟩
    obtain ⟨other, rfl, behind⟩ := Respelled.drop ['t', 'r', 'u', 'e'] (by decide) respelled
    exact ⟨other, rfl, behind⟩
  · cases read
    refine ⟨Respelled.append ['f', 'a', 'l', 's', 'e'] (by decide), fun other respelled => ?_⟩
    obtain ⟨other, rfl, behind⟩ := Respelled.drop ['f', 'a', 'l', 's', 'e'] (by decide) respelled
    exact ⟨other, rfl, behind⟩
  · obtain ⟨⟨string, left⟩, found, same⟩ := Option.map_eq_some_iff.mp read
    cases same
    refine ⟨fun respelled => .opens (respelled_of_parseString? found respelled), fun other respelled => ?_⟩
    obtain ⟨other, rfl, inside⟩ := respelled.inside
    obtain ⟨rest', found', behind⟩ := parseString?_respelled inside rfl found
    refine ⟨rest', ?_, behind⟩
    rw [parseValue?, found']
    rfl
  · next tail =>
    split at read
    · next closed =>
      cases read
      refine ⟨fun respelled => .outside (by decide) (respelled_of_skipSpace ?_), fun other respelled => ?_⟩
      · rw [closed]
        exact .outside (by decide) respelled
      · obtain ⟨other, rfl, after⟩ := respelled.tail (by decide)
        have spaced := after.skipSpace
        rw [closed] at spaced
        obtain ⟨tail', closed', behind⟩ := spaced.tail (by decide)
        refine ⟨tail', ?_, behind⟩
        rw [parseValue?, closed']
        rfl
    · next opened =>
      obtain ⟨⟨items, left⟩, more, same⟩ := Option.map_eq_some_iff.mp read
      cases same
      obtain ⟨spelled, alike⟩ := respells.items _ _ _ more
      refine ⟨fun respelled => .outside (by decide) (respelled_of_skipSpace (spelled respelled)),
        fun other respelled => ?_⟩
      obtain ⟨other, rfl, after⟩ := respelled.tail (by decide)
      obtain ⟨rest', more', behind⟩ := alike _ after.skipSpace
      refine ⟨rest', ?_, behind⟩
      rw [parseValue?]
      split
      · next closed =>
        have same := after.skipSpace.head?
        rw [closed] at same
        obtain ⟨tail', start⟩ := List.head?_eq_some_iff.mp same
        exact absurd start (opened tail')
      · rw [more']
        rfl
  · next tail =>
    split at read
    · next closed =>
      cases read
      refine ⟨fun respelled => .outside (by decide) (respelled_of_skipSpace ?_), fun other respelled => ?_⟩
      · rw [closed]
        exact .outside (by decide) respelled
      · obtain ⟨other, rfl, after⟩ := respelled.tail (by decide)
        have spaced := after.skipSpace
        rw [closed] at spaced
        obtain ⟨tail', closed', behind⟩ := spaced.tail (by decide)
        refine ⟨tail', ?_, behind⟩
        rw [parseValue?, closed']
        rfl
    · next opened =>
      obtain ⟨⟨members, left⟩, more, same⟩ := Option.map_eq_some_iff.mp read
      cases same
      obtain ⟨spelled, alike⟩ := respells.members _ _ _ more
      refine ⟨fun respelled => .outside (by decide) (respelled_of_skipSpace (spelled respelled)),
        fun other respelled => ?_⟩
      obtain ⟨other, rfl, after⟩ := respelled.tail (by decide)
      obtain ⟨rest', more', behind⟩ := alike _ after.skipSpace
      refine ⟨rest', ?_, behind⟩
      rw [parseValue?]
      split
      · next closed =>
        have same := after.skipSpace.head?
        rw [closed] at same
        obtain ⟨tail', start⟩ := List.head?_eq_some_iff.mp same
        exact absurd start (opened tail')
      · rw [more']
        rfl
  · exact respells_number value read

private theorem respellsAt (depth : ℕ) : RespellsAt depth := by
  induction depth with
  | zero => exact ⟨nofun, nofun, nofun⟩
  | succ depth ih => exact ⟨respells_value ih, respells_items ih, respells_members ih⟩

private theorem respelled_spaces (blank : Spaces rest) : Respelled false rest rest := by
  have whole := Respelled.append rest (fun member => absurd (blank _ member) (by decide)) .nil
  rwa [List.append_nil] at whole

/-- A text that is accepted consists of spellings. -/
theorem respelled_of_parse? {value : Json} (parsed : parse? text = some value) : Respelled false text text := by
  unfold parse? at parsed
  split at parsed
  · next read =>
    obtain ⟨blank, _⟩ := Option.ite_none_right_eq_some.mp parsed
    obtain ⟨spelled, _⟩ := (respellsAt _).value _ _ _ read
    exact respelled_of_skipSpace (spelled (respelled_spaces ((skipSpace_eq_nil _).mp blank)))
  · cases parsed

/-- A respelled text is read as the same value. -/
theorem Respelled.parse? {value : Json} (respelled : Respelled false text other)
    (parsed : JavaScript.parse? text = some value) : JavaScript.parse? other = some value := by
  unfold JavaScript.parse? at parsed
  split at parsed
  · next read =>
    obtain ⟨blank, same⟩ := Option.ite_none_right_eq_some.mp parsed
    cases same
    obtain ⟨_, alike⟩ := (respellsAt _).value _ _ _ read
    obtain ⟨rest', read', behind⟩ := alike _ respelled.skipSpace
    refine parse?_of_parseValue? read' ((skipSpace_eq_nil _).mp ?_)
    have spaced := behind.skipSpace
    rw [blank] at spaced
    exact List.head?_eq_none_iff.mp spaced.head?.symm
  · cases parsed

end Parser

end JavaScript
