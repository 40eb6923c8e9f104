import PieAgent.Proofs.Core.JsonRepair

/-! # Repaired JSON is accepted

A text with raw control characters and stray backslashes in its string literals is repaired to a text with the same
value. A backslash before `u` is an exception: the scan takes it for the beginning of an escape even without four
hexadecimal digits behind it, and the repaired text is rejected like the text itself.
-/

namespace PieAgent.Soundness.RepairedJson

open JavaScript Model.JsonRepair Proofs.JsonRepair

/-- A backslash before this text is the beginning of an escape. -/
def escapes : List Char → Bool
  | 'u' :: rest => startsHex 4 rest
  | char :: _ => (simpleEscape? char).isSome
  | [] => false

/-- The second text is the first one with control characters left unescaped and backslashes left single inside its
string literals. The flag says whether the texts start inside a string literal. -/
inductive Loosened : Bool → List Char → List Char → Prop
  | nil : Loosened false [] []
  | outside {c : Char} {text loose : List Char} (noQuote : c ≠ '"') (rest : Loosened false text loose) :
    Loosened false (c :: text) (c :: loose)
  | opens {text loose : List Char} (rest : Loosened true text loose) : Loosened false ('"' :: text) ('"' :: loose)
  | closes {text loose : List Char} (rest : Loosened false text loose) : Loosened true ('"' :: text) ('"' :: loose)
  | element {used text loose : List Char} {units : JsString} (first : Element used units) (rest : Loosened true text loose) :
    Loosened true (used ++ text) (used ++ loose)
  | control {used text loose : List Char} {c : Char} (first : Element used [UInt16.ofNat c.toNat])
    (control : c.toNat < 0x20) (rest : Loosened true text loose) : Loosened true (used ++ text) (c :: loose)
  | backslash {used text loose : List Char} (first : Element used [0x5C]) (stray : escapes loose = false)
    (rest : Loosened true text loose) : Loosened true (used ++ text) ('\\' :: loose)

variable {text loose : List Char} {value : Json}

/-- A loosened literal goes on at least to its closing quote. -/
private theorem Loosened.exists_cons (loosened : Loosened true text loose) : ∃ c rest, loose = c :: rest := by
  cases loosened with
  | closes _ => exact ⟨_, _, rfl⟩
  | element first _ => cases first <;> exact ⟨_, _, rfl⟩
  | control _ _ _ => exact ⟨_, _, rfl⟩
  | backslash _ _ _ => exact ⟨_, _, rfl⟩

/-- A stray backslash stands before no character that the scan knows, unless that is `u`. -/
private theorem stray_of_escapes {c : Char} {rest : List Char} (stray : escapes (c :: rest) = false) (other : c ≠ 'u') :
    c ∉ VALID_JSON_ESCAPES := by
  rw [mem_validEscapes]
  rintro (simple | same)
  · rw [escapes, simple] at stray
    · cases stray
    · exact fun same => other same
  · exact other same

/-- Without a bare `\u` the repair restores some spelling of the original text. -/
private theorem respelled_repair {inside : Bool} (loosened : Loosened inside text loose)
    (escaped : bareUnicode inside loose = false) : Respelled inside text (repair inside loose) := by
  induction loosened with
  | nil => exact .nil
  | outside noQuote _ ih =>
    rw [bareUnicode, beq_false_of_ne noQuote] at escaped
    rw [repair, beq_false_of_ne noQuote]
    exact .outside noQuote (ih escaped)
  | opens _ ih =>
    rw [bareUnicode, beq_self_eq_true] at escaped
    rw [repair, beq_self_eq_true]
    exact .opens (ih escaped)
  | closes _ ih =>
    rw [bareUnicode] at escaped
    rw [repair]
    exact .closes (ih escaped)
  | element first _ ih =>
    rw [bareUnicode_element first] at escaped
    rw [repair_element first]
    exact .element first first (ih escaped)
  | @control used text loose c first control _ ih =>
    have raw : isControlCharacter c = true := by
      rw [isControlCharacter, Bool.and_eq_true, decide_eq_true_eq, decide_eq_true_eq]
      omega
    rw [bareUnicode_control raw] at escaped
    rw [repair_control raw]
    exact .element first (element_control raw) (ih escaped)
  | @backslash used text loose first stray rest ih =>
    obtain ⟨c, tail, rfl⟩ := rest.exists_cons
    have other : c ≠ 'u' := by
      rintro rfl
      rw [bareUnicode, show startsHex 4 tail = false from stray] at escaped
      cases escaped
    have unknown := stray_of_escapes stray other
    rw [bareUnicode_stray unknown] at escaped
    rw [repair_stray unknown]
    have doubled : Element ['\\', '\\'] [0x5C] := .simple rfl
    exact Respelled.element first doubled (ih escaped)

/-- A text that is accepted is returned as it is. -/
private theorem repairJson_eq_self (parsed : parse? text = some value) : repairJson text = text :=
  (repair_respelled (respelled_of_parse? parsed)).1

/-- A text that is accepted holds no bare `\u`. -/
private theorem escaped_of_parse? (parsed : parse? text = some value) : bareUnicode false text = false :=
  (repair_respelled (respelled_of_parse? parsed)).2

/-- The repaired text has the value of the original one. -/
theorem parse?_repairJson (loosened : Loosened false text loose) (parsed : parse? text = some value)
    (escaped : bareUnicode false loose = false) : parse? (repairJson loose) = some value :=
  (respelled_repair loosened escaped).parse? parsed

private theorem accepted_iff (loosened : Loosened false text loose) (parsed : parse? text = some value) :
    parse? (repairJson loose) ≠ none ↔ bareUnicode false loose = false := by
  constructor
  · intro accepted
    obtain ⟨other, parsed'⟩ := Option.ne_none_iff_exists'.mp accepted
    rw [← (repair_repair false loose).2]
    exact escaped_of_parse? parsed'
  · intro escaped
    rw [parse?_repairJson loosened parsed escaped]
    exact Option.some_ne_none value

/-- `parseJsonWithRepair` returns the value of the original text under the same condition. -/
theorem parseJsonWithRepair_iff (loosened : Loosened false text loose) (parsed : parse? text = some value) :
    parseJsonWithRepair loose = some value ↔ bareUnicode false loose = false := by
  unfold parseJsonWithRepair
  constructor
  · intro returned
    split at returned
    · next found => exact escaped_of_parse? found
    · obtain ⟨_, found⟩ := Option.ite_none_right_eq_some.mp returned
      exact (accepted_iff loosened parsed).mp (by rw [found]; exact Option.some_ne_none value)
  · intro escaped
    have repaired := parse?_repairJson loosened parsed escaped
    split
    · next found => rw [← found, ← repaired, repairJson_eq_self found]
    · next rejected =>
      rw [if_pos, repaired]
      intro same
      rw [same, rejected] at repaired
      cases repaired

/-- `repairJson` is the identity on every text that `JSON.parse` accepts and idempotent on every text. It makes a loosened
text acceptable exactly when no backslash in a string literal stands before a `u` without four hexadecimal digits. -/
theorem repairs_iff (text : List Char) :
    (parse? text ≠ none → repairJson text = text) ∧ repairJson (repairJson text) = repairJson text ∧
      ∀ loose, parse? text ≠ none → Loosened false text loose →
        (parse? (repairJson loose) ≠ none ↔ bareUnicode false loose = false) := by
  refine ⟨fun accepted => ?_, (repair_repair false text).1, fun loose accepted loosened => ?_⟩
  · obtain ⟨value, parsed⟩ := Option.ne_none_iff_exists'.mp accepted
    exact repairJson_eq_self parsed
  · obtain ⟨value, parsed⟩ := Option.ne_none_iff_exists'.mp accepted
    exact accepted_iff loosened parsed

/-- The text `"C:\\user"`. -/
private def path : List Char := ['"', 'C', ':', '\\', '\\', 'u', 's', 'e', 'r', '"']

/-- The text `"C:\user"`. -/
private def loosePath : List Char := ['"', 'C', ':', '\\', 'u', 's', 'e', 'r', '"']

private theorem element_letter {c : Char} (printable : 0x20 ≤ c.toNat ∧ c ≠ '"' ∧ c ≠ '\\') : Element [c] (utf16 c) :=
  .plain printable.1 printable.2.1 printable.2.2

private theorem element_backslash : Element ['\\', '\\'] [0x5C] := .simple rfl

private theorem path_loosened : Loosened false path loosePath := by
  have tail : Loosened true ['u', 's', 'e', 'r', '"'] ['u', 's', 'e', 'r', '"'] :=
    .element (element_letter (by decide)) <| .element (element_letter (by decide)) <|
      .element (element_letter (by decide)) <| .element (element_letter (by decide)) <| .closes .nil
  have escaped : Loosened true (['\\', '\\'] ++ ['u', 's', 'e', 'r', '"']) ['\\', 'u', 's', 'e', 'r', '"'] :=
    .backslash element_backslash rfl tail
  exact .opens <| .element (element_letter (by decide)) <| .element (element_letter (by decide)) escaped

/-- A model that writes the path `C:\user` without escaping the backslash loses its arguments. -/
theorem rejects_bare_unicode :
    ¬∀ text loose, parse? text ≠ none → Loosened false text loose → parse? (repairJson loose) ≠ none := fun complete =>
  complete path loosePath (by decide) path_loosened (by decide)

/-- The text `"\\q\t"`. -/
private def words : List Char := ['"', '\\', '\\', 'q', '\\', 't', '"']

/-- The same text with one backslash before `q` and a raw tab. -/
private def looseWords : List Char := ['"', '\\', 'q', '\t', '"']

private theorem words_loosened : Loosened false words looseWords := by
  have tab : Element ['\\', 't'] [UInt16.ofNat '\t'.toNat] := .simple rfl
  have tail : Loosened true ['q', '\\', 't', '"'] ['q', '\t', '"'] :=
    .element (element_letter (by decide)) (.control tab (by decide) (.closes .nil))
  have escaped : Loosened true (['\\', '\\'] ++ ['q', '\\', 't', '"']) ['\\', 'q', '\t', '"'] :=
    .backslash element_backslash rfl tail
  exact .opens escaped

/-- A stray backslash and a raw tab are repaired. -/
theorem repairs_words : parse? (repairJson looseWords) ≠ none :=
  ((repairs_iff words).2.2 looseWords (by decide) words_loosened).mpr (by decide)

theorem parseJsonWithRepair_words : parseJsonWithRepair looseWords = some (.str (js "\\q\t")) :=
  (parseJsonWithRepair_iff words_loosened (by decide)).mpr (by decide)

end PieAgent.Soundness.RepairedJson
