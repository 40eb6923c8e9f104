import PieAgent.JavaScript.Proofs.Ordinary
import PieAgent.Model.Session.SessionManager

/-! # The object literals of a manager

The fields that an operation writes are the fields that later code reads, and the literals survive
`JSON.stringify` and `JSON.parse`.
-/

namespace PieAgent.Proofs

open JavaScript PieAgent.Model.Transcript
open PieAgent.Model (nonemptyField? optionalField textField?)

section Fields

variable {name : String} {key : JsString} {rest members : List (String × Option Json)} {names : List String}

@[simp] theorem get?_fields_nil : (Json.obj (fields [])).get? key = none := rfl

theorem get?_fields_cons (value : Option Json) : (Json.obj (fields ((name, value) :: rest))).get? (js name) =
    value.or ((Json.obj (fields rest)).get? (js name)) := by
  cases value <;> simp [Json.get?, fields, optionalField]

@[simp] theorem get?_fields_self (value : Json) :
    (Json.obj (fields ((name, some value) :: rest))).get? (js name) = some value :=
  get?_fields_cons _

theorem get?_fields_of_ne (value : Option Json) (differ : js name ≠ key) :
    (Json.obj (fields ((name, value) :: rest))).get? key = (Json.obj (fields rest)).get? key := by
  have other : (key == js name) = false := by simpa using Ne.symm differ
  cases value <;> simp [Json.get?, fields, optionalField, List.lookup_cons, other]

private theorem keys_fields (members : List (String × Option Json)) :
    ((fields members).map (·.1)).Sublist ((members.map (·.1)).map js) := by
  induction members with
  | nil => exact List.Sublist.refl _
  | cons member members ih =>
    obtain ⟨name, value⟩ := member
    cases value with
    | none => exact ih.trans (List.sublist_cons_self _ _)
    | some value => exact ih.cons_cons _

/-- A literal with distinct names and ordinary values is ordinary. -/
theorem ordinary_fields (known : members.map (·.1) = names) (distinct : (names.map js).Nodup)
    (plain : ∀ name ∈ names.map js, arrayIndex? name = none)
    (values : ∀ member ∈ members, ∀ value ∈ member.2, value.ordinary = true) : (Json.obj (fields members)).ordinary = true := by
  have inside := keys_fields members
  rw [known] at inside
  refine ordinary_obj_of_plain (distinct.sublist inside) (fun key member => plain key (inside.subset member))
    (ordinaryMembers_iff.mpr fun member found => ?_)
  obtain ⟨⟨name, value⟩, listed, here⟩ := List.mem_flatMap.mp found
  obtain ⟨value', held, rfl⟩ := List.mem_map.mp here
  exact values _ listed value' (Option.mem_toList.mp held)

end Fields

section Assignments

variable {entry : Json} {members : List (JsString × Json)} {key : String}

private theorem lookup_cons (name wanted : JsString) (value : Json) :
    ((name, value) :: members).lookup wanted = if wanted = name then some value else members.lookup wanted := by
  rw [List.lookup_cons]
  by_cases same : wanted = name
  · rw [if_pos same, beq_iff_eq.mpr same]
  · rw [if_neg same, beq_eq_false_iff_ne.mpr same]

private theorem lookup_append (front back : List (JsString × Json)) (wanted : JsString) :
    (front ++ back).lookup wanted = (front.lookup wanted).or (back.lookup wanted) := by
  induction front with
  | nil => rfl
  | cons member front ih =>
    obtain ⟨name, value⟩ := member
    rw [List.cons_append, lookup_cons, lookup_cons, ih]
    split <;> rfl

private theorem lookup_isSome {wanted : JsString} :
    (members.lookup wanted).isSome = members.any (·.1 == wanted) := by
  induction members with
  | nil => rfl
  | cons member members ih =>
    obtain ⟨name, value⟩ := member
    rw [lookup_cons, List.any_cons, ← ih]
    by_cases same : wanted = name
    · simp [same]
    · rw [if_neg same, beq_eq_false_iff_ne.mpr (Ne.symm same), Bool.false_or]

private theorem lookup_replace (members : List (JsString × Json)) (name wanted : JsString) (value : Json) :
    (members.map fun known => if known.1 = name then (name, value) else known).lookup wanted =
      if wanted = name then (members.lookup wanted).map fun _ => value else members.lookup wanted := by
  induction members with
  | nil => split <;> rfl
  | cons member members ih =>
    obtain ⟨known, held⟩ := member
    rw [List.map_cons, lookup_cons]
    dsimp only
    by_cases here : known = name
    · subst here
      rw [if_pos rfl, lookup_cons, ih]
      split <;> rfl
    · rw [if_neg here, lookup_cons, ih]
      by_cases asked : wanted = known
      · subst asked
        simp [here]
      · simp only [if_neg asked]

private theorem lookup_setMember (members : List (JsString × Json)) (name wanted : JsString) (value : Json) :
    (setMember members (name, value)).lookup wanted = if wanted = name then some value else members.lookup wanted := by
  unfold setMember
  split
  · next known =>
    rw [lookup_replace]
    split
    · next same =>
      obtain ⟨held, found⟩ := Option.isSome_iff_exists.mp ((lookup_isSome).trans (same ▸ known))
      rw [found]
      rfl
    · rfl
  · next fresh =>
    rw [lookup_append, lookup_cons]
    split
    · next same =>
      have none_ : members.lookup wanted = none := by
        rw [← Option.not_isSome_iff_eq_none, lookup_isSome, same]
        exact fresh
      rw [none_, Option.none_or]
    · exact Option.or_none

private theorem lookup_filter (members : List (JsString × Json)) {name wanted : JsString} (differ : wanted ≠ name) :
    (members.filter fun member => member.1 ≠ name).lookup wanted = members.lookup wanted := by
  induction members with
  | nil => rfl
  | cons member members ih =>
    obtain ⟨known, held⟩ := member
    rw [lookup_cons]
    by_cases here : known = name
    · rw [List.filter_cons_of_neg (by simp [here]), ih, if_neg (here ▸ differ)]
    · rw [List.filter_cons_of_pos (by simp [here]), lookup_cons, ih]

@[simp] theorem get?_setField_self (value : Json) :
    (setField (.obj members) key value).get? (js key) = some value := by
  rw [setField, Json.get?, lookup_setMember, if_pos rfl]

theorem get?_setField_of_ne (value : Json) {wanted : JsString} (differ : wanted ≠ js key) :
    (setField entry key value).get? wanted = entry.get? wanted := by
  cases entry with
  | obj members => rw [setField, Json.get?, Json.get?, lookup_setMember, if_neg differ]
  | _ => rfl

theorem get?_deleteField_of_ne {wanted : JsString} (differ : wanted ≠ js key) :
    (deleteField entry key).get? wanted = entry.get? wanted := by
  cases entry with
  | obj members => exact lookup_filter members differ
  | _ => rfl

end Assignments

section Literals

variable (id : JsString) (above : Option JsString) (timestamp : JsString) (content : Content)

private theorem entryId_of_get? {entry : Json} (held : entry.get? (js "id") = some (.str id)) : entryId entry = id := by
  simp [entryId, textField?, held, Json.str?]

private theorem parentId_of_get? {entry : Json}
    (held : entry.get? (js "parentId") = some (above.elim .null .str)) : parentId entry = above.filter (· ≠ []) := by
  cases above <;> simp [parentId, nonemptyField?, textField?, held, Json.str?]

@[simp] theorem entryId_content : entryId (content.entry id above timestamp) = id := by
  apply entryId_of_get?
  cases content <;>
    simp (disch := decide) [Content.entry, baseFields, get?_fields_of_ne]

@[simp] theorem parentId_content : parentId (content.entry id above timestamp) = above.filter (· ≠ []) := by
  apply parentId_of_get?
  cases content <;>
    simp (disch := decide) [Content.entry, baseFields, get?_fields_of_ne]

theorem isLabel_content : isLabel (content.entry id above timestamp) = false := by
  cases content <;> rfl

variable (time : Option Json) (targetId : JsString) (label : Option JsString)

@[simp] theorem entryId_labelEntry : entryId (labelEntry id above time targetId label) = id :=
  entryId_of_get? id (by simp (disch := decide) [labelEntry, get?_fields_of_ne])

@[simp] theorem parentId_labelEntry : parentId (labelEntry id above time targetId label) = above.filter (· ≠ []) :=
  parentId_of_get? above (by simp (disch := decide) [labelEntry, get?_fields_of_ne])

@[simp] theorem isLabel_labelEntry : isLabel (labelEntry id above time targetId label) = true := rfl

variable (summary : JsString) (details : Option Json) (fromHook : Option Bool)

@[simp] theorem entryId_branchSummaryEntry :
    entryId (branchSummaryEntry id above timestamp summary details fromHook) = id :=
  entryId_of_get? id (by simp (disch := decide) [branchSummaryEntry, baseFields, get?_fields_of_ne])

@[simp] theorem parentId_branchSummaryEntry :
    parentId (branchSummaryEntry id above timestamp summary details fromHook) = above.filter (· ≠ []) :=
  parentId_of_get? above (by simp (disch := decide) [branchSummaryEntry, baseFields, get?_fields_of_ne])


section Ordinary

/-- What an append takes is ordinary data. -/
def OrdinaryContent : Content → Prop
  | .message value => value.ordinary = true
  | .compaction _ _ _ details _ => ∀ value ∈ details, value.ordinary = true
  | .custom _ data => ∀ value ∈ data, value.ordinary = true
  | .customMessage _ content _ details => content.ordinary = true ∧ ∀ value ∈ details, value.ordinary = true
  | .thinkingLevelChange _ | .modelChange .. | .sessionInfo _ => True

private theorem ordinary_parent : (above.elim Json.null Json.str).ordinary = true := by
  cases above <;> rfl

theorem ordinary_content (ordinary : OrdinaryContent content) : (content.entry id above timestamp).ordinary = true := by
  have parent := ordinary_parent above
  unfold Content.entry
  cases content with
  | message _ =>
    refine ordinary_fields (rfl : _ = ["type", "id", "parentId", "timestamp", "message"])
      (by decide) (by decide) ?_
    simp_all [baseFields, Json.ordinary, OrdinaryContent]
  | thinkingLevelChange _ =>
    refine ordinary_fields (rfl : _ = ["type", "id", "parentId", "timestamp", "thinkingLevel"])
      (by decide) (by decide) ?_
    simp_all [baseFields, Json.ordinary, OrdinaryContent]
  | modelChange _ _ =>
    refine ordinary_fields (rfl : _ = ["type", "id", "parentId", "timestamp", "provider", "modelId"])
      (by decide) (by decide) ?_
    simp_all [baseFields, Json.ordinary, OrdinaryContent]
  | compaction _ _ _ _ _ =>
    refine ordinary_fields (rfl : _ = ["type", "id", "parentId", "timestamp", "summary", "firstKeptEntryId", "tokensBefore", "details", "fromHook"])
      (by decide) (by decide) ?_
    simp_all [baseFields, Json.ordinary, OrdinaryContent]
    rintro value (⟨_, rfl⟩ | ⟨_, rfl⟩) <;> rfl
  | custom _ _ =>
    refine ordinary_fields (rfl : _ = ["type", "customType", "data", "id", "parentId", "timestamp"])
      (by decide) (by decide) ?_
    simp_all [baseFields, Json.ordinary, OrdinaryContent]
  | sessionInfo _ =>
    refine ordinary_fields (rfl : _ = ["type", "id", "parentId", "timestamp", "name"])
      (by decide) (by decide) ?_
    simp_all [baseFields, Json.ordinary, OrdinaryContent]
  | customMessage _ _ _ _ =>
    refine ordinary_fields (rfl : _ = ["type", "customType", "content", "display", "details", "id", "parentId", "timestamp"])
      (by decide) (by decide) ?_
    simp_all [baseFields, Json.ordinary, OrdinaryContent]

theorem ordinary_labelEntry (clock : ∀ value ∈ time, value.ordinary = true) :
    (labelEntry id above time targetId label).ordinary = true := by
  have parent := ordinary_parent above
  refine ordinary_fields (rfl : _ = ["type", "id", "parentId", "timestamp", "targetId", "label"]) (by decide) (by decide) ?_
  simp_all [Json.ordinary]

theorem ordinary_branchSummaryEntry (ordinary : ∀ value ∈ details, value.ordinary = true) :
    (branchSummaryEntry id above timestamp summary details fromHook).ordinary = true := by
  have parent := ordinary_parent above
  refine ordinary_fields (rfl : _ = ["type", "id", "parentId", "timestamp", "fromId", "summary", "details", "fromHook"])
    (by decide) (by decide) ?_
  simp_all [baseFields, Json.ordinary]
  rintro value (⟨_, rfl⟩ | ⟨_, rfl⟩) <;> rfl

end Ordinary

end Literals

section Header

/-- A header whose wire shape is read back as it is. -/
structure HasWireShape (header : SessionHeader) : Prop where
  version : header.version = some currentSessionVersion
  id : header.id ≠ []
  timestamp : ∃ text, header.timestamp = some (.str text)
  cwd : ∃ text, header.cwd = some (.str text)
  parentSession : header.parentSession = none ∨ ∃ text, header.parentSession = some (.str text)
  importedFrom : ∀ value ∈ header.importedFrom, value.ordinary = true

variable {header : SessionHeader}

theorem ordinary_serializeSessionHeader (wired : HasWireShape header) (path : JsString) :
    (serializeSessionHeader header path).ordinary = true := by
  obtain ⟨_, _, ⟨_, timestamp⟩, ⟨_, cwd⟩, parent, imported⟩ := wired
  refine ordinary_fields (rfl : _ = ["id", "createdAt", "cwd", "path", "parentSessionPath", "importedFrom"])
    (by decide) (by decide) ?_
  rcases parent with parent | ⟨_, parent⟩ <;> simp_all [Json.ordinary]

theorem parseSessionHeader_serialize (wired : HasWireShape header) (path : JsString) :
    parseSessionHeader (serializeSessionHeader header path) = some header := by
  obtain ⟨version, named, ⟨createdAt, timestamp⟩, ⟨directory, cwd⟩, parent, _⟩ := wired
  have noType : textField? (serializeSessionHeader header path) "type" = none := by
    simp (disch := decide) [textField?, serializeSessionHeader, get?_fields_of_ne]
  have idHere : nonemptyField? (serializeSessionHeader header path) "id" = some header.id := by
    simp [nonemptyField?, textField?, serializeSessionHeader, Json.str?, named]
  have createdHere : textField? (serializeSessionHeader header path) "createdAt" = some createdAt := by
    simp (disch := decide) [textField?, serializeSessionHeader, get?_fields_of_ne, timestamp, Json.str?]
  have cwdHere : textField? (serializeSessionHeader header path) "cwd" = some directory := by
    simp (disch := decide) [textField?, serializeSessionHeader, get?_fields_of_ne, cwd, Json.str?]
  have parentHere : (textField? (serializeSessionHeader header path) "parentSessionPath").map .str =
      header.parentSession := by
    rcases parent with parent | ⟨_, parent⟩ <;>
      simp (disch := decide) [textField?, serializeSessionHeader, get?_fields_of_ne, get?_fields_cons, parent, Json.str?]
  have importedHere : (serializeSessionHeader header path).get? (js "importedFrom") = header.importedFrom := by
    simp (disch := decide) [serializeSessionHeader, get?_fields_of_ne, get?_fields_cons]
  rw [parseSessionHeader, idHere, Option.bind_some, noType, if_neg nofun, createdHere, cwdHere]
  dsimp only
  rw [parentHere, importedHere, ← timestamp, ← cwd, ← version]

end Header

end PieAgent.Proofs
