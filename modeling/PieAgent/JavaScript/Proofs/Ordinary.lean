import PieAgent.JavaScript.Core.JsonParse

/-! # Values that objects enumerate as they stand

`JSON.parse` yields ordinary values: each object has distinct keys, its array indices first and in order.
Setting or deleting a property under a name keeps a value ordinary.
-/

namespace JavaScript

variable {members : List (JsString × Json)} {member : JsString × Json} {items : List Json} {value : Json}

/-- The order in which array indices are enumerated. -/
private abbrev indexLe (first second : JsString × Json) : Prop :=
  (arrayIndex? first.1).getD 0 ≤ (arrayIndex? second.1).getD 0

/-- The array indices stand first and in order. -/
def Enumerated (members : List (JsString × Json)) : Prop :=
  ∃ indexed named, members = indexed ++ named ∧ indexed.Pairwise indexLe ∧
    (∀ member ∈ indexed, (arrayIndex? member.1).isSome) ∧ ∀ member ∈ named, arrayIndex? member.1 = none

private theorem setMember_new (fresh : member.1 ∉ members.map (·.1)) : setMember members member = members ++ [member] := by
  refine if_neg fun seen => fresh ?_
  obtain ⟨other, found, same⟩ := List.any_eq_true.mp seen
  rw [← eq_of_beq same]
  exact List.mem_map_of_mem found

private theorem setMember_known (known : member.1 ∈ members.map (·.1)) : setMember members member =
    members.map fun other => if other.1 = member.1 then member else other := by
  refine if_pos (List.any_eq_true.mpr ?_)
  obtain ⟨other, found, same⟩ := List.mem_map.mp known
  exact ⟨other, found, by simpa using same⟩

private theorem keys_replace (members : List (JsString × Json)) (member : JsString × Json) :
    (members.map fun other => if other.1 = member.1 then member else other).map (·.1) = members.map (·.1) := by
  rw [List.map_map]
  refine List.map_congr_left fun other _ => ?_
  by_cases same : other.1 = member.1 <;> simp [same]

private theorem nodup_setMember (distinct : (members.map (·.1)).Nodup) : ((setMember members member).map (·.1)).Nodup := by
  by_cases known : member.1 ∈ members.map (·.1)
  · rwa [setMember_known known, keys_replace]
  · rw [setMember_new known, List.map_append, List.map_singleton, ← List.concat_eq_append]
    exact distinct.concat known

private theorem mem_setMember {other : JsString × Json} (inside : other ∈ setMember members member) :
    other ∈ members ∨ other = member := by
  by_cases known : member.1 ∈ members.map (·.1)
  · rw [setMember_known known, List.mem_map] at inside
    obtain ⟨same, found, rfl⟩ := inside
    split
    · exact .inr rfl
    · exact .inl found
  · rwa [setMember_new known, List.mem_append, List.mem_singleton] at inside

private theorem foldl_setMember (known : List (JsString × Json)) (distinct : (known.map (·.1)).Nodup) :
    ((members.foldl setMember known).map (·.1)).Nodup ∧ ∀ other ∈ members.foldl setMember known, other ∈ known ∨ other ∈ members := by
  induction members generalizing known with
  | nil => exact ⟨distinct, fun other inside => .inl inside⟩
  | cons member members ih =>
    obtain ⟨nodup, inside⟩ := ih (setMember known member) (nodup_setMember distinct)
    refine ⟨nodup, fun other found => ?_⟩
    rcases inside other found with here | later
    · rcases mem_setMember here with before | rfl
      · exact .inl before
      · exact .inr List.mem_cons_self
    · exact .inr (List.mem_cons_of_mem _ later)

private theorem foldl_setMember_nodup (known : List (JsString × Json)) (distinct : ((known ++ members).map (·.1)).Nodup) :
    members.foldl setMember known = known ++ members := by
  induction members generalizing known with
  | nil => simp
  | cons member members ih =>
    have fresh : member.1 ∉ known.map (·.1) := fun seen => by
      rw [List.map_append, List.map_cons, List.nodup_append] at distinct
      exact distinct.2.2 _ seen _ List.mem_cons_self rfl
    rw [List.foldl_cons, setMember_new fresh, ih _ (by simpa using distinct)]
    simp

private theorem enumerated_enumerate (members : List (JsString × Json)) : Enumerated (enumerate members) := by
  have total : Std.Total indexLe := ⟨fun first second => Nat.le_total _ _⟩
  have trans : IsTrans (JsString × Json) indexLe := ⟨fun _ _ _ => Nat.le_trans⟩
  refine ⟨_, _, rfl, List.pairwise_insertionSort indexLe _, fun member inside => ?_, fun member inside => ?_⟩
  · exact (List.mem_filter.mp ((List.mem_insertionSort _).mp inside)).2
  · simpa using (List.mem_filter.mp inside).2

private theorem enumerate_of_enumerated (enumerated : Enumerated members) : enumerate members = members := by
  obtain ⟨indexed, named, rfl, sorted, indices, names⟩ := enumerated
  have first : (indexed ++ named).filter (fun member => (arrayIndex? member.1).isSome) = indexed := by
    rw [List.filter_append, List.filter_eq_self.mpr indices, List.filter_eq_nil_iff.mpr, List.append_nil]
    exact fun member inside => by simp [names member inside]
  have second : (indexed ++ named).filter (fun member => (arrayIndex? member.1).isNone) = named := by
    rw [List.filter_append, List.filter_eq_nil_iff.mpr, List.filter_eq_self.mpr, List.nil_append]
    · exact fun member inside => by simp [names member inside]
    · exact fun member inside => by simp [Option.isSome_iff_ne_none.mp (indices member inside)]
  rw [enumerate, first, second, List.Pairwise.insertionSort_eq sorted]

private theorem perm_enumerate (members : List (JsString × Json)) : (enumerate members).Perm members := by
  refine ((List.perm_insertionSort _ _).append_right _).trans ?_
  have split := List.filter_append_perm (fun member : JsString × Json => (arrayIndex? member.1).isSome) members
  simpa [Option.not_isSome] using split

/-- The members that an object literal enumerates. -/
theorem objectMembers_spec (members : List (JsString × Json)) :
    ((objectMembers members).map (·.1)).Nodup ∧ Enumerated (objectMembers members) ∧ objectMembers members ⊆ members := by
  obtain ⟨nodup, inside⟩ := @foldl_setMember members [] List.nodup_nil
  refine ⟨(((perm_enumerate _).map _).nodup_iff).mpr nodup, enumerated_enumerate _, fun member found => ?_⟩
  simpa using inside member ((perm_enumerate _).mem_iff.mp found)

/-- An object literal with distinct keys only orders them. -/
theorem objectMembers_perm (distinct : (members.map (·.1)).Nodup) : (objectMembers members).Perm members := by
  rw [objectMembers, foldl_setMember_nodup [] (by simpa using distinct), List.nil_append]
  exact perm_enumerate members

theorem objectMembers_eq_self (distinct : (members.map (·.1)).Nodup) (enumerated : Enumerated members) :
    objectMembers members = members := by
  rw [objectMembers, foldl_setMember_nodup [] (by simpa using distinct), List.nil_append, enumerate_of_enumerated enumerated]

theorem ordinaryMembers_iff : ordinaryMembers members = true ↔ ∀ member ∈ members, member.2.ordinary = true := by
  induction members with
  | nil => simp [ordinaryMembers]
  | cons member members ih => simp [ordinaryMembers, ih]

theorem ordinary_obj_iff : (Json.obj members).ordinary = true ↔
    (members.map (·.1)).Nodup ∧ Enumerated members ∧ ∀ member ∈ members, member.2.ordinary = true := by
  rw [Json.ordinary, Bool.and_eq_true, decide_eq_true_eq, ordinaryMembers_iff]
  constructor
  · rintro ⟨same, all⟩
    have spec := objectMembers_spec members
    rw [same] at spec
    exact ⟨spec.1, spec.2.1, all⟩
  · rintro ⟨distinct, enumerated, all⟩
    exact ⟨objectMembers_eq_self distinct enumerated, all⟩

theorem ordinary_objectMembers (all : ordinaryMembers members = true) : (Json.obj (objectMembers members)).ordinary = true := by
  obtain ⟨distinct, enumerated, inside⟩ := objectMembers_spec members
  exact (ordinary_obj_iff).mpr ⟨distinct, enumerated, fun member found => (ordinaryMembers_iff).mp all member (inside found)⟩

section Properties

variable {name : JsString} (plain : arrayIndex? name = none)
include plain

/-- Setting a property under a name keeps an object ordinary. -/
theorem ordinary_setMember (object : (Json.obj members).ordinary = true) (ordinary : value.ordinary = true) :
    (Json.obj (setMember members (name, value))).ordinary = true := by
  obtain ⟨distinct, ⟨indexed, named, rfl, sorted, indices, names⟩, all⟩ := (ordinary_obj_iff).mp object
  refine (ordinary_obj_iff).mpr ⟨nodup_setMember distinct, ?_, fun member inside => ?_⟩
  · by_cases known : name ∈ (indexed ++ named).map (·.1)
    · rw [setMember_known known, List.map_append]
      have same : indexed.map (fun other => if other.1 = name then (name, value) else other) = indexed := by
        conv_rhs => rw [← List.map_id indexed]
        refine List.map_congr_left fun member inside => if_neg fun isName => ?_
        have index := indices member inside
        rw [isName, plain] at index
        cases index
      rw [same]
      refine ⟨indexed, _, rfl, sorted, indices, fun member inside => ?_⟩
      obtain ⟨other, found, rfl⟩ := List.mem_map.mp inside
      split
      · exact plain
      · exact names other found
    · rw [setMember_new known, List.append_assoc]
      refine ⟨indexed, _, rfl, sorted, indices, List.forall_mem_append.mpr ⟨names, by simpa using plain⟩⟩
  · rcases mem_setMember inside with before | rfl
    · exact all member before
    · exact ordinary

end Properties

/-- Deleting properties keeps an object ordinary. -/
theorem ordinary_filter (object : (Json.obj members).ordinary = true) (keep : JsString × Json → Bool) :
    (Json.obj (members.filter keep)).ordinary = true := by
  obtain ⟨distinct, ⟨indexed, named, rfl, sorted, indices, names⟩, all⟩ := (ordinary_obj_iff).mp object
  refine (ordinary_obj_iff).mpr ⟨distinct.sublist (List.filter_sublist.map _), ?_, fun member inside =>
    all member (List.mem_of_mem_filter inside)⟩
  exact ⟨_, _, List.filter_append .., sorted.sublist List.filter_sublist,
    fun member inside => indices member (List.mem_of_mem_filter inside),
    fun member inside => names member (List.mem_of_mem_filter inside)⟩

section Parser

variable {text rest : List Char} {depth : ℕ}

/-- What parsing at one depth yields is ordinary. -/
private def YieldsOrdinary (depth : ℕ) : Prop :=
  (∀ text value rest, parseValue? depth text = some (value, rest) → value.ordinary = true) ∧
    (∀ text items rest, parseItems? depth text = some (items, rest) → ordinaryItems items = true) ∧
    ∀ text members rest, parseMembers? depth text = some (members, rest) → ordinaryMembers members = true

private theorem ordinary_items (yields : YieldsOrdinary depth) (read : parseItems? (depth + 1) text = some (items, rest)) :
    ordinaryItems items = true := by
  rw [parseItems?] at read
  obtain ⟨⟨item, left⟩, first, after⟩ := Option.bind_eq_some_iff.mp read
  have head := yields.1 _ _ _ first
  dsimp only at after
  split at after
  · cases after
    simp [ordinaryItems, head]
  · obtain ⟨⟨others, left'⟩, more, same⟩ := Option.bind_eq_some_iff.mp after
    cases same
    simp [ordinaryItems, head, yields.2.1 _ _ _ more]
  · cases after

private theorem ordinary_members (yields : YieldsOrdinary depth)
    (read : parseMembers? (depth + 1) text = some (members, rest)) : ordinaryMembers members = true := by
  rw [parseMembers?.eq_def] at read
  dsimp only at read
  split at read
  · obtain ⟨⟨key, left⟩, _, afterKey⟩ := Option.bind_eq_some_iff.mp read
    dsimp only at afterKey
    split at afterKey
    · obtain ⟨⟨value, left'⟩, second, afterValue⟩ := Option.bind_eq_some_iff.mp afterKey
      have head := yields.1 _ _ _ second
      dsimp only at afterValue
      split at afterValue
      · cases afterValue
        simp [ordinaryMembers, head]
      · obtain ⟨⟨others, left''⟩, more, same⟩ := Option.bind_eq_some_iff.mp afterValue
        cases same
        simp [ordinaryMembers, head, yields.2.2 _ _ _ more]
      · cases afterValue
    · cases afterKey
  · cases read

private theorem ordinary_value (yields : YieldsOrdinary depth)
    (read : parseValue? (depth + 1) text = some (value, rest)) : value.ordinary = true := by
  rw [parseValue?.eq_def] at read
  dsimp only at read
  split at read
  · cases read
    rfl
  · cases read
    rfl
  · cases read
    rfl
  · obtain ⟨_, _, same⟩ := Option.map_eq_some_iff.mp read
    cases same
    rfl
  · split at read
    · cases read
      rfl
    · obtain ⟨_, more, same⟩ := Option.map_eq_some_iff.mp read
      cases same
      exact yields.2.1 _ _ _ more
  · split at read
    · cases read
      rfl
    · obtain ⟨_, more, same⟩ := Option.map_eq_some_iff.mp read
      cases same
      exact ordinary_objectMembers (yields.2.2 _ _ _ more)
  · unfold parseNumber? at read
    split at read
    · cases read
    · obtain ⟨_, same⟩ := Option.dite_none_right_eq_some.mp read
      cases same
      rfl

private theorem yieldsOrdinary (depth : ℕ) : YieldsOrdinary depth := by
  induction depth with
  | zero => exact ⟨nofun, nofun, nofun⟩
  | succ depth ih =>
    exact ⟨fun _ _ _ read => ordinary_value ih read, fun _ _ _ read => ordinary_items ih read,
      fun _ _ _ read => ordinary_members ih read⟩

/-- A parsed value is ordinary. -/
theorem ordinary_of_parse? (parsed : parse? text = some value) : value.ordinary = true := by
  unfold parse? at parsed
  split at parsed
  · next read =>
    split at parsed
    · cases parsed
      exact (yieldsOrdinary _).1 _ _ _ read
    · cases parsed
  · cases parsed

end Parser

end JavaScript
