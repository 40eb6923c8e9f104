import PieAgent.JavaScript.Proofs.Ordinary
import PieAgent.JavaScript.Proofs.RoundTrip
import PieAgent.Model.Agent.ToolExecution

/-! # The canonical text of tool arguments

An approval is bound to the canonical text of the arguments. The text is read back as the value itself with its object
keys in another order, so two values have one text exactly when they differ in the order of object keys only.
-/

namespace PieAgent.Soundness.CanonicalArguments

open JavaScript Model

/-- A value of the language: its objects have distinct keys, in enumeration order. -/
abbrev OrdinaryJson := { value : Json // value.ordinary = true }

/-- Equality up to the order of object keys at every depth. -/
inductive SameUpToOrder : Json → Json → Prop
  | refl (value : Json) : SameUpToOrder value value
  | trans {first second third : Json} : SameUpToOrder first second → SameUpToOrder second third →
      SameUpToOrder first third
  | order {members others : List (JsString × Json)} : members.Perm others → SameUpToOrder (.obj members) (.obj others)
  | item {value other : Json} (front back : List Json) : SameUpToOrder value other →
      SameUpToOrder (.arr (front ++ value :: back)) (.arr (front ++ other :: back))
  | member {value other : Json} (front back : List (JsString × Json)) (key : JsString) : SameUpToOrder value other →
      SameUpToOrder (.obj (front ++ (key, value) :: back)) (.obj (front ++ (key, other) :: back))

theorem SameUpToOrder.symm {first second : Json} (same : SameUpToOrder first second) : SameUpToOrder second first := by
  induction same with
  | refl value => exact .refl value
  | trans _ _ first second => exact second.trans first
  | order perm => exact .order perm.symm
  | item front back _ ih => exact .item front back ih
  | member front back key _ ih => exact .member front back key ih

section Congruence

variable {items others : List Json} {members reread : List (JsString × Json)}

private theorem same_items (same : List.Forall₂ SameUpToOrder items others) (front : List Json) :
    SameUpToOrder (.arr (front ++ items)) (.arr (front ++ others)) := by
  induction same generalizing front with
  | nil => exact .refl _
  | @cons _ other _ _ first _ ih =>
    refine (SameUpToOrder.item front _ first).trans ?_
    simpa using ih (front ++ [other])

private theorem same_members (same : List.Forall₂ (fun member other => member.1 = other.1 ∧
    SameUpToOrder member.2 other.2) members reread) (front : List (JsString × Json)) :
    SameUpToOrder (.obj (front ++ members)) (.obj (front ++ reread)) := by
  induction same generalizing front with
  | nil => exact .refl _
  | @cons member other _ _ first _ ih =>
    obtain ⟨key, value⟩ := member
    obtain ⟨name, rest⟩ := other
    obtain ⟨rfl, values⟩ := first
    refine (SameUpToOrder.member front _ _ values).trans ?_
    simpa using ih (front ++ [(key, rest)])

end Congruence

section Keys

mutual

/-- The objects of a value have distinct keys. -/
private def Distinct : Json → Prop
  | .arr items => DistinctItems items
  | .obj members => (members.map (·.1)).Nodup ∧ DistinctMembers members
  | _ => True

private def DistinctItems : List Json → Prop
  | [] => True
  | item :: items => Distinct item ∧ DistinctItems items

private def DistinctMembers : List (JsString × Json) → Prop
  | [] => True
  | (_, value) :: members => Distinct value ∧ DistinctMembers members

end

private theorem distinctItems_iff {items : List Json} : DistinctItems items ↔ ∀ item ∈ items, Distinct item := by
  induction items with
  | nil => simp [DistinctItems]
  | cons item items ih => simp [DistinctItems, ih]

private theorem distinctMembers_iff {members : List (JsString × Json)} :
    DistinctMembers members ↔ ∀ member ∈ members, Distinct member.2 := by
  induction members with
  | nil => simp [DistinctMembers]
  | cons member members ih => simp [DistinctMembers, ih]

mutual

private theorem distinct_of_ordinary : ∀ value : Json, value.ordinary = true → Distinct value
  | .null, _ | .bool _, _ | .num _, _ | .str _, _ => trivial
  | .arr items, ordinary => distinctItems_of_ordinary items ordinary
  | .obj members, ordinary => by
    have spec := (ordinary_obj_iff).mp ordinary
    rw [Json.ordinary, Bool.and_eq_true] at ordinary
    exact ⟨spec.1, distinctMembers_of_ordinary members ordinary.2⟩

private theorem distinctItems_of_ordinary : ∀ items : List Json, ordinaryItems items = true → DistinctItems items
  | [], _ => trivial
  | item :: items, ordinary => by
    rw [ordinaryItems, Bool.and_eq_true] at ordinary
    exact ⟨distinct_of_ordinary item ordinary.1, distinctItems_of_ordinary items ordinary.2⟩

private theorem distinctMembers_of_ordinary :
    ∀ members : List (JsString × Json), ordinaryMembers members = true → DistinctMembers members
  | [], _ => trivial
  | (_, value) :: members, ordinary => by
    rw [ordinaryMembers, Bool.and_eq_true] at ordinary
    exact ⟨distinct_of_ordinary value ordinary.1, distinctMembers_of_ordinary members ordinary.2⟩

end

end Keys

section Texts

variable {members others : List (JsString × Json)}

private def sortByKey (members : List (JsString × Json)) : List (JsString × Json) :=
  members.mergeSort fun first second => first.1 ≤ second.1

/-- The text of one member. -/
private def memberText (member : JsString × Json) : List Char := quote member.1 ++ ':' :: canonicalizeJson member.2

private theorem canonicalizeItems_eq (items : List Json) : canonicalizeItems items = items.map canonicalizeJson := by
  induction items with
  | nil => rfl
  | cons item items ih => rw [canonicalizeItems, ih, List.map_cons]

private theorem canonicalizeMembers_eq (members : List (JsString × Json)) :
    canonicalizeMembers members = members.map fun member => (member.1, canonicalizeJson member.2) := by
  induction members with
  | nil => rfl
  | cons member members ih => rw [canonicalizeMembers, ih, List.map_cons]

private theorem canonicalizeJson_arr (items : List Json) :
    canonicalizeJson (.arr items) = '[' :: List.intercalate [','] (items.map canonicalizeJson) ++ [']'] := by
  rw [canonicalizeJson, canonicalizeItems_eq]

private theorem canonicalizeJson_obj (members : List (JsString × Json)) : canonicalizeJson (.obj members) =
    '\x7b' :: List.intercalate [','] ((sortByKey members).map memberText) ++ ['\x7d'] := by
  have sorted := @List.map_mergeSort _ _ (fun first second => decide (first.1 ≤ second.1))
    (fun first second => decide (first.1 ≤ second.1)) (fun member => (member.1, canonicalizeJson member.2)) members
    fun _ _ _ _ => rfl
  rw [canonicalizeJson, canonicalizeMembers_eq]
  dsimp only
  rw [← sorted, List.map_map]
  rfl

/-- Distinct keys have one sorted order. -/
private theorem sortByKey_eq (distinct : (members.map (·.1)).Nodup) (perm : members.Perm others) :
    sortByKey members = sortByKey others := by
  have sorted (list : List (JsString × Json)) : (sortByKey list).Pairwise fun first second => first.1 ≤ second.1 := by
    have pairs : (sortByKey list).Pairwise fun first second => decide (first.1 ≤ second.1) = true :=
      @List.pairwise_mergeSort (JsString × Json) (fun first second => decide (first.1 ≤ second.1))
        (fun a b c first second => decide_eq_true (List.le_trans (of_decide_eq_true first) (of_decide_eq_true second)))
        (fun a b => by simpa using List.le_total a.1 b.1) list
    exact pairs.imp fun below => of_decide_eq_true below
  refine List.Perm.eq_of_pairwise (fun x y inside inside' first second => ?_) (sorted members) (sorted others)
    ((List.mergeSort_perm ..).trans (perm.trans (List.mergeSort_perm ..).symm))
  have here : x ∈ members := (List.mergeSort_perm ..).mem_iff.mp inside
  have there : y ∈ members := perm.mem_iff.mpr ((List.mergeSort_perm ..).mem_iff.mp inside')
  exact List.inj_on_of_nodup_map distinct here there (List.le_antisymm first second)

end Texts

section Invariance

variable {first second : Json}

/-- Reordering keeps distinct keys and the canonical text. -/
private theorem canonicalizeJson_of_same (same : SameUpToOrder first second) (distinct : Distinct first) :
    Distinct second ∧ canonicalizeJson first = canonicalizeJson second := by
  induction same with
  | refl value => exact ⟨distinct, rfl⟩
  | trans _ _ ih ih' =>
    obtain ⟨between, texts⟩ := ih distinct
    obtain ⟨last, texts'⟩ := ih' between
    exact ⟨last, texts.trans texts'⟩
  | @order members others perm =>
    obtain ⟨keys, values⟩ := distinct
    refine ⟨⟨((perm.map _).nodup_iff).mp keys, ?_⟩, ?_⟩
    · rw [distinctMembers_iff] at values ⊢
      exact fun member inside => values member (perm.mem_iff.mpr inside)
    · rw [canonicalizeJson_obj, canonicalizeJson_obj, sortByKey_eq keys perm]
  | @item value other front back _ ih =>
    rw [Distinct, distinctItems_iff, List.forall_mem_append, List.forall_mem_cons] at distinct
    obtain ⟨before, here, behind⟩ := distinct
    obtain ⟨kept, text⟩ := ih here
    refine ⟨?_, ?_⟩
    · rw [Distinct, distinctItems_iff, List.forall_mem_append, List.forall_mem_cons]
      exact ⟨before, kept, behind⟩
    · simp only [canonicalizeJson_arr, List.map_append, List.map_cons, text]
  | @member value other front back key _ ih =>
    obtain ⟨keys, values⟩ := distinct
    rw [distinctMembers_iff, List.forall_mem_append, List.forall_mem_cons] at values
    obtain ⟨before, here, behind⟩ := values
    obtain ⟨kept, text⟩ := ih here
    refine ⟨⟨?_, ?_⟩, ?_⟩
    · simpa using keys
    · rw [distinctMembers_iff, List.forall_mem_append, List.forall_mem_cons]
      exact ⟨before, kept, behind⟩
    · rw [canonicalizeJson, canonicalizeJson, canonicalizeMembers_eq, canonicalizeMembers_eq]
      simp only [List.map_append, List.map_cons, text]

end Invariance

section Reading

variable {items : List Json} {members : List (JsString × Json)}

/-- The canonical text of a value is read as that value, up to the order of keys. -/
private def ReadsSame (value : Json) : Prop :=
  ∃ reread, ReadsValue (canonicalizeJson value) reread ∧ SameUpToOrder value reread

private theorem reads_items {item : Json} (first : ReadsSame item) (rest : ∀ item ∈ items, ReadsSame item) :
    ∃ reread, ReadsItems (List.intercalate [','] ((item :: items).map canonicalizeJson) ++ [']']) reread ∧
      List.Forall₂ SameUpToOrder (item :: items) reread := by
  induction items generalizing item with
  | nil =>
    obtain ⟨value, reads, same⟩ := first
    have read := readsItems_last reads spaces_nil
    refine ⟨[value], ?_, .cons same .nil⟩
    simpa using read
  | cons next items ih =>
    obtain ⟨value, reads, same⟩ := first
    obtain ⟨others, reads', same'⟩ := ih (rest next List.mem_cons_self) fun item inside =>
      rest item (List.mem_cons_of_mem _ inside)
    have read := readsItems_cons reads spaces_nil spaces_nil reads'
    refine ⟨value :: others, ?_, .cons same same'⟩
    simpa [List.intercalate_cons_cons] using read

private theorem reads_members {member : JsString × Json} (first : ReadsSame member.2)
    (rest : ∀ member ∈ members, ReadsSame member.2) :
    ∃ reread, ReadsMembers (List.intercalate [','] ((member :: members).map memberText) ++ ['\x7d']) reread ∧
      List.Forall₂ (fun member other => member.1 = other.1 ∧ SameUpToOrder member.2 other.2) (member :: members)
        reread := by
  induction members generalizing member with
  | nil =>
    obtain ⟨value, reads, same⟩ := first
    have read := readsMembers_last (readsString_quoteBody member.1) reads spaces_nil spaces_nil spaces_nil
    refine ⟨[(member.1, value)], ?_, .cons ⟨rfl, same⟩ .nil⟩
    simpa [memberText, quote] using read
  | cons next members ih =>
    obtain ⟨value, reads, same⟩ := first
    obtain ⟨others, reads', same'⟩ := ih (rest next List.mem_cons_self) fun member inside =>
      rest member (List.mem_cons_of_mem _ inside)
    have read := readsMembers_cons (readsString_quoteBody member.1) reads spaces_nil spaces_nil spaces_nil spaces_nil
      reads'
    refine ⟨(member.1, value) :: others, ?_, .cons ⟨rfl, same⟩ same'⟩
    simpa [memberText, quote, List.intercalate_cons_cons] using read

private theorem keys_reread {reread : List (JsString × Json)} (same : List.Forall₂ (fun member other =>
    member.1 = other.1 ∧ SameUpToOrder member.2 other.2) members reread) :
    reread.map (·.1) = members.map (·.1) := by
  induction same with
  | nil => rfl
  | cons first _ ih => rw [List.map_cons, List.map_cons, ih, first.1]

private theorem reads_arr (each : ∀ item ∈ items, ReadsSame item) : ReadsSame (.arr items) := by
  rw [ReadsSame, canonicalizeJson_arr]
  cases items with
  | nil => exact ⟨_, readsValue_nil spaces_nil, .refl _⟩
  | cons item items =>
    obtain ⟨reread, reads, same⟩ := reads_items (each item List.mem_cons_self) fun item inside =>
      each item (List.mem_cons_of_mem _ inside)
    have read := readsValue_arr spaces_nil reads
    exact ⟨_, read, same_items same []⟩

private theorem reads_obj (distinct : (members.map (·.1)).Nodup) (each : ∀ member ∈ members, ReadsSame member.2) :
    ReadsSame (.obj members) := by
  have perm : (sortByKey members).Perm members := List.mergeSort_perm ..
  rw [ReadsSame, canonicalizeJson_obj]
  have each' : ∀ member ∈ sortByKey members, ReadsSame member.2 := fun member inside =>
    each member (perm.mem_iff.mp inside)
  have keys : ((sortByKey members).map (·.1)).Nodup := ((perm.map _).nodup_iff).mpr distinct
  have sorted := SameUpToOrder.order perm.symm
  cases same : sortByKey members with
  | nil =>
    rw [same] at sorted
    exact ⟨_, readsValue_empty spaces_nil, sorted⟩
  | cons member others =>
    rw [same] at sorted each' keys
    obtain ⟨reread, reads, values⟩ := reads_members (each' member List.mem_cons_self) fun member inside =>
      each' member (List.mem_cons_of_mem _ inside)
    have read := readsValue_obj spaces_nil reads
    have kept : (reread.map (·.1)).Nodup := (keys_reread values).symm ▸ keys
    refine ⟨_, read, sorted.trans ((same_members values []).trans (.order ?_))⟩
    exact (objectMembers_perm kept).symm

mutual

private theorem reads_value : ∀ value : Json, Distinct value → ReadsSame value
  | .null, _ => ⟨_, readsValue_null, .refl _⟩
  | .bool true, _ => ⟨_, readsValue_true, .refl _⟩
  | .bool false, _ => ⟨_, readsValue_false, .refl _⟩
  | .num literal, _ => ⟨_, readsValue_num literal, .refl _⟩
  | .str text, _ => ⟨_, readsValue_str (readsString_quoteBody text), .refl _⟩
  | .arr items, distinct => reads_arr (reads_each items distinct)
  | .obj members, distinct => reads_obj distinct.1 (reads_eachMember members distinct.2)

private theorem reads_each : ∀ items : List Json, DistinctItems items → ∀ item ∈ items, ReadsSame item
  | [], _ => List.forall_mem_nil _
  | item :: items, distinct =>
    List.forall_mem_cons.mpr ⟨reads_value item distinct.1, reads_each items distinct.2⟩

private theorem reads_eachMember : ∀ members : List (JsString × Json), DistinctMembers members →
    ∀ member ∈ members, ReadsSame member.2
  | [], _ => List.forall_mem_nil _
  | (_, value) :: members, distinct =>
    List.forall_mem_cons.mpr ⟨reads_value value distinct.1, reads_eachMember members distinct.2⟩

end

end Reading

end PieAgent.Soundness.CanonicalArguments
