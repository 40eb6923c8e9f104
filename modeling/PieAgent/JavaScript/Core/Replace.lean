import PieAgent.JavaScript.Core.Strings

/-! # Replacing every match of a pattern

`text.replace(pattern, replacer)` with a global pattern looks for a match at one place after another and goes
on behind a match. A pattern is given by what it matches at the front of a text: the replacement and the
length of the match.

A replacement may also depend on the place of its match. For patterns whose matches begin with a start that they hold
nowhere else, one pass after another is compared with a single pass for all of them.
-/

namespace JavaScript

variable {α : Type} {replacement? : List α → Option (List α × ℕ)} {front back text new : List α}

/-- Replace every match that begins behind the first `skip` elements. -/
def replaceFrom (replacement? : List α → Option (List α × ℕ)) : ℕ → List α → List α
  | _, [] => []
  | skip + 1, _ :: text => replaceFrom replacement? skip text
  | 0, c :: text =>
    match replacement? (c :: text) with
    | some (new, length) => new ++ replaceFrom replacement? (length - 1) text
    | none => c :: replaceFrom replacement? 0 text

/-- `text.replace(pattern, replacer)` for a global pattern that matches no empty text. -/
def replaceAll (replacement? : List α → Option (List α × ℕ)) (text : List α) : List α := replaceFrom replacement? 0 text

@[simp] theorem replaceAll_nil (replacement? : List α → Option (List α × ℕ)) : replaceAll replacement? [] = [] := rfl

theorem replaceFrom_zero (c : α) (text : List α) : replaceFrom replacement? 0 (c :: text) =
    match replacement? (c :: text) with
    | some (new, length) => new ++ replaceFrom replacement? (length - 1) text
    | none => c :: replaceFrom replacement? 0 text := rfl

/-- What is left of a match is skipped. -/
theorem replaceFrom_length (replacement? : List α → Option (List α × ℕ)) (front back : List α) :
    replaceFrom replacement? front.length (front ++ back) = replaceAll replacement? back := by
  induction front with
  | nil => rfl
  | cons c front ih => exact ih

/-- A match is replaced, and the search goes on behind it. -/
theorem replaceAll_of_match (nonempty : front ≠ []) (found : replacement? (front ++ back) = some (new, front.length)) :
    replaceAll replacement? (front ++ back) = new ++ replaceAll replacement? back := by
  cases front with
  | nil => exact absurd rfl nonempty
  | cons c front =>
    rw [List.cons_append] at found ⊢
    rw [replaceAll, replaceFrom_zero, found]
    dsimp only
    rw [List.length_cons, Nat.add_sub_cancel, replaceFrom_length]

/-- An element at which no match begins stays. -/
theorem replaceAll_cons {c : α} (none_ : replacement? (c :: text) = none) :
    replaceAll replacement? (c :: text) = c :: replaceAll replacement? text := by
  rw [replaceAll, replaceFrom_zero, none_]
  rfl

/-- A text in which no match begins stays in front of what follows. -/
theorem replaceAll_append (none_ : ∀ c rest, c :: rest <:+ front → replacement? (c :: rest ++ back) = none) :
    replaceAll replacement? (front ++ back) = front ++ replaceAll replacement? back := by
  induction front with
  | nil => rfl
  | cons c front ih =>
    have kept := none_ c front (List.suffix_refl _)
    rw [List.cons_append] at kept ⊢
    have inside := ih fun c rest suffix => none_ c rest (suffix.trans (List.suffix_cons _ _))
    rw [replaceAll_cons kept, List.cons_append, inside]

theorem map_replaceAll {γ : Type} {map : α → γ} {replacement?' : List γ → Option (List γ × ℕ)}
    (same : ∀ text, (replacement? text).map (fun hit => (hit.1.map map, hit.2)) = replacement?' (text.map map))
    (text : List α) : (replaceAll replacement? text).map map = replaceAll replacement?' (text.map map) := by
  have all : ∀ skip, (replaceFrom replacement? skip text).map map = replaceFrom replacement?' skip (text.map map) := by
    induction text with
    | nil => exact fun _ => rfl
    | cons c text ih =>
      rintro (_ | skip)
      · have here := same (c :: text)
        rw [List.map_cons] at here ⊢
        rw [replaceFrom_zero, replaceFrom_zero, ← here]
        cases replacement? (c :: text) with
        | none => exact congrArg _ (ih 0)
        | some hit =>
          dsimp only [Option.map_some]
          rw [List.map_append, ih]
      · exact ih skip
  exact all 0

section Places

variable {β : Type} {match? : List α → Option (β × ℕ)} {new' : β → List α → List α → List α → List α} {captures : β}
  {before : List α} {length : ℕ}

/-- `text.replace(pattern, replacer)` for a global pattern that matches no empty text, after what stands before the text.
The replacer gets the captures, the match, and what stands before and behind it. -/
def replaceMatches (match? : List α → Option (β × ℕ)) (new : β → List α → List α → List α → List α) :
    List α → ℕ → List α → List α
  | _, _, [] => []
  | before, skip + 1, c :: text => replaceMatches match? new (before ++ [c]) skip text
  | before, 0, c :: text =>
    match match? (c :: text) with
    | some (captures, length) =>
      new captures before ((c :: text).take length) ((c :: text).drop length) ++
        replaceMatches match? new (before ++ [c]) (length - 1) text
    | none => c :: replaceMatches match? new (before ++ [c]) 0 text

private theorem replaceMatches_zero (before : List α) (c : α) (text : List α) :
    replaceMatches match? new' before 0 (c :: text) =
      match match? (c :: text) with
      | some (captures, length) =>
        new' captures before ((c :: text).take length) ((c :: text).drop length) ++
          replaceMatches match? new' (before ++ [c]) (length - 1) text
      | none => c :: replaceMatches match? new' (before ++ [c]) 0 text := rfl

private theorem replaceMatches_skip (before front back : List α) :
    replaceMatches match? new' before front.length (front ++ back) =
      replaceMatches match? new' (before ++ front) 0 back := by
  induction front generalizing before with
  | nil => rw [List.append_nil]; rfl
  | cons c front ih => rw [List.append_cons before c front]; exact ih _

theorem replaceMatches_of_match (nonempty : front ≠ [])
    (found : match? (front ++ back) = some (captures, front.length)) :
    replaceMatches match? new' before 0 (front ++ back) =
      new' captures before front back ++ replaceMatches match? new' (before ++ front) 0 back := by
  cases front with
  | nil => exact absurd rfl nonempty
  | cons c front =>
    rw [List.cons_append] at found ⊢
    rw [replaceMatches_zero, found]
    dsimp only
    rw [List.length_cons, Nat.add_sub_cancel, replaceMatches_skip, ← List.append_cons, List.take_succ_cons,
      List.take_left, List.drop_succ_cons, List.drop_left]

theorem replaceMatches_cons {c : α} (none_ : match? (c :: text) = none) :
    replaceMatches match? new' before 0 (c :: text) = c :: replaceMatches match? new' (before ++ [c]) 0 text := by
  rw [replaceMatches_zero, none_]

/-- Where no match begins, the text stays. -/
theorem replaceMatches_of_none (none_ : ∀ c rest, c :: rest <:+ text → match? (c :: rest) = none) (before : List α) :
    replaceMatches match? new' before 0 text = text := by
  induction text generalizing before with
  | nil => rfl
  | cons c text ih =>
    rw [replaceMatches_cons (none_ c text (List.suffix_refl _)),
      ih fun c' rest suffix => none_ c' rest (suffix.trans (List.suffix_cons _ _))]

/-- A replacement that does not depend on the place. -/
theorem replaceMatches_eq_replaceAll (value : β → List α) (before text : List α) :
    replaceMatches match? (fun captures _ _ _ => value captures) before 0 text =
      replaceAll (fun rest => (match? rest).map fun hit => (value hit.1, hit.2)) text := by
  have all : ∀ skip before, replaceMatches match? (fun captures _ _ _ => value captures) before skip text =
      replaceFrom (fun rest => (match? rest).map fun hit => (value hit.1, hit.2)) skip text := by
    induction text with
    | nil => exact fun _ _ => rfl
    | cons c text ih =>
      rintro (_ | skip) before
      · rw [replaceFrom_zero, replaceMatches_zero]
        cases match? (c :: text) with
        | none => exact congrArg _ (ih _ _)
        | some hit => exact congrArg _ (ih _ _)
      · exact ih _ _
  exact all 0 before

/-- Replacing commutes with a map that the pattern and the replacement respect. -/
theorem map_replaceMatches {γ : Type} {map : α → γ} {match?' : List γ → Option (β × ℕ)}
    {new'' : β → List γ → List γ → List γ → List γ} (same : ∀ text, match? text = match?' (text.map map))
    (news : ∀ captures before found behind, (new' captures before found behind).map map =
      new'' captures (before.map map) (found.map map) (behind.map map)) (before : List α) (skip : ℕ) (text : List α) :
    (replaceMatches match? new' before skip text).map map =
      replaceMatches match?' new'' (before.map map) skip (text.map map) := by
  induction text generalizing before skip with
  | nil => rfl
  | cons c text ih =>
    cases skip with
    | succ skip =>
      refine (ih _ _).trans ?_
      rw [List.map_append]
      rfl
    | zero =>
      rw [List.map_cons, replaceMatches_zero, replaceMatches_zero, same, List.map_cons]
      cases match?' (map c :: text.map map) with
      | none =>
        dsimp only
        rw [List.map_cons, ih, List.map_append]
        rfl
      | some hit =>
        dsimp only
        rw [List.map_append, news, ih, List.map_take, List.map_drop, List.map_cons, List.map_append]
        rfl

end Places

section Delimited

variable {β : Type} {isStart : α → Prop} {match? : List α → Option (β × ℕ)} {captures : β} {length : ℕ}
  {new' : β → List α → List α → List α → List α} {q : α → Bool}

/-- A pattern whose matches begin with a start that they hold nowhere else. -/
structure Delimited (isStart : α → Prop) (match? : List α → Option (β × ℕ)) : Prop where
  cut {text : List α} {captures : β} {length : ℕ} (found : match? text = some (captures, length)) :
    ∃ c front back, text = (c :: front) ++ back ∧ length = (c :: front).length ∧ isStart c ∧ ∀ x ∈ front, ¬isStart x

/-- What a pattern matches does not depend on what stands behind the match. -/
structure IsLocal (match? : List α → Option (β × ℕ)) : Prop where
  keep {front back : List α} {captures : β} (found : match? (front ++ back) = some (captures, front.length))
    (back' : List α) : match? (front ++ back') = some (captures, front.length)

/-- The search through a text: it goes on behind a character that stays, and behind a match. -/
theorem Delimited.scan (delimited : Delimited isStart match?) {motive : List α → Prop} (nil : motive [])
    (keep : ∀ c text, match? (c :: text) = none → motive text → motive (c :: text))
    (hit : ∀ captures c front back, match? ((c :: front) ++ back) = some (captures, (c :: front).length) → isStart c →
      (∀ x ∈ front, ¬isStart x) → motive back → motive ((c :: front) ++ back)) (text : List α) : motive text := by
  induction size : text.length using Nat.strongRecOn generalizing text with
  | _ size ih =>
    cases text with
    | nil => exact nil
    | cons c text =>
      cases found : match? (c :: text) with
      | none => exact keep c text found (ih _ (by rw [← size]; exact Nat.lt_succ_self _) text rfl)
      | some hits =>
        obtain ⟨captures, length⟩ := hits
        obtain ⟨c', front, back, same, rfl, start, others⟩ := delimited.cut found
        rw [same] at found size ⊢
        refine hit captures c' front back found start others (ih _ ?_ back rfl)
        rw [← size, List.length_append, List.length_cons]
        omega

/-- No match begins where there is no start. -/
theorem Delimited.none_of_not_start (delimited : Delimited isStart match?) {c : α} (other : ¬isStart c) (text : List α) :
    match? (c :: text) = none := by
  cases found : match? (c :: text) with
  | none => rfl
  | some hits =>
    obtain ⟨c', front, back, same, _, start, _⟩ := delimited.cut found
    cases same
    exact absurd start other

theorem Delimited.comap {γ : Type} {map : γ → α} (delimited : Delimited isStart match?) :
    Delimited (isStart <| map ·) fun text => match? (text.map map) where
  cut {text captures length} found := by
    obtain ⟨c, front, back, same, rfl, start, others⟩ := delimited.cut found
    obtain ⟨fore, back', rfl, image, rfl⟩ := List.map_eq_append_iff.mp same
    obtain ⟨c', front', rfl, rfl, rfl⟩ := List.map_eq_cons_iff.mp image
    exact ⟨c', front', back', rfl, by rw [List.length_cons, List.length_cons, List.length_map], start,
      fun x member => others _ (List.mem_map_of_mem member)⟩

theorem IsLocal.comap {γ : Type} {map : γ → α} (local_ : IsLocal match?) :
    IsLocal fun text => match? (text.map map) where
  keep {front back captures} found back' := by
    rw [List.map_append, ← List.length_map map] at found
    rw [List.map_append, local_.keep found, List.length_map]

theorem Delimited.mapCaptures {γ : Type} (delimited : Delimited isStart match?) (value : β → γ) :
    Delimited isStart fun text => (match? text).map fun hit => (value hit.1, hit.2) where
  cut {text captures length} found := by
    obtain ⟨⟨captures', length'⟩, hit, same⟩ := Option.map_eq_some_iff.mp found
    cases same
    exact delimited.cut hit

theorem IsLocal.mapCaptures {γ : Type} (local_ : IsLocal match?) (value : β → γ) :
    IsLocal fun text => (match? text).map fun hit => (value hit.1, hit.2) where
  keep {front back captures} found back' := by
    obtain ⟨⟨captures', length'⟩, hit, same⟩ := Option.map_eq_some_iff.mp found
    cases same
    rw [local_.keep hit, Option.map_some]

/-- A text without starts stays in front of what follows. -/
theorem Delimited.replaceAll_append {replacement? : List α → Option (List α × ℕ)}
    (delimited : Delimited isStart replacement?) (others : ∀ x ∈ front, ¬isStart x) (back : List α) :
    replaceAll replacement? (front ++ back) = front ++ replaceAll replacement? back :=
  JavaScript.replaceAll_append fun _ _ suffix =>
    delimited.none_of_not_start (others _ (suffix.subset List.mem_cons_self)) _

/-- A pass leaves no more of some characters than there were, if it inserts none of them. -/
theorem Delimited.countP_le (delimited : Delimited isStart match?)
    (fresh : ∀ captures before found behind, (new' captures before found behind).countP q = 0) (before text : List α) :
    (replaceMatches match? new' before 0 text).countP q ≤ text.countP q := by
  induction text using delimited.scan generalizing before with
  | nil => exact le_rfl
  | keep c text none_ ih =>
    rw [replaceMatches_cons none_, List.countP_cons, List.countP_cons]
    exact Nat.add_le_add_right (ih _) _
  | hit captures c front back found _ _ ih =>
    rw [replaceMatches_of_match (List.cons_ne_nil _ _) found, List.countP_append, fresh, List.countP_append]
    exact Nat.add_le_add (Nat.zero_le _) (ih _)

/-- A start stands behind a part without starts. -/
private theorem prefix_of_start {c : α} {pre rest : List α} (start : isStart c) (others : ∀ x ∈ front, ¬isStart x)
    (same : pre ++ c :: rest = front ++ back) : front <+: pre := by
  rcases List.append_eq_append_iff.mp same with ⟨gap, split, more⟩ | ⟨gap, split, _⟩
  · cases gap with
    | nil => exact ⟨[], by simp [split]⟩
    | cons x gap =>
      obtain ⟨rfl, _⟩ := List.cons.inj more
      exact absurd start (others _ (split ▸ List.mem_append_right _ List.mem_cons_self))
  · exact ⟨gap, split.symm⟩

/-- It leaves fewer of them if a match holds one. -/
theorem Delimited.countP_lt (delimited : Delimited isStart match?)
    (fresh : ∀ captures before found behind, (new' captures before found behind).countP q = 0) {pre rest : List α}
    (found : match? rest = some (captures, length)) (inside : ∃ x ∈ rest.take length, q x = true)
    (before : List α) : (replaceMatches match? new' before 0 (pre ++ rest)).countP q < (pre ++ rest).countP q := by
  generalize same : pre ++ rest = text
  induction text using delimited.scan generalizing before pre with
  | nil =>
    obtain ⟨c, front, back, shape, _⟩ := delimited.cut found
    rw [shape] at same
    simp at same
  | keep c text none_ ih =>
    cases pre with
    | nil =>
      rw [List.nil_append] at same
      rw [same, none_] at found
      cases found
    | cons c' pre =>
      cases same
      rw [replaceMatches_cons none_, List.countP_cons, List.countP_cons]
      exact Nat.add_lt_add_right (ih _ rfl) _
  | hit captures' c front back matched start others ih =>
    rw [replaceMatches_of_match (List.cons_ne_nil _ _) matched, List.countP_append, fresh, List.countP_append]
    cases pre with
    | nil =>
      rw [List.nil_append] at same
      rw [same, matched] at found
      cases found
      rw [same, List.take_left] at inside
      have positive := List.countP_pos_iff.mpr inside
      have rest := delimited.countP_le fresh (before ++ c :: front) back
      omega
    | cons c' pre =>
      obtain ⟨c'', front', back', rfl, _, start', _⟩ := delimited.cut found
      obtain ⟨rfl, tail⟩ : c' = c ∧ pre ++ (c'' :: front' ++ back') = front ++ back := List.cons.inj same
      obtain ⟨gap, rfl⟩ := prefix_of_start start' others tail
      rw [List.append_assoc, List.append_cancel_left_eq] at tail
      have less := ih (before ++ c' :: front) tail
      omega

section News

variable {value : β → List α}

private theorem replaceAll_of_captures {captures : β} (value : β → List α) (nonempty : front ≠ [])
    (found : match? (front ++ back) = some (captures, front.length)) :
    replaceAll (fun rest => (match? rest).map fun hit => (value hit.1, hit.2)) (front ++ back) =
      value captures ++ replaceAll (fun rest => (match? rest).map fun hit => (value hit.1, hit.2)) back :=
  replaceAll_of_match nonempty (by rw [found, Option.map_some])

/-- A pass that inserts no more of some characters leaves no more of them. -/
theorem Delimited.countP_le_of_new (delimited : Delimited isStart match?)
    (le : ∀ captures before found behind, (new' captures before found behind).countP q ≤ (value captures).countP q)
    (before text : List α) : (replaceMatches match? new' before 0 text).countP q ≤
      (replaceAll (fun rest => (match? rest).map fun hit => (value hit.1, hit.2)) text).countP q := by
  induction text using delimited.scan generalizing before with
  | nil => exact le_rfl
  | keep c text none_ ih =>
    rw [replaceMatches_cons none_, replaceAll_cons (by rw [none_, Option.map_none]), List.countP_cons, List.countP_cons]
    exact Nat.add_le_add_right (ih _) _
  | hit captures c front back found _ _ ih =>
    rw [replaceMatches_of_match (List.cons_ne_nil _ _) found, replaceAll_of_captures value (List.cons_ne_nil _ _) found,
      List.countP_append, List.countP_append]
    exact Nat.add_le_add (le ..) (ih _)

/-- If it inserts fewer of them, it leaves fewer as soon as there is a match. -/
theorem Delimited.countP_lt_of_new (delimited : Delimited isStart match?)
    (less : ∀ captures before found behind, (new' captures before found behind).countP q < (value captures).countP q)
    {pre rest : List α} (found : match? rest = some (captures, length)) (before : List α) :
    (replaceMatches match? new' before 0 (pre ++ rest)).countP q <
      (replaceAll (fun rest => (match? rest).map fun hit => (value hit.1, hit.2)) (pre ++ rest)).countP q := by
  generalize same : pre ++ rest = text
  induction text using delimited.scan generalizing before pre with
  | nil =>
    obtain ⟨c, front, back, shape, _⟩ := delimited.cut found
    rw [shape] at same
    simp at same
  | keep c text none_ ih =>
    cases pre with
    | nil =>
      rw [List.nil_append] at same
      rw [same, none_] at found
      cases found
    | cons c' pre =>
      cases same
      rw [replaceMatches_cons none_, replaceAll_cons (by rw [none_, Option.map_none]), List.countP_cons,
        List.countP_cons]
      exact Nat.add_lt_add_right (ih _ rfl) _
  | hit captures' c front back matched _ _ ih =>
    rw [replaceMatches_of_match (List.cons_ne_nil _ _) matched,
      replaceAll_of_captures value (List.cons_ne_nil _ _) matched, List.countP_append, List.countP_append]
    exact Nat.add_lt_add_of_lt_of_le (less ..)
      (delimited.countP_le_of_new (fun captures before found behind => (less captures before found behind).le) _ _)

end News

/-- A start is reached by the search. -/
theorem Delimited.reaches {replacement? : List α → Option (List α × ℕ)} (delimited : Delimited isStart replacement?)
    {c : α} (start : isStart c) (pre rest : List α) :
    ∃ front, replaceAll replacement? (pre ++ c :: rest) = front ++ replaceAll replacement? (c :: rest) := by
  generalize same : pre ++ c :: rest = text
  induction text using delimited.scan generalizing pre with
  | nil => simp at same
  | keep c' text none_ ih =>
    cases pre with
    | nil => exact ⟨[], by rw [← same, List.nil_append, List.nil_append]⟩
    | cons x pre =>
      obtain ⟨_, tail⟩ := List.cons.inj same
      obtain ⟨front, split⟩ := ih pre tail
      exact ⟨c' :: front, by rw [replaceAll_cons none_, split, List.cons_append]⟩
  | hit new c' front back found _ others ih =>
    cases pre with
    | nil => exact ⟨[], by rw [← same, List.nil_append, List.nil_append]⟩
    | cons x pre =>
      obtain ⟨_, tail⟩ : x = c' ∧ pre ++ c :: rest = front ++ back := List.cons.inj same
      obtain ⟨gap, split⟩ := prefix_of_start start others tail
      rw [← split, List.append_assoc, List.append_cancel_left_eq] at tail
      obtain ⟨front', more⟩ := ih gap tail
      exact ⟨new ++ front', by rw [replaceAll_of_match (List.cons_ne_nil _ _) found, more, List.append_assoc]⟩

/-- What has not been inserted by a pass has been kept at its place. -/
theorem Delimited.kept {replacement? : List α → Option (List α × ℕ)} (delimited : Delimited isStart replacement?) {c : α}
    (old : ∀ {rest new length}, replacement? rest = some (new, length) → c ∉ new) {front more : List α}
    (split : replaceAll replacement? text = front ++ c :: more) :
    ∃ pre rest, text = pre ++ c :: rest ∧ replacement? (c :: rest) = none ∧ more = replaceAll replacement? rest := by
  induction text using delimited.scan generalizing front with
  | nil => simp at split
  | keep c' text none_ ih =>
    rw [replaceAll_cons none_] at split
    cases front with
    | nil =>
      obtain ⟨rfl, same⟩ := List.cons.inj split
      exact ⟨[], text, rfl, none_, same.symm⟩
    | cons x front =>
      obtain ⟨_, tail⟩ := List.cons.inj split
      obtain ⟨pre, rest, rfl, stays, same⟩ := ih tail
      exact ⟨c' :: pre, rest, rfl, stays, same⟩
  | hit new c' front' back found _ _ ih =>
    rw [replaceAll_of_match (List.cons_ne_nil _ _) found] at split
    rcases List.append_eq_append_iff.mp split with ⟨gap, _, tail⟩ | ⟨gap, inside, tail⟩
    · obtain ⟨pre, rest, rfl, stays, same⟩ := ih tail
      exact ⟨c' :: front' ++ pre, rest, (List.append_assoc ..).symm, stays, same⟩
    · cases gap with
      | nil =>
        obtain ⟨pre, rest, rfl, stays, same⟩ := @ih [] tail.symm
        exact ⟨c' :: front' ++ pre, rest, (List.append_assoc ..).symm, stays, same⟩
      | cons x gap =>
        obtain ⟨rfl, _⟩ := List.cons.inj tail
        exact absurd (inside ▸ List.mem_append_right _ List.mem_cons_self) (old found)

private theorem orElse_eq_none {first? second? : Option β} (none_ : (first? <|> second?) = none) :
    first? = none ∧ second? = none := by
  cases first? with
  | none => exact ⟨rfl, none_⟩
  | some value => cases none_

theorem Delimited.orElse {first? second? : List α → Option (β × ℕ)} (first : Delimited isStart first?)
    (second : Delimited isStart second?) : Delimited isStart fun text => first? text <|> second? text where
  cut {text captures length} found := by
    cases hits : first? text with
    | some hits' =>
      rw [hits] at found
      cases found
      exact first.cut hits
    | none =>
      rw [hits] at found
      exact second.cut found

/-- A further pattern that neither matches nor inserts some characters leaves as many of them. -/
theorem Delimited.countP_orElse {first? second? : List α → Option (List α × ℕ)} (first : Delimited isStart first?)
    (second : Delimited isStart second?)
    (none_ : ∀ {pre rest new length}, text = pre ++ rest → first? rest = none → second? rest = some (new, length) →
      (rest.take length).countP q = 0 ∧ new.countP q = 0) :
    (replaceAll (fun rest => first? rest <|> second? rest) text).countP q = (replaceAll first? text).countP q := by
  have steps : ∀ rest, rest <:+ text →
      (replaceAll (fun rest => first? rest <|> second? rest) rest).countP q = (replaceAll first? rest).countP q := by
    intro rest
    induction rest using (first.orElse second).scan with
    | nil => exact fun _ => rfl
    | keep c rest stays ih =>
      intro within
      have kept : replaceAll (fun rest => first? rest <|> second? rest) (c :: rest) =
          c :: replaceAll (fun rest => first? rest <|> second? rest) rest := replaceAll_cons stays
      rw [kept, replaceAll_cons (orElse_eq_none stays).1, List.countP_cons, List.countP_cons,
        ih ((List.suffix_cons _ _).trans within)]
    | hit new c front back found _ others ih =>
      intro within
      have filled : replaceAll (fun rest => first? rest <|> second? rest) ((c :: front) ++ back) =
          new ++ replaceAll (fun rest => first? rest <|> second? rest) back :=
        replaceAll_of_match (List.cons_ne_nil _ _) found
      rw [filled, List.countP_append, ih ((List.suffix_append _ _).trans within)]
      cases hits : first? ((c :: front) ++ back) with
      | some hits' =>
        rw [hits] at found
        cases found
        rw [replaceAll_of_match (List.cons_ne_nil _ _) hits, List.countP_append]
      | none =>
        rw [hits] at found
        obtain ⟨pre, split⟩ := within
        obtain ⟨removed, inserted⟩ := none_ split.symm hits found
        rw [List.take_left, List.countP_cons] at removed
        rw [List.cons_append] at hits
        rw [List.cons_append, replaceAll_cons hits, first.replaceAll_append others, List.countP_cons, List.countP_append]
        omega
  exact steps text (List.suffix_refl _)

/-- A part of a text without repetitions that begins like the rest of the text is the front of this rest. -/
private theorem starts_of_infix {c : α} {rest : List α} (distinct : text.Nodup) (within : c :: rest <:+ text)
    (inside : c :: front <:+: text) : ∃ behind, c :: rest = (c :: front) ++ behind := by
  obtain ⟨pre, split⟩ := within
  obtain ⟨pre', behind, split'⟩ := inside
  rw [List.append_assoc] at split'
  refine ⟨behind, ?_⟩
  have once : ∀ {pre rest}, pre ++ c :: rest = text → c ∉ rest := by
    rintro pre rest rfl
    exact (List.nodup_cons.mp (List.nodup_append.mp distinct).2.1).1
  rcases List.append_eq_append_iff.mp (split.trans split'.symm) with ⟨gap, _, more⟩ | ⟨gap, _, more⟩
  · cases gap with
    | nil => exact more
    | cons x gap =>
      obtain ⟨_, tail⟩ := List.cons.inj more
      exact absurd (tail ▸ List.mem_append_right _ List.mem_cons_self) (once split)
  · cases gap with
    | nil => exact more.symm
    | cons x gap =>
      obtain ⟨_, tail⟩ := List.cons.inj more
      exact absurd (tail ▸ List.mem_append_right _ List.mem_cons_self) (once split')

/-- A pass behind another one comes to a single pass for both patterns if what it matches stands in the text itself. -/
theorem Delimited.replaceAll_replaceAll {first? second? : List α → Option (List α × ℕ)}
    (first : Delimited isStart first?) (second : Delimited isStart second?) (local_ : IsLocal second?)
    (distinct : text.Nodup) (fresh : ∀ {rest new length}, first? rest = some (new, length) → ∀ x ∈ new, x ∉ text)
    (intact : ∀ {front rest new length}, replaceAll first? text = front ++ rest → second? rest = some (new, length) →
      rest.take length <:+: text) :
    replaceAll second? (replaceAll first? text) = replaceAll (fun rest => first? rest <|> second? rest) text := by
  have both : Delimited isStart fun rest => first? rest <|> second? rest := first.orElse second
  have steps : ∀ rest, rest <:+ text →
      (∀ {front back new length}, replaceAll first? rest = front ++ back → second? back = some (new, length) →
        back.take length <:+: text) →
      replaceAll second? (replaceAll first? rest) = replaceAll (fun rest => first? rest <|> second? rest) rest := by
    intro rest
    induction rest using both.scan with
    | nil => exact fun _ _ => rfl
    | keep c rest none_ ih =>
      intro within intact
      obtain ⟨stays, later⟩ := orElse_eq_none none_
      have kept : replaceAll (fun rest => first? rest <|> second? rest) (c :: rest) =
          c :: replaceAll (fun rest => first? rest <|> second? rest) rest := replaceAll_cons none_
      rw [replaceAll_cons stays] at intact ⊢
      rw [kept, replaceAll_cons, ih ((List.suffix_cons _ _).trans within) fun split found =>
        intact (by rw [split, List.cons_append]) found]
      cases found : second? (c :: replaceAll first? rest) with
      | none => rfl
      | some hits =>
        obtain ⟨new, length⟩ := hits
        have inside := intact (List.nil_append _).symm found
        obtain ⟨c', front, back, same, rfl, _⟩ := second.cut found
        rw [same, List.take_left] at inside
        obtain ⟨rfl, _⟩ := List.cons.inj same
        obtain ⟨behind, split⟩ := starts_of_infix distinct within inside
        rw [same] at found
        have early := local_.keep found behind
        rw [← split, later] at early
        cases early
    | hit new c front back found start others ih =>
      intro within intact
      have filled : replaceAll (fun rest => first? rest <|> second? rest) ((c :: front) ++ back) =
          new ++ replaceAll (fun rest => first? rest <|> second? rest) back :=
        replaceAll_of_match (List.cons_ne_nil _ _) found
      rw [filled]
      have within' : back <:+ text := (List.suffix_append _ _).trans within
      cases hits : first? ((c :: front) ++ back) with
      | some hits' =>
        rw [hits] at found
        cases found
        rw [replaceAll_of_match (List.cons_ne_nil _ _) hits] at intact ⊢
        rw [JavaScript.replaceAll_append, ih within' fun split found => intact (by rw [split, List.append_assoc]) found]
        intro x more suffix
        cases later : second? (x :: more ++ replaceAll first? back) with
        | none => rfl
        | some hits' =>
          obtain ⟨new', length'⟩ := hits'
          obtain ⟨before, split⟩ := suffix
          have inside := intact (by rw [← split, List.append_assoc]) later
          obtain ⟨x', front', back', same, rfl, _⟩ := second.cut later
          rw [same, List.take_left] at inside
          obtain ⟨rfl, _⟩ := List.cons.inj same
          have inserted : x ∈ new := split ▸ List.mem_append_right _ List.mem_cons_self
          exact absurd (inside.subset List.mem_cons_self) (fresh hits _ inserted)
      | none =>
        rw [hits] at found
        rw [List.cons_append] at hits
        rw [List.cons_append, replaceAll_cons hits, first.replaceAll_append others, ← List.cons_append] at intact ⊢
        rw [replaceAll_of_match (List.cons_ne_nil _ _) (local_.keep found _),
          ih within' fun split found => intact (by rw [split, List.append_assoc]) found]
  exact steps text (List.suffix_refl _) intact

end Delimited

end JavaScript
