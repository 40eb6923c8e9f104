import Mathlib.Algebra.Ring.Nat
import Mathlib.Data.List.Perm.Basic
import Mathlib.Tactic.Common

/-! # Promises and their microtasks

A promise of this library carries no value: it is pending or fulfilled. An `await` goes on when its
promise is fulfilled. A `then` whose callback returns another promise derives a third one, which is
fulfilled after both: first the callback runs, then the derived promise subscribes to what the callback
returned. Each of these reactions is a microtask of its own, and microtasks run in order.

`Sound` says what may be outstanding and `Live` that no derived promise is forgotten. Both name the two
promises that each derived promise follows, so that its fulfilment can be traced back to theirs.
-/

namespace Async

/-- What happens when a promise is fulfilled: an `await` goes on, a `then` callback returns a promise, or
the promise that waits for this one is fulfilled. -/
inductive Reaction (π κ : Type) where
  | resume (continuation : κ)
  | follow (derived inner : π)
  | fulfil (derived : π)

/-- A reaction to a fulfilled promise, or the subscription of a derived promise to what its callback returned. -/
inductive Microtask (π κ : Type) where
  | react (promise : π) (reaction : Reaction π κ)
  | adopt (derived inner : π)

section Tasks

variable {π κ : Type}

def Reaction.continuation? : Reaction π κ → Option κ
  | .resume continuation => some continuation
  | .follow _ _ | .fulfil _ => none

/-- The reaction that a microtask runs, with its promise. -/
def Microtask.reaction? : Microtask π κ → Option (π × Reaction π κ)
  | .react promise reaction => some (promise, reaction)
  | .adopt _ _ => none

/-- How many microtasks a reaction may still take. -/
def Reaction.work : Reaction π κ → ℕ
  | .resume _ | .fulfil _ => 1
  | .follow _ _ => 3

def Microtask.work : Microtask π κ → ℕ
  | .react _ reaction => reaction.work
  | .adopt _ _ => 2

end Tasks

structure Promises (π κ : Type) where
  fulfilled : π → Bool := fun _ => false
  reactions : List (π × Reaction π κ) := []
  microtasks : List (Microtask π κ) := []

namespace Promises

variable {π κ : Type} [DecidableEq π]

/-- Register a reaction, or schedule it if the promise is already fulfilled. -/
def subscribe (promises : Promises π κ) (promise : π) (reaction : Reaction π κ) : Promises π κ :=
  if promises.fulfilled promise then
    { promises with microtasks := promises.microtasks ++ [.react promise reaction] }
  else { promises with reactions := promises.reactions ++ [(promise, reaction)] }

/-- Fulfil a promise: its reactions are scheduled in the order of their registration. -/
def fulfil (promises : Promises π κ) (promise : π) : Promises π κ :=
  if promises.fulfilled promise then promises
  else
    { fulfilled := Function.update promises.fulfilled promise true
      reactions := promises.reactions.filter (·.1 ≠ promise)
      microtasks := promises.microtasks ++
        (promises.reactions.filter (·.1 = promise)).map fun entry => .react entry.1 entry.2 }

/-- Run a microtask, with the continuation that goes on. -/
def run (promises : Promises π κ) : Microtask π κ → Promises π κ × Option κ
  | .react _ (.resume continuation) => (promises, some continuation)
  | .react _ (.follow derived inner) =>
    ({ promises with microtasks := promises.microtasks ++ [.adopt derived inner] }, none)
  | .react _ (.fulfil derived) => (promises.fulfil derived, none)
  | .adopt derived inner => (promises.subscribe inner (.fulfil derived), none)

/-- Run the first microtask, if there is one. -/
def next? (promises : Promises π κ) : Option (Promises π κ × Option κ) :=
  match promises.microtasks with
  | [] => none
  | microtask :: microtasks => some ({ promises with microtasks }.run microtask)

/-- The reactions that have not run. -/
def outstanding (promises : Promises π κ) : List (π × Reaction π κ) :=
  promises.reactions ++ promises.microtasks.filterMap Microtask.reaction?

variable {promises after : Promises π κ} {promise derived source inner : π} {reaction : Reaction π κ}
  {resumed : Option κ}

section Outstanding

omit [DecidableEq π] in
theorem outstanding_subscribe :
    (promises.subscribe promise reaction).outstanding.Perm (promises.outstanding ++ [(promise, reaction)]) := by
  unfold subscribe outstanding
  split
  · simp [Microtask.reaction?]
  · rw [List.append_assoc, List.append_assoc]
    exact List.perm_append_comm.append_left _

/-- Fulfilling a promise loses no reaction. -/
theorem outstanding_fulfil : (promises.fulfil promise).outstanding.Perm promises.outstanding := by
  unfold fulfil outstanding
  split
  · exact List.Perm.refl _
  · have moved : ((promises.reactions.filter (·.1 = promise)).map fun entry =>
        (Microtask.react entry.1 entry.2 : Microtask π κ)).filterMap Microtask.reaction? =
          promises.reactions.filter (·.1 = promise) := by
      rw [List.filterMap_map]
      exact List.filterMap_some ..
    have split := List.filter_append_perm (fun entry : π × Reaction π κ => decide (entry.1 = promise)) promises.reactions
    have other : promises.reactions.filter (·.1 ≠ promise) =
        promises.reactions.filter fun entry => !decide (entry.1 = promise) := by simp
    rw [List.filterMap_append, moved, other]
    have swapped := @List.perm_append_comm _ (promises.microtasks.filterMap Microtask.reaction?)
      (promises.reactions.filter (·.1 = promise))
    refine (swapped.append_left _).trans ?_
    rw [← List.append_assoc]
    exact (List.perm_append_comm.trans split).append_right _

omit [DecidableEq π] in
theorem mem_outstanding {entry : π × Reaction π κ} :
    entry ∈ promises.outstanding ↔ entry ∈ promises.reactions ∨ .react entry.1 entry.2 ∈ promises.microtasks := by
  unfold outstanding
  rw [List.mem_append, List.mem_filterMap]
  refine or_congr_right ⟨?_, fun listed => ⟨_, listed, rfl⟩⟩
  rintro ⟨_ | _, listed, same⟩ <;> cases same
  exact listed

end Outstanding

section Fulfilled

omit [DecidableEq π] in
@[simp] theorem fulfilled_subscribe : (promises.subscribe promise reaction).fulfilled = promises.fulfilled := by
  unfold subscribe
  split <;> rfl

theorem fulfilled_fulfil {other : π} :
    (promises.fulfil promise).fulfilled other = (promises.fulfilled other || decide (other = promise)) := by
  unfold fulfil
  split
  next already =>
    by_cases same : other = promise
    · rw [same, already, Bool.true_or]
    · simp [same]
  · by_cases same : other = promise
    · simp [same]
    · simp [same]

theorem fulfilled_fulfil_self : (promises.fulfil promise).fulfilled promise = true := by
  simp [fulfilled_fulfil]

/-- Fulfilling a promise undoes no fulfilment. -/
theorem fulfilled_fulfil_of {other : π} (already : promises.fulfilled other = true) :
    (promises.fulfil promise).fulfilled other = true := by
  rw [fulfilled_fulfil, already, Bool.true_or]

end Fulfilled

/-- What a reaction is registered for: it follows the two promises of a derived one in turn. -/
def Fits (links : π → Option (π × π)) (promises : Promises π κ) (promise : π) : Reaction π κ → Prop
  | .resume _ => True
  | .follow derived inner => links derived = some (promise, inner)
  | .fulfil derived => ∃ source, links derived = some (source, promise) ∧ promises.fulfilled source = true

/-- What may be outstanding: a registered reaction has a pending promise and a scheduled one a fulfilled
promise, and what remains to be done for a derived promise is done for the two promises that it follows. -/
structure Sound (links : π → Option (π × π)) (promises : Promises π κ) : Prop where
  pending : ∀ entry ∈ promises.reactions, promises.fulfilled entry.1 = false
  due : ∀ promise reaction, .react promise reaction ∈ promises.microtasks → promises.fulfilled promise = true
  fits : ∀ entry ∈ promises.outstanding, promises.Fits links entry.1 entry.2
  adopts : ∀ derived inner, .adopt derived inner ∈ promises.microtasks →
    ∃ source, links derived = some (source, inner) ∧ promises.fulfilled source = true
  derives : ∀ derived source inner, links derived = some (source, inner) → promises.fulfilled derived = true →
    promises.fulfilled source = true ∧ promises.fulfilled inner = true

/-- A derived promise is fulfilled, or something remains to be done for it. -/
def Served (promises : Promises π κ) (derived source inner : π) : Prop :=
  promises.fulfilled derived = true ∨ (source, .follow derived inner) ∈ promises.outstanding ∨
    .adopt derived inner ∈ promises.microtasks ∨ (inner, .fulfil derived) ∈ promises.outstanding

/-- No derived promise is forgotten. -/
def Live (links : π → Option (π × π)) (promises : Promises π κ) : Prop :=
  ∀ derived source inner, links derived = some (source, inner) → promises.Served derived source inner

variable {links more : π → Option (π × π)}

section Operations

omit [DecidableEq π] in
theorem Fits.mono (fits : promises.Fits links promise reaction)
    (extends_ : ∀ derived pair, links derived = some pair → more derived = some pair)
    (later : ∀ other, promises.fulfilled other = true → after.fulfilled other = true) :
    after.Fits more promise reaction := by
  cases reaction with
  | resume => trivial
  | follow derived inner => exact extends_ _ _ fits
  | fulfil derived =>
    obtain ⟨source, linked, settled⟩ := fits
    exact ⟨source, extends_ _ _ linked, later _ settled⟩

omit [DecidableEq π] in
/-- A promise may be derived that was never fulfilled. -/
theorem Sound.extend (sound : promises.Sound links)
    (extends_ : ∀ derived pair, links derived = some pair → more derived = some pair)
    (fresh : ∀ derived, links derived = none → more derived ≠ none → promises.fulfilled derived = false) :
    promises.Sound more where
  pending := sound.pending
  due := sound.due
  fits entry listed := (sound.fits entry listed).mono extends_ fun _ settled => settled
  adopts derived inner listed := by
    obtain ⟨source, linked, settled⟩ := sound.adopts derived inner listed
    exact ⟨source, extends_ _ _ linked, settled⟩
  derives derived source inner linked settled := by
    cases before : links derived with
    | none =>
      rw [fresh derived before (by simp [linked])] at settled
      cases settled
    | some pair =>
      obtain rfl : pair = (source, inner) := Option.some.inj ((extends_ _ _ before).symm.trans linked)
      exact sound.derives derived source inner before settled

omit [DecidableEq π] in
theorem Sound.subscribe (sound : promises.Sound links) (fits : promises.Fits links promise reaction) :
    (promises.subscribe promise reaction).Sound links where
  pending entry listed := by
    rw [fulfilled_subscribe]
    unfold Promises.subscribe at listed
    split at listed
    · exact sound.pending entry listed
    next waits =>
      rcases List.mem_append.mp listed with old | new
      · exact sound.pending entry old
      · rw [List.mem_singleton.mp new]
        exact Bool.eq_false_iff.mpr waits
  due other reaction' listed := by
    rw [fulfilled_subscribe]
    unfold Promises.subscribe at listed
    split at listed
    next settled =>
      rcases List.mem_append.mp listed with old | new
      · exact sound.due other reaction' old
      · cases List.mem_singleton.mp new
        exact settled
    · exact sound.due other reaction' listed
  fits entry listed := by
    have settled : ∀ other, promises.fulfilled other = true →
        (promises.subscribe promise reaction).fulfilled other = true := fun other settled => by
      rwa [fulfilled_subscribe]
    rcases List.mem_append.mp ((outstanding_subscribe).mem_iff.mp listed) with old | new
    · exact (sound.fits entry old).mono (fun _ _ linked => linked) settled
    · cases List.mem_singleton.mp new
      exact fits.mono (fun _ _ linked => linked) settled
  adopts derived inner listed := by
    rw [fulfilled_subscribe]
    unfold Promises.subscribe at listed
    split at listed
    · rcases List.mem_append.mp listed with old | new
      · exact sound.adopts derived inner old
      · cases List.mem_singleton.mp new
    · exact sound.adopts derived inner listed
  derives := by
    rw [fulfilled_subscribe]
    exact sound.derives

/-- A promise may be fulfilled when it follows no other, or when both that it follows are. -/
theorem Sound.fulfil (sound : promises.Sound links) (ready : ∀ source inner, links promise = some (source, inner) →
    promises.fulfilled source = true ∧ promises.fulfilled inner = true) : (promises.fulfil promise).Sound links where
  pending entry listed := by
    unfold Promises.fulfil at listed ⊢
    split at listed
    next already =>
      rw [if_pos already]
      exact sound.pending entry listed
    next waits =>
      rw [if_neg waits]
      obtain ⟨registered, other⟩ := List.mem_filter.mp listed
      exact (Function.update_of_ne (of_decide_eq_true other) _ _).trans (sound.pending entry registered)
  due other reaction' listed := by
    unfold Promises.fulfil at listed
    split at listed
    · exact fulfilled_fulfil_of (sound.due other reaction' listed)
    · rcases List.mem_append.mp listed with old | new
      · exact fulfilled_fulfil_of (sound.due other reaction' old)
      · obtain ⟨entry, moved, same⟩ := List.mem_map.mp new
        cases same
        rw [of_decide_eq_true (List.mem_filter.mp moved).2]
        exact fulfilled_fulfil_self
  fits entry listed :=
    (sound.fits entry ((outstanding_fulfil).mem_iff.mp listed)).mono (fun _ _ linked => linked)
      fun _ settled => fulfilled_fulfil_of settled
  adopts derived inner listed := by
    have known : .adopt derived inner ∈ promises.microtasks := by
      unfold Promises.fulfil at listed
      split at listed
      · exact listed
      · rcases List.mem_append.mp listed with old | new
        · exact old
        · obtain ⟨_, _, same⟩ := List.mem_map.mp new
          cases same
    obtain ⟨source, linked, settled⟩ := sound.adopts derived inner known
    exact ⟨source, linked, fulfilled_fulfil_of settled⟩
  derives derived source inner linked settled := by
    rw [fulfilled_fulfil, Bool.or_eq_true, decide_eq_true_eq] at settled
    have both : promises.fulfilled source = true ∧ promises.fulfilled inner = true := by
      rcases settled with already | rfl
      · exact sound.derives derived source inner linked already
      · exact ready source inner linked
    exact ⟨fulfilled_fulfil_of both.1, fulfilled_fulfil_of both.2⟩

end Operations

section Steps

variable {microtask : Microtask π κ} {rest : List (Microtask π κ)}

theorem next?_eq_some : promises.next? = some (after, resumed) ↔
    ∃ microtask rest, promises.microtasks = microtask :: rest ∧
      ({ promises with microtasks := rest } : Promises π κ).run microtask = (after, resumed) := by
  unfold next?
  split
  next none_ => simp [none_]
  next first others head => simp [head]

omit [DecidableEq π] in
/-- What is outstanding apart from the first microtask. -/
theorem outstanding_cons (head : promises.microtasks = microtask :: rest) :
    promises.outstanding.Perm
      (microtask.reaction?.toList ++ ({ promises with microtasks := rest } : Promises π κ).outstanding) := by
  unfold outstanding
  rw [head]
  cases microtask with
  | react promise reaction => exact List.perm_middle
  | adopt derived inner => exact List.Perm.refl _

omit [DecidableEq π] in
theorem mem_outstanding_cons (head : promises.microtasks = microtask :: rest) {entry : π × Reaction π κ} :
    entry ∈ promises.outstanding ↔
      microtask = .react entry.1 entry.2 ∨ entry ∈ ({ promises with microtasks := rest } : Promises π κ).outstanding := by
  rw [(outstanding_cons head).mem_iff, List.mem_append, Option.mem_toList]
  refine or_congr_left ?_
  cases microtask with
  | react promise reaction => simp [Microtask.reaction?, Prod.ext_iff]
  | adopt derived inner => simp [Microtask.reaction?]

omit [DecidableEq π] in
private theorem Sound.drop (sound : promises.Sound links) (head : promises.microtasks = microtask :: rest) :
    ({ promises with microtasks := rest } : Promises π κ).Sound links where
  pending := sound.pending
  due promise reaction listed := sound.due promise reaction (by rw [head]; exact List.mem_cons_of_mem _ listed)
  fits entry listed := sound.fits entry ((mem_outstanding_cons head).mpr (.inr listed))
  adopts derived inner listed := sound.adopts derived inner (by rw [head]; exact List.mem_cons_of_mem _ listed)
  derives := sound.derives

/-- A microtask keeps to what is outstanding. -/
theorem Sound.next (sound : promises.Sound links) (ran : promises.next? = some (after, resumed)) :
    after.Sound links := by
  obtain ⟨microtask, rest, head, ran⟩ := (next?_eq_some).mp ran
  have dropped := sound.drop head
  have first : microtask ∈ promises.microtasks := by simp [head]
  match microtask, ran with
  | .react promise (.resume continuation), ran =>
    cases ran
    exact dropped
  | .react promise (.follow derived inner), ran =>
    cases ran
    have linked := sound.fits (promise, .follow derived inner) ((mem_outstanding).mpr (.inr first))
    refine ⟨dropped.pending, fun other reaction listed => ?_, fun entry listed => ?_, fun other inner' listed => ?_,
      dropped.derives⟩
    · rcases List.mem_append.mp listed with old | new
      · exact dropped.due other reaction old
      · cases List.mem_singleton.mp new
    · refine dropped.fits entry ((mem_outstanding).mpr ?_)
      rcases (mem_outstanding).mp listed with registered | scheduled
      · exact .inl registered
      · rcases List.mem_append.mp scheduled with old | new
        · exact .inr old
        · cases List.mem_singleton.mp new
    · rcases List.mem_append.mp listed with old | new
      · exact dropped.adopts other inner' old
      · cases List.mem_singleton.mp new
        exact ⟨promise, linked, sound.due promise _ first⟩
  | .react promise (.fulfil derived), ran =>
    cases ran
    obtain ⟨source, linked, settled⟩ := sound.fits (promise, .fulfil derived) ((mem_outstanding).mpr (.inr first))
    refine dropped.fulfil fun source' inner' linked' => ?_
    cases linked.symm.trans linked'
    exact ⟨settled, sound.due promise _ first⟩
  | .adopt derived inner, ran =>
    cases ran
    exact dropped.subscribe (sound.adopts derived inner first)

/-- What a microtask fulfils follows two other promises. -/
theorem fulfilled_next (sound : promises.Sound links) (ran : promises.next? = some (after, resumed)) :
    (∀ other, promises.fulfilled other = true → after.fulfilled other = true) ∧
      ∀ other, links other = none → after.fulfilled other = promises.fulfilled other := by
  obtain ⟨microtask, rest, head, ran⟩ := (next?_eq_some).mp ran
  have first : microtask ∈ promises.microtasks := by simp [head]
  match microtask, ran with
  | .react promise (.resume continuation), ran | .react promise (.follow derived inner), ran =>
    cases ran
    exact ⟨fun _ settled => settled, fun _ _ => rfl⟩
  | .react promise (.fulfil derived), ran =>
    cases ran
    obtain ⟨source, linked, _⟩ := sound.fits (promise, .fulfil derived) ((mem_outstanding).mpr (.inr first))
    refine ⟨fun _ settled => fulfilled_fulfil_of settled, fun other free => ?_⟩
    have differ : other ≠ derived := by
      rintro rfl
      rw [free] at linked
      cases linked
    rw [fulfilled_fulfil, decide_eq_false differ, Bool.or_false]
  | .adopt derived inner, ran =>
    cases ran
    rw [fulfilled_subscribe]
    exact ⟨fun _ settled => settled, fun _ _ => rfl⟩

/-- A continuation goes on behind a fulfilled promise, and nothing else is resumed or forgotten. -/
theorem resume_next (sound : promises.Sound links) (ran : promises.next? = some (after, resumed)) :
    (∀ continuation, resumed = some continuation →
      ∃ promise, promises.fulfilled promise = true ∧ (promise, .resume continuation) ∈ promises.outstanding) ∧
    ∀ promise continuation, (promise, .resume continuation) ∈ after.outstanding →
      (promise, .resume continuation) ∈ promises.outstanding := by
  obtain ⟨microtask, rest, head, ran⟩ := (next?_eq_some).mp ran
  have first : microtask ∈ promises.microtasks := by simp [head]
  have later {entry : π × Reaction π κ} (listed : entry ∈ ({ promises with microtasks := rest } : Promises π κ).outstanding) :
      entry ∈ promises.outstanding := (mem_outstanding_cons head).mpr (.inr listed)
  match microtask, ran with
  | .react promise (.resume continuation), ran =>
    cases ran
    refine ⟨fun _ same => ?_, fun _ _ listed => later listed⟩
    cases same
    exact ⟨promise, sound.due promise _ first, (mem_outstanding).mpr (.inr first)⟩
  | .react promise (.follow derived inner), ran =>
    cases ran
    refine ⟨nofun, fun other continuation listed => later ((mem_outstanding).mpr ?_)⟩
    rcases (mem_outstanding).mp listed with registered | scheduled
    · exact .inl registered
    · rcases List.mem_append.mp scheduled with old | new
      · exact .inr old
      · cases List.mem_singleton.mp new
  | .react promise (.fulfil derived), ran =>
    cases ran
    exact ⟨nofun, fun _ _ listed => later ((outstanding_fulfil).mem_iff.mp listed)⟩
  | .adopt derived inner, ran =>
    cases ran
    refine ⟨nofun, fun other continuation listed => ?_⟩
    rcases List.mem_append.mp ((outstanding_subscribe).mem_iff.mp listed) with old | new
    · exact later old
    · cases List.mem_singleton.mp new

end Steps

section Continuations

/-- The continuations that have not gone on. -/
def continuations (promises : Promises π κ) : List κ :=
  promises.outstanding.filterMap fun entry => entry.2.continuation?

omit [DecidableEq π] in
theorem continuations_subscribe : (promises.subscribe promise reaction).continuations.Perm
    (promises.continuations ++ reaction.continuation?.toList) := by
  refine ((outstanding_subscribe).filterMap _).trans ?_
  rw [List.filterMap_append]
  refine List.Perm.append_left _ ?_
  cases reaction <;> exact List.Perm.refl _

theorem continuations_fulfil : (promises.fulfil promise).continuations.Perm promises.continuations :=
  (outstanding_fulfil).filterMap _

/-- A continuation that goes on is the only one that is taken away. -/
theorem continuations_next (ran : promises.next? = some (after, resumed)) :
    (resumed.toList ++ after.continuations).Perm promises.continuations := by
  obtain ⟨microtask, rest, head, ran⟩ := (next?_eq_some).mp ran
  have whole := (outstanding_cons head).filterMap fun entry => entry.2.continuation?
  rw [List.filterMap_append] at whole
  refine List.Perm.trans ?_ whole.symm
  match microtask, ran with
  | .react promise (.resume continuation), ran =>
    cases ran
    exact List.Perm.refl _
  | .react promise (.follow derived inner), ran =>
    cases ran
    have same : ({ promises with microtasks := rest ++ [.adopt derived inner] } : Promises π κ).outstanding =
        ({ promises with microtasks := rest } : Promises π κ).outstanding := by
      simp [outstanding, Microtask.reaction?]
    rw [continuations, same]
    exact List.Perm.refl _
  | .react promise (.fulfil derived), ran =>
    cases ran
    exact continuations_fulfil
  | .adopt derived inner, ran =>
    cases ran
    refine (continuations_subscribe).trans ?_
    rw [Reaction.continuation?, Option.toList_none, List.append_nil]
    exact List.Perm.refl _

end Continuations

section Progress

omit [DecidableEq π] in
theorem Served.subscribe (served : promises.Served derived source inner) :
    (promises.subscribe promise reaction).Served derived source inner := by
  have later {entry : π × Reaction π κ} (listed : entry ∈ promises.outstanding) :
      entry ∈ (promises.subscribe promise reaction).outstanding :=
    (outstanding_subscribe).mem_iff.mpr (List.mem_append_left _ listed)
  unfold Served
  rw [fulfilled_subscribe]
  refine served.imp_right (Or.imp later (Or.imp (fun listed => ?_) later))
  unfold Promises.subscribe
  split
  · exact List.mem_append_left _ listed
  · exact listed

theorem Served.fulfil (served : promises.Served derived source inner) :
    (promises.fulfil promise).Served derived source inner := by
  have later {entry : π × Reaction π κ} (listed : entry ∈ promises.outstanding) :
      entry ∈ (promises.fulfil promise).outstanding := (outstanding_fulfil).mem_iff.mpr listed
  refine served.imp fulfilled_fulfil_of (Or.imp later (Or.imp (fun listed => ?_) later))
  unfold Promises.fulfil
  split
  · exact listed
  · exact List.mem_append_left _ listed

/-- A microtask does something for its derived promise and leaves the others as they are. -/
theorem Live.next (live : promises.Live links) (sound : promises.Sound links)
    (ran : promises.next? = some (after, resumed)) : after.Live links := by
  intro derived source inner linked
  have served := live derived source inner linked
  obtain ⟨microtask, rest, head, ran⟩ := (next?_eq_some).mp ran
  have first : microtask ∈ promises.microtasks := by simp [head]
  unfold Served at served
  rw [mem_outstanding_cons head, mem_outstanding_cons head, head, List.mem_cons] at served
  match microtask, ran with
  | .react promise (.resume continuation), ran =>
    cases ran
    simpa [Served] using served
  | .react promise (.follow other inner'), ran =>
    cases ran
    have linked' := sound.fits (promise, .follow other inner') ((mem_outstanding).mpr (.inr first))
    rcases served with settled | (same | listed) | (same | listed) | (same | listed)
    · exact .inl settled
    · cases same
      exact .inr (.inr (.inl (List.mem_append_right _ (List.mem_singleton.mpr rfl))))
    · exact .inr (.inl (by simpa [outstanding, Microtask.reaction?] using listed))
    · cases same
    · exact .inr (.inr (.inl (List.mem_append_left _ listed)))
    · cases same
    · exact .inr (.inr (.inr (by simpa [outstanding, Microtask.reaction?] using listed)))
  | .react promise (.fulfil other), ran =>
    cases ran
    by_cases same : derived = other
    · rw [same]
      exact .inl fulfilled_fulfil_self
    · apply Served.fulfil
      rcases served with settled | (first | listed) | (first | listed) | (first | listed)
      · exact .inl settled
      · cases first
      · exact .inr (.inl listed)
      · cases first
      · exact .inr (.inr (.inl listed))
      · cases first
        exact absurd rfl same
      · exact .inr (.inr (.inr listed))
  | .adopt other inner', ran =>
    cases ran
    rcases served with settled | (first | listed) | (first | listed) | (first | listed)
    · exact Served.subscribe (.inl settled)
    · cases first
    · exact Served.subscribe (.inr (.inl listed))
    · cases first
      exact .inr (.inr (.inr ((outstanding_subscribe).mem_iff.mpr
        (List.mem_append_right _ (List.mem_singleton.mpr rfl)))))
    · exact Served.subscribe (.inr (.inr (.inl listed)))
    · cases first
    · exact Served.subscribe (.inr (.inr (.inr listed)))

omit [DecidableEq π] in
/-- When no microtask is left, every derived promise is fulfilled that can be. -/
theorem Live.rest (live : promises.Live links) (sound : promises.Sound links) (rest : promises.microtasks = [])
    (linked : links derived = some (source, inner)) (first : promises.fulfilled source = true)
    (second : promises.fulfilled inner = true) : promises.fulfilled derived = true := by
  have waits {entry : π × Reaction π κ} (listed : entry ∈ promises.outstanding) :
      promises.fulfilled entry.1 = false := by
    rcases (mem_outstanding).mp listed with registered | scheduled
    · exact sound.pending entry registered
    · rw [rest] at scheduled
      cases scheduled
  rcases live derived source inner linked with settled | listed | adopting | listed
  · exact settled
  · exact absurd ((waits listed).symm.trans first) nofun
  · rw [rest] at adopting
    cases adopting
  · exact absurd ((waits listed).symm.trans second) nofun

end Progress

section Work

/-- A bound on the microtasks that may still run. -/
def work (promises : Promises π κ) : ℕ :=
  (promises.reactions.map fun entry => entry.2.work).sum + (promises.microtasks.map Microtask.work).sum

omit [DecidableEq π] in
theorem work_subscribe : (promises.subscribe promise reaction).work = promises.work + reaction.work := by
  unfold subscribe work
  split
  · simp [Microtask.work, Nat.add_assoc]
  · simp [Nat.add_right_comm]

theorem work_fulfil : (promises.fulfil promise).work = promises.work := by
  unfold fulfil work
  split
  · rfl
  · have split := ((List.filter_append_perm (fun entry : π × Reaction π κ => decide (entry.1 = promise))
      promises.reactions).map fun entry => entry.2.work).sum_nat
    have moved : ((promises.reactions.filter (·.1 = promise)).map fun entry =>
        (Microtask.react entry.1 entry.2 : Microtask π κ)).map Microtask.work =
          (promises.reactions.filter (·.1 = promise)).map fun entry => entry.2.work := by
      rw [List.map_map]
      rfl
    rw [List.map_append, List.sum_append] at split
    rw [List.map_append, List.sum_append, moved, ← split]
    simp only [ne_eq, decide_not]
    omega

/-- Microtasks run out: what one of them schedules takes less than itself. -/
theorem work_next (ran : promises.next? = some (after, resumed)) : after.work < promises.work := by
  obtain ⟨microtask, rest, head, ran⟩ := (next?_eq_some).mp ran
  have whole : promises.work = microtask.work + ({ promises with microtasks := rest } : Promises π κ).work := by
    simp only [work, head, List.map_cons, List.sum_cons]
    omega
  rw [whole]
  match microtask, ran with
  | .react promise (.resume continuation), ran =>
    cases ran
    simp [Microtask.work, Reaction.work]
  | .react promise (.follow derived inner), ran =>
    cases ran
    simp only [work, Microtask.work, Reaction.work, List.map_append, List.map_cons, List.map_nil, List.sum_append,
      List.sum_cons, List.sum_nil]
    omega
  | .react promise (.fulfil derived), ran =>
    cases ran
    rw [work_fulfil]
    simp [Microtask.work, Reaction.work]
  | .adopt derived inner, ran =>
    cases ran
    rw [work_subscribe, Microtask.work, Reaction.work]
    omega

end Work

end Promises

end Async
