import Mathlib.Data.List.Infix

/-! Runs of a state machine whose steps are admitted where they are taken, and what they keep.
`Exact` says what a step needs so that a run is sound in every state exactly as long as each of
its steps is admitted in the state before it.
-/

namespace Zay.Lib

open List

variable {σ α : Type*}

/-- Every step is admitted in the state in which it is taken. -/
def AllAdmitted (step : σ → α → σ) (admits : σ → α → Prop) : σ → List α → Prop
  | _, [] => True
  | state, next :: rest => admits state next ∧ AllAdmitted step admits (step state next) rest

/-- `valid` is the invariant, together with the steps that are still to come. -/
structure Exact (step : σ → α → σ) (valid : σ → List α → Prop) (sound : σ → Prop)
    (admits : σ → α → Prop)
    : Prop where
  sound_of_valid : ∀ state rest, valid state rest → sound state
  valid_step
    : ∀ state next rest, valid state (next :: rest) → admits state next →
      valid (step state next) rest
  admits_of_sound
    : ∀ state next rest, valid state (next :: rest) → sound (step state next) →
      admits state next

variable {step : σ → α → σ} {valid : σ → List α → Prop} {sound : σ → Prop} {admits : σ → α → Prop}
  {steps : List α} {state : σ}

/-- An invariant of the admitted steps holds at the end of a run. -/
theorem AllAdmitted.run (ha : AllAdmitted step admits state steps) (valid : σ → List α → Prop)
    (hk : ∀ state next rest, valid state (next :: rest) → admits state next →
      valid (step state next) rest) (start : valid state steps)
    : valid (steps.foldl step state) [] := by
  induction steps generalizing state with
  | nil => exact start
  | cons first rest ih => exact ih ha.2 (hk state first rest start ha.1)

/-- Every state of a run is sound exactly when every step is admitted where it is taken. -/
theorem Exact.forall_sound_iff (exact : Exact step valid sound admits) (start : valid state steps)
    : (∀ done, done <+: steps → sound (done.foldl step state))
      ↔ ∀ done next, done ++ [next] <+: steps → admits (done.foldl step state) next := by
  induction steps generalizing state with
  | nil =>
    constructor
    · intro _ done next hno
      simp at hno
    · intro _ done only
      rw [prefix_nil.mp only]
      exact exact.sound_of_valid _ _ start
  | cons first rest ih =>
    constructor
    · intro all
      have begin : admits state first :=
        exact.admits_of_sound _ _ _ start (all [first] ⟨rest, rfl⟩)
      have hr := (ih (exact.valid_step _ _ _ start begin)).mp fun done he =>
        all (first :: done) (cons_prefix_cons.mpr ⟨rfl, he⟩)
      intro done next he
      cases done with
      | nil =>
        obtain ⟨rfl, -⟩ := cons_prefix_cons.mp he
        exact begin
      | cons head done =>
        obtain ⟨rfl, hw⟩ := cons_prefix_cons.mp he
        exact hr done next hw
    · intro all
      have begin : admits state first := all [] first ⟨rest, rfl⟩
      have hr := (ih (exact.valid_step _ _ _ start begin)).mpr fun done next he =>
        all (first :: done) next (cons_prefix_cons.mpr ⟨rfl, he⟩)
      intro done he
      cases done with
      | nil => exact exact.sound_of_valid _ _ start
      | cons head done =>
        obtain ⟨rfl, hw⟩ := cons_prefix_cons.mp he
        exact hr done hw

/-- A property of all initial parts of a list, where the empty part has it. -/
theorem forall_take_cons {motive : List α → Prop} {first : α} {rest : List α} (empty : motive [])
    : (∀ count, motive ((first :: rest).take count)) ↔ ∀ count, motive (first :: rest.take count) :=
  ⟨fun all count => all (count + 1), fun all count =>
    match count with
    | 0 => empty
    | count + 1 => all count⟩

/-- Of two walks that stop here or go on, one that stops differs at once from one that goes on. -/
theorem forall_stop_iff {β} {stops stopsToo : Bool} {here there : β} {on onToo : Nat → β}
    (hl : here ≠ onToo 0) (hr : on 0 ≠ there)
    : (∀ count, (if !stops then on count else here) = if !stopsToo then onToo count else there)
      ↔ stops = stopsToo ∧ (stops → here = there) ∧ (¬stops → ∀ count, on count = onToo count) := by
  cases stops <;> cases stopsToo
  · simp
  · simpa using ⟨0, hr⟩
  · simpa using ⟨0, hl⟩
  · simp

end Zay.Lib
