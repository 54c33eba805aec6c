import Mathlib.Logic.Basic

/-! Commands that change a state and may fail. A command that fails keeps the changes it has
made by then, so what it leads to is said of both ends.
-/

namespace Zay.Lib

open List

variable {ε σ α β : Type}

/-- From `state` the command ends with a result and a state that meet `success`, or fails in a
state that meets `failure`.
-/
def Leads (command : EStateM ε σ α) (state : σ) (success : α → σ → Prop) (failure : σ → Prop)
    : Prop :=
  match command state with
  | .ok result next => success result next
  | .error _ next => failure next

variable {success : α → σ → Prop} {failure failure' : σ → Prop} {state : σ}
  {command : EStateM ε σ β}

theorem Leads.mono {command : EStateM ε σ α} {success' : α → σ → Prop}
    (leads : Leads command state success failure)
    (stronger : ∀ result next, success result next → success' result next)
    (stronger' : ∀ next, failure next → failure' next)
    : Leads command state success' failure' := by
  unfold Leads at leads ⊢
  split at leads
  · exact stronger _ _ leads
  · exact stronger' _ leads

variable {next : β → EStateM ε σ α}

theorem leads_bind
    : Leads (command >>= next) state success failure
      ↔ Leads command state (fun result later => Leads (next result) later success failure)
        failure := by
  unfold Leads
  simp only [bind, EStateM.bind]
  cases command state <;> rfl

theorem Leads.bind {middle : β → σ → Prop} (leads : Leads command state middle failure')
    (hr : ∀ result state, middle result state → Leads (next result) state success failure)
    (failed : ∀ state, failure' state → failure state)
    : Leads (command >>= next) state success failure :=
  leads_bind.mpr (leads.mono hr failed)

theorem leads_pure {result : α}
    : Leads (pure result : EStateM ε σ α) state success failure ↔ success result state :=
  Iff.rfl

theorem leads_get {success : σ → σ → Prop}
    : Leads (get : EStateM ε σ σ) state success failure ↔ success state state :=
  Iff.rfl

theorem leads_modify {change} {success : PUnit → σ → Prop}
    : Leads (modify change : EStateM ε σ PUnit) state success failure
      ↔ success ⟨⟩ (change state) :=
  Iff.rfl

theorem leads_ite {condition : Prop} [Decidable condition] {yes no : EStateM ε σ α}
    : Leads (if condition then yes else no) state success failure
      ↔ (condition → Leads yes state success failure)
        ∧ (¬condition → Leads no state success failure) := by
  by_cases h : condition
  · simp [h]
  · simp [h]

/-- A fold keeps an invariant that each of its rounds keeps. -/
theorem leads_foldlM (invariant : β → σ → Prop) {round : β → α → EStateM ε σ β} {items : List α}
    (hk : ∀ item ∈ items, ∀ result state, invariant result state →
      Leads (round result item) state invariant failure)
    {start : β} (initial : invariant start state)
    : Leads (items.foldlM round start) state invariant failure := by
  induction items generalizing start state with
  | nil => exact initial
  | cons item items ih =>
    rw [foldlM_cons]
    refine (hk item (mem_cons_self ..) start state initial).bind ?_ fun _ => id
    intro result next hh
    exact ih (fun other hm => hk other (mem_cons_of_mem _ hm)) hh

end Zay.Lib
