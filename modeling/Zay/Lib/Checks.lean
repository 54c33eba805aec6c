import Mathlib.Logic.Basic

/-! Chains of fallible checks: when such a chain succeeds. -/

namespace Zay.Lib

open List

variable {ε α β : Type} {convert : α → Except ε β} {next : Except ε α} {items : List α} {result : β}

theorem bind_eq_ok {first : Except ε α} {next}
    : (first >>= next) = .ok result ↔ ∃ value, first = .ok value ∧ next value = .ok result := by
  cases first with
  | error error => simp [bind, Except.bind]
  | ok value => simp [bind, Except.bind]

theorem check_eq_ok {check} {result : α}
    : (check >>= fun _ => next) = .ok result ↔ check = .ok () ∧ next = .ok result := by
  cases check with
  | error error => simp [bind, Except.bind]
  | ok _ => simp [bind, Except.bind]

theorem guard_eq_ok {hr : Prop} [Decidable hr] {error : ε} {result : α}
    : (if hr then .error error else next) = .ok result ↔ ¬hr ∧ next = .ok result := by
  by_cases h : hr
  · simp [h]
  · simp [h]

theorem exists_of_any {next} {holds : α → Bool} (some : (next : Except ε α).toOption.any holds)
    : ∃ result, next = .ok result ∧ holds result := by
  cases next with
  | error error => cases some
  | ok result => exact ⟨result, rfl, some⟩

theorem mapM_eq_ok {result} (each : ∀ item ∈ items, convert item = .ok (result item))
    : items.mapM convert = .ok (items.map result) := by
  induction items with
  | nil => rfl
  | cons item items ih =>
    obtain ⟨head, tail⟩ := forall_mem_cons.mp each
    rw [mapM_cons, head, ih tail]
    rfl

theorem mem_of_mapM {results} (made : items.mapM convert = .ok results) (hm : result ∈ results)
    : ∃ item ∈ items, convert item = .ok result := by
  induction items generalizing results with
  | nil =>
    cases made
    cases hm
  | cons item items ih =>
    rw [mapM_cons] at made
    obtain ⟨_, head, rest⟩ := bind_eq_ok.mp made
    obtain ⟨_, tail, hj⟩ := bind_eq_ok.mp rest
    cases hj
    rcases mem_cons.mp hm with rfl | hm
    · exact ⟨item, mem_cons_self, head⟩
    obtain ⟨other, hl, converted⟩ := ih tail hm
    exact ⟨other, mem_cons_of_mem _ hl, converted⟩

end Zay.Lib
