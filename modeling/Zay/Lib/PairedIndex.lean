import Zay.Lib.AssocMap

/-! Two indices of the same entries: each entry has one end in either index, and each index
lists exactly the entries of the other.
-/

namespace Zay.Lib

open Function

variable {K R V : Type}

structure Paired (forward : K → Option V) (reverse : R → Option V) (ends : V → Option (K × R))
    : Prop where
  answered : ∀ {key entry}, forward key = some entry →
    ∃ answer, ends entry = some (key, answer) ∧ reverse answer = some entry
  listed : ∀ {answer entry}, reverse answer = some entry →
    ∃ key, ends entry = some (key, answer) ∧ forward key = some entry

namespace Paired

variable {forward : K → Option V} {reverse : R → Option V} {ends more : V → Option (K × R)}
  {answer : R} {entry : V} {key : K}

theorem empty (ends : V → Option (K × R))
    : Paired (fun _ : K => none) (fun _ : R => none) ends :=
  ⟨nofun, nofun⟩

theorem answer_eq (paired : Paired forward reverse ends) (hf : forward key = some entry) {place}
    (own : ends entry = some (place, answer))
    : place = key ∧ reverse answer = some entry := by
  obtain ⟨_, he, back⟩ := paired.answered hf
  rw [he] at own
  cases own
  exact ⟨rfl, back⟩

/-- Entries that are not listed may be anything. -/
theorem extend (paired : Paired forward reverse ends)
    (hk : ∀ entry place, ends entry = some place → more entry = some place)
    : Paired forward reverse more := by
  constructor
  · intro key entry hf
    obtain ⟨answer, own, back⟩ := paired.answered hf
    exact ⟨answer, hk _ _ own, back⟩
  · intro answer entry hf
    obtain ⟨key, own, back⟩ := paired.listed hf
    exact ⟨key, hk _ _ own, back⟩

variable [DecidableEq K] [DecidableEq R]

theorem erase (paired : Paired forward reverse ends) (hf : forward key = some entry)
    (own : ends entry = some (key, answer))
    : Paired (update forward key none) (update reverse answer none) ends := by
  obtain ⟨-, back⟩ := paired.answer_eq hf own
  constructor
  · intro other held hk
    rcases update_eq_some hk with ⟨-, ⟨⟩⟩ | ⟨ha, hk⟩
    obtain ⟨place, he, there⟩ := paired.answered hk
    refine ⟨place, he, (update_of_ne ?_ ..).trans there⟩
    rintro rfl
    cases back.symm.trans there
    cases own.symm.trans he
    exact ha rfl
  · intro place held hk
    rcases update_eq_some hk with ⟨-, ⟨⟩⟩ | ⟨ha, hk⟩
    obtain ⟨other, he, there⟩ := paired.listed hk
    refine ⟨other, he, (update_of_ne ?_ ..).trans there⟩
    rintro rfl
    cases hf.symm.trans there
    cases own.symm.trans he
    exact ha rfl

/-- An entry may replace one that has both its ends, but not one that has one of them. -/
theorem insert (paired : Paired forward reverse ends) (own : ends entry = some (key, answer))
    (hf : ∀ other held place, forward other = some held → ends held = some (other, place) →
      (other = key ↔ place = answer))
    : Paired (update forward key (some entry))
      (update reverse answer (some entry)) ends := by
  constructor
  · intro other held hk
    rcases update_eq_some hk with ⟨rfl, ⟨⟩⟩ | ⟨ha, hk⟩
    · exact ⟨answer, own, update_self ..⟩
    obtain ⟨place, theirs, there⟩ := paired.answered hk
    refine ⟨place, theirs, (update_of_ne ?_ ..).trans there⟩
    exact fun he => ha ((hf _ _ _ hk theirs).mpr he)
  · intro place held hk
    rcases update_eq_some hk with ⟨rfl, ⟨⟩⟩ | ⟨ha, hk⟩
    · exact ⟨key, own, update_self ..⟩
    obtain ⟨other, theirs, there⟩ := paired.listed hk
    refine ⟨other, theirs, (update_of_ne ?_ ..).trans there⟩
    exact fun he => ha ((hf _ _ _ there theirs).mp he)

end Paired

end Zay.Lib
