import Mathlib.Data.List.Basic

/-! Lists that are cut into pieces, and lists that are put together from numbered parts. -/

namespace Zay.Lib

open List Option

variable {α : Type*} {whole : List α} {parts : List (Option α)}

/-- `chunks`, with the length of the data as fuel. -/
def chunksFrom (size : Nat) : (fuel : Nat) → (data : List α) → List (List α)
  | 0, _ => []
  | fuel + 1, data =>
    if data.isEmpty then [] else data.take size :: chunksFrom size fuel (data.drop size)

def chunks (size : Nat) (data : List α) : List (List α) :=
  chunksFrom size data.length data

theorem length_chunksFrom_le {size fuel} {data chunk : List α}
    (mem : chunk ∈ chunksFrom size fuel data)
    : chunk.length ≤ size := by
  induction fuel generalizing data with
  | zero => simp [chunksFrom] at mem
  | succ fuel ih =>
    rw [chunksFrom] at mem
    split at mem
    · simp at mem
    rcases mem_cons.mp mem with rfl | mem
    · exact length_take_le ..
    · exact ih mem

theorem chunksFrom_spec {size fuel} {data : List α} (hpos : 0 < size) (he : data.length ≤ fuel)
    : (chunksFrom size fuel data).flatten = data
      ∧ (chunksFrom size fuel data).length = (data.length + size - 1) / size := by
  induction fuel generalizing data with
  | zero =>
    obtain rfl := length_eq_zero_iff.mp (Nat.le_zero.mp he)
    exact ⟨rfl, (Nat.div_eq_of_lt (by simp; omega)).symm⟩
  | succ fuel ih =>
    rw [chunksFrom]
    split
    next empty =>
      obtain rfl := isEmpty_iff.mp empty
      exact ⟨rfl, (Nat.div_eq_of_lt (by simp; omega)).symm⟩
    next given =>
      have hf : 0 < data.length := by simpa [length_pos_iff] using given
      obtain ⟨hw, count⟩ := @ih (data.drop size) (by rw [length_drop]; omega)
      refine ⟨by rw [flatten_cons, hw, take_append_drop], ?_⟩
      rw [length_cons, count, length_drop, ← Nat.add_div_right _ hpos]
      by_cases more : size ≤ data.length
      · congr 1
        omega
      · rw [Nat.div_eq_of_lt_le (k := 1), Nat.div_eq_of_lt_le (k := 1)] <;> omega

/-- The parts that are there are in the places that they have in `whole`. -/
structure PartsOf (whole : List α) (parts : List (Option α)) : Prop where
  length : parts.length = whole.length
  placed : ∀ (index : Nat) part, parts[index]? = some (some part) → whole[index]? = some part

namespace PartsOf

theorem blank (whole : List α) : PartsOf whole (replicate whole.length none) where
  length := length_replicate
  placed index part found := by simp [getElem?_replicate] at found

theorem set (partsOf : PartsOf whole parts) {index} {part : α} (own : whole[index]? = some part)
    : PartsOf whole (parts.set index (some part)) where
  length := by rw [length_set, partsOf.length]
  placed other found present := by
    rw [getElem?_set] at present
    split at present
    next he =>
      split at present
      · cases present
        rwa [← he]
      · cases present
    · exact partsOf.placed other found present

theorem filterMap_id (partsOf : PartsOf whole parts) (full : ¬parts.any isNone)
    : parts.filterMap id = whole := by
  have he : parts = whole.map some := by
    refine ext_getElem? fun index => ?_
    rw [getElem?_map]
    cases hf : parts[index]? with
    | none =>
      rw [getElem?_eq_none_iff, partsOf.length, ← getElem?_eq_none_iff] at hf
      rw [hf, map_none]
    | some part =>
      cases part with
      | none => exact absurd (any_eq_true.mpr ⟨none, mem_of_getElem? hf, rfl⟩) full
      | some part => rw [partsOf.placed index part hf, map_some]
  rw [he, filterMap_map]
  exact filterMap_some

end PartsOf

end Zay.Lib
