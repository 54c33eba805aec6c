import Mathlib.Data.List.Basic

/-! Values written over part of a list, and the parts that are read back. -/

namespace Zay.Lib

open List

variable {α : Type}

/-- The `count` items from `offset` on. -/
def slice (items : List α) (offset count : Nat) : List α :=
  (items.drop offset).take count

def overwrite (items : List α) (offset : Nat) (values : List α) : List α :=
  items.take offset ++ values ++ items.drop (offset + values.length)

variable {items values : List α} {offset count : Nat}

theorem length_slice (fits : offset + count ≤ items.length)
    : (slice items offset count).length = count := by
  rw [slice, length_take, length_drop]
  omega

theorem slice_add (items : List α) (offset first second : Nat)
    : slice items offset (first + second)
      = slice items offset first ++ slice items (offset + first) second := by
  rw [slice, take_add, drop_drop, ← slice, ← slice]

theorem slice_congr {others}
    (he : ∀ index, offset ≤ index → index < offset + count → items[index]? = others[index]?)
    : slice items offset count = slice others offset count := by
  apply ext_getElem?
  intro index
  by_cases hs : index < count
  · simp only [slice, getElem?_take_of_lt hs, getElem?_drop]
    exact he _ (by omega) (by omega)
  · have past := Nat.le_of_not_lt hs
    rw [slice, slice, getElem?_take_eq_none past, getElem?_take_eq_none past]

structure Agrees (before after : List α) (kept : Nat → Prop) : Prop where
  length : after.length = before.length
  same : ∀ index, kept index → after[index]? = before[index]?

theorem Agrees.refl (items : List α) (kept : Nat → Prop) : Agrees items items kept :=
  ⟨rfl, fun _ _ => rfl⟩

variable {kept : Nat → Prop} {before after : List α} {start : Nat}

theorem Agrees.trans {first second third : List α} (left : Agrees first second kept)
    (right : Agrees second third kept)
    : Agrees first third kept :=
  ⟨right.length.trans left.length,
    fun index keep => (right.same index keep).trans (left.same index keep)⟩

theorem Agrees.mono {fewer : Nat → Prop} (agrees : Agrees before after kept)
    (less : ∀ index, fewer index → kept index)
    : Agrees before after fewer :=
  ⟨agrees.length, fun index keep => agrees.same index (less index keep)⟩

section

variable (fits : offset + values.length ≤ items.length) {index : Nat}

include fits

theorem length_overwrite : (overwrite items offset values).length = items.length := by
  simp only [overwrite, length_append, length_take, length_drop]
  omega

theorem getElem?_overwrite_before (before : index < offset)
    : (overwrite items offset values)[index]? = items[index]? := by
  have hi : index < (items.take offset).length := by
    rw [length_take]
    omega
  rw [overwrite, append_assoc, getElem?_append_left hi, getElem?_take_of_lt before]

theorem getElem?_overwrite_after (after : offset + values.length ≤ index)
    : (overwrite items offset values)[index]? = items[index]? := by
  have front : (items.take offset ++ values).length = offset + values.length := by
    rw [length_append, length_take]
    omega
  rw [overwrite, getElem?_append_right (front ▸ after), getElem?_drop, front]
  congr 1
  omega

theorem slice_overwrite : slice (overwrite items offset values) offset values.length = values := by
  have front : (items.take offset).length = offset := by
    rw [length_take]
    omega
  rw [slice, overwrite, append_assoc]
  nth_rewrite 1 [← front]
  rw [drop_left, take_left]

theorem slice_overwrite_before (before : start + count ≤ offset)
    : slice (overwrite items offset values) start count = slice items start count :=
  slice_congr fun _ _ hi => getElem?_overwrite_before fits (by omega)

theorem agrees_overwrite
    (ha : ∀ index, kept index → index < offset ∨ offset + values.length ≤ index)
    : Agrees items (overwrite items offset values) kept := by
  refine ⟨length_overwrite fits, fun index keep => ?_⟩
  rcases ha index keep with before | after
  · exact getElem?_overwrite_before fits before
  · exact getElem?_overwrite_after fits after

end

theorem Agrees.slice (ha : Agrees before after kept)
    (hw : ∀ index, start ≤ index → index < start + count → kept index)
    : slice after start count = Lib.slice before start count :=
  slice_congr fun index low high => ha.same index (hw index low high)

theorem Agrees.drop (ha : Agrees before after kept) (hw : ∀ index, start ≤ index → kept index)
    : after.drop start = before.drop start := by
  apply ext_getElem?
  intro index
  rw [getElem?_drop, getElem?_drop, ha.same _ (hw _ (Nat.le_add_right ..))]

end Zay.Lib
