import Mathlib.Algebra.Ring.Nat
import Mathlib.Logic.Function.Basic

/-! Bit sets stored in 64-bit words, as a map from word positions to words.
Bit `index` is bit `index % 64` of word `index / 64`; a store that ends early reads as zero.
-/

namespace Zay.Lib

open Function BitVec

/-- The bit at `index` of the words `word 0, word 1, ...`. -/
def wordBit (word : Nat → BitVec 64) (index : Nat) : Bool :=
  (word (index / 64)).getLsbD (index % 64)

theorem wordBit_zero (index : Nat) : wordBit (fun _ => 0) index = false := by
  simp [wordBit]

variable {left : Nat → BitVec 64} {offset width : Nat}

-- The mask `1 << j` selects exactly bit `j` of a word.
theorem getLsbD_one_shiftLeft {bit} (h : bit < 64)
    : ((1#64) <<< offset).getLsbD bit = decide (bit = offset) := by
  rw [← twoPow_eq, getLsbD_twoPow, ← Bool.decide_and, decide_eq_decide]
  omega

/-- A word meets the mask of bit `offset` exactly when that bit is set. -/
theorem and_mask_eq_zero_iff (word : BitVec 64) (h : offset < 64)
    : word &&& ((1#64) <<< offset) = 0#64 ↔ word.getLsbD offset = false := by
  have hz : twoPow 64 offset ≠ 0#64 := by
    rw [ne_eq, ← toNat_inj, toNat_twoPow_of_lt h]
    exact Nat.ne_of_gt (Nat.two_pow_pos offset)
  rw [← twoPow_eq, and_twoPow]
  split
  next set => simp [set, hz]
  next clear => simp [clear]

theorem toNat_one_shiftLeft_sub_one (h : offset < width)
    : ((BitVec.ofNat width 1 <<< offset) - BitVec.ofNat width 1).toNat = 2 ^ offset - 1 := by
  have one : (BitVec.ofNat width 1).toNat = 1 := Nat.mod_eq_of_lt (Nat.one_lt_two_pow (by omega))
  have shifted : (BitVec.ofNat width 1 <<< offset).toNat = 2 ^ offset :=
    toNat_twoPow_of_lt h
  have le : BitVec.ofNat width 1 ≤ BitVec.ofNat width 1 <<< offset := by
    rw [le_def, shifted, one]
    exact Nat.two_pow_pos offset
  rw [toNat_sub_of_le le, shifted, one]

-- The mask `(1 << j) - 1` selects the bits below `j`.
theorem getLsbD_one_shiftLeft_sub_one (h : offset < 64) (bit : Nat)
    : (((1#64) <<< offset) - 1#64).getLsbD bit = decide (bit < offset) := by
  rw [getLsbD, toNat_one_shiftLeft_sub_one h, Nat.testBit_two_pow_sub_one]

variable (word : Nat → BitVec 64)

/-- Setting bit `offset` of word `index` sets that bit and leaves all others alone. -/
theorem wordBit_update_or (target index : Nat)
    : wordBit
        (update word (target / 64)
          (word (target / 64) ||| ((1#64) <<< (target % 64)))) index
      = (wordBit word index || decide (index = target)) := by
  have hs : index % 64 < 64 := Nat.mod_lt _ (by decide)
  by_cases he : index / 64 = target / 64
  · have bits : index % 64 = target % 64 ↔ index = target := by omega
    rw [wordBit, he, update_self, getLsbD_or, getLsbD_one_shiftLeft hs, wordBit, he]
    simp [bits]
  have other : index ≠ target := fun h => he (h ▸ rfl)
  rw [wordBit, update_of_ne he, wordBit]
  simp [other]

/-- Clearing the low `host` bits rounds down. -/
theorem toNat_and_allOnes_shiftLeft (bits : BitVec width) (host : Nat)
    : (bits &&& (BitVec.allOnes width <<< host)).toNat
      = bits.toNat / 2 ^ host * 2 ^ host := by
  rw [← shiftLeft_ushiftRight, toNat_shiftLeft, toNat_ushiftRight,
    Nat.shiftRight_eq_div_pow, Nat.shiftLeft_eq]
  exact Nat.mod_eq_of_lt (lt_of_le_of_lt (Nat.div_mul_le_self _ _) bits.isLt)

/-- Setting the low `host` bits rounds up. -/
theorem toNat_or_lowBits (bits mask : BitVec width) {host} (ones : mask.toNat = 2 ^ host - 1)
    : (bits ||| mask).toNat = bits.toNat / 2 ^ host * 2 ^ host + (2 ^ host - 1) := by
  have hs : 2 ^ host - 1 < 2 ^ host := by
    have := Nat.two_pow_pos host
    omega
  rw [toNat_or, ones, mul_comm, Nat.two_pow_add_eq_or_of_lt hs]
  apply Nat.eq_of_testBit_eq
  intro place
  rw [Nat.testBit_or, Nat.testBit_or, Nat.testBit_two_pow_sub_one, Nat.testBit_two_pow_mul,
    Nat.testBit_div_two_pow]
  by_cases low : place < host
  · simp [low]
  have high : host ≤ place := Nat.le_of_not_lt low
  simp [high]

/-- Word `index` of the store moved up by `64 * words + bits` bit positions. -/
def shiftedWord (word : Nat → BitVec 64) (words bits index : Nat) : BitVec 64 :=
  if words ≤ index then
    let value := word (index - words) <<< bits
    if 0 < bits ∧ 0 < index - words then
      value ||| (word (index - words - 1) >>> (64 - bits))
    else value
  else 0

/-- Moving the store up by `64 * words + bits` positions moves every bit by that distance
and clears the bits below it.
-/
theorem wordBit_shiftedWord (words index : Nat) {bits} (hs : bits < 64)
    : wordBit (shiftedWord word words bits) index
      = if index < 64 * words + bits then false
        else wordBit word (index - (64 * words + bits)) := by
  have hle : index % 64 < 64 := Nat.mod_lt _ (by decide)
  unfold wordBit shiftedWord
  by_cases low : words ≤ index / 64
  · rw [if_pos low]
    by_cases borrow : index % 64 < bits
    · -- The bit comes from the word below, when there is one.
      by_cases hb : 0 < index / 64 - words
      · rw [if_pos ⟨by omega, hb⟩, if_neg (by omega)]
        have source : (index - (64 * words + bits)) / 64 = index / 64 - words - 1 := by
          omega
        have place : (index - (64 * words + bits)) % 64 = 64 - bits + index % 64 := by
          omega
        simp [borrow, source, place]
      rw [if_neg (by omega), if_pos (by omega)]
      simp [borrow]
    · have source : (index - (64 * words + bits)) / 64 = index / 64 - words := by omega
      have place : (index - (64 * words + bits)) % 64 = index % 64 - bits := by omega
      rw [if_neg (show ¬ index < 64 * words + bits by omega), source, place]
      have high (lower : BitVec 64) (hpos : 0 < bits)
          : (lower >>> (64 - bits)).getLsbD (index % 64) = false := by
        rw [getLsbD_ushiftRight]
        exact getLsbD_of_ge _ _ (by omega)
      split
      next hpos =>
        simp only [getLsbD_or, getLsbD_shiftLeft, high _ hpos.1, hle,
          borrow, decide_true, decide_false, Bool.not_false, Bool.and_self, Bool.true_and,
          Bool.or_false]
      simp only [getLsbD_shiftLeft, hle, borrow, decide_true, decide_false,
        Bool.not_false, Bool.and_self, Bool.true_and]
  · rw [if_neg low, if_pos (by omega)]
    simp

end Zay.Lib
