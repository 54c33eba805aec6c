import Mathlib.Algebra.Ring.Nat
import Mathlib.Data.List.Induction
import Mathlib.Order.Lattice

/-! Fixed-width integers: their linear order and their big-endian byte encoding. -/

namespace Zay.Lib

open List

instance instLinearOrderUInt32 : LinearOrder UInt32 where
  le_refl _ := UInt32.le_refl _
  le_trans _ _ _ := UInt32.le_trans
  le_antisymm _ _ := UInt32.le_antisymm
  le_total := UInt32.le_total
  lt_iff_le_not_ge left right := by
    simp only [UInt32.lt_iff_toNat_lt, UInt32.le_iff_toNat_le]
    omega
  min_def left right := rfl
  max_def left right := rfl
  toDecidableLE := inferInstance
  toDecidableEq := inferInstance
  toDecidableLT := inferInstance

/-- Addition of integers of `width` bits, which fails when it overflows. -/
def checkedAdd (width left right : Nat) : Option Nat :=
  if left + right < 2 ^ width then some (left + right) else none

/-- Subtraction, which fails when it underflows. -/
def checkedSub (left right : Nat) : Option Nat :=
  if right ≤ left then some (left - right) else none

/-- The last `width` bytes of `value`, most significant first. -/
def toBigEndian : (width : Nat) → (value : Nat) → List UInt8
  | 0, _ => []
  | width + 1, value => toBigEndian width (value / 256) ++ [UInt8.ofNat value]

def ofBigEndian (bytes : List UInt8) : Nat :=
  bytes.foldl (fun value byte => value * 256 + byte.toNat) 0

@[simp] theorem length_toBigEndian (width value : Nat)
    : (toBigEndian width value).length = width := by
  induction width generalizing value with
  | zero => rfl
  | succ width ih => simp [toBigEndian, ih]

variable (bytes : List UInt8)

theorem ofBigEndian_append (last : UInt8)
    : ofBigEndian (bytes ++ [last]) = ofBigEndian bytes * 256 + last.toNat := by
  simp [ofBigEndian]

theorem ofBigEndian_toBigEndian {width value} (h : value < 256 ^ width)
    : ofBigEndian (toBigEndian width value) = value := by
  induction width generalizing value with
  | zero => simp_all [toBigEndian, ofBigEndian]
  | succ width ih =>
    have upper : value / 256 < 256 ^ width := by
      rw [pow_succ] at h
      omega
    rw [toBigEndian, ofBigEndian_append, ih upper, UInt8.toNat_ofNat']
    omega

theorem ofBigEndian_lt : ofBigEndian bytes < 256 ^ bytes.length := by
  induction bytes using reverseRecOn with
  | nil => decide
  | append_singleton bytes last ih =>
    have hs := last.toNat_lt
    rw [ofBigEndian_append, length_append, length_singleton, pow_succ]
    omega

theorem toBigEndian_ofBigEndian : toBigEndian bytes.length (ofBigEndian bytes) = bytes := by
  induction bytes using reverseRecOn with
  | nil => rfl
  | append_singleton bytes last ih =>
    have hs := last.toNat_lt
    have upper : (ofBigEndian bytes * 256 + last.toNat) / 256 = ofBigEndian bytes := by omega
    have lower : UInt8.ofNat (ofBigEndian bytes * 256 + last.toNat) = last := by
      rw [← UInt8.toNat_inj, UInt8.toNat_ofNat']
      omega
    rw [ofBigEndian_append, length_append, length_singleton, toBigEndian, upper, lower, ih]

theorem toBigEndian_mod (width value : Nat)
    : toBigEndian width (value % 256 ^ width) = toBigEndian width value := by
  induction width generalizing value with
  | zero => rfl
  | succ width ih =>
    rw [toBigEndian, toBigEndian, pow_succ, mul_comm, Nat.mod_mul_right_div_self, ih]
    congr 2
    rw [← UInt8.toNat_inj, UInt8.toNat_ofNat', UInt8.toNat_ofNat', Nat.mod_mul_right_mod]

end Zay.Lib
