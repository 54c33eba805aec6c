import Mathlib.Data.Nat.ModEq
import Mathlib.Tactic.Ring
import Zay.Lib.MachineInt

/-! The running Adler-32 checksum of deflated payloads. Its sums are reduced once in every 5552
bytes, as many as cannot overflow them.
-/

namespace Zay.OpenConnect

open Lib List Option

def modulus : Nat := 65521

/-- The inner loop, with the sums `low` and `high`. -/
def addBlock (low high : Nat) : List UInt8 → Option (Nat × Nat)
  | [] => some (low, high)
  | value :: block => do
    let low ← checkedAdd 32 low value.toNat
    let high ← checkedAdd 32 high low
    addBlock low high block

def addBlocks (low high : Nat) (payload : List UInt8) : Option (Nat × Nat) :=
  if payload = [] then some (low, high)
  else do
    let sums ← addBlock low high (payload.take 5552)
    addBlocks (sums.1 % modulus) (sums.2 % modulus) (payload.drop 5552)
termination_by payload.length
decreasing_by
  rw [length_drop]
  have := length_pos_iff.mpr ‹_›
  omega

/-- `checksum & 0xffff` and `checksum >> 16`. -/
def halves (checksum : UInt32) : Nat × Nat := (checksum.toNat &&& 0xffff, checksum.toNat >>> 16)

/-- `high << 16 | low`. -/
def pack (sums : Nat × Nat) : UInt32 := .ofNat (sums.2 <<< 16 ||| sums.1)

def updateAdler32 (checksum : UInt32) (payload : List UInt8) : Option UInt32 :=
  (addBlocks (halves checksum).1 (halves checksum).2 payload).map pack

/-- The sums that Adler-32 is about. -/
def sums (low high : Nat) : List UInt8 → Nat × Nat
  | [] => (low, high)
  | value :: bytes => sums (low + value.toNat) (high + (low + value.toNat)) bytes

/-- Adler-32, from the sums in `checksum`. -/
def adler32 (checksum : UInt32) (payload : List UInt8) : UInt32 :=
  let exact := sums (halves checksum).1 (halves checksum).2 payload
  pack (exact.1 % modulus, exact.2 % modulus)

theorem sums_append (low high one two)
    : sums low high (one ++ two) = sums (sums low high one).1 (sums low high one).2 two := by
  induction one generalizing low high with
  | nil => rfl
  | cons _ one ih => exact ih _ _

/-- The sums modulo the modulus depend on the start values modulo it. -/
theorem sums_modEq {low low' high high'} (hl : low ≡ low' [MOD modulus])
    (hh : high ≡ high' [MOD modulus]) (bytes)
    : (sums low high bytes).1 ≡ (sums low' high' bytes).1 [MOD modulus]
      ∧ (sums low high bytes).2 ≡ (sums low' high' bytes).2 [MOD modulus] := by
  induction bytes generalizing low low' high high' with
  | nil => exact ⟨hl, hh⟩
  | cons _ bytes ih => exact ih (hl.add_right _) (hh.add (hl.add_right _))

/-- The quadratic bound on the second sum. -/
theorem addBlock_eq {low high : Nat} {block : List UInt8}
    (hb : 2 * high + 2 * (block.length * low) + 255 * (block.length * (block.length + 1)) < 2 ^ 33)
    (hl : low + 255 * block.length < 2 ^ 32)
    : addBlock low high block = some (sums low high block) := by
  induction block generalizing low high with
  | nil => rfl
  | cons value block ih =>
    have hs := value.toNat_lt
    rw [length_cons] at hb hl
    have next : 2 * (high + (low + value.toNat)) + 2 * (block.length * (low + value.toNat))
        + 255 * (block.length * (block.length + 1)) < 2 ^ 33 := by
      have : (block.length + 1) * value.toNat ≤ (block.length + 1) * 255 :=
        Nat.mul_le_mul_left _ (by omega)
      ring_nf at this hb ⊢
      omega
    have first : checkedAdd 32 low value.toNat = some (low + value.toNat) := if_pos (by omega)
    have second : checkedAdd 32 high (low + value.toNat) = some (high + (low + value.toNat)) :=
      if_pos (by omega)
    simp only [addBlock, first, second, bind_eq_bind, bind_some]
    exact ih next (by omega)

theorem mod_lt (value : Nat) : value % modulus < 2 ^ 16 :=
  (Nat.mod_lt _ (by decide)).trans (by decide)

theorem addBlocks_eq {low high} (hl : low < 2 ^ 16) (hh : high < 2 ^ 16) (payload)
    : addBlocks low high payload = some (if payload = [] then (low, high)
        else ((sums low high payload).1 % modulus, (sums low high payload).2 % modulus)) := by
  fun_induction addBlocks low high payload with
  | case1 => rfl
  | case2 low high payload hnil ih =>
    have few : (payload.take 5552).length ≤ 5552 := length_take_le ..
    have block
      : addBlock low high (payload.take 5552) = some (sums low high (payload.take 5552)) := by
      have one := Nat.mul_le_mul few (Nat.le_of_lt_succ hl)
      have two := Nat.mul_le_mul few (Nat.add_le_add_right few 1)
      exact addBlock_eq (by omega) (by omega)
    have hw := sums_append low high (payload.take 5552) (payload.drop 5552)
    rw [take_append_drop] at hw
    obtain ⟨lower, upper⟩ := sums_modEq (Nat.mod_modEq _ modulus) (Nat.mod_modEq _ modulus)
      (payload.drop 5552)
    rw [block, if_neg hnil, bind_eq_bind, bind_some, ih _ (mod_lt _) (mod_lt _), hw]
    split
    next done => rw [done]; rfl
    · rw [lower, upper]

theorem pack_eq {low} (hl : low < 2 ^ 16) (high)
    : pack (low, high) = .ofNat (high * 2 ^ 16 + low) := by
  rw [pack, ← Nat.shiftLeft_add_eq_or_of_lt hl, Nat.shiftLeft_eq]

theorem halves_eq (checksum : UInt32)
    : halves checksum = (checksum.toNat % 2 ^ 16, checksum.toNat / 2 ^ 16) := by
  rw [halves, Nat.shiftRight_eq_div_pow, ← Nat.and_two_pow_sub_one_eq_mod]

theorem pack_halves (checksum) : pack (halves checksum) = checksum := by
  rw [halves_eq, pack_eq (Nat.mod_lt _ (by decide)), Nat.div_add_mod', UInt32.ofNat_toNat]

theorem halves_pack {low high} (hl : low < 2 ^ 16) (hh : high < 2 ^ 16)
    : halves (pack (low, high)) = (low, high) := by
  rw [halves_eq, pack_eq hl, UInt32.toNat_ofNat_of_lt' (show _ < 2 ^ 32 by omega)]
  ext <;> dsimp only <;> omega

/-- The checksum is that of the exact sums, but no bytes leave even unreduced sums as they are. -/
theorem updateAdler32_eq (checksum payload)
    : updateAdler32 checksum payload
      = some (if payload = [] then checksum else adler32 checksum payload) := by
  have hs := checksum.toNat_lt
  rw [updateAdler32, addBlocks_eq (by rw [halves_eq]; omega) (by rw [halves_eq]; omega)]
  split
  · rw [map_some, pack_halves]
  · rfl

theorem adler32_append (checksum one two)
    : adler32 (adler32 checksum one) two = adler32 checksum (one ++ two) := by
  obtain ⟨lower, upper⟩ := sums_modEq (Nat.mod_modEq _ modulus) (Nat.mod_modEq _ modulus) two
  simp only [adler32, halves_pack (mod_lt _) (mod_lt _), sums_append]
  rw [lower, upper]

/-- The sums never overflow and come out as Adler-32, at once or in parts. -/
theorem update_adler32_exact (checksum : UInt32) (one two : List UInt8)
    : updateAdler32 checksum one = some (if one = [] then checksum else adler32 checksum one)
      ∧ (updateAdler32 checksum one).bind (updateAdler32 · two)
        = updateAdler32 checksum (one ++ two) := by
  refine ⟨updateAdler32_eq .., ?_⟩
  simp only [updateAdler32_eq, bind_some, append_eq_nil_iff]
  by_cases first : one = [] <;> by_cases second : two = [] <;>
    simp [first, second, adler32_append]

/-- Sums that are not reduced yet stay so. -/
theorem update_adler32_unreduced
    : updateAdler32 0xffffffff [] ≠ some (adler32 0xffffffff []) := by
  rw [updateAdler32_eq]
  decide

end Zay.OpenConnect
