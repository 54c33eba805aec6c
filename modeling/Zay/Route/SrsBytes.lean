import Zay.Lib.Reader
import Zay.Net.Address

/-! The bytes of a compiled rule-set (`route/srs.rs`): lengths, numbers and addresses as they
are written, and as they are read back.
-/

namespace Zay.Route.Srs

open Lib Net Reader BitVec

/-- The error of `read_exact`. -/
def short : String := "failed to fill whole buffer"

def maxCollectionLength : Nat := 16 * 1024 * 1024

/-- Seven bits a byte, the lowest first. All bytes but the last have their top bit set. -/
def writeUvarint (value : Nat) : List UInt8 :=
  if value / 128 = 0 then [UInt8.ofNat (value % 128)]
  else UInt8.ofNat (value % 128 + 128) :: writeUvarint (value / 128)

def readU8 : Reader String UInt8 := byte short

def readU64Be : Reader String Nat := bigEndian 8 short

/-- The loop of `read_uvarint`, from the byte at `index` on. -/
def readUvarintFrom : (remaining index value : Nat) → Reader String Nat
  | 0, _, _ => fail "varint overflows a 64-bit integer"
  | remaining + 1, index, value => do
    let byte ← readU8
    if index = 9 ∧ 1 < byte.toNat then fail "varint overflows a 64-bit integer"
    else
      let value := value ||| (byte.toNat % 128) <<< (index * 7)
      if byte.toNat < 128 then return value
      else readUvarintFrom remaining (index + 1) value

def readUvarint : Reader String Nat := readUvarintFrom 10 0 0

def readLength : Reader String Nat := do
  let value ← readUvarint
  if maxCollectionLength < value then fail s!"collection is too large: {value}"
  else return value

variable {value : Nat}

theorem reads_readUvarintFrom {remaining index rest} (indices : remaining + index = 10)
    (below : value < 2 ^ (index * 7)) (hb : rest < 2 ^ (64 - index * 7)) (left : 0 < remaining)
    : Reader.Reads (readUvarintFrom remaining index value) (writeUvarint rest)
      (value + rest * 2 ^ (index * 7)) := by
  induction remaining generalizing index value rest with
  | zero => exact absurd left (lt_irrefl 0)
  | succ remaining ih =>
    have last : index = 9 → rest < 2 := by
      rintro rfl
      exact hb
    have hj (part : Nat)
        : value ||| part <<< (index * 7) = value + part * 2 ^ (index * 7) := by
      rw [Nat.or_comm, ← Nat.shiftLeft_add_eq_or_of_lt below, Nat.shiftLeft_eq, Nat.add_comm]
    unfold readUvarintFrom writeUvarint
    by_cases ends : rest / 128 = 0
    · have hs : rest < 128 := by omega
      have byte : (UInt8.ofNat (rest % 128)).toNat = rest := by
        rw [UInt8.toNat_ofNat']
        omega
      rw [if_pos ends]
      refine Reader.Reads.bind_last (reads_byte short _) ?_
      rw [byte, if_neg (by omega), if_pos hs, hj, Nat.mod_eq_of_lt hs]
      exact Reader.Reads.pure _
    · have more : index ≠ 9 := fun he => by
        have := last he
        omega
      have byte : (UInt8.ofNat (rest % 128 + 128)).toNat = rest % 128 + 128 := by
        rw [UInt8.toNat_ofNat']
        omega
      have scale : 2 ^ ((index + 1) * 7) = 128 * 2 ^ (index * 7) := by
        rw [Nat.succ_mul, Nat.pow_add, Nat.mul_comm]
      have upper : rest / 128 < 2 ^ (64 - (index + 1) * 7) := by
        rw [Nat.div_lt_iff_lt_mul (by decide)]
        have split : 64 - index * 7 = 64 - (index + 1) * 7 + 7 := by omega
        rwa [split, pow_add] at hb
      have low : value + rest % 128 * 2 ^ (index * 7) < 2 ^ ((index + 1) * 7) := by
        have digit : rest % 128 ≤ 127 := by omega
        have := Nat.mul_le_mul_right (2 ^ (index * 7)) digit
        omega
      rw [if_neg ends]
      rw [← List.singleton_append]
      refine Reader.Reads.bind (reads_byte short _) ?_
      rw [byte, if_neg (by omega), if_neg (by omega), hj, Nat.add_mod_right, Nat.mod_mod]
      have tail := ih (by omega : remaining + (index + 1) = 10) low upper (by omega)
      have total : value + rest % 128 * 2 ^ (index * 7) + rest / 128 * 2 ^ ((index + 1) * 7)
          = value + rest * 2 ^ (index * 7) := by
        rw [scale, ← Nat.mul_assoc, Nat.add_assoc, ← Nat.add_mul, Nat.mul_comm _ 128,
          Nat.mod_add_div]
      rwa [total] at tail

theorem reads_readUvarint (hb : value < 2 ^ 64)
    : Reader.Reads readUvarint (writeUvarint value) value := by
  have reads := reads_readUvarintFrom (by decide : 10 + 0 = 10) (by decide : 0 < 2 ^ (0 * 7))
    hb (by decide)
  rwa [Nat.zero_mul, Nat.pow_zero, Nat.mul_one, Nat.zero_add] at reads

theorem reads_readLength (hs : value ≤ maxCollectionLength)
    : Reader.Reads readLength (writeUvarint value) value := by
  have hb : value < 2 ^ 64 := lt_of_le_of_lt hs (by decide)
  refine (reads_readUvarint hb).bind_last ?_
  rw [if_neg (not_lt.mpr hs)]
  exact Reader.Reads.pure value

def writeIpAddress : IpAddr → List UInt8
  | .v4 bits => writeUvarint 4 ++ toBigEndian 4 bits.toNat
  | .v6 bits => writeUvarint 16 ++ toBigEndian 16 bits.toNat

def writeIpAddr (family address : Nat) : Except String (List UInt8) :=
  if family = 4 then .ok (writeIpAddress (.v4 (BitVec.ofNat 32 address)))
  else if family = 6 then .ok (writeIpAddress (.v6 (BitVec.ofNat 128 address)))
  else .error s!"unknown IP family: {family}"

def readIpAddr : Reader String IpAddr := do
  let length ← readLength
  if length = 4 then return .v4 (BitVec.ofNat 32 (← bigEndian 4 short))
  else if length = 16 then return .v6 (BitVec.ofNat 128 (← bigEndian 16 short))
  else fail s!"invalid IP address length: {length}"

theorem reads_readIpAddr (address) : Reader.Reads readIpAddr (writeIpAddress address) address := by
  cases address with
  | v4 bits =>
    refine (reads_readLength (by decide)).bind ?_
    have octets : Reader.Reads (bigEndian 4 short) (toBigEndian 4 bits.toNat) _ :=
      reads_bigEndian short bits.isLt
    have number := octets.map fun value => IpAddr.v4 (BitVec.ofNat 32 value)
    rwa [ofNat_toNat, setWidth_eq] at number
  | v6 bits =>
    refine (reads_readLength (by decide)).bind ?_
    have octets : Reader.Reads (bigEndian 16 short) (toBigEndian 16 bits.toNat) _ :=
      reads_bigEndian short bits.isLt
    have number := octets.map fun value => IpAddr.v6 (BitVec.ofNat 128 value)
    rwa [ofNat_toNat, setWidth_eq] at number

end Zay.Route.Srs
