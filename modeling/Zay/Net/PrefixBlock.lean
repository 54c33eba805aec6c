import Zay.Lib.AlignedBlocks
import Zay.Net.Prefix

/-! An address range as an aligned block of numbers, of the family of its addresses. -/

namespace Zay.Net

open Lib BitVec

namespace Cidr

variable {width : Nat}

def block (range : Cidr width) : AlignedBlock where
  first := range.network.toNat
  height := width - range.prefixLen.val
  aligned := by
    rw [toNat_network]
    exact Nat.dvd_mul_left _ _

/-- The range of a block that lies below `2 ^ width`. -/
def ofBlock (width : Nat) (block : AlignedBlock) : Cidr width where
  addr := BitVec.ofNat width block.first
  prefixLen := ⟨width - block.height, Nat.lt_succ_of_le (Nat.sub_le _ _)⟩

theorem stop_block (range : Cidr width) : range.block.stop = range.broadcast.toNat + 1 := by
  have hpos := range.size_pos
  rw [AlignedBlock.stop, toNat_broadcast]
  show range.network.toNat + range.size = _
  rw [toNat_network]
  omega

theorem contains_iff_block (range : Cidr width) (address : BitVec width)
    : range.contains address ↔ range.block.Contains address.toNat := by
  rw [contains_iff_bounds, AlignedBlock.Contains, stop_block, Nat.lt_succ_iff]
  rfl

variable {block : AlignedBlock}

theorem block_ofBlock (low : block.height ≤ width) (hb : block.stop ≤ 2 ^ width)
    : (ofBlock width block).block = block := by
  have size : (ofBlock width block).size = block.size := by
    show 2 ^ (width - (width - block.height)) = 2 ^ block.height
    rw [Nat.sub_sub_self low]
  have first : (ofBlock width block).network.toNat = block.first := by
    rw [toNat_network, index, size]
    show (BitVec.ofNat width block.first).toNat / block.size * block.size = block.first
    rw [toNat_ofNat, Nat.mod_eq_of_lt (block.first_lt_stop.trans_le hb)]
    exact Nat.div_mul_cancel block.aligned
  have height : width - (width - block.height) = block.height := Nat.sub_sub_self low
  cases block
  simp only [Cidr.block, AlignedBlock.mk.injEq]
  exact ⟨first, height⟩

theorem trunc_ofBlock (low : block.height ≤ width) (hb : block.stop ≤ 2 ^ width)
    : (ofBlock width block).trunc = ofBlock width block := by
  have he := congrArg AlignedBlock.first (block_ofBlock low hb)
  have first : (ofBlock width block).network = BitVec.ofNat width block.first := by
    apply eq_of_toNat_eq
    rw [toNat_ofNat, Nat.mod_eq_of_lt (block.first_lt_stop.trans_le hb)]
    exact he
  rw [trunc, first]
  rfl

end Cidr

/-- The number of bits of an address of the family. -/
def familyWidth (family : Nat) : Nat := if family = 4 then 32 else 128

namespace IpAddr

def family : IpAddr → Nat
  | .v4 _ => 4
  | .v6 _ => 6

def value : IpAddr → Nat
  | .v4 bits => bits.toNat
  | .v6 bits => bits.toNat

def ofValue (family value : Nat) : IpAddr :=
  if family = 4 then .v4 (BitVec.ofNat 32 value) else .v6 (BitVec.ofNat 128 value)

theorem value_ofValue {family value} (hb : value < 2 ^ familyWidth family)
    : (ofValue family value).value = value := by
  unfold ofValue
  unfold familyWidth at hb
  split
  next ipv4 =>
    rw [if_pos ipv4] at hb
    exact (toNat_ofNat ..).trans (Nat.mod_eq_of_lt hb)
  next ipv6 =>
    rw [if_neg ipv6] at hb
    exact (toNat_ofNat ..).trans (Nat.mod_eq_of_lt hb)

theorem family_ofValue {family} (known : family = 4 ∨ family = 6) (value : Nat)
    : (ofValue family value).family = family := by
  rcases known with rfl | rfl <;> rfl

end IpAddr

namespace IpNet

def family : IpNet → Nat
  | .v4 _ => 4
  | .v6 _ => 6

def block : IpNet → AlignedBlock
  | .v4 range => range.block
  | .v6 range => range.block

def ofBlock (family : Nat) (block : AlignedBlock) : IpNet :=
  if family = 4 then .v4 (Cidr.ofBlock 32 block) else .v6 (Cidr.ofBlock 128 block)

theorem family_known (net : IpNet) : net.family = 4 ∨ net.family = 6 := by
  cases net with
  | v4 range => exact .inl rfl
  | v6 range => exact .inr rfl

theorem stop_block_le (net : IpNet) : net.block.stop ≤ 2 ^ familyWidth net.family := by
  cases net with
  | v4 range => exact range.stop_block ▸ range.broadcast.isLt
  | v6 range => exact range.stop_block ▸ range.broadcast.isLt

theorem contains_iff_block (net : IpNet) (address)
    : net.contains address
      ↔ net.family = address.family ∧ net.block.Contains address.value := by
  cases net with
  | v4 range =>
    cases address with
    | v4 bits =>
      simpa [contains, family, block, IpAddr.family, IpAddr.value]
        using range.contains_iff_block bits
    | v6 bits => simp [contains, family, IpAddr.family]
  | v6 range =>
    cases address with
    | v4 bits => simp [contains, family, IpAddr.family]
    | v6 bits =>
      simpa [contains, family, block, IpAddr.family, IpAddr.value]
        using range.contains_iff_block bits

variable {family : Nat} {block : AlignedBlock}

variable (known : family = 4 ∨ family = 6)
include known

theorem family_ofBlock : (ofBlock family block).family = family := by
  rcases known with rfl | rfl <;> rfl

variable (low : block.height ≤ familyWidth family)
include low

variable (hb : block.stop ≤ 2 ^ familyWidth family)
include hb

theorem block_ofBlock : (ofBlock family block).block = block := by
  rcases known with rfl | rfl
  · exact Cidr.block_ofBlock low hb
  · exact Cidr.block_ofBlock low hb

theorem trunc_ofBlock : (ofBlock family block).trunc = ofBlock family block := by
  rcases known with rfl | rfl
  · exact congrArg IpNet.v4 (Cidr.trunc_ofBlock low hb)
  · exact congrArg IpNet.v6 (Cidr.trunc_ofBlock low hb)

end IpNet

end Zay.Net
