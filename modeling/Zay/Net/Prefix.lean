import Zay.Lib.WordBits
import Zay.Net.Address

/-! How address ranges lie to each other: two ranges are nested or apart, and a range is the
union of its halves.
-/

namespace Zay.Net

open Lib Bool BitVec

namespace Cidr

variable {width : Nat}

/-- `Contains<&Ipv4Net>` and `Contains<&Ipv6Net>`. -/
def containsNet (range other : Cidr width) : Bool :=
  range.network ≤ other.network && other.broadcast ≤ range.broadcast

/-- The same range without host bits. -/
def trunc (range : Cidr width) : Cidr width where
  addr := range.network
  prefixLen := range.prefixLen

/-- The first of the two ranges of `subnets` with a prefix that is one bit longer. -/
def lowerHalf (range : Cidr width) (short : range.prefixLen.val < width) : Cidr width where
  addr := range.network
  prefixLen := ⟨range.prefixLen.val + 1, Nat.succ_lt_succ short⟩

/-- The second of these ranges, which starts after the first. -/
def upperHalf (range : Cidr width) (short : range.prefixLen.val < width) : Cidr width where
  addr := (range.lowerHalf short).broadcast + 1
  prefixLen := ⟨range.prefixLen.val + 1, Nat.succ_lt_succ short⟩

/-- The number of addresses. -/
def size (range : Cidr width) : Nat := 2 ^ (width - range.prefixLen.val)

/-- The position of a range among the ranges of its size. -/
def index (range : Cidr width) : Nat := range.addr.toNat / range.size

section

variable (range : Cidr width)

include range

theorem size_pos : 0 < range.size := Nat.two_pow_pos _

theorem prefixLen_le : range.prefixLen.val ≤ width :=
  Nat.le_of_lt_succ range.prefixLen.isLt

theorem toNat_network : range.network.toNat = range.index * range.size :=
  toNat_and_allOnes_shiftLeft range.addr _

theorem toNat_hostmask : range.hostmask.toNat = range.size - 1 := by
  have split : 2 ^ width = range.size * 2 ^ range.prefixLen.val := by
    rw [size, ← Nat.pow_add, Nat.sub_add_cancel range.prefixLen_le]
  have hpos := range.size_pos
  have step : (range.size - 1 + 1) * 2 ^ range.prefixLen.val = 2 ^ width := by
    rw [Nat.sub_add_cancel hpos, split]
  rw [hostmask, toNat_ushiftRight, toNat_allOnes, Nat.shiftRight_eq_div_pow]
  apply Nat.div_eq_of_lt_le
  · rw [Nat.succ_mul] at step
    have := Nat.two_pow_pos range.prefixLen.val
    omega
  · rw [step]
    have := Nat.two_pow_pos width
    omega

theorem toNat_broadcast
    : range.broadcast.toNat = range.index * range.size + (range.size - 1) :=
  toNat_or_lowBits range.addr range.hostmask range.toNat_hostmask

theorem contains_iff_bounds (address : BitVec width)
    : range.contains address
      ↔ range.network.toNat ≤ address.toNat ∧ address.toNat ≤ range.broadcast.toNat := by
  simp [contains, le_def]

theorem contains_iff (address : BitVec width)
    : range.contains address ↔ address.toNat / range.size = range.index := by
  have hpos := range.size_pos
  rw [contains_iff_bounds, toNat_network, toNat_broadcast, Nat.div_eq_iff hpos]
  omega

theorem contains_network : range.contains range.network := by
  rw [contains_iff, toNat_network, Nat.mul_div_cancel _ range.size_pos]

theorem contains_broadcast : range.contains range.broadcast := by
  have bounds := (range.contains_iff_bounds range.network).mp range.contains_network
  exact (range.contains_iff_bounds range.broadcast).mpr ⟨bounds.2, le_refl _⟩

end

variable {range other : Cidr width} {address : BitVec width}

/-- An empty prefix puts no condition on an address. -/
theorem contains_of_prefixLen_eq_zero (all : range.prefixLen.val = 0) (address : BitVec width)
    : range.contains address := by
  have hw : range.size = 2 ^ width := by rw [size, all, Nat.sub_zero]
  rw [contains_iff, index, hw, Nat.div_eq_of_lt address.isLt, Nat.div_eq_of_lt range.addr.isLt]

@[simp] theorem contains_trunc (range : Cidr width) (address : BitVec width)
    : range.trunc.contains address = range.contains address := by
  apply Bool.eq_iff_iff.mpr
  rw [contains_iff, contains_iff]
  show address.toNat / range.size = range.network.toNat / range.size ↔ _
  rw [toNat_network, Nat.mul_div_cancel _ range.size_pos]

/-- A range holds all of a smaller one or nothing of it. -/
theorem contains_iff_contains_addr (longer : range.prefixLen.val ≤ other.prefixLen.val)
    (hi : other.contains address)
    : range.contains address ↔ range.contains other.addr := by
  -- A longer prefix divides the range of a shorter one evenly.
  have even : range.size = other.size * 2 ^ (other.prefixLen.val - range.prefixLen.val) := by
    rw [size, size, ← pow_add]
    congr 1
    omega
  rw [contains_iff] at hi
  rw [contains_iff, contains_iff, even, ← Nat.div_div_eq_div_mul, hi, ← Nat.div_div_eq_div_mul]
  rfl

theorem prefixLen_le_of_containsNet (nested : range.containsNet other)
    : range.prefixLen.val ≤ other.prefixLen.val := by
  simp only [containsNet, and_eq_true, decide_eq_true_eq, le_def, toNat_network,
    toNat_broadcast] at nested
  have rangePositive := range.size_pos
  have otherPositive := other.size_pos
  have smaller : other.size ≤ range.size := by omega
  have exponents := (Nat.pow_le_pow_iff_right (by decide : 1 < 2)).mp smaller
  have := range.prefixLen_le
  have := other.prefixLen_le
  omega

theorem containsNet_iff (range other : Cidr width)
    : range.containsNet other
      ↔ range.prefixLen.val ≤ other.prefixLen.val ∧ range.contains other.addr := by
  constructor
  · intro nested
    refine ⟨prefixLen_le_of_containsNet nested, ?_⟩
    simp only [containsNet, and_eq_true, decide_eq_true_eq, le_def] at nested
    have own := (other.contains_iff_bounds other.addr).mp other.contains_addr
    exact (range.contains_iff_bounds other.addr).mpr
      ⟨le_trans nested.1 own.1, le_trans own.2 nested.2⟩
  · rintro ⟨longer, hi⟩
    have low := (contains_iff_contains_addr longer other.contains_network).mpr hi
    have high := (contains_iff_contains_addr longer other.contains_broadcast).mpr hi
    rw [contains_iff_bounds] at low high
    simp only [containsNet, and_eq_true, decide_eq_true_eq, le_def]
    exact ⟨low.1, high.2⟩

theorem contains_of_containsNet (nested : range.containsNet other) (hi : other.contains address)
    : range.contains address := by
  obtain ⟨longer, own⟩ := (range.containsNet_iff other).mp nested
  exact (contains_iff_contains_addr longer hi).mpr own

/-- Two ranges with a common address are nested. -/
theorem containsNet_or_containsNet (inRange : range.contains address)
    (inOther : other.contains address)
    : range.containsNet other ∨ other.containsNet range := by
  rcases le_total range.prefixLen.val other.prefixLen.val with longer | hs
  · exact .inl ((range.containsNet_iff other).mpr
      ⟨longer, (contains_iff_contains_addr longer inOther).mp inRange⟩)
  exact .inr ((other.containsNet_iff range).mpr
    ⟨hs, (contains_iff_contains_addr hs inRange).mp inOther⟩)

/-- A range that contains another strictly is not a single address. -/
theorem prefixLen_lt_of_strict (nested : range.containsNet other)
    (strict : ¬other.containsNet range)
    : range.prefixLen.val < width := by
  obtain ⟨longer, hi⟩ := (range.containsNet_iff other).mp nested
  by_contra host
  have he : other.size = range.size := by
    rw [size, size]
    congr 1
    omega
  refine strict ((other.containsNet_iff range).mpr ⟨by omega, ?_⟩)
  rw [contains_iff] at hi ⊢
  rw [he, index, he, hi]
  rfl

variable (range)

variable (hs : range.prefixLen.val < width)

theorem size_eq_halves : range.size = (range.lowerHalf hs).size * 2 := by
  have bits : width - range.prefixLen.val = width - (range.prefixLen.val + 1) + 1 := by omega
  rw [size, bits, pow_succ]
  rfl

theorem index_lowerHalf : (range.lowerHalf hs).index = range.index * 2 := by
  rw [index]
  show range.network.toNat / _ = _
  rw [toNat_network, size_eq_halves range hs, mul_comm _ 2, ← mul_assoc,
    Nat.mul_div_cancel _ (size_pos _)]

theorem index_upperHalf : (range.upperHalf hs).index = range.index * 2 + 1 := by
  have half := (range.lowerHalf hs).size_pos
  have size : (range.upperHalf hs).size = (range.lowerHalf hs).size := rfl
  have start : (range.upperHalf hs).addr.toNat
      = (range.index * 2 + 1) * (range.lowerHalf hs).size := by
    show ((range.lowerHalf hs).broadcast + 1).toNat = _
    have last := range.broadcast.isLt
    rw [toNat_broadcast, size_eq_halves range hs, mul_comm _ 2, ← mul_assoc] at last
    have one : (1 : BitVec width).toNat = 1 := toNat_one (Nat.zero_lt_of_lt hs)
    rw [BitVec.toNat_add, toNat_broadcast, index_lowerHalf, Nat.succ_mul, one,
      Nat.mod_eq_of_lt (by omega)]
    omega
  rw [index, size, start, Nat.mul_div_cancel _ half]

/-- A range is the union of its halves. -/
theorem contains_iff_halves (address : BitVec width)
    : range.contains address
      ↔ (range.lowerHalf hs).contains address ∨ (range.upperHalf hs).contains address := by
  have upper : (range.upperHalf hs).size = (range.lowerHalf hs).size := rfl
  rw [contains_iff, contains_iff, contains_iff, index_lowerHalf, index_upperHalf, upper,
    size_eq_halves range hs, ← Nat.div_div_eq_div_mul]
  omega

end Cidr

namespace IpNet

/-- A range contains ranges of its own family only. -/
def containsNet : IpNet → IpNet → Bool
  | .v4 range, .v4 other => range.containsNet other
  | .v6 range, .v6 other => range.containsNet other
  | _, _ => false

def trunc : IpNet → IpNet
  | .v4 range => .v4 range.trunc
  | .v6 range => .v6 range.trunc

@[simp] theorem contains_trunc (range : IpNet) (address)
    : range.trunc.contains address = range.contains address := by
  cases range <;> cases address <;> simp [trunc, contains]

theorem contains_of_containsNet {range other : IpNet} {address} (nested : range.containsNet other)
    (hi : other.contains address)
    : range.contains address := by
  cases range <;> cases other <;> cases address <;>
    simp only [containsNet, contains, false_eq_true] at nested hi ⊢
  · exact Cidr.contains_of_containsNet nested hi
  · exact Cidr.contains_of_containsNet nested hi

theorem containsNet_or_containsNet {range other : IpNet} {address}
    (inRange : range.contains address) (inOther : other.contains address)
    : range.containsNet other ∨ other.containsNet range := by
  cases range <;> cases other <;> cases address <;>
    simp only [containsNet, contains, false_eq_true] at inRange inOther ⊢
  · exact Cidr.containsNet_or_containsNet inRange inOther
  · exact Cidr.containsNet_or_containsNet inRange inOther

end IpNet

end Zay.Net
