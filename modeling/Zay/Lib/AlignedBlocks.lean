import Mathlib.Algebra.Ring.Nat
import Mathlib.Data.List.Pairwise
import Mathlib.Order.Lattice

/-! Aligned blocks of numbers: a block starts at a multiple of its size, which is a power of
two. An interval that is tiled from the left with the largest blocks that fit is tiled with as
few blocks as any cover of it has.
-/

namespace Zay.Lib

open List

/-- The trailing zeros of a number of `width` bits. Zero has `width` of them. -/
def trailingZeros : (width value : Nat) → Nat
  | 0, _ => 0
  | width + 1, value => if value % 2 = 1 then 0 else trailingZeros width (value / 2) + 1

theorem le_trailingZeros_iff {width exponent} (value : Nat) (hs : exponent ≤ width)
    : exponent ≤ trailingZeros width value ↔ 2 ^ exponent ∣ value := by
  induction width generalizing exponent value with
  | zero =>
    obtain rfl := Nat.le_zero.mp hs
    simp
  | succ width ih =>
    cases exponent with
    | zero => simp
    | succ exponent =>
      rw [trailingZeros]
      split
      next odd =>
        refine ⟨fun impossible => absurd impossible (by omega), fun hd => ?_⟩
        have even : 2 ∣ value := Nat.dvd_trans ⟨2 ^ exponent, Nat.pow_succ'⟩ hd
        omega
      next even =>
        obtain ⟨half, rfl⟩ : ∃ half, value = 2 * half := ⟨value / 2, by omega⟩
        rw [Nat.mul_div_cancel_left half (by decide : 0 < 2), Nat.add_le_add_iff_right,
          ih half (Nat.le_of_succ_le_succ hs), pow_succ']
        exact (Nat.mul_dvd_mul_iff_left (by decide : 0 < 2)).symm

/-- The numbers from `first` on, `2 ^ height` of them. -/
structure AlignedBlock where
  first : Nat
  height : Nat
  aligned : 2 ^ height ∣ first

namespace AlignedBlock

variable (block : AlignedBlock)

def size : Nat := 2 ^ block.height

/-- The first number after the block. -/
def stop : Nat := block.first + block.size

def Contains (value : Nat) : Prop :=
  block.first ≤ value ∧ value < block.stop

theorem first_lt_stop (block : AlignedBlock) : block.first < block.stop :=
  Nat.lt_add_of_pos_right (Nat.two_pow_pos _)

/-- A block that starts within another ends within it, unless it is larger and starts where
the other does.
-/
theorem stop_le_or {block other : AlignedBlock} (after : block.first ≤ other.first)
    (hb : other.first < block.stop)
    : other.stop ≤ block.stop
      ∨ (other.first = block.first ∧ block.height < other.height) := by
  rcases lt_or_ge block.height other.height with hh | lower
  · right
    refine ⟨?_, hh⟩
    have hd : block.size ∣ other.first :=
      Nat.dvd_trans (Nat.pow_dvd_pow 2 hh.le) other.aligned
    obtain ⟨distance, split⟩ := Nat.exists_eq_add_of_le after
    have multiple : block.size ∣ distance := by
      rw [split] at hd
      exact (Nat.dvd_add_right block.aligned).mp hd
    have near : distance < block.size := by
      rw [split, stop] at hb
      omega
    rw [split, Nat.eq_zero_of_dvd_of_lt multiple near, add_zero]
  · left
    have hd : other.size ∣ block.size := Nat.pow_dvd_pow 2 lower
    obtain ⟨_, place_eq⟩ : other.size ∣ other.first := other.aligned
    obtain ⟨_, bound_eq⟩ : other.size ∣ block.stop :=
      Nat.dvd_add (Nat.dvd_trans hd block.aligned) hd
    rw [stop, place_eq, bound_eq, ← Nat.mul_succ]
    rw [place_eq, bound_eq] at hb
    exact Nat.mul_le_mul_left _ (Nat.lt_of_mul_lt_mul_left hb)

/-- The blocks follow each other from `start` to `stop`. -/
def Tiling : (start stop : Nat) → List AlignedBlock → Prop
  | start, stop, [] => start = stop
  | start, stop, block :: blocks => block.first = start ∧ Tiling block.stop stop blocks

/-- Where a block of the tiling starts, no larger one fits below `stop`. -/
def Greedy (stop : Nat) (blocks : List AlignedBlock) : Prop :=
  ∀ block ∈ blocks, ∀ height, 2 ^ height ∣ block.first → block.first + 2 ^ height ≤ stop →
    height ≤ block.height

variable {start stop : Nat} {blocks : List AlignedBlock}

variable (tiling : Tiling start stop blocks)

include tiling

theorem Tiling.le : start ≤ stop := by
  induction blocks generalizing start with
  | nil => exact le_of_eq tiling
  | cons block blocks ih =>
    obtain ⟨rfl, others⟩ := tiling
    exact block.first_lt_stop.le.trans (ih others)

theorem Tiling.contains_iff (value : Nat)
    : (∃ block ∈ blocks, block.Contains value) ↔ start ≤ value ∧ value < stop := by
  induction blocks generalizing start with
  | nil =>
    obtain rfl : start = stop := tiling
    simp
  | cons block blocks ih =>
    obtain ⟨rfl, others⟩ := tiling
    have between := block.first_lt_stop
    have ordered := others.le
    simp only [mem_cons, exists_eq_or_imp]
    rw [ih others, Contains]
    omega

theorem Tiling.bounds : ∀ block ∈ blocks, start ≤ block.first ∧ block.stop ≤ stop := by
  induction blocks generalizing start with
  | nil => simp
  | cons block blocks ih =>
    obtain ⟨rfl, others⟩ := tiling
    rw [forall_mem_cons]
    refine ⟨⟨le_rfl, others.le⟩, fun other mem => ?_⟩
    have hr := ih others other mem
    exact ⟨block.first_lt_stop.le.trans hr.1, hr.2⟩

theorem Tiling.ascending : blocks.Pairwise fun left right => left.stop ≤ right.first := by
  induction blocks generalizing start with
  | nil => exact List.Pairwise.nil
  | cons _ blocks ih =>
    exact pairwise_cons.mpr ⟨fun other mem => (tiling.2.bounds other mem).1, ih tiling.2⟩

/-- No cover of an interval has fewer blocks than its greedy tiling. -/
theorem Tiling.length_le {others : List AlignedBlock} (greedy : Greedy stop blocks)
    (hi : ∀ other ∈ others, start ≤ other.first ∧ other.stop ≤ stop)
    (covers : ∀ value, start ≤ value → value < stop → ∃ other ∈ others, other.Contains value)
    : blocks.length ≤ others.length := by
  induction blocks generalizing start others with
  | nil => exact Nat.zero_le _
  | cons block blocks ih =>
    obtain ⟨rfl, rest⟩ := tiling
    have hw := rest.le
    obtain ⟨greatest, greedy⟩ := forall_mem_cons.mp greedy
    -- a block that starts within the first one stays within it, by greed
    have nested : ∀ other ∈ others, other.first < block.stop → other.stop ≤ block.stop := by
      intro other mem hb
      rcases stop_le_or (hi other mem).1 hb with ends | ⟨he, hh⟩
      · exact ends
      have fits := (hi other mem).2
      rw [AlignedBlock.stop, he] at fits
      exact absurd (greatest other.height (he ▸ other.aligned) fits) hh.not_ge
    obtain ⟨head, mem, low, -⟩ := covers block.first le_rfl (block.first_lt_stop.trans_le hw)
    have starts : head.first < block.stop := low.trans_lt block.first_lt_stop
    have hf : (others.filter (block.stop ≤ ·.first)).length < others.length := by
      refine length_filter_lt_length_iff_exists.mpr ⟨head, mem, ?_⟩
      simpa using starts
    have tail : blocks.length ≤ (others.filter (block.stop ≤ ·.first)).length :=
      ih rest greedy (fun other hk => by
        obtain ⟨mem, after⟩ := mem_filter.mp hk
        exact ⟨of_decide_eq_true after, (hi other mem).2⟩) (fun value after hb => by
        obtain ⟨other, mem, low, high⟩ :=
          covers value (block.first_lt_stop.le.trans after) hb
        refine ⟨other, mem_filter.mpr ⟨mem, ?_⟩, low, high⟩
        refine decide_eq_true (Nat.le_of_not_lt fun early => ?_)
        have := nested other mem early
        omega)
    rw [length_cons]
    omega

end AlignedBlock

end Zay.Lib
