import Mathlib.Data.List.Sort
import Zay.Net.PrefixBlock
import Zay.Route.IpSet

/-! Merged ranges: sorted ranges are merged to ranges with gaps between them, which hold the
same addresses.
-/

namespace Zay.Route.Srs

open Lib Net List

namespace IpRange

def Contains (range : IpRange) (address : IpAddr) : Prop :=
  range.family = address.family ∧ range.first ≤ address.value ∧ address.value ≤ range.last

structure Valid (range : IpRange) : Prop where
  known : range.family = 4 ∨ range.family = 6
  ordered : range.first ≤ range.last
  bounded : range.last < 2 ^ familyWidth range.family

theorem Valid.lt (range : IpRange) (hv : range.Valid) : range.last < 2 ^ 128 := by
  refine hv.bounded.trans_le (Nat.pow_le_pow_right (by decide) ?_)
  unfold familyWidth
  split
  · decide
  · exact le_rfl

/-- The last address of an IPv6 prefix is computed from the first one. -/
theorem last_ofNet_v6 (net) : (ofNet (.v6 net)).last = net.broadcast.toNat := by
  have host : net.size = 2 ^ (128 - net.prefixLen.val) := rfl
  rw [Cidr.toNat_broadcast]
  show (if 128 - net.prefixLen.val = 128 then 2 ^ 128 - 1
    else net.network.toNat ||| ((1 <<< (128 - net.prefixLen.val)) - 1)) = _
  rw [Nat.shiftLeft_eq, Nat.one_mul, ← host]
  split
  next hw =>
    rw [hw] at host
    have index : net.index = 0 := by
      rw [Cidr.index, host]
      exact Nat.div_eq_of_lt net.addr.isLt
    rw [index, host, Nat.zero_mul, Nat.zero_add]
  have hb : net.size - 1 < 2 ^ (128 - net.prefixLen.val) := by
    have := net.size_pos
    omega
  rw [Cidr.toNat_network, host, ← Nat.shiftLeft_eq, ← host, Nat.shiftLeft_add_eq_or_of_lt hb]

theorem ofNet_eq (net : IpNet)
    : ofNet net
      = { family := net.family, first := net.block.first, last := net.block.stop - 1 } := by
  cases net with
  | v4 net =>
    rw [IpNet.block, Cidr.stop_block]
    rfl
  | v6 net =>
    rw [IpNet.block, Cidr.stop_block, Nat.add_sub_cancel, ← last_ofNet_v6]
    rfl

theorem contains_ofNet_iff (net : IpNet) (address)
    : (ofNet net).Contains address ↔ net.contains address := by
  have hf := net.block.first_lt_stop
  rw [IpNet.contains_iff_block, ofNet_eq, Contains, AlignedBlock.Contains]
  simp only
  omega

theorem valid_ofNet (net : IpNet) : (ofNet net).Valid := by
  have hf := net.block.first_lt_stop
  have hb := net.stop_block_le
  rw [ofNet_eq]
  exact ⟨net.family_known, Nat.le_sub_one_of_lt hf, by simp only; omega⟩

/-- The merged ranges of a list that starts with `previous`. -/
def mergeFrom (previous : IpRange) : List IpRange → List IpRange
  | [] => [previous]
  | range :: ranges =>
    if previous.joins range then mergeFrom (previous.extend range) ranges
    else previous :: mergeFrom range ranges

theorem foldl_absorb (front previous ranges)
    : ranges.foldl absorb (front ++ [previous]) = front ++ mergeFrom previous ranges := by
  induction ranges generalizing front previous with
  | nil => rfl
  | cons range ranges ih =>
    rw [foldl_cons, absorb, getLast?_concat, mergeFrom]
    by_cases hj : previous.joins range
    · simp only [if_pos hj, dropLast_concat]
      exact ih front (previous.extend range)
    simp only [if_neg hj]
    rw [ih (front ++ [previous]) range, append_assoc, singleton_append]

/-- The order that sorting leaves, as far as merging depends on it. -/
def Before (left right : IpRange) : Prop :=
  left.family < right.family ∨ (left.family = right.family ∧ left.first ≤ right.first)

/-- The ranges do not touch. -/
def Apart (left right : IpRange) : Prop :=
  left.family < right.family ∨ (left.family = right.family ∧ left.last + 1 < right.first)

variable {previous range : IpRange} {ranges : List IpRange}

theorem valid_extend (hv : previous.Valid) (ranged : range.Valid) (hj : previous.joins range)
    : (previous.extend range).Valid := by
  simp only [joins, Bool.and_eq_true, decide_eq_true_eq] at hj
  have hb := ranged.bounded
  rw [← hj.1] at hb
  exact ⟨hv.known, hv.ordered.trans (Nat.le_max_left ..), max_lt hv.bounded hb⟩

/-- What merging yields for sorted ranges. -/
structure Merged (ranges merged : List IpRange) : Prop where
  exact : ∀ address, (∃ range ∈ merged, range.Contains address)
    ↔ ∃ range ∈ ranges, range.Contains address
  valid : ∀ range ∈ merged, range.Valid
  apart : merged.Pairwise Apart

theorem before_of_mem_mergeFrom {start} (hb : ∀ range ∈ previous :: ranges, Before start range)
    : ∀ range ∈ mergeFrom previous ranges, Before start range := by
  induction ranges generalizing previous with
  | nil => exact hb
  | cons range ranges ih =>
    rw [mergeFrom]
    rw [forall_mem_cons] at hb
    split
    · exact ih (forall_mem_cons.mpr ⟨hb.1, (forall_mem_cons.mp hb.2).2⟩)
    · exact forall_mem_cons.mpr ⟨hb.1, ih hb.2⟩

theorem merged_mergeFrom (hs : (previous :: ranges).Pairwise Before)
    (hv : ∀ range ∈ previous :: ranges, range.Valid)
    : Merged (previous :: ranges) (mergeFrom previous ranges) := by
  induction ranges generalizing previous with
  | nil => exact ⟨fun _ => Iff.rfl, hv, pairwise_singleton ..⟩
  | cons range ranges ih =>
    obtain ⟨first, others⟩ := pairwise_cons.mp hs
    obtain ⟨next, -⟩ := forall_mem_cons.mp first
    obtain ⟨head, tail⟩ := forall_mem_cons.mp hv
    obtain ⟨ranged, rest⟩ := forall_mem_cons.mp tail
    rw [mergeFrom]
    by_cases hj : previous.joins range
    · rw [if_pos hj]
      have hr : ((previous.extend range) :: ranges).Pairwise Before :=
        pairwise_cons.mpr ⟨fun other mem => first other (mem_cons_of_mem _ mem),
            (pairwise_cons.mp others).2⟩
      have merged := ih hr (forall_mem_cons.mpr ⟨valid_extend head ranged hj, rest⟩)
      refine ⟨fun address => ?_, merged.valid, merged.apart⟩
      rw [merged.exact]
      simp only [mem_cons, exists_eq_or_imp]
      rw [← or_assoc]
      refine or_congr_left ?_
      simp only [joins, Bool.and_eq_true, decide_eq_true_eq] at hj
      simp only [Before, extend, Contains] at next ⊢
      omega
    · rw [if_neg hj]
      have merged := ih others tail
      -- `previous.last + 1` overflows where no address is left for the next range.
      have gap : Apart previous range := by
        have ordered := ranged.ordered
        have hb := ranged.lt
        simp only [joins, Bool.and_eq_true, decide_eq_true_eq, not_and, Nat.not_le] at hj
        exact next.imp_right fun he => ⟨he.1, by have := hj he.1; omega⟩
      have follow : ∀ other ∈ mergeFrom range ranges, Before range other :=
        before_of_mem_mergeFrom (forall_mem_cons.mpr
          ⟨.inr ⟨rfl, le_rfl⟩, (pairwise_cons.mp others).1⟩)
      refine ⟨fun address => ?_, forall_mem_cons.mpr ⟨head, merged.valid⟩,
        pairwise_cons.mpr ⟨fun other mem => ?_, merged.apart⟩⟩
      · have inner := merged.exact address
        simp only [mem_cons, exists_eq_or_imp] at inner ⊢
        rw [inner]
      · have next := follow other mem
        unfold Apart Before at *
        omega

theorem length_mergeFrom_le (previous ranges)
    : (mergeFrom previous ranges).length ≤ ranges.length + 1 := by
  induction ranges generalizing previous with
  | nil => exact le_rfl
  | cons range ranges ih =>
    rw [mergeFrom, length_cons]
    split
    · exact (ih _).trans (Nat.le_succ _)
    · exact Nat.succ_le_succ (ih range)

/-- Merging makes ranges fewer. -/
theorem length_merge_le (ranges) : (merge ranges).length ≤ ranges.length := by
  rw [← length_mergeSort ranges, merge]
  cases ranges.mergeSort le with
  | nil => exact le_rfl
  | cons previous rest =>
    rw [show (previous :: rest).foldl absorb [] = mergeFrom previous rest
      from foldl_absorb [] previous rest]
    exact length_mergeFrom_le previous rest

theorem sorted_mergeSort (ranges : List IpRange)
    : (ranges.mergeSort le).Pairwise fun left right => le left right = true := by
  refine pairwise_mergeSort ?_ ?_ ranges
  · intro left middle right first second
    simp only [le, Bool.or_eq_true, Bool.and_eq_true, decide_eq_true_eq] at *
    omega
  · intro left right
    simp only [le, Bool.or_eq_true, Bool.and_eq_true, decide_eq_true_eq]
    omega

theorem before_of_le {left right} (ordered : le left right) : Before left right := by
  simp only [le, Bool.or_eq_true, Bool.and_eq_true, decide_eq_true_eq] at ordered
  unfold Before
  omega

theorem merged_merge (hv : ∀ range ∈ ranges, range.Valid) : Merged ranges (merge ranges) := by
  have perm := mergeSort_perm ranges le
  have hs := (sorted_mergeSort ranges).imp before_of_le
  have members : ∀ range, range ∈ ranges.mergeSort le ↔ range ∈ ranges := fun _ => perm.mem_iff
  unfold merge
  revert perm hs members
  cases ranges.mergeSort le with
  | nil =>
    intro perm _ _
    obtain rfl := perm.nil_eq
    exact ⟨fun _ => Iff.rfl, nofun, List.Pairwise.nil⟩
  | cons previous rest =>
    intro perm hs members
    have merged := merged_mergeFrom hs fun range mem =>
      hv range ((members range).mp mem)
    have hw : (previous :: rest).foldl absorb [] = mergeFrom previous rest :=
      foldl_absorb [] previous rest
    rw [hw]
    refine ⟨fun _ => ?_, merged.valid, merged.apart⟩
    rw [merged.exact]
    simp [members]

end IpRange

end Zay.Route.Srs
