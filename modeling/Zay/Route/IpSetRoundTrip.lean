import Zay.Lib.Checks
import Zay.Route.IpSetMerge

/-! What is read back from a written IP set: for each merged range the fewest prefixes that
cover it.
-/

namespace Zay.Route.Srs

open Lib Net IpRange IpAddr List Bool Reader

section

variable {bits last start : Nat}

variable (narrow : bits ≤ 128)
include narrow

theorem le_alignment_iff (start height : Nat)
    : height ≤ alignment bits start ↔ height ≤ bits ∧ 2 ^ height ∣ start := by
  unfold alignment
  split
  next zero =>
    simp [zero]
  rw [Nat.le_min]
  constructor
  · rintro ⟨zeros, hs⟩
    exact ⟨hs, (le_trailingZeros_iff start (hs.trans narrow)).mp zeros⟩
  · rintro ⟨hs, hd⟩
    exact ⟨(le_trailingZeros_iff start (hs.trans narrow)).mpr hd, hs⟩

variable (ordered : start ≤ last)
include ordered

variable (hb : last < 2 ^ bits)
include hb

theorem capacity_spec
    : ∃ room, capacity bits (2 ^ bits - 1) last start = some room
      ∧ ∀ height, height ≤ room ↔ start + 2 ^ height ≤ last + 1 := by
  unfold capacity
  have words : 2 ^ bits ≤ 2 ^ 128 := Nat.pow_le_pow_right (by decide) narrow
  by_cases hw : start = 0 ∧ last = 2 ^ bits - 1
  · refine ⟨bits, if_pos hw, fun height => ?_⟩
    obtain ⟨rfl, rfl⟩ := hw
    rw [Nat.sub_add_cancel (Nat.two_pow_pos bits), Nat.zero_add,
      Nat.pow_le_pow_iff_right (by decide)]
  refine ⟨(last - start + 1).log2, ?_, fun height => ?_⟩
  · rw [if_neg hw, if_neg (by omega)]
  · rw [Nat.le_log2 (Nat.succ_ne_zero _)]
    omega

/-- One round takes the largest block that starts at `start` and ends within the range. -/
theorem nextBlock_spec
    : ∃ block : AlignedBlock, block.first = start
      ∧ block.stop ≤ last + 1
      ∧ block.height ≤ bits
      ∧ (∀ height, 2 ^ height ∣ start → start + 2 ^ height ≤ last + 1 → height ≤ block.height)
      ∧ nextBlock bits (2 ^ bits - 1) last start
        = some (block.height, if block.stop = last + 1 then none else some block.stop) := by
  obtain ⟨room, hf, fits⟩ := capacity_spec narrow ordered hb
  have aligned := le_alignment_iff narrow start
  have low : min (alignment bits start) room ≤ bits :=
    ((aligned _).mp (min_le_left ..)).1
  let block : AlignedBlock := {
    first := start
    height := min (alignment bits start) room
    aligned := ((aligned _).mp (min_le_left ..)).2 }
  have hw : start + 2 ^ block.height ≤ last + 1 := (fits _).mp (min_le_right ..)
  have words : 2 ^ bits ≤ 2 ^ 128 := Nat.pow_le_pow_right (by decide) narrow
  refine ⟨block, rfl, hw, low, fun height divides hi => ?_, ?_⟩
  · have hs : height ≤ bits := by
      have := Nat.pow_le_pow_iff_right (by decide : 1 < 2) |>.mp
        (by omega : 2 ^ height ≤ 2 ^ bits)
      exact this
    exact Nat.le_min.mpr ⟨(aligned height).mpr ⟨hs, divides⟩, (fits height).mpr hi⟩
  · have follows : nextStart bits last start block.height
        = some (if block.stop = last + 1 then none else some block.stop) := by
      have hpos := Nat.two_pow_pos block.height
      have stop : block.stop = start + 2 ^ block.height := rfl
      unfold nextStart
      split
      next all =>
        rw [all] at stop hw
        rw [if_pos (by omega)]
      next short =>
        have wide : block.height < 128 := lt_of_lt_of_le (lt_of_le_of_ne low short) narrow
        rw [if_neg (by omega)]
        split
        · rw [if_pos (by omega)]
        · rw [if_neg (by omega), if_neg (by omega), stop]
    simp only [nextBlock, hf, Option.bind_eq_bind, Option.bind_some, Option.pure_def]
    rw [follows]
    rfl

theorem prefixBlocks_spec
    : ∃ blocks : List AlignedBlock,
      prefixBlocks bits (2 ^ bits - 1) last start
        = some (blocks.map fun block => (block.first, bits - block.height))
      ∧ AlignedBlock.Tiling start (last + 1) blocks
      ∧ AlignedBlock.Greedy (last + 1) blocks
      ∧ ∀ block ∈ blocks, block.height ≤ bits := by
  -- the rest of the range shrinks with every round
  induction rest : last - start using Nat.strong_induction_on generalizing start with
  | _ rest ih =>
    obtain ⟨block, rfl, hw, low, greedy, ht⟩ := nextBlock_spec narrow ordered hb
    unfold prefixBlocks
    by_cases ends : block.stop = last + 1
    · rw [if_pos ends] at ht
      refine ⟨[block], ?_, ⟨rfl, ends⟩, ?_, ?_⟩
      · split
        next none =>
          rw [ht] at none
          cases none
        next hf =>
          rw [ht] at hf
          cases hf
          rfl
        next hf =>
          rw [ht] at hf
          cases hf
      · simpa [AlignedBlock.Greedy] using greedy
      · simpa using low
    · rw [if_neg ends] at ht
      have hr := block.first_lt_stop
      obtain ⟨blocks, hf, tiling, others, heights⟩ :=
        ih (last - block.stop) (by omega) (by omega) rfl
      refine ⟨block :: blocks, ?_, ⟨rfl, tiling⟩, forall_mem_cons.mpr ⟨greedy, others⟩,
        forall_mem_cons.mpr ⟨low, heights⟩⟩
      split
      next none =>
        rw [ht] at none
        cases none
      next hf =>
        rw [ht] at hf
        cases hf
      next next =>
        rw [ht] at next
        cases next
        rw [hf]
        rfl

end

def netText (net : IpNet) : String := prefixText net.addr net.prefixLen

/-- The prefixes are the fewest that cover the range, in ascending order. -/
structure Shortest (range : IpRange) (prefixes : List IpNet) : Prop where
  exact : ∀ address, (∃ net ∈ prefixes, net.contains address) ↔ range.Contains address
  aligned : ∀ net ∈ prefixes, net.trunc = net
  ascending : prefixes.Pairwise fun left right =>
    (ofNet left).last < (ofNet right).first
  fewest : ∀ others : List IpNet,
    (∀ address, (∃ net ∈ others, net.contains address) ↔ range.Contains address) →
      prefixes.length ≤ others.length

section

variable {range : IpRange} {blocks : List AlignedBlock}

/-- Prefixes that cover a range are of its family and lie within it. -/
theorem block_of_cover {others : List IpNet}
    (cover : ∀ address, (∃ net ∈ others, net.contains address) ↔ range.Contains address) {net}
    (mem : net ∈ others)
    : net.family = range.family
      ∧ range.first ≤ net.block.first ∧ net.block.stop ≤ range.last + 1 := by
  have hb := net.stop_block_le
  have hf := net.block.first_lt_stop
  have hi (value : Nat) (among : net.block.Contains value)
      : range.Contains (ofValue net.family value) := by
    refine (cover _).mp ⟨net, mem, (net.contains_iff_block _).mpr ⟨?_, ?_⟩⟩
    · exact (family_ofValue net.family_known value).symm
    · rwa [value_ofValue (among.2.trans_le hb)]
  obtain ⟨family, low, -⟩ := hi net.block.first ⟨le_rfl, hf⟩
  obtain ⟨-, -, high⟩ := hi (net.block.stop - 1) ⟨by omega, by omega⟩
  rw [family_ofValue net.family_known] at family
  rw [value_ofValue (hf.trans_le hb)] at low
  rw [value_ofValue (by omega)] at high
  exact ⟨family.symm, low, by omega⟩

theorem shortest_of_tiling (hv : range.Valid)
    (tiling : AlignedBlock.Tiling range.first (range.last + 1) blocks)
    (greedy : AlignedBlock.Greedy (range.last + 1) blocks)
    (low : ∀ block ∈ blocks, block.height ≤ familyWidth range.family)
    : Shortest range (blocks.map (IpNet.ofBlock range.family)) := by
  have family (block : AlignedBlock)
      : (IpNet.ofBlock range.family block).family = range.family :=
    IpNet.family_ofBlock hv.known
  have hb : ∀ block ∈ blocks, block.stop ≤ 2 ^ familyWidth range.family :=
    fun block mem => (tiling.bounds block mem).2.trans hv.bounded
  have block : ∀ block ∈ blocks, (IpNet.ofBlock range.family block).block = block :=
    fun block mem => IpNet.block_ofBlock hv.known (low block mem) (hb block mem)
  constructor
  · intro address
    have hc := tiling.contains_iff address.value
    simp only [mem_map, exists_exists_and_eq_and, IpNet.contains_iff_block, family]
    constructor
    · rintro ⟨member, mem, he, hi⟩
      rw [block member mem] at hi
      have := hc.mp ⟨member, mem, hi⟩
      exact ⟨he, this.1, Nat.le_of_lt_succ this.2⟩
    · rintro ⟨he, first, last⟩
      obtain ⟨member, mem, hi⟩ := hc.mpr ⟨first, Nat.lt_succ_of_le last⟩
      exact ⟨member, mem, he, by rwa [block member mem]⟩
  · rw [forall_mem_map]
    exact fun member mem => IpNet.trunc_ofBlock hv.known (low member mem) (hb member mem)
  · rw [pairwise_map]
    refine tiling.ascending.imp_of_mem fun {left right} first second ordered => ?_
    have filled := left.first_lt_stop
    rw [ofNet_eq, ofNet_eq, block left first, block right second]
    simp only
    omega
  · intro others cover
    have hi : ∀ net ∈ others, _ := fun net mem => block_of_cover cover mem
    have hf : blocks.length ≤ (others.map IpNet.block).length := tiling.length_le greedy
      (forall_mem_map.mpr fun net mem => (hi net mem).2)
      (fun value first last => by
        have hs : value < 2 ^ familyWidth range.family :=
          lt_of_lt_of_le last hv.bounded
        obtain ⟨net, mem, contains⟩ := (cover (ofValue range.family value)).mpr (by
          refine ⟨(family_ofValue hv.known value).symm, ?_, ?_⟩
          · rwa [value_ofValue hs]
          · rw [value_ofValue hs]
            omega)
        have among := ((net.contains_iff_block _).mp contains).2
        rw [value_ofValue hs] at among
        exact ⟨net.block, mem_map_of_mem mem, among⟩)
    rwa [length_map] at hf ⊢

end

theorem rangeToPrefixes_eq {family} (hk : family = 4 ∨ family = 6) (first last : Nat)
    : rangeToPrefixes (ofValue family first) (ofValue family last)
      = rangeToPrefixesInner (ofValue family first).value
        (ofValue family last).value (familyWidth family)
        fun value prefixLen => prefixText (ofValue family value) prefixLen := by
  rcases hk with rfl | rfl <;> rfl

theorem netText_ofBlock {family} (hk : family = 4 ∨ family = 6) (block)
    : netText (IpNet.ofBlock family block)
      = prefixText (ofValue family block.first) (familyWidth family - block.height) := by
  rcases hk with rfl | rfl <;> rfl

variable {range : IpRange} {ranges : List IpRange} {count : Nat}

/-- What is read back of every range. -/
def ReadBack (range : IpRange) (prefixes : List IpNet) : Prop :=
  rangeToPrefixes (ofValue range.family range.first)
      (ofValue range.family range.last)
    = .ok (prefixes.map netText)
  ∧ Shortest range prefixes

theorem rangeToPrefixes_spec (hv : range.Valid) : ∃ prefixes, ReadBack range prefixes := by
  have narrow : familyWidth range.family ≤ 128 := by
    unfold familyWidth
    split <;> decide
  obtain ⟨blocks, hf, tiling, greedy, low⟩ :=
    prefixBlocks_spec narrow hv.ordered hv.bounded
  refine ⟨_, ?_, shortest_of_tiling hv tiling greedy low⟩
  rw [rangeToPrefixes_eq hv.known, value_ofValue (hv.ordered.trans_lt hv.bounded),
    value_ofValue hv.bounded]
  have hi : ¬2 ^ familyWidth range.family - 1 < range.last := by
    have := hv.bounded
    omega
  simp [rangeToPrefixesInner, if_neg (not_lt.mpr hv.ordered), if_neg hi, hf,
    map_map, netText_ofBlock hv.known]

/-- The bytes of a range of a known family. -/
def IpRange.bytes (range : IpRange) : List UInt8 :=
  writeIpAddress (ofValue range.family range.first)
  ++ writeIpAddress (ofValue range.family range.last)

theorem write_eq (hv : range.Valid) : range.write = .ok range.bytes := by
  rcases range with ⟨family, _, _⟩
  obtain rfl | rfl : family = 4 ∨ family = 6 := hv.known
  · rfl
  · rfl

variable {parseNet : String → Option IpNet} {nets : List IpNet} {groups : List (List IpNet)}
  {values : List String}

/-- `parse_ip_range` converts what `parse_prefix` yields. -/
theorem mapM_parseIpRange (hp : values.mapM (parsePrefix parseNet) = .ok nets)
    : values.mapM (parseIpRange parseNet) = .ok (nets.map ofNet) := by
  induction values generalizing nets with
  | nil =>
    cases hp
    rfl
  | cons _ values ih =>
    rw [mapM_cons, bind_eq_ok] at hp
    obtain ⟨_, head, hp⟩ := hp
    rw [bind_eq_ok] at hp
    obtain ⟨_, tail, made⟩ := hp
    cases made
    rw [mapM_cons, parseIpRange, head, ih tail]
    rfl

theorem writeOptionalIpSet_eq (item : UInt8) (given : values ≠ [])
    (hp : values.mapM (parsePrefix parseNet) = .ok nets)
    : let merged := merge (nets.map ofNet)
      writeOptionalIpSet parseNet item values
        = .ok (item :: 1 :: (toBigEndian 8 merged.length ++ merged.flatMap bytes)) := by
  intro merged
  have hv : (IpRange.Merged _ merged) := merged_merge
    (forall_mem_map.mpr fun net _ => valid_ofNet net)
  have written : merged.mapM write = .ok (merged.map bytes) :=
    mapM_eq_ok fun range mem => write_eq (hv.valid range mem)
  have full : values.isEmpty = false := by simpa using given
  rw [writeOptionalIpSet, full, mapM_parseIpRange hp]
  show (merged.mapM write >>= _) = _
  rw [written]
  simp [flatMap_def, merged]

theorem reads_ranges (hv : ∀ range ∈ ranges, range.Valid)
    : ∃ groups : List (List IpNet),
      List.Forall₂ ReadBack ranges groups
      ∧ Reader.Reads (times readIpRange ranges.length) (ranges.flatMap bytes)
        (groups.map fun prefixes => prefixes.map netText) := by
  induction ranges with
  | nil => exact ⟨[], .nil, Reader.Reads.pure []⟩
  | cons range ranges ih =>
    obtain ⟨head, tail⟩ := forall_mem_cons.mp hv
    obtain ⟨prefixes, split, shortest⟩ := rangeToPrefixes_spec head
    obtain ⟨groups, related, reads⟩ := ih tail
    have first : Reader.Reads readIpRange range.bytes (prefixes.map netText) := by
      refine (reads_readIpAddr _).bind ((reads_readIpAddr _).bind_last ?_)
      rw [split]
      exact Reader.Reads.pure _
    exact ⟨prefixes :: groups, .cons ⟨split, shortest⟩ related,
      first.bind (reads.map (prefixes.map netText :: ·))⟩

/-- Prefixes without a common address. -/
def Apart (left right : IpNet) : Prop :=
  ∀ address, ¬(left.contains address ∧ right.contains address)

theorem Shortest.apart {prefixes} (shortest : Shortest range prefixes)
    : prefixes.Pairwise Apart := by
  refine shortest.ascending.imp ?_
  rintro left right ordered address ⟨first, second⟩
  obtain ⟨-, -, high⟩ := (contains_ofNet_iff left address).mpr first
  obtain ⟨-, low, -⟩ := (contains_ofNet_iff right address).mpr second
  omega

theorem exact_of_readBack (related : List.Forall₂ ReadBack ranges groups) (address)
    : (∃ net ∈ groups.flatten, net.contains address)
      ↔ ∃ range ∈ ranges, range.Contains address := by
  induction related with
  | nil => simp
  | cons head _ ih =>
    simp only [flatten_cons, mem_append, or_and_right, exists_or, ih,
      head.2.exact address, mem_cons, exists_eq_left]

theorem apart_of_readBack (related : List.Forall₂ ReadBack ranges groups)
    (ha : ranges.Pairwise IpRange.Apart)
    : groups.flatten.Pairwise Apart := by
  induction related with
  | nil => exact List.Pairwise.nil
  | @cons range prefixes ranges groups head tail ih =>
    obtain ⟨first, others⟩ := pairwise_cons.mp ha
    rw [flatten_cons, pairwise_append]
    refine ⟨head.2.apart, ih others, fun left inHead right inTail address both => ?_⟩
    have here := (head.2.exact address).mp ⟨left, inHead, both.1⟩
    obtain ⟨other, mem, there⟩ :=
      (exact_of_readBack tail address).mp ⟨right, inTail, both.2⟩
    have ha := first other mem
    simp only [IpRange.Apart, IpRange.Contains] at ha here there
    omega

/-- An IP set is read back as prefixes that hold the same addresses, unless its ranges are too
many to be read.
-/
theorem ip_set_read_back (parseNet : String → Option IpNet) (item : UInt8) {values : List String}
    {nets : List IpNet} (given : values ≠ [])
    (parsed : values.mapM (parsePrefix parseNet) = .ok nets)
    (few : (merge (nets.map ofNet)).length ≤ maxCollectionLength)
    : ∃ body groups,
      writeOptionalIpSet parseNet item values = .ok (item :: body)
      ∧ Reader.Reads readIpSet body (groups.flatten.map netText)
      ∧ (∀ address, (∃ net ∈ groups.flatten, net.contains address)
        ↔ ∃ net ∈ nets, net.contains address)
      ∧ groups.flatten.Pairwise Apart
      ∧ List.Forall₂ ReadBack (merge (nets.map ofNet)) groups := by
  have merged : IpRange.Merged _ (merge (nets.map ofNet)) :=
    merged_merge (forall_mem_map.mpr fun net _ => valid_ofNet net)
  obtain ⟨groups, related, reads⟩ := reads_ranges merged.valid
  refine ⟨_, groups, writeOptionalIpSet_eq item given parsed, ?_, fun address => ?_,
    apart_of_readBack related merged.apart, related⟩
  · refine (reads_byte short 1).bind ?_
    refine (reads_bigEndian short (few.trans_lt (by decide))).bind ?_
    rw [if_neg (not_lt.mpr few), map_flatten]
    exact reads.map flatten
  · rw [exact_of_readBack related, merged.exact]
    simp [contains_ofNet_iff]

/-- Two addresses that follow each other. -/
theorem ip_set_read_back_example
    : ∃ body, ∃ groups : List (List IpNet),
      writeOptionalIpSet (fun _ => none) 6 ["10.0.0.1", "10.0.0.0"] = .ok (6 :: body)
      ∧ Reader.Reads readIpSet body (groups.flatten.map netText) := by
  have parsed : ["10.0.0.1", "10.0.0.0"].mapM (parsePrefix fun _ => none)
      = .ok [.v4 ⟨0x0a000001#32, ⟨32, by decide⟩⟩, .v4 ⟨0x0a000000#32, ⟨32, by decide⟩⟩] := by
    decide +kernel
  obtain ⟨body, groups, written, reads, -⟩ :=
    ip_set_read_back (fun _ => none) 6 (cons_ne_nil _ _) parsed
      ((length_merge_le _).trans (by decide))
  exact ⟨body, groups, written, reads⟩

theorem readIpSet_too_large (many : maxCollectionLength < count) (hb : count < 2 ^ 64) (rest)
    : readIpSet (1 :: (toBigEndian 8 count ++ rest)) = .error "IP set is too large" := by
  have number := reads_bigEndian short (hb.trans_le (by decide : _ ≤ 256 ^ 8)) rest
  have version := reads_byte short 1 (toBigEndian 8 count ++ rest)
  rw [singleton_append] at version
  rw [readIpSet, bind_apply, readU8, version]
  simp only [ne_eq, not_true_eq_false, if_false]
  rw [bind_apply, readU64Be, number]
  simp only [if_pos many]
  rfl

/-- Ranges with gaps between them are merged to themselves. -/
theorem mergeFrom_of_apart {previous} (ha : (previous :: ranges).Pairwise IpRange.Apart)
    : mergeFrom previous ranges = previous :: ranges := by
  induction ranges generalizing previous with
  | nil => rfl
  | cons range ranges ih =>
    obtain ⟨first, others⟩ := pairwise_cons.mp ha
    have separate : ¬previous.joins range := by
      have gap := first range mem_cons_self
      simp only [joins, and_eq_true, decide_eq_true_eq]
      unfold IpRange.Apart at gap
      omega
    rw [mergeFrom, if_neg separate, ih others]

theorem merge_of_apart (ha : ranges.Pairwise IpRange.Apart)
    (ordered : ∀ range ∈ ranges, range.first ≤ range.last)
    : merge ranges = ranges := by
  have hs : ranges.Pairwise fun left right => le left right = true := by
    refine ha.imp_of_mem fun {left right} first _ gap => ?_
    have := ordered left first
    unfold IpRange.Apart at gap
    simp only [le, or_eq_true, and_eq_true, decide_eq_true_eq]
    omega
  rw [IpRange.merge, mergeSort_of_pairwise hs]
  cases ranges with
  | nil => rfl
  | cons previous ranges =>
    exact (foldl_absorb [] previous ranges).trans (mergeFrom_of_apart ha)

/-- Every second IPv4 address. -/
def spacedAddress (index : Nat) : IpAddr := .v4 (BitVec.ofNat 32 (2 * index))

def spacedNet (index : Nat) : IpNet :=
  .v4 { addr := BitVec.ofNat 32 (2 * index), prefixLen := Fin.last 32 }

theorem ofNet_spaced {index} (hs : index < 2 ^ 31)
    : ofNet (spacedNet index)
      = { family := 4, first := 2 * index, last := 2 * index } := by
  let block : AlignedBlock :=
    { first := 2 * index, height := 0, aligned := Nat.one_dvd _ }
  have hb : block.stop ≤ 2 ^ familyWidth 4 := (by omega : 2 * index + 1 ≤ 2 ^ 32)
  have hw := IpNet.block_ofBlock (.inl rfl) (Nat.zero_le _) hb
  rw [ofNet_eq, show spacedNet index = IpNet.ofBlock 4 block from rfl, hw,
    IpNet.family_ofBlock (.inl rfl)]
  rfl

theorem merge_spaced (hs : count ≤ 2 ^ 31)
    : (merge (((List.range count).map spacedNet).map ofNet)).length = count := by
  have ranges : ((range count).map spacedNet).map ofNet
      = (range count).map fun index =>
        { family := 4, first := 2 * index, last := 2 * index } := by
    rw [map_map, map_inj_left]
    exact fun index mem => ofNet_spaced ((mem_range.mp mem).trans_le hs)
  rw [ranges, merge_of_apart]
  · rw [length_map, length_range]
  · rw [pairwise_map]
    refine pairwise_lt_range.imp fun hb => .inr ⟨rfl, ?_⟩
    simp only
    omega
  · exact forall_mem_map.mpr fun _ _ => le_rfl

theorem too_large_of_spaced (many : maxCollectionLength < count) (hs : count ≤ 2 ^ 31)
    : ∃ values nets body,
      values.mapM (parsePrefix fun _ => none) = .ok nets
      ∧ writeOptionalIpSet (fun _ => none) 6 values = .ok (6 :: body)
      ∧ readIpSet body = .error "IP set is too large" := by
  let values := (range count).map fun index => (spacedAddress index).toString
  have hp : values.mapM (parsePrefix fun _ => none)
      = .ok ((range count).map spacedNet) := by
    have each : ∀ index ∈ range count,
        (parsePrefix (fun _ => none) ∘ fun index => (spacedAddress index).toString) index
          = .ok (spacedNet index) := by
      intro index _
      rw [Function.comp_apply, parsePrefix, spacedAddress, IpAddr.toString, parseIpAddr_fmtIpv4]
      rfl
    rw [mapM_map, mapM_eq_ok each]
  have hf : 0 < values.length := by
    rw [length_map, length_range]
    omega
  have given : values ≠ [] := ne_nil_of_length_pos hf
  refine ⟨_, _, _, hp, writeOptionalIpSet_eq 6 given hp, ?_⟩
  rw [merge_spaced hs]
  exact readIpSet_too_large many (hs.trans_lt (by decide)) _

/-- An IP set of one address more than a collection may have is written and cannot be read. -/
theorem ip_set_too_large
    : ∃ values nets body,
      values.mapM (parsePrefix fun _ => none) = .ok nets
      ∧ writeOptionalIpSet (fun _ => none) 6 values = .ok (6 :: body)
      ∧ readIpSet body = .error "IP set is too large" :=
  too_large_of_spaced (Nat.lt_succ_self maxCollectionLength) (by decide)

end Zay.Route.Srs
