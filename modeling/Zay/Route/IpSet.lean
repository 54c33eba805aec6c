import Zay.Lib.AlignedBlocks
import Zay.Net.IpText
import Zay.Route.SrsBytes

/-! The IP sets of a compiled rule-set (`route/srs.rs`). Prefixes are written as the ranges
they merge to, and a range is read back as the prefixes it splits into. How the `ipnet` crate
reads a prefix is a parameter.
-/

namespace Zay.Route.Srs

open Lib Net Option

/-- `from` and `to` are the first and the last address. -/
structure IpRange where
  family : Nat
  first : Nat
  last : Nat
  deriving Repr, DecidableEq

namespace IpRange

/-- The order of the keys by which the ranges are sorted. -/
def le (left right : IpRange) : Bool :=
  left.family < right.family
    || (left.family = right.family
      && (left.first < right.first || (left.first = right.first && left.last ≤ right.last)))

/-- The range overlaps the one before it or adjoins it. -/
def joins (previous range : IpRange) : Bool :=
  previous.family = range.family && range.first ≤ min (previous.last + 1) (2 ^ 128 - 1)

def extend (previous range : IpRange) : IpRange :=
  { previous with last := max previous.last range.last }

def absorb (merged : List IpRange) (range : IpRange) : List IpRange :=
  match merged.getLast? with
  | some previous =>
    if previous.joins range then merged.dropLast ++ [previous.extend range]
    else merged ++ [range]
  | none => merged ++ [range]

def merge (ranges : List IpRange) : List IpRange :=
  (ranges.mergeSort le).foldl absorb []

def ofNet : IpNet → IpRange
  | .v4 net => { family := 4, first := net.network.toNat, last := net.broadcast.toNat }
  | .v6 net =>
    let hostBits := 128 - net.prefixLen.val
    { family := 6
      first := net.network.toNat
      last :=
        if hostBits = 128 then 2 ^ 128 - 1
        else net.network.toNat ||| ((1 <<< hostBits) - 1) }

def write (range : IpRange) : Except String (List UInt8) := do
  let first ← writeIpAddr range.family range.first
  let last ← writeIpAddr range.family range.last
  return first ++ last

end IpRange

section

variable (parseNet : String → Option IpNet)

/-- A prefix, or an address that stands for itself. -/
def parsePrefix (value : String) : Except String IpNet :=
  match parseNet value with
  | some net => .ok net
  | none =>
    match parseIpAddr value with
    | none => .error "invalid IP address syntax"
    | some address =>
      match IpNet.new address (if address.isIpv4 then 32 else 128) with
      | some net => .ok net
      | none => .error "invalid IP prefix length"

def parseIpRange (value : String) : Except String IpRange := do
  return IpRange.ofNet (← parsePrefix parseNet value)

def writeOptionalIpSet (item : UInt8) (values : List String) : Except String (List UInt8) :=
  if values.isEmpty then .ok []
  else do
    let merged := IpRange.merge (← values.mapM (parseIpRange parseNet))
    let bodies ← merged.mapM IpRange.write
    return [item, 1] ++ toBigEndian 8 merged.length ++ bodies.flatten

end

section

variable (bits maximum last : Nat)

/-- The largest number of host bits that the rest of the range has room for, without a result
where `u128` overflows.
-/
def capacity (start : Nat) : Option Nat :=
  if start = 0 ∧ last = maximum then some bits
  else if last < start ∨ 2 ^ 128 ≤ last - start + 1 then none
  else some (last - start + 1).log2

/-- The start of the next block, if there is one. Again there is no result where `u128`
overflows.
-/
def nextStart (start hostBits : Nat) : Option (Option Nat) :=
  if hostBits = bits then some none
  else if 128 ≤ hostBits ∨ last < start then none
  else if 2 ^ hostBits - 1 = last - start then some none
  else if 2 ^ 128 ≤ start + 2 ^ hostBits then none
  else some (some (start + 2 ^ hostBits))

def alignment (start : Nat) : Nat :=
  if start = 0 then bits else min (trailingZeros 128 start) bits

/-- One round of the loop: the host bits of the block at `start` and the start of the next. -/
def nextBlock (start : Nat) : Option (Nat × Option Nat) := do
  let hostBits := min (alignment bits start) (← capacity bits maximum last start)
  return (hostBits, ← nextStart bits last start hostBits)

theorem nextBlock_lt {start hostBits next}
    (hf : nextBlock bits maximum last start = some (hostBits, some next))
    : start < next ∧ next ≤ last := by
  simp only [nextBlock, pure_def, bind_eq_bind, bind_eq_some_iff, some.injEq, Prod.mk.injEq] at hf
  obtain ⟨room, roomFound, following, goes, rfl, rfl⟩ := hf
  unfold nextStart at goes
  by_cases all : min (alignment bits start) room = bits
  · rw [if_pos all] at goes
    cases goes
  rw [if_neg all] at goes
  split at goes
  · cases goes
  split at goes
  · cases goes
  split at goes
  · cases goes
  rename_i fits notLast small
  cases goes
  unfold capacity at roomFound
  by_cases hw : start = 0 ∧ last = maximum
  · rw [if_pos hw] at roomFound
    cases roomFound
    rw [alignment, if_pos hw.1, min_self] at all
    exact absurd rfl all
  rw [if_neg hw] at roomFound
  split at roomFound
  · cases roomFound
  cases roomFound
  have hpos : last - start + 1 ≠ 0 := Nat.succ_ne_zero _
  have room :=
    (Nat.le_log2 hpos).mp (min_le_right (alignment bits start) (last - start + 1).log2)
  have block := Nat.two_pow_pos (min (alignment bits start) (last - start + 1).log2)
  omega

/-- The loop of `range_to_prefixes_inner`: the address and the length of every prefix. -/
def prefixBlocks (start : Nat) : Option (List (Nat × Nat)) :=
  match _ : nextBlock bits maximum last start with
  | none => none
  | some (hostBits, none) => some [(start, bits - hostBits)]
  | some (hostBits, some next) =>
    (prefixBlocks next).map fun blocks => (start, bits - hostBits) :: blocks
termination_by last - start
decreasing_by
  have := nextBlock_lt bits maximum last ‹_›
  omega

end

def rangeToPrefixesInner (start last bits : Nat) (render : Nat → Nat → String)
    : Except String (List String) :=
  let maximum := 2 ^ bits - 1
  if last < start then .error "invalid descending IP set range"
  else if maximum < last then .error "IP set address exceeds its family"
  else
    match prefixBlocks bits maximum last start with
    | none => .error "attempt to compute with overflow"
    | some blocks => .ok (blocks.map fun block => render block.1 block.2)

/-- The text of a prefix. -/
def prefixText (address : IpAddr) (prefixLen : Nat) : String :=
  address.toString ++ "/" ++ toString prefixLen

def rangeToPrefixes (first last : IpAddr) : Except String (List String) :=
  match first, last with
  | .v4 first, .v4 last =>
    rangeToPrefixesInner first.toNat last.toNat 32 fun value prefixLen =>
      prefixText (.v4 (BitVec.ofNat 32 value)) prefixLen
  | .v6 first, .v6 last =>
    rangeToPrefixesInner first.toNat last.toNat 128 fun value prefixLen =>
      prefixText (.v6 (BitVec.ofNat 128 value)) prefixLen
  | _, _ => .error "IP set range mixes address families"

def readIpRange : Reader String (List String) := do
  let first ← readIpAddr
  let last ← readIpAddr
  match rangeToPrefixes first last with
  | .ok prefixes => return prefixes
  | .error error => Reader.fail error

def readIpSet : Reader String (List String) := do
  let version ← readU8
  if version ≠ 1 then Reader.fail "invalid IP set version"
  else
    let count ← readU64Be
    if maxCollectionLength < count then Reader.fail "IP set is too large"
    else
      let prefixes ← Reader.times readIpRange count
      return prefixes.flatten

end Zay.Route.Srs
