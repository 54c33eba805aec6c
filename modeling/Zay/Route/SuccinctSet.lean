import Mathlib.Data.List.Infix
import Zay.Lib.WordBits

/-! The succinct set of a compiled rule-set (`SuccinctSet`): a trie of reversed domain keys,
its nodes numbered breadth first. Every node owns a run of zeros of the bitmap, one for each
child, and a closing one.
-/

namespace Zay.Route

structure SuccinctSet where
  leaves : List (BitVec 64)
  bitmap : List (BitVec 64)
  labels : List UInt8
  selectBlocks : List UInt32
  nodeCount : Nat
  deriving Repr, DecidableEq

/-- `reverse_domain`: the UTF-8 bytes of the characters in reverse order. -/
def reverseDomain (value : String) : List UInt8 :=
  value.toList.reverse.flatMap String.utf8EncodeChar

/-- The marker of a suffix that stands for every name ending in it. -/
def carriageReturn : UInt8 := 0x0d

/-- The marker of a suffix that also stands for itself. -/
def newline : UInt8 := 0x0a

/-- The marker of an open end of an AdGuard rule. -/
def backspace : UInt8 := 0x08

def dot : UInt8 := 0x2e

def star : UInt8 := 0x2a

namespace SuccinctSet

def bit (words : List (BitVec 64)) (index : Nat) : Bool :=
  (words[index / 64]?).any fun word => word &&& ((1#64) <<< (index % 64)) ≠ 0#64

def label (set : SuccinctSet) (node bitmapIndex : Nat) : Option UInt8 :=
  if node ≤ bitmapIndex then set.labels[bitmapIndex - node]? else none

def child (set : SuccinctSet) (node bitmapIndex : Nat) : Option Nat :=
  if node ≤ bitmapIndex ∧ bitmapIndex - node + 1 < set.nodeCount then
    some (bitmapIndex - node + 1)
  else none

/-- The first one of the bitmap from `position` on. Past the end of the bitmap there is
none.
-/
def nextOne (set : SuccinctSet) : (fuel position : Nat) → Option Nat
  | 0, _ => none
  | fuel + 1, position =>
    if bit set.bitmap position then some position else set.nextOne fuel (position + 1)

def advance (set : SuccinctSet) : (remaining position : Nat) → Option Nat
  | 0, position => some position
  | remaining + 1, position =>
    match set.nextOne (64 * set.bitmap.length) (position + 1) with
    | some position => set.advance remaining position
    | none => none

def selectOne (set : SuccinctSet) (index : Nat) : Option Nat :=
  if set.nodeCount ≤ index then none
  else
    match set.selectBlocks[index / 32]? with
    | some position => set.advance (index % 32) position.toNat
    | none => none

def nodeStart (set : SuccinctSet) (node : Nat) : Nat :=
  if node = 0 then 0
  else
    match set.selectOne (node - 1) with
    | some position => position + 1
    | none => 0

/-- How the scan of a node's labels ends. -/
inductive Scan where
  | verdict (matched : Bool)
  | descend (node : Nat)
  deriving Repr, DecidableEq

/-- The inner loop of `matches_domain_key`. The labels give out before the fuel does. -/
def scanDomain (set : SuccinctSet) (current : UInt8) (node : Nat)
    : (fuel bitmapIndex : Nat) → Scan
  | 0, _ => .verdict false
  | fuel + 1, bitmapIndex =>
    if bit set.bitmap bitmapIndex then .verdict false
    else
      match set.label node bitmapIndex with
      | none => .verdict false
      | some label =>
        if label = carriageReturn then .verdict true
        else
          match set.child node bitmapIndex with
          | none => .verdict false
          | some child =>
            if label = newline ∧ current = dot ∧ bit set.leaves child then
              .verdict true
            else if label = current then .descend child
            else set.scanDomain current node fuel (bitmapIndex + 1)

/-- The last loop of `matches_domain_key`: a marker among the labels of the last node. -/
def scanMarker (set : SuccinctSet) (node : Nat) : (fuel bitmapIndex : Nat) → Bool
  | 0, _ => false
  | fuel + 1, bitmapIndex =>
    if bit set.bitmap bitmapIndex then false
    else
      match set.label node bitmapIndex with
      | none => false
      | some label =>
        if label = carriageReturn ∨ label = newline then true
        else set.scanMarker node fuel (bitmapIndex + 1)

def matchesDomainKey (set : SuccinctSet) : (key : List UInt8) → (node start : Nat) → Bool
  | [], node, start => bit set.leaves node || set.scanMarker node (set.labels.length + 1) start
  | current :: key, node, start =>
    match set.scanDomain current node (set.labels.length + 1) start with
    | .verdict matched => matched
    | .descend child => set.matchesDomainKey key child (set.nodeStart child)

def matchesDomain (set : SuccinctSet) (domain : String) : Bool :=
  set.matchesDomainKey (reverseDomain domain) 0 0

section

variable (set : SuccinctSet) (deeper : List UInt8 → Nat → Nat → Bool)

/-- The inner loop of `matches_adguard_key`, where `deeper` is the recursive call. A
wildcard tries every rest of the key that is left to match.
-/
def scanAdguard (current : UInt8) (key : List UInt8) (node : Nat)
    : (fuel bitmapIndex : Nat) → Scan
  | 0, _ => .verdict false
  | fuel + 1, bitmapIndex =>
    if bit set.bitmap bitmapIndex then .verdict false
    else
      match set.label node bitmapIndex with
      | none => .verdict false
      | some label =>
        if label = carriageReturn then .verdict true
        else
          match set.child node bitmapIndex with
          | none => .verdict false
          | some child =>
            if label = newline ∧ current = dot ∧ bit set.leaves child then
              .verdict true
            else if label = current then .descend child
            else if (label = star ∨ label = backspace)
                ∧ (current :: key).tails.any fun rest =>
                  deeper rest child (set.nodeStart child) then
              .verdict true
            else scanAdguard current key node fuel (bitmapIndex + 1)

def scanAdguardEnd (node : Nat) : (fuel bitmapIndex : Nat) → Bool
  | 0, _ => false
  | fuel + 1, bitmapIndex =>
    if bit set.bitmap bitmapIndex then false
    else
      match set.label node bitmapIndex with
      | none => false
      | some label =>
        if label = carriageReturn ∨ label = newline ∨ label = backspace then true
        else if label = star then
          match set.child node bitmapIndex with
          | none => false
          | some child => deeper [] child (set.nodeStart child)
        else scanAdguardEnd node fuel (bitmapIndex + 1)

def walkAdguard : (key : List UInt8) → (node start : Nat) → Bool
  | [], node, start =>
    bit set.leaves node || set.scanAdguardEnd deeper node (set.labels.length + 1) start
  | current :: key, node, start =>
    match set.scanAdguard deeper current key node (set.labels.length + 1) start with
    | .verdict matched => matched
    | .descend child => walkAdguard key child (set.nodeStart child)

end

/-- `matches_adguard_key` with `levels` calls left before the limit on the depth. -/
def matchesAdguardKey (set : SuccinctSet)
    : (levels : Nat) → (key : List UInt8) → (node start : Nat) → Bool
  | 0 => fun _ _ _ => false
  | levels + 1 => set.walkAdguard (set.matchesAdguardKey levels)

/-- The calls at depths 0 to 100. -/
def adguardLevels : Nat := 101

/-- The loop of `matches_adguard` over the rests of the key that follow a dot. -/
def matchesAdguardLabels (set : SuccinctSet) : (fuel : Nat) → (key : List UInt8) → Bool
  | 0, _ => false
  | fuel + 1, key =>
    set.matchesAdguardKey adguardLevels (backspace :: key) 0 0
      || match key.dropWhile (· ≠ dot) with
        | [] => false
        | _ :: key => set.matchesAdguardLabels fuel key

def matchesAdguard (set : SuccinctSet) (domain : String) : Bool :=
  let key := reverseDomain domain
  set.matchesAdguardKey adguardLevels key 0 0
    || set.matchesAdguardLabels (key.length + 1) key

end SuccinctSet

end Zay.Route
