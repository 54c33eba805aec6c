import Zay.Lib.Numerals
import Zay.Net.Address

/-! The text of IP addresses: `Display` and `FromStr` of `std::net::IpAddr`, and that what is
written of an IPv4 address is read back.
-/

namespace Zay.Net

open Lib List Option

def octets (bits : BitVec 32) : List Nat := toBase 256 4 bits.toNat

def segments (bits : BitVec 128) : List Nat := toBase 65536 8 bits.toNat

/-- `fmt_subslice`: the numerals of a list, with a separator between them. -/
def fmtSubslice (radix : Nat) (separator : Char) : List Nat → List Char
  | [] => []
  | first :: tail =>
    radix.toDigits first ++ tail.flatMap fun value => separator :: radix.toDigits value

def fmtIpv4 (bits : BitVec 32) : List Char := fmtSubslice 10 '.' (octets bits)

def toIpv4Mapped (bits : BitVec 128) : Option (BitVec 32) :=
  if bits.toNat / 2 ^ 32 = 0xffff then some (bits.setWidth 32) else none

structure Span where
  start : Nat
  len : Nat
  deriving Repr, DecidableEq

/-- One segment of the search for the longest run of zeros: the longest run so far and the
run that ends here.
-/
def Span.scan (spans : Span × Span) (segment : Nat × Nat) : Span × Span :=
  if segment.1 = 0 then
    let current : Span :=
      { start := if spans.2.len = 0 then segment.2 else spans.2.start
        len := spans.2.len + 1 }
    (if spans.1.len < current.len then current else spans.1, current)
  else (spans.1, ⟨0, 0⟩)

def longestZeros (segments : List Nat) : Span :=
  (segments.zipIdx.foldl Span.scan (⟨0, 0⟩, ⟨0, 0⟩)).1

def fmtIpv6 (bits : BitVec 128) : List Char :=
  match toIpv4Mapped bits with
  | some ipv4 => "::ffff:".toList ++ fmtIpv4 ipv4
  | none =>
    let zeroes := longestZeros (segments bits)
    if 1 < zeroes.len then
      fmtSubslice 16 ':' ((segments bits).take zeroes.start)
        ++ ':' :: ':'
          :: fmtSubslice 16 ':' ((segments bits).drop (zeroes.start + zeroes.len))
    else fmtSubslice 16 ':' (segments bits)

def IpAddr.toString : IpAddr → String
  | .v4 bits => String.ofList (fmtIpv4 bits)
  | .v6 bits => String.ofList (fmtIpv6 bits)

/-- What a reader of the parser takes from the front of the text, and the rest. -/
abbrev Reader (α : Type) := List Char → Option (α × List Char)

/-- `read_number` into an integer type of `bound` values. -/
def readNumber (radix maxDigits : Nat) (allowZeroPrefix : Bool) (bound : Nat)
    : Reader Nat := fun text =>
  let split := splitDigits radix text
  if maxDigits < split.1.length then none
  else if split.1 = [] then none
  else if !allowZeroPrefix && text.head? = some '0' && 1 < split.1.length then none
  else if ofDigits radix split.1 < bound then some (ofDigits radix split.1, split.2)
  else none

/-- `read_separator`: the separator stands before every element but the first. -/
def readSeparator {α : Type} (separator : Char) (index : Nat) (inner : Reader α)
    : Reader α := fun text =>
  if 0 < index then
    match text with
    | char :: text => if char = separator then inner text else none
    | [] => none
  else inner text

def readOctets : (remaining index : Nat) → Reader (List Nat)
  | 0, _ => fun text => some ([], text)
  | remaining + 1, index => fun text =>
    match readSeparator '.' index (readNumber 10 3 false 256) text with
    | none => none
    | some octet =>
      match readOctets remaining (index + 1) octet.2 with
      | none => none
      | some octets => some (octet.1 :: octets.1, octets.2)

def readIpv4Addr : Reader (List Nat) := readOctets 4 0

/-- The part of an IPv6 address that `read_groups` takes. -/
structure Groups where
  groups : List Nat
  ipv4 : Bool
  rest : List Char
  deriving Repr, DecidableEq

/-- `read_groups` with `remaining` slots left; an IPv4 address may fill the last two. -/
def readGroups : (remaining index : Nat) → List Char → Groups
  | 0, _, text => { groups := [], ipv4 := false, rest := text }
  | remaining + 1, index, text =>
    let ipv4 :=
      if 0 < remaining then readSeparator ':' index readIpv4Addr text else none
    match ipv4 with
    | some octets =>
      { groups := toBase 65536 2 (ofDigits 256 octets.1), ipv4 := true, rest := octets.2 }
    | none =>
      match readSeparator ':' index (readNumber 16 4 true 65536) text with
      | some group =>
        let later := readGroups remaining (index + 1) group.2
        { later with groups := group.1 :: later.groups }
      | none => { groups := [], ipv4 := false, rest := text }

def readIpv6Addr : Reader (List Nat) := fun text =>
  let head := readGroups 8 0 text
  if head.groups.length = 8 then some (head.groups, head.rest)
  else if head.ipv4 then none
  else
    match head.rest with
    | ':' :: ':' :: text =>
      let tail := readGroups (8 - (head.groups.length + 1)) 0 text
      let zeroes := replicate (8 - head.groups.length - tail.groups.length) 0
      some (head.groups ++ zeroes ++ tail.groups, tail.rest)
    | _ => none

def readIpAddr : Reader IpAddr := fun text =>
  match readIpv4Addr text with
  | some octets => some (.v4 (BitVec.ofNat 32 (ofDigits 256 octets.1)), octets.2)
  | none =>
    match readIpv6Addr text with
    | some groups => some (.v6 (BitVec.ofNat 128 (ofDigits 65536 groups.1)), groups.2)
    | none => none

/-- `str::parse::<IpAddr>`: the whole text has to be an address. -/
def parseIpAddr (text : String) : Option IpAddr :=
  match readIpAddr text.toList with
  | some (address, []) => some address
  | _ => none

variable {value : Nat} {rest text : List Char}

theorem readNumber_append {radix maxDigits bound allowZeroPrefix}
    (read : readNumber radix maxDigits allowZeroPrefix bound text = some (value, []))
    (ended : DigitFree radix rest)
    : readNumber radix maxDigits allowZeroPrefix bound (text ++ rest) = some (value, rest) := by
  cases text with
  | nil => simp [readNumber, splitDigits] at read
  | cons _ text =>
    simp only [readNumber, ite_none_left_eq_some, ite_none_right_eq_some,
      some.injEq, Prod.mk.injEq] at read ⊢
    obtain ⟨hs, given, unpadded, hf, he, all⟩ := read
    rw [splitDigits_append all ended]
    exact ⟨hs, given, unpadded, hf, he, rfl⟩

theorem readNumber_octet (hs : value < 256) (he : DigitFree 10 rest)
    : readNumber 10 3 false 256 (Nat.toDigits 10 value ++ rest) = some (value, rest) := by
  have each : ∀ value < 256, readNumber 10 3 false 256 (Nat.toDigits 10 value)
      = some (value, []) := by
    decide +kernel
  exact readNumber_append (each value hs) he

variable (bits : BitVec 32)

theorem readIpv4Addr_fmtIpv4 (he : DigitFree 10 rest)
    : readIpv4Addr (fmtIpv4 bits ++ rest) = some (octets bits, rest) := by
  have hs : ∀ value ∈ octets bits, value < 256 :=
    fun value hm => lt_of_mem_toBase (by decide) hm
  have dot (text : List Char) : DigitFree 10 ('.' :: text) := by
    rintro char ⟨⟩
    decide
  obtain ⟨first, second, third, fourth, list⟩
      : ∃ first second third fourth, octets bits = [first, second, third, fourth] :=
    ⟨_, _, _, _, rfl⟩
  simp only [list, forall_mem_cons] at hs
  simp [readIpv4Addr, readOctets, readSeparator, fmtIpv4, fmtSubslice, list, readNumber_octet,
    hs, dot, he]

theorem ofDigits_octets : ofDigits 256 (octets bits) = bits.toNat :=
  ofDigits_toBase bits.isLt

theorem parseIpAddr_fmtIpv4 : parseIpAddr (String.ofList (fmtIpv4 bits)) = some (.v4 bits) := by
  have hw : readIpv4Addr (fmtIpv4 bits ++ []) = some (octets bits, []) :=
    readIpv4Addr_fmtIpv4 bits (by simp [DigitFree])
  rw [append_nil] at hw
  simp [parseIpAddr, readIpAddr, hw, ofDigits_octets]

example : (IpAddr.v6 0x20010db8000000000000000000000001).toString = "2001:db8::1" := by
  decide +kernel

example : parseIpAddr "127.0.0.01" = none := by
  decide +kernel

end Zay.Net
