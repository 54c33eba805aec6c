import Mathlib.Logic.Function.Basic
import Zay.Error
import Zay.Lib.Numerals

/-! Padding schemes of AnyTLS (`PaddingFactory` in `protocol/anytls.rs`): lines
`packet=item,item,…` where an item is a range of sizes or the check mark `c`. The lossy
decoding of the scheme, its MD5 digest and the order in which a hash map is visited are
parameters.
-/

namespace Zay.AnyTls

open Lib

/-- `str::parse` of an unsigned integer below `bound`. -/
def parseUnsigned (bound : Nat) (text : List Char) : Option Nat :=
  let digits := match text with
    | '+' :: digits => digits
    | digits => digits
  match splitDigits 10 digits with
  | (first :: values, []) => some (ofDigits 10 (first :: values)) |>.filter (· < bound)
  | _ => none

/-- `str::split_once`. -/
def splitOnce (separator : Char) : List Char → Option (List Char × List Char)
  | [] => none
  | char :: text =>
    if char = separator then some ([], text)
    else (splitOnce separator text).map fun split => (char :: split.1, split.2)

/-- `str::split` at one character. -/
def split (separator : Char) (text : List Char) : List (List Char) :=
  match text with
  | [] => [[]]
  | char :: text =>
    if char = separator then [] :: split separator text
    else
      match split separator text with
      | [] => [[char]]
      | part :: parts => (char :: part) :: parts

/-- A line without the carriage return at its end. -/
def withoutReturn (line : List Char) : List Char :=
  if line.getLast? = some '\r' then line.dropLast else line

/-- `str::lines`. -/
def lines (text : List Char) : List (List Char) :=
  let parts := split '\n' text
  parts.dropLast.map withoutReturn ++ (parts.getLast?.filter (· ≠ [])).toList

/-- `parse_settings` as the entries of its map: the last line of a key counts. -/
def parseSettings (text : List Char) : List (List Char × List Char) :=
  ((lines text).filterMap (splitOnce '=')).foldl
    (fun settings entry => settings.filter (·.1 ≠ entry.1) ++ [entry]) []

inductive PaddingSize where
  | exact (size : Nat)
  | range (minimum maximum : Nat)
  | check
  deriving Repr, DecidableEq

structure PaddingFactory where
  rules : UInt32 → Option (List PaddingSize)
  stop : UInt32
  md5 : String

/-- The size between two bounds in order. -/
def PaddingSize.between (minimum maximum : Nat) : PaddingSize :=
  if minimum = maximum then .exact minimum else .range minimum maximum

/-- An item of a rule. What cannot be read is passed over. -/
def parseItem (item : List Char) : Option PaddingSize :=
  if item = ['c'] then some .check
  else do
    let (minimum, maximum) ← splitOnce '-' item
    let minimum ← parseUnsigned (2 ^ 64) minimum
    let maximum ← parseUnsigned (2 ^ 64) maximum
    if minimum = 0 ∨ maximum = 0 then none
    else if maximum < minimum then some (.between maximum minimum)
    else some (.between minimum maximum)

/-- What the library functions make of a scheme. -/
structure SchemeReader where
  fromUtf8Lossy : List UInt8 → List Char
  md5 : List UInt8 → String
  /-- The order in which the map of settings is visited. -/
  visit : List (List Char × List Char) → List (List Char × List Char)

/-- Schemes in ASCII, visited in the order of their lines. -/
def asciiSchemes : SchemeReader where
  fromUtf8Lossy raw := raw.map fun byte => Char.ofNat byte.toNat
  md5 _ := ""
  visit settings := settings

def invalidData (message : String) : IoError where
  kind := .invalidData
  message

namespace PaddingFactory

/-- The rule of one setting, if its key is a packet number. -/
def addRule (rules : UInt32 → Option (List PaddingSize)) (entry : List Char × List Char)
    : UInt32 → Option (List PaddingSize) :=
  match parseUnsigned (2 ^ 32) entry.1 with
  | none => rules
  | some packet =>
    Function.update rules (UInt32.ofNat packet)
      (some ((split ',' entry.2).filterMap parseItem))

def new (library : SchemeReader) (raw : List UInt8) : IoResult PaddingFactory :=
  let settings := parseSettings (library.fromUtf8Lossy raw)
  if settings.isEmpty then .error (invalidData "empty AnyTLS padding scheme")
  else
    match settings.lookup "stop".toList with
    | none => .error (invalidData "AnyTLS padding scheme has no stop value")
    | some stop =>
      match parseUnsigned (2 ^ 32) stop with
      | none => .error (invalidData "invalid AnyTLS padding scheme stop value")
      | some stop =>
        let rules := (library.visit settings).foldl addRule fun _ => none
        .ok { rules, stop := UInt32.ofNat stop, md5 := library.md5 raw }

end PaddingFactory

/-- A size after its range is resolved. -/
inductive ResolvedSize where
  | exact (size : Nat)
  | check
  deriving Repr, DecidableEq

/-- `draw` is what `random_below` reads from the random source. -/
def PaddingSize.resolve (draw : Nat) : PaddingSize → ResolvedSize
  | exact size => .exact size
  | range minimum maximum => .exact (minimum + draw % (maximum - minimum))
  | check => .check

/-- The sizes for one packet, each resolved with its own draw. -/
def PaddingFactory.generate (factory : PaddingFactory) (packet : UInt32) (draws : Nat → Nat)
    : List ResolvedSize :=
  ((factory.rules packet).getD []).mapIdx fun index size => size.resolve (draws index)

end Zay.AnyTls
