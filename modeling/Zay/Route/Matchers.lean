import Zay.Route.Metadata
import Zay.Text

/-! The matchers that rules are made of: lists, ports, address versions, interface prefixes,
hardware addresses and domain suffixes.
-/

namespace Zay.Route

open Net Lib

/-- A compiled regular expression is the set of texts it finds a match in. -/
abbrev Regex := String → Bool

structure PortRange where
  start : UInt16
  stop : UInt16
  deriving Repr, DecidableEq

def PortRange.contains (range : PortRange) (port : UInt16) : Bool :=
  range.start ≤ port && port ≤ range.stop

def matchesList (values : List String) (actual : String) : Bool :=
  values.isEmpty || values.contains actual

/-- `matches_optional` and `matches_string_optional`. -/
def matchesOptional {α : Type} [BEq α] (values : List α) (actual : Option α) : Bool :=
  values.isEmpty || actual.any values.contains

def matchesRegex (patterns : List Regex) (actual : String) : Bool :=
  patterns.isEmpty || patterns.any (· actual)

def matchesPort (exact : List UInt16) (ranges : List PortRange) (actual : Option UInt16)
    : Bool :=
  (exact.isEmpty && ranges.isEmpty)
    || actual.any fun port => exact.contains port || ranges.any (·.contains port)

def matchesIpVersion (version : Int) (explicit : Option UInt8) (address : Option IpAddr)
    : Bool :=
  let actual := (address.map fun address => if address.isIpv4 then 4 else 6).or explicit
  match version with
  | 0 => true
  | 4 => actual = some 4
  | 6 => actual = some 6
  | _ => false

def matchesAnyPrefix (prefixes : List IpNet) (addresses : List IpAddr) : Bool :=
  prefixes.isEmpty || prefixes.all fun net => addresses.any net.contains

def matchesInterfacePrefixes (configured : List (String × List IpNet))
    (actual : String → Option (List IpAddr))
    : Bool :=
  configured.isEmpty
    || configured.all fun entry =>
      (actual entry.1).any fun addresses =>
        entry.2.all fun net => addresses.any net.contains

/-- `u8::from_str_radix` in base 16, which allows a leading plus sign. -/
def parseHexOctet (text : List Char) : Option Nat :=
  let digits :=
    match text with
    | '+' :: digit :: digits => digit :: digits
    | _ => text
  if digits.isEmpty then none
  else
    (digits.mapM (digitValue 16)).bind fun values =>
      if ofDigits 16 values < 256 then some (ofDigits 16 values) else none

/-- `slice::chunks_exact` by two. -/
def pairs : List Char → List (List Char)
  | first :: second :: rest => [first, second] :: pairs rest
  | _ => []

def parseHexOctets (octets : List (List Char)) : Option (List Nat) :=
  octets.mapM parseHexOctet

def formatHardwareAddress (octets : List Nat) : String :=
  String.ofList
    ([':'].intercalate
      (octets.map fun octet => [(octet / 16).digitChar, (octet % 16).digitChar]))

def normalizeHardwareAddress (value : String) (wifi : Bool) : String :=
  let value := if wifi then trim value else value
  let text := value.toList
  let parsed :=
    if wifi && byteLength text = 12 && text.all fun char => (digitValue 16 char).isSome then
      parseHexOctets (pairs text)
    else if '.' ∈ text then
      let groups := text.splitOn '.'
      if groups.length = 3
          && groups.all fun group =>
            byteLength group = 4 && group.all fun char => char.toNat < 128 then
        parseHexOctets (pairs groups.flatten)
      else none
    else
      let separator :=
        if ':' ∈ text then some ':' else if '-' ∈ text then some '-' else none
      separator.bind fun separator =>
        let groups := text.splitOn separator
        if groups.all fun group => byteLength group = 2 then parseHexOctets groups else none
  match parsed with
  | some octets =>
    if (if wifi then octets.length = 6 else octets.length ∈ [6, 8, 20]) then
      formatHardwareAddress octets
    else value
  | none => value

def matchesHardwareAddresses (configured : List String) (actual : String) (wifi : Bool)
    : Bool :=
  configured.isEmpty
    || configured.any fun value =>
      normalizeHardwareAddress value wifi = normalizeHardwareAddress actual wifi

def domainMatchesSuffix (domain configured : String) : Bool :=
  let subdomainsOnly := startsWithChar configured '.'
  let suffix := toAsciiLowercase (trimEndMatches (trimStartMatches configured '.') '.')
  (!subdomainsOnly && domain = suffix)
    || (stripSuffix domain suffix).any (endsWithChar · '.')

end Zay.Route
