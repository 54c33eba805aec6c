import Zay.Error
import Zay.Net.Address
import Zay.Text

/-! The fake-IP allocator (`dns/fakeip.rs`) and the two tables of the persistent cache it
reads and writes (`dns/persistent.rs`). Every call holds the state mutex from start to end,
so calls are atomic. Overflowing shifts wrap, as in a release build.
-/

namespace Zay.Dns

open Net Function

/-- A row of `fakeip_cache` under one cache id. -/
structure FakeIpRow where
  address : IpAddr
  domain : String
  isIpv6 : Bool
  deriving Repr, DecidableEq

/-- Two rows that the primary key and the `UNIQUE` constraint of the table both allow. -/
def FakeIpRow.Compatible (left right : FakeIpRow) : Prop :=
  left.address ≠ right.address
  ∧ ¬ (left.domain = right.domain ∧ left.isIpv6 = right.isIpv6)

structure PersistentFakeIpMetadata where
  inet4Range : Option IpNet
  inet6Range : Option IpNet
  current4 : Option IpAddr
  current6 : Option IpAddr
  deriving Repr, DecidableEq

/-- The fake-IP tables of `PersistentDnsCache`: a store that never fails. -/
structure FakeIpCache where
  rows : List FakeIpRow
  metadata : Option PersistentFakeIpMetadata
  unique : rows.Pairwise FakeIpRow.Compatible

namespace FakeIpCache

def empty : FakeIpCache where
  rows := []
  metadata := none
  unique := .nil

variable (cache : FakeIpCache)

def loadFakeipByAddress (address : IpAddr) : Option String :=
  (cache.rows.find? (·.address = address)).map (·.domain)

def loadFakeipByDomain (domain : String) (ipv6 : Bool) : Option IpAddr :=
  (cache.rows.find? fun row => row.domain = domain ∧ row.isIpv6 = ipv6).map (·.address)

/-- The `DELETE` of `save_fakeip` removes what would collide with the new row. -/
def saveFakeip (address : IpAddr) (domain : String) : FakeIpCache where
  rows :=
    ⟨address, domain, address.isIpv6⟩ :: cache.rows.filter fun row =>
      ¬ (row.address = address ∨ (row.domain = domain ∧ row.isIpv6 = address.isIpv6))
  metadata := cache.metadata
  unique := by
    refine List.pairwise_cons.mpr ⟨?_, cache.unique.filter _⟩
    intro row kept
    have apart := (List.mem_filter.mp kept).2
    simp only [not_or, decide_eq_true_eq] at apart
    exact ⟨fun same => apart.1 same.symm, fun same => apart.2 ⟨same.1.symm, same.2.symm⟩⟩

def saveFakeipMetadata (metadata : PersistentFakeIpMetadata) : FakeIpCache :=
  { cache with metadata := some metadata }

def clearFakeip (_ : FakeIpCache) : FakeIpCache := .empty

end FakeIpCache

/-- `checked_add(1)` on the bits of one family. -/
def nextBits {width : Nat} (bits : BitVec width) : Option (BitVec width) :=
  if bits = BitVec.allOnes width then none else some (bits + 1)

def next : IpAddr → Option IpAddr
  | .v4 bits => (nextBits bits).map .v4
  | .v6 bits => (nextBits bits).map .v6

-- A full-length prefix shifts by the whole width, which wraps to no shift at all.
def broadcastAddress : IpNet → IpAddr
  | .v4 range => .v4 (range.addr ||| (BitVec.allOnes 32 >>> (range.prefixLen.val % 32)))
  | .v6 range => .v6 (range.addr ||| (BitVec.allOnes 128 >>> (range.prefixLen.val % 128)))

def canonicalDomain (domain : String) : String :=
  toAsciiLowercase (trimEndMatches domain '.')

def validCurrent : Option IpAddr → Option IpNet → Bool
  | none, none => true
  | some current, some range => range.contains current
  | _, _ => false

/-- `State`. The hash maps are read and written one key at a time, or cleared. -/
structure FakeIpState where
  current4 : Option IpAddr
  current6 : Option IpAddr
  last4 : Option IpAddr
  last6 : Option IpAddr
  byAddress : IpAddr → Option String
  byDomain4 : String → Option IpAddr
  byDomain6 : String → Option IpAddr

variable (state : FakeIpState)

namespace FakeIpState

def current (ipv6 : Bool) : Option IpAddr :=
  if ipv6 then state.current6 else state.current4

def last (ipv6 : Bool) : Option IpAddr :=
  if ipv6 then state.last6 else state.last4

def byDomain (ipv6 : Bool) : String → Option IpAddr :=
  if ipv6 then state.byDomain6 else state.byDomain4

def setCurrent (ipv6 : Bool) (address : IpAddr) : FakeIpState :=
  if ipv6 then { state with current6 := some address }
  else { state with current4 := some address }

def setByDomain (ipv6 : Bool) (map : String → Option IpAddr) : FakeIpState :=
  if ipv6 then { state with byDomain6 := map } else { state with byDomain4 := map }

def setByAddress (map : IpAddr → Option String) : FakeIpState :=
  { state with byAddress := map }

/-- `insert_mapping` on the domain that owned the address before. -/
def dropDomain (ipv6 : Bool)
    : Option String → FakeIpState
  | none => state
  | some oldDomain =>
    state.setByDomain ipv6 (update (state.byDomain ipv6) oldDomain none)

/-- `insert_mapping` on the address that the domain owned before. -/
def dropAddress (address : IpAddr) (domain : String)
    : Option IpAddr → FakeIpState
  | none => state
  | some previousAddress =>
    if previousAddress ≠ address ∧ state.byAddress previousAddress = some domain then
      state.setByAddress (update state.byAddress previousAddress none)
    else state

end FakeIpState

def insertMapping (state : FakeIpState) (address : IpAddr) (domain : String)
    : FakeIpState :=
  let ipv6 := address.isIpv6
  let oldDomain := state.byAddress address
  let state := state.setByAddress (update state.byAddress address (some domain))
  let state := state.dropDomain ipv6 oldDomain
  let previousAddress := state.byDomain ipv6 domain
  let state :=
    state.setByDomain ipv6 (update (state.byDomain ipv6) domain (some address))
  state.dropAddress address domain previousAddress

structure FakeIpResolver where
  inet4Range : Option IpNet
  inet6Range : Option IpNet
  persistentCache : Option FakeIpCache
  state : FakeIpState

namespace FakeIpResolver

def newWithCache (inet4Range inet6Range : Option IpNet) (persistentCache : Option FakeIpCache)
    : IoResult FakeIpResolver :=
  if inet4Range.isNone ∧ inet6Range.isNone then
    .error ⟨.invalidInput, "at least one of inet4_range or inet6_range must be set"⟩
  else if inet4Range.any (!·.addr.isIpv4) then
    .error ⟨.invalidInput, "inet4_range must contain IPv4 addresses"⟩
  else if inet6Range.any (!·.addr.isIpv6) then
    .error ⟨.invalidInput, "inet6_range must contain IPv6 addresses"⟩
  else
    let current4 := inet4Range.bind (next ·.addr)
    let current6 := inet6Range.bind (next ·.addr)
    let fresh : PersistentFakeIpMetadata := { inet4Range, inet6Range, current4, current6 }
    let resume (metadata : PersistentFakeIpMetadata) : Bool :=
      metadata.inet4Range = inet4Range && metadata.inet6Range = inet6Range
        && validCurrent metadata.current4 inet4Range
        && validCurrent metadata.current6 inet6Range
    let (position, persistentCache) :=
      match persistentCache with
      | none => (fresh, none)
      | some cache =>
        match cache.metadata.filter resume with
        | some metadata => (metadata, some cache)
        | none => (fresh, some (cache.clearFakeip.saveFakeipMetadata fresh))
    .ok {
      inet4Range
      inet6Range
      persistentCache
      state := {
        current4 := position.current4
        current6 := position.current6
        last4 := inet4Range.map broadcastAddress
        last6 := inet6Range.map broadcastAddress
        byAddress := fun _ => none
        byDomain4 := fun _ => none
        byDomain6 := fun _ => none
      }
    }

def new (inet4Range inet6Range : Option IpNet) : IoResult FakeIpResolver :=
  newWithCache inet4Range inet6Range none

def contains (resolver : FakeIpResolver) (address : IpAddr) : Bool :=
  resolver.inet4Range.any (·.contains address) || resolver.inet6Range.any (·.contains address)

variable (resolver : FakeIpResolver)

def range (ipv6 : Bool) : Option IpNet :=
  if ipv6 then resolver.inet6Range else resolver.inet4Range

/-- The second step of `create`: a stored address still inside the family's range. -/
def storedAddress (domain : String) (ipv6 : Bool) : Option IpAddr :=
  (resolver.persistentCache.bind (·.loadFakeipByDomain domain ipv6)).filter fun address =>
    (resolver.range ipv6).any (·.contains address)

/-- The last step of `create`: the address after the current one, or, at the end of the
range, the second address after the range's own.
-/
def rotate (ipv6 : Bool) : IoResult IpAddr :=
  match resolver.range ipv6 with
  | none =>
    .error ⟨.addrNotAvailable,
      if ipv6 then "missing IPv6 fakeip address range"
      else "missing IPv4 fakeip address range"⟩
  | some range =>
    match (resolver.state.current ipv6).bind next with
    | none => .error ⟨.addrNotAvailable, "fake-IP range exhausted"⟩
    | some address =>
      if some address = resolver.state.last ipv6 ∨ !range.contains address then
        -- The wrapped address is not compared with the range again.
        match (next range.addr).bind next with
        | none => .error ⟨.addrNotAvailable, "fake-IP range has no usable addresses"⟩
        | some address => .ok address
      else .ok address

/-- What `create` records for an address that it has just rotated to. -/
def allocate (domain : String) (ipv6 : Bool) (address : IpAddr) : FakeIpResolver :=
  let state := insertMapping (resolver.state.setCurrent ipv6 address) address domain
  { resolver with
    state
    persistentCache := resolver.persistentCache.map fun cache =>
      (cache.saveFakeip address domain).saveFakeipMetadata {
        inet4Range := resolver.inet4Range
        inet6Range := resolver.inet6Range
        current4 := state.current4
        current6 := state.current6
      } }

def create (domain : String) (ipv6 : Bool) : IoResult IpAddr × FakeIpResolver :=
  let domain := canonicalDomain domain
  match resolver.state.byDomain ipv6 domain with
  | some address => (.ok address, resolver)
  | none =>
    match resolver.storedAddress domain ipv6 with
    | some address =>
      (.ok address,
        { resolver with state := insertMapping resolver.state address domain })
    | none =>
      match resolver.rotate ipv6 with
      | .error error => (.error error, resolver)
      | .ok address => (.ok address, resolver.allocate domain ipv6 address)

def lookupDomain (address : IpAddr) : Option String × FakeIpResolver :=
  match resolver.state.byAddress address with
  | some domain => (some domain, resolver)
  | none =>
    match resolver.persistentCache.bind (·.loadFakeipByAddress address) with
    | none => (none, resolver)
    | some domain =>
      if resolver.contains address then
        (some domain,
          { resolver with state := insertMapping resolver.state address domain })
      else (none, resolver)

def reset : FakeIpResolver :=
  { resolver with
    state := { resolver.state with
      byAddress := fun _ => none
      byDomain4 := fun _ => none
      byDomain6 := fun _ => none }
    persistentCache := resolver.persistentCache.map (·.clearFakeip) }

end FakeIpResolver

end Zay.Dns
