import Mathlib.Algebra.Ring.Nat
import Zay.Clock
import Zay.Lib.AssocMap
import Zay.Net.Address

/-! The pool of client addresses of an OpenVPN server (`protocol/openvpn/ip_pool.rs`). Both
address families keep the same four tables, so they share one record and its operations.
Every call holds the state mutex from start to end, so calls are atomic.
-/

namespace Zay.OpenVpn

open Lib Net Function

structure OpenVpnIpPrefix where
  address : IpAddr
  prefixLen : UInt8
  deriving Repr, DecidableEq

/-- The shift of the source would overflow for a longer prefix than the family has bits. -/
def networkMask (width : Nat) (prefixLen : UInt8) : BitVec width :=
  if prefixLen = 0 then 0 else BitVec.allOnes width <<< (width - prefixLen.toNat)

def OpenVpnIpPrefix.masked (range : OpenVpnIpPrefix) : OpenVpnIpPrefix :=
  match range.address with
  | .v4 bits => { range with address := .v4 (bits &&& networkMask 32 range.prefixLen) }
  | .v6 bits => { range with address := .v6 (bits &&& networkMask 128 range.prefixLen) }

def prefixContains (range : OpenVpnIpPrefix) (address : IpAddr) : Bool :=
  match range.masked.address, address with
  | .v4 network, .v4 bits => bits &&& networkMask 32 range.prefixLen = network
  | .v6 network, .v6 bits => bits &&& networkMask 128 range.prefixLen = network
  | _, _ => false

def lastIpv4InPrefix (range : OpenVpnIpPrefix) : Option (BitVec 32) :=
  match range.masked.address with
  | .v4 network =>
    let hostBits := 32 - range.prefixLen.toNat
    some (network ||| if hostBits = 32 then BitVec.allOnes 32 else (1#32 <<< hostBits) - 1#32)
  | .v6 _ => none

def addIpv4 (address : BitVec 32) (offset : Int) : Option (BitVec 32) :=
  (address.toNat + offset).toNat?.bind fun value =>
    if value < 2 ^ 32 then some (BitVec.ofNat 32 value) else none

def nextIpv6 (address : BitVec 128) : Option (BitVec 128) :=
  if address.toNat + 1 < 2 ^ 128 then some (address + 1#128) else none

inductive Ipv4Topology where
  | subnet
  | p2p
  | net30
  deriving Repr, DecidableEq

inductive IpPoolError where
  | unsupportedTopology (topology : String)
  | invalidIpv4Prefix (prefixLen : UInt8)
  | noAllocatableIpv4
  | ipv4NotConfigured
  | ipv6NotConfigured
  | exhausted
  | ipv4ServerOutsidePool (address : BitVec 32)
  | ipv4ServerNotUsable (address : BitVec 32)
  | ipv4ServerAfterAllocation
  | ipv6ServerOutsidePool (address : BitVec 128)
  deriving Repr, DecidableEq

structure Ipv4PoolLease where
  client : BitVec 32
  peer : Option (BitVec 32)
  deriving Repr, DecidableEq

/-- The tables of one family: `ipv4_used`, `ipv4_identity`, `ipv4_address` and
`ipv4_released`, and their IPv6 counterparts.
-/
structure FamilyState (A : Type) where
  used : List A
  identity : A → Option String
  address : AssocMap String A
  released : A → Option Instant

def FamilyState.empty {A : Type} : FamilyState A where
  used := []
  identity _ := none
  address := .empty
  released _ := none

structure IpPool where
  ipv4Prefix : Option OpenVpnIpPrefix
  ipv4Topology : Ipv4Topology
  ipv4Server : Option (BitVec 32)
  ipv4Start : Option (BitVec 32)
  ipv4End : Option (BitVec 32)
  ipv6Prefix : Option OpenVpnIpPrefix
  ipv4 : FamilyState (BitVec 32)
  ipv6 : FamilyState (BitVec 128)
  ipv6Server : Option (BitVec 128)

def ipPoolMaximumSize : Nat := 65536

def resolveIpv4PoolTopology (topology : String) : Except IpPoolError Ipv4Topology :=
  match topology with
  | "" => .ok .net30
  | "subnet" => .ok .subnet
  | "p2p" => .ok .p2p
  | "net30" => .ok .net30
  | _ => .error (.unsupportedTopology topology)

namespace IpPool

/-- `configure_ipv4` on a masked prefix. -/
def configureIpv4 (pool : IpPool) (range : OpenVpnIpPrefix) : Except IpPoolError IpPool :=
  if range.prefixLen < 16 ∨ 29 < range.prefixLen then
    .error (.invalidIpv4Prefix range.prefixLen)
  else
    match range.address, lastIpv4InPrefix range with
    | .v4 network, some broadcast =>
      let bounds :=
        match pool.ipv4Topology with
        | .subnet => (addIpv4 network 2, addIpv4 broadcast (-1))
        | .p2p | .net30 =>
          (addIpv4 network 4,
            addIpv4 broadcast (if range.prefixLen = 29 then 0 else -4))
      match bounds with
      | (some start, some stop) =>
        if stop < start then .error .noAllocatableIpv4
        else
          .ok { pool with
            ipv4Prefix := some range
            ipv4Server := addIpv4 network 1
            ipv4Start := some start
            ipv4End := some stop }
      | _ => .error .noAllocatableIpv4
    | _, _ => .ok pool

def configureIpv6 (pool : IpPool) (range : OpenVpnIpPrefix) : IpPool :=
  match range.address with
  | .v6 network =>
    { pool with
      ipv6Prefix := some range
      ipv6Server := nextIpv6 network
      ipv6 := { pool.ipv6 with used := (nextIpv6 network).toList } }
  | .v4 _ => pool

/-- Only the first usable prefix of each family counts. -/
def new (addressPools : List OpenVpnIpPrefix) (topology : String)
    : Except IpPoolError IpPool := do
  let topology ← resolveIpv4PoolTopology topology
  let pool : IpPool :=
    { ipv4Prefix := none, ipv4Topology := topology, ipv4Server := none, ipv4Start := none,
      ipv4End := none, ipv6Prefix := none, ipv4 := .empty, ipv6 := .empty, ipv6Server := none }
  let pool ←
    match addressPools.find? (fun range => range.address.isIpv4 && range.prefixLen ≤ 32) with
    | some range => pool.configureIpv4 range.masked
    | none => .ok pool
  match addressPools.find? (fun range => range.address.isIpv6 && range.prefixLen ≤ 128) with
  | some range => .ok (pool.configureIpv6 range.masked)
  | none => .ok pool

end IpPool

def releaseIsBefore : (left right : Option Instant) → Bool
  | none, some _ => true
  | some left, some right => left < right
  | _, _ => false

namespace FamilyState

variable {A : Type} [DecidableEq A] (state : FamilyState A)

/-- The table of addresses after `client` is taken from another identity. -/
def takeOver (client : A) (identity : String) : AssocMap String A :=
  match state.identity client with
  | some previous =>
    if previous ≠ identity ∧ state.address.get? previous = some client then
      state.address.erase previous
    else state.address
  | none => state.address

/-- `commit_ipv4_lease` and `commit_ipv6_address`: an address forgets the identity it had,
and an identity the address it had.
-/
def commit (client : A) (identity : String) : FamilyState A :=
  let used := state.used.insert client
  let released := update state.released client none
  let address := state.takeOver client identity
  if identity.isEmpty then
    { used, released, address, identity := update state.identity client none }
  else
    let previous := (address.get? identity).filter (· ≠ client)
    { used
      released := previous.elim released fun previous => update released previous none
      identity :=
        update
          (previous.elim state.identity fun previous =>
            update state.identity previous none)
          client (some identity)
      address := address.insert identity client }

def release (address : A) (now : Instant) : FamilyState A :=
  { state with
    used := state.used.filter (· ≠ address)
    released :=
      update state.released address
        (if (state.identity address).any (!·.isEmpty) then some now else none) }

/-- The search for a free candidate. Without an identity the first one is taken. With one,
an address that was never released is preferred, then the one released first.
-/
def selectAvailable {L : Type} (state : FamilyState A) (client : L → A) (skip : A → Bool)
    (identity : String)
    : (candidates : List L) → (selected : Option (L × Option Instant)) → Option L
  | [], selected => selected.map Prod.fst
  | candidate :: candidates, selected =>
    if client candidate ∈ state.used then
      selectAvailable state client skip identity candidates selected
    else if identity.isEmpty then some candidate
    else if skip (client candidate) then
      selectAvailable state client skip identity candidates selected
    else
      let released := state.released (client candidate)
      let selected :=
        if selected.all fun current => releaseIsBefore released current.2 then
          some (candidate, released)
        else selected
      if released.isSome then
        selectAvailable state client skip identity candidates selected
      else selected.map Prod.fst

end FamilyState

namespace IpPool

variable (pool : IpPool)

def ipv4Lease (address : BitVec 32) : Ipv4PoolLease where
  client := address
  peer :=
    match pool.ipv4Topology with
    | .subnet => none
    | .p2p => pool.ipv4Server
    | .net30 => addIpv4 address (-1)

/-- The loop of `visit_ipv4_leases` over single addresses. -/
def hostLeases (pool : IpPool) (stop : BitVec 32)
    : (fuel : Nat) → (current : Option (BitVec 32)) → List Ipv4PoolLease
  | 0, _ => []
  | _, none => []
  | fuel + 1, some client =>
    if client ≤ stop then
      let rest := pool.hostLeases stop fuel (addIpv4 client 1)
      if some client = pool.ipv4Server then rest else pool.ipv4Lease client :: rest
    else []

/-- The loop of `visit_ipv4_leases` over blocks of four addresses. -/
def blockLeases (pool : IpPool) (stop : BitVec 32)
    : (fuel : Nat) → (current : Option (BitVec 32)) → List Ipv4PoolLease
  | 0, _ => []
  | _, none => []
  | fuel + 1, some block =>
    if block ≤ stop then
      match addIpv4 block 1, addIpv4 block 2 with
      | some peer, some client =>
        if stop < client then []
        else
          let rest := pool.blockLeases stop fuel (addIpv4 block 4)
          if some peer = pool.ipv4Server ∨ some client = pool.ipv4Server then rest
          else { client, peer := some peer } :: rest
      | _, _ => []
    else []

/-- The leases that `visit_ipv4_leases` visits, in order. -/
def ipv4Leases : List Ipv4PoolLease :=
  match pool.ipv4Start, pool.ipv4End with
  | some start, some stop =>
    let fuel := stop.toNat - start.toNat + 1
    match pool.ipv4Topology with
    | .subnet | .p2p => pool.hostLeases stop fuel (some start)
    | .net30 => pool.blockLeases stop fuel (some start)
  | _, _ => []

def findAvailableIpv4Lease (identity : String) : Option Ipv4PoolLease :=
  pool.ipv4.selectAvailable (·.client) (fun _ => false) identity pool.ipv4Leases none

def ipv6Contains (address : BitVec 128) : Bool :=
  pool.ipv6Prefix.any fun range => prefixContains range (.v6 address)

/-- The addresses that `find_available_ipv6_address` visits. The server address is passed
over without being counted, so the loop runs at most once more than the limit.
-/
def ipv6Addresses (pool : IpPool)
    : (fuel visited : Nat) → (current : Option (BitVec 128)) → List (BitVec 128)
  | 0, _, _ => []
  | _, _, none => []
  | fuel + 1, visited, some address =>
    if pool.ipv6Contains address ∧ visited < ipPoolMaximumSize then
      if some address = pool.ipv6Server then
        pool.ipv6Addresses fuel visited (nextIpv6 address)
      else address :: pool.ipv6Addresses fuel (visited + 1) (nextIpv6 address)
    else []

def findAvailableIpv6Address (identity : String) : Option (BitVec 128) :=
  match pool.ipv6Prefix.map OpenVpnIpPrefix.address with
  | some (.v6 network) =>
    -- An address without an identity is only taken while the table of identities has room.
    let full := ipPoolMaximumSize ≤ pool.ipv6.address.len
    pool.ipv6.selectAvailable id
      (fun address => (pool.ipv6.identity address).isNone && full) identity
      (pool.ipv6Addresses (ipPoolMaximumSize + 1) 0 (nextIpv6 network)) none
  | _ => none

def setServerIpv4 (address : Option (BitVec 32)) : Except IpPoolError IpPool :=
  match address with
  | none => .ok pool
  | some address =>
    match pool.ipv4Prefix with
    | none => .error (.ipv4ServerOutsidePool address)
    | some range =>
      if !prefixContains range (.v4 address) then .error (.ipv4ServerOutsidePool address)
      else if .v4 address = range.address ∨ some address = lastIpv4InPrefix range then
        .error (.ipv4ServerNotUsable address)
      else if pool.ipv4.used ≠ [] then .error .ipv4ServerAfterAllocation
      else .ok { pool with ipv4Server := some address }

/-- The previous server address is given back, whoever uses the new one. -/
def setServerIpv6 (address : Option (BitVec 128)) : Except IpPoolError IpPool :=
  match address with
  | none => .ok pool
  | some address =>
    if !pool.ipv6Contains address then .error (.ipv6ServerOutsidePool address)
    else
      let used := pool.ipv6.used.filter fun other => some other ≠ pool.ipv6Server
      .ok { pool with
        ipv6Server := some address
        ipv6 := { pool.ipv6 with used := used.insert address } }

/-- The address that an identity had before and gets back. -/
def reclaimIpv4 (identity : String) : Option (BitVec 32) :=
  if identity.isEmpty then none
  else (pool.ipv4.address.get? identity).filter (· ∉ pool.ipv4.used)

def allocateIpv4ForIdentity (identity : String) : Except IpPoolError (Ipv4PoolLease × IpPool) :=
  if pool.ipv4Prefix.isNone then .error .ipv4NotConfigured
  else
    match ((pool.reclaimIpv4 identity).map pool.ipv4Lease).or
        (pool.findAvailableIpv4Lease identity) with
    | none => .error .exhausted
    | some lease => .ok (lease, { pool with ipv4 := pool.ipv4.commit lease.client identity })

def reclaimIpv6 (identity : String) : Option (BitVec 128) :=
  if identity.isEmpty then none
  else
    (pool.ipv6.address.get? identity).filter fun previous =>
      pool.ipv6Contains previous ∧ some previous ≠ pool.ipv6Server
        ∧ previous ∉ pool.ipv6.used

def allocateIpv6ForIdentity (identity : String) : Except IpPoolError (BitVec 128 × IpPool) :=
  if pool.ipv6Prefix.isNone then .error .ipv6NotConfigured
  else
    match (pool.reclaimIpv6 identity).or (pool.findAvailableIpv6Address identity) with
    | none => .error .exhausted
    | some address => .ok (address, { pool with ipv6 := pool.ipv6.commit address identity })

def release (pool : IpPool) (address : IpAddr) (now : Instant) : IpPool :=
  match address with
  | .v4 address => { pool with ipv4 := pool.ipv4.release address now }
  | .v6 address => { pool with ipv6 := pool.ipv6.release address now }

end IpPool

end Zay.OpenVpn
