import Zay.Route.Router

/-! The destination of a connection as rules see it, and rules on it. -/

namespace Zay.Route

open Net DefaultItems Rule Metadata Cidr

/-- The part of the metadata that route-options actions change. -/
structure Target where
  destination : Option SocksAddr
  addresses : List IpAddr
  ipVersion : Option UInt8
  deriving Repr, DecidableEq

namespace Target

def ip (target : Target) : Option IpAddr :=
  match target.destination with
  | some (.ip address) => some address.ip
  | _ => none

def port (target : Target) : Option UInt16 := target.destination.map SocksAddr.port

/-- The addresses that a destination address condition is checked on. -/
def reach (target : Target) : List IpAddr :=
  match target.ip with
  | some address => [address]
  | none => target.addresses

end Target

/-- The metadata with another target. -/
def Metadata.aimed (metadata : Metadata) (target : Target) : Metadata :=
  { metadata with
    destination := target.destination
    destinationAddresses := target.addresses
    ipVersion := target.ipVersion }

section

variable (metadata : Metadata) (target : Target)

theorem Metadata.destinationIp_aimed : (metadata.aimed target).destinationIp = target.ip := rfl

theorem DefaultItems.matchesDestinationIpAddress_aimed (items : DefaultItems)
    : items.matchesDestinationIpAddress (metadata.aimed target)
      = target.reach.any fun address => items.matchesIpAddress (some address) := by
  unfold matchesDestinationIpAddress Target.reach
  rw [destinationIp_aimed]
  cases target.ip with
  | none => rfl
  | some address => simp

end

/-- The range of one address. -/
def singleAddress : IpAddr → IpNet
  | .v4 bits => .v4 { addr := bits, prefixLen := Fin.last 32 }
  | .v6 bits => .v6 { addr := bits, prefixLen := Fin.last 128 }

theorem contains_whole {width} (bits value : BitVec width)
    : contains { addr := bits, prefixLen := Fin.last width } value
      = decide (value = bits) := by
  have network : Cidr.network { addr := bits, prefixLen := Fin.last width } = bits := by
    simp [Cidr.network, Cidr.netmask]
  have hb : broadcast { addr := bits, prefixLen := Fin.last width } = bits := by
    have zero : BitVec.allOnes width >>> width = BitVec.zero width :=
      BitVec.ushiftRight_eq_zero (Nat.le_refl width)
    simp [broadcast, hostmask, zero]
  rw [contains, network, hb, Bool.eq_iff_iff, Bool.and_eq_true,
    decide_eq_true_iff, decide_eq_true_iff, decide_eq_true_iff, BitVec.le_def,
    BitVec.le_def, ← BitVec.toNat_inj]
  omega

theorem contains_singleAddress (address other)
    : (singleAddress address).contains other = decide (other = address) := by
  cases address with
  | v4 bits =>
    cases other with
    | v4 value => simpa [singleAddress, IpNet.contains] using contains_whole bits value
    | v6 value => simp [singleAddress, IpNet.contains]
  | v6 bits =>
    cases other with
    | v4 value => simp [singleAddress, IpNet.contains]
    | v6 value => simpa [singleAddress, IpNet.contains] using contains_whole bits value

/-- A rule on the version, the port and the addresses of the destination, whose range of
addresses is left open when there is none.
-/
def Rule.onDestination (version : Int) (port : List UInt16) (address : List IpAddr) : Rule :=
  .default {
    items := { plain with
      raw := { RawDefaultRule.default with
        ipVersion := version
        port
        ipCidr := address.map IpAddr.toString }
      destinationPrefixes := address.map singleAddress }
    ruleSets := []
    action := .direct }

end Zay.Route
