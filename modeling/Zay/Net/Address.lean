/-! IP addresses and address ranges, with the parts of `std::net` and the `ipnet` crate
that the program reads.
-/

namespace Zay.Net

open BitVec

inductive IpAddr where
  | v4 (bits : BitVec 32)
  | v6 (bits : BitVec 128)
  deriving Repr, DecidableEq

def IpAddr.isIpv4 : IpAddr → Bool
  | .v4 _ => true
  | .v6 _ => false

def IpAddr.isIpv6 : IpAddr → Bool
  | .v4 _ => false
  | .v6 _ => true

/-- `is_private_address`: every address that is not public, as the routing rules count. -/
def isPrivateAddress : IpAddr → Bool
  | .v4 bits =>
    -- 10.0.0.0/8, 172.16.0.0/12 and 192.168.0.0/16
    bits >>> 24 = 0x0a || bits >>> 20 = 0xac1 || bits >>> 16 = 0xc0a8
      -- 127.0.0.0/8, 224.0.0.0/4, 169.254.0.0/16 and 0.0.0.0
      || bits >>> 24 = 0x7f || bits >>> 28 = 0xe || bits >>> 16 = 0xa9fe || bits = 0
  | .v6 bits =>
    -- fc00::/7, ::1, ff00::/8, fe80::/10 and ::
    bits >>> 121 = 0x7e || bits = 1 || bits >>> 120 = 0xff || bits >>> 118 = 0x3fa
      || bits = 0

/-- `Ipv4Net` and `Ipv6Net`: an address of `width` bits, which need not be the first of
its network, and a prefix length.
-/
structure Cidr (width : Nat) where
  addr : BitVec width
  prefixLen : Fin (width + 1)
  deriving Repr, DecidableEq

def Cidr.hostmask {width : Nat} (range : Cidr width) : BitVec width :=
  BitVec.allOnes width >>> range.prefixLen.val

def Cidr.netmask {width : Nat} (range : Cidr width) : BitVec width :=
  BitVec.allOnes width <<< (width - range.prefixLen.val)

def Cidr.network {width : Nat} (range : Cidr width) : BitVec width :=
  range.addr &&& range.netmask

def Cidr.broadcast {width : Nat} (range : Cidr width) : BitVec width :=
  range.addr ||| range.hostmask

def Cidr.contains {width : Nat} (range : Cidr width) (address : BitVec width) : Bool :=
  range.network ≤ address && address ≤ range.broadcast

inductive IpNet where
  | v4 (range : Cidr 32)
  | v6 (range : Cidr 128)
  deriving Repr, DecidableEq

def IpNet.addr : IpNet → IpAddr
  | .v4 range => .v4 range.addr
  | .v6 range => .v6 range.addr

def IpNet.prefixLen : IpNet → Nat
  | .v4 range => range.prefixLen
  | .v6 range => range.prefixLen

/-- `IpNet::new`, which checks the prefix length against the width of the family. -/
def IpNet.new (address : IpAddr) (prefixLen : UInt8) : Option IpNet :=
  match address with
  | .v4 addr =>
    if h : prefixLen.toNat < 33 then some (.v4 ⟨addr, ⟨prefixLen.toNat, h⟩⟩) else none
  | .v6 addr =>
    if h : prefixLen.toNat < 129 then some (.v6 ⟨addr, ⟨prefixLen.toNat, h⟩⟩) else none

/-- A range contains addresses of its own family only. -/
def IpNet.contains : IpNet → IpAddr → Bool
  | .v4 range, .v4 bits => range.contains bits
  | .v6 range, .v6 bits => range.contains bits
  | _, _ => false

theorem Cidr.contains_addr {width} (range : Cidr width) : range.contains range.addr := by
  have low : (range.addr &&& range.netmask).toNat ≤ range.addr.toNat := by
    rw [toNat_and]
    exact Nat.and_le_left
  have high : range.addr.toNat ≤ (range.addr ||| range.hostmask).toNat := by
    rw [toNat_or]
    exact Nat.left_le_or
  simpa [Cidr.contains, Cidr.network, Cidr.broadcast, le_def] using ⟨low, high⟩

theorem IpNet.contains_addr (range : IpNet) : range.contains range.addr := by
  cases range <;> exact Cidr.contains_addr _

theorem IpNet.isIpv6_of_contains {range : IpNet} {address} (h : range.contains address)
    : address.isIpv6 = range.addr.isIpv6 := by
  cases range <;> cases address <;> simp_all [IpNet.contains, IpNet.addr, IpAddr.isIpv6]

end Zay.Net
