import Zay.Error
import Zay.Lib.MachineInt
import Zay.Lib.Overwrite
import Zay.Net.SocksAddr

/-! Raw IP packets as the flow dispatcher reads and rewrites them
(`endpoint::flow_dispatch`).
-/

namespace Zay.Endpoint

open Lib Net

variable (packet : List UInt8)

def byteAt (offset : Nat) : UInt8 := packet.getD offset 0

/-- `u16::from_be_bytes` of two bytes. -/
def wordAt (offset : Nat) : UInt16 :=
  UInt16.ofNat (ofBigEndian (slice packet offset 2))

def ipv4At (offset : Nat) : IpAddr :=
  .v4 (BitVec.ofNat 32 (ofBigEndian (slice packet offset 4)))

def ipv6At (offset : Nat) : IpAddr :=
  .v6 (BitVec.ofNat 128 (ofBigEndian (slice packet offset 16)))

def wordBytes (word : UInt16) : List UInt8 := toBigEndian 2 word.toNat

def addressBytes : IpAddr → List UInt8
  | .v4 bits => toBigEndian 4 bits.toNat
  | .v6 bits => toBigEndian 16 bits.toNat

structure FlowKey where
  protocol : UInt8
  source : SocketAddr
  destination : SocketAddr
  deriving Repr, DecidableEq

def FlowKey.reversed (key : FlowKey) : FlowKey :=
  { key with source := key.destination, destination := key.source }

structure Rewrite where
  sourceAddress : IpAddr
  sourceSelector : UInt16
  destinationAddress : IpAddr
  destinationSelector : UInt16
  deriving Repr, DecidableEq

structure ParsedPacket where
  ipVersion : Nat
  protocol : UInt8
  source : SocketAddr
  destination : SocketAddr
  ipHeaderLen : Nat
  transportOffset : Nat
  packetLen : Nat
  tcpFlags : UInt8
  icmpType : UInt8
  hasFlow : Bool
  fragmented : Bool
  deriving Repr, DecidableEq

/-- The extension headers of IPv6 in front of the transport header; the result says whether
they end with a fragment header.
-/
def skipExtensions (packet : List UInt8) (packetLen : Nat) (protocol : UInt8) (offset : Nat)
    : Option (UInt8 × Nat × Bool) :=
  if protocol = 0 ∨ protocol = 43 ∨ protocol = 60 then
    if packetLen < offset + 2 then none
    else
      let length := ((byteAt packet (offset + 1)).toNat + 1) * 8
      if packetLen < offset + length then none
      else skipExtensions packet packetLen (byteAt packet offset) (offset + length)
  else if protocol = 44 then some (protocol, offset, true)
  else some (protocol, offset, false)
  termination_by packetLen - offset
  decreasing_by omega

namespace ParsedPacket

/-- Source and destination selector, TCP flags, ICMP type, and whether there is a flow. -/
def selectors (protocol : UInt8) (offset length : Nat) : UInt16 × UInt16 × UInt8 × UInt8 × Bool :=
  if protocol = 6 ∧ 20 ≤ length then
    (wordAt packet offset, wordAt packet (offset + 2), byteAt packet (offset + 13), 0, true)
  else if protocol = 17 ∧ 8 ≤ length then
    (wordAt packet offset, wordAt packet (offset + 2), 0, 0, true)
  else if (protocol = 1 ∨ protocol = 58) ∧ 8 ≤ length then
    let icmpType := byteAt packet offset
    let hasFlow := protocol = 1 ∧ (icmpType = 0 ∨ icmpType = 8)
      ∨ protocol = 58 ∧ (icmpType = 128 ∨ icmpType = 129)
    (wordAt packet (offset + 4), wordAt packet (offset + 4), 0, icmpType, hasFlow)
  else (0, 0, 0, 0, false)

def finish (ipVersion : Nat) (protocol : UInt8) (source destination : IpAddr)
    (ipHeaderLen transportOffset packetLen : Nat) (fragmented : Bool)
    : Option ParsedPacket :=
  if fragmented then
    some {
      ipVersion, protocol, ipHeaderLen, transportOffset, packetLen, fragmented
      source := ⟨source, 0⟩
      destination := ⟨destination, 0⟩
      tcpFlags := 0
      icmpType := 0
      hasFlow := false }
  else if packetLen < transportOffset ∨ packet.length < packetLen then none
  else
    let found := selectors packet protocol transportOffset (packetLen - transportOffset)
    some {
      ipVersion, protocol, ipHeaderLen, transportOffset, packetLen, fragmented
      source := ⟨source, found.1⟩
      destination := ⟨destination, found.2.1⟩
      tcpFlags := found.2.2.1
      icmpType := found.2.2.2.1
      hasFlow := found.2.2.2.2 }

def parseV4 : Option ParsedPacket :=
  if packet.length < 20 then none
  else
    let headerLen := (byteAt packet 0 &&& 0x0f).toNat * 4
    let packetLen := (wordAt packet 2).toNat
    if headerLen < 20 ∨ packetLen < headerLen ∨ packet.length < packetLen then none
    else
      finish packet 4 (byteAt packet 9) (ipv4At packet 12) (ipv4At packet 16) headerLen headerLen
        packetLen (wordAt packet 6 &&& 0x3fff ≠ 0)

def parseV6 : Option ParsedPacket :=
  if packet.length < 40 then none
  else
    let packetLen := 40 + (wordAt packet 4).toNat
    if packet.length < packetLen then none
    else
      match skipExtensions packet packetLen (byteAt packet 6) 40 with
      | none => none
      | some (protocol, offset, fragmented) =>
        finish packet 6 protocol (ipv6At packet 8) (ipv6At packet 24) 40 offset packetLen
          fragmented

def parse : Option ParsedPacket :=
  if packet.isEmpty then none
  else if byteAt packet 0 >>> 4 = 4 then parseV4 packet
  else if byteAt packet 0 >>> 4 = 6 then parseV6 packet
  else none

variable (parsed : ParsedPacket)

def flowKey : Option FlowKey :=
  if parsed.hasFlow then
    some
      { protocol := parsed.protocol, source := parsed.source, destination := parsed.destination }
  else none

def isIcmp : Bool := parsed.protocol = 1 ∨ parsed.protocol = 58

def isIcmpEchoRequest : Bool :=
  parsed.protocol = 1 ∧ parsed.icmpType = 8 ∨ parsed.protocol = 58 ∧ parsed.icmpType = 128

def initialTcpSyn : Bool :=
  parsed.protocol ≠ 6 ∨ parsed.tcpFlags &&& 0x02 ≠ 0 ∧ parsed.tcpFlags &&& 0x10 = 0

def isIcmpError : Bool :=
  parsed.protocol = 1 ∧ [3, 4, 5, 11, 12].contains parsed.icmpType
  ∨ parsed.protocol = 58 ∧ 1 ≤ parsed.icmpType ∧ parsed.icmpType ≤ 4

/-- Bytes from the transport header to the end of the packet. -/
def transportLen : Nat := parsed.packetLen - parsed.transportOffset

end ParsedPacket

/-- The packet that an ICMP error quotes. -/
structure EmbeddedPacket where
  ipVersion : Nat
  protocol : UInt8
  source : SocketAddr
  destination : SocketAddr
  ipOffset : Nat
  ipHeaderLen : Nat
  transportOffset : Nat
  deriving Repr, DecidableEq

namespace EmbeddedPacket

/-- The transport header may reach to the end of the buffer. -/
def finish (ipVersion : Nat) (protocol : UInt8) (source destination : IpAddr)
    (ipOffset ipHeaderLen transportOffset : Nat)
    : Option EmbeddedPacket :=
  if packet.length < transportOffset then none
  else
    let length := packet.length - transportOffset
    if (protocol = 6 ∨ protocol = 17) ∧ 4 ≤ length then
      some {
        ipVersion, protocol, ipOffset, ipHeaderLen, transportOffset
        source := ⟨source, wordAt packet transportOffset⟩
        destination := ⟨destination, wordAt packet (transportOffset + 2)⟩ }
    else if (protocol = 1 ∨ protocol = 58) ∧ 8 ≤ length then
      some {
        ipVersion, protocol, ipOffset, ipHeaderLen, transportOffset
        source := ⟨source, wordAt packet (transportOffset + 4)⟩
        destination := ⟨destination, wordAt packet (transportOffset + 4)⟩ }
    else none

def parse (outer : ParsedPacket) : Option EmbeddedPacket :=
  let ipOffset := outer.transportOffset + 8
  -- An empty quote has no version.
  if outer.packetLen ≤ ipOffset ∨ packet.length < outer.packetLen then none
  else
    let length := outer.packetLen - ipOffset
    if byteAt packet ipOffset >>> 4 = 4 then
      let headerLen := (byteAt packet ipOffset &&& 0x0f).toNat * 4
      if length < 20 ∨ headerLen < 20 ∨ length < headerLen then none
      else
        finish packet 4 (byteAt packet (ipOffset + 9)) (ipv4At packet (ipOffset + 12))
          (ipv4At packet (ipOffset + 16)) ipOffset headerLen (ipOffset + headerLen)
    else if byteAt packet ipOffset >>> 4 = 6 then
      if length < 40 then none
      else
        match skipExtensions packet outer.packetLen (byteAt packet (ipOffset + 6))
            (ipOffset + 40) with
        | none => none
        | some (protocol, offset, fragmented) =>
          if fragmented then none
          else
            finish packet 6 protocol (ipv6At packet (ipOffset + 8))
              (ipv6At packet (ipOffset + 24)) ipOffset 40 offset
    else none

def flowKey (embedded : EmbeddedPacket) : FlowKey :=
  { protocol := embedded.protocol, source := embedded.source
    destination := embedded.destination }

end EmbeddedPacket

/-- The loop over the words: the additions of `u32` wrap. -/
def checksumSumFrom (sum : UInt32) : List UInt8 → UInt32
  | high :: low :: rest =>
    checksumSumFrom (sum + (UInt16.ofNat (ofBigEndian [high, low])).toUInt32) rest
  | [last] => sum + last.toUInt32 <<< 8
  | [] => sum

def checksumSum (data : List UInt8) : UInt32 := checksumSumFrom 0 data

theorem high_eq_zero_iff (sum : UInt32) : sum >>> 16 = 0 ↔ sum.toNat < 65536 := by
  rw [← UInt32.toNat_inj, UInt32.toNat_shiftRight]
  exact Nat.shiftRight_eq_div_pow _ 16 ▸ Nat.div_eq_zero_iff_lt (by decide)

/-- One round of carries: the two halves cannot overflow. -/
theorem toNat_carry (sum : UInt32)
    : ((sum &&& (0xffff : UInt32)) + (sum >>> 16)).toNat
      = sum.toNat % 65536 + sum.toNat / 65536 := by
  have low : (sum &&& (0xffff : UInt32)).toNat = sum.toNat % 65536 :=
    (UInt32.toNat_and ..).trans (Nat.and_two_pow_sub_one_eq_mod _ 16)
  have high : (sum >>> 16).toNat = sum.toNat / 65536 :=
    (UInt32.toNat_shiftRight ..).trans (Nat.shiftRight_eq_div_pow _ 16)
  have := sum.toNat_lt
  rw [UInt32.toNat_add, low, high]
  omega

def foldCarries (sum : UInt32) : UInt32 :=
  if sum >>> 16 = 0 then sum else foldCarries ((sum &&& (0xffff : UInt32)) + (sum >>> 16))
  termination_by sum.toNat
  decreasing_by
    rw [high_eq_zero_iff] at *
    rw [toNat_carry]
    omega

def finishChecksum (sum : UInt32) : UInt16 := ~~~(foldCarries sum).toUInt16

def internetChecksum (data : List UInt8) : UInt16 := finishChecksum (checksumSum data)

def transportChecksum (source destination : List UInt8) (protocol : UInt8)
    (transport : List UInt8) (ipVersion : Nat)
    : UInt16 :=
  let sum := checksumSum source + checksumSum destination
  let sum :=
    if ipVersion = 4 then sum + protocol.toUInt32 + UInt32.ofNat transport.length
    else sum + checksumSum (toBigEndian 4 transport.length) + protocol.toUInt32
  finishChecksum (sum + checksumSum transport)

def adjustChecksumWord (checksum old new : UInt16) : UInt16 :=
  finishChecksum ((~~~checksum).toUInt32 + (~~~old).toUInt32 + new.toUInt32)

/-- The words of the two addresses pair by pair. -/
def adjustChecksumBytes (checksum : UInt16) : (old new : List UInt8) → UInt16
  | oldHigh :: oldLow :: old, newHigh :: newLow :: new =>
    adjustChecksumBytes
      (adjustChecksumWord checksum (UInt16.ofNat (ofBigEndian [oldHigh, oldLow]))
        (UInt16.ofNat (ofBigEndian [newHigh, newLow])))
      old new
  | _, _ => checksum

def adjustChecksumAddress (checksum : UInt16) (old new : IpAddr) : UInt16 :=
  if old.isIpv4 = new.isIpv4 then
    adjustChecksumBytes checksum (addressBytes old) (addressBytes new)
  else checksum

def checksumOffset (protocol : UInt8) : Option Nat :=
  if protocol = 6 then some 16
  else if protocol = 17 then some 6
  else if protocol = 1 ∨ protocol = 58 then some 2
  else none

/-- The checksum of the header of IPv4, which IPv6 does not have. -/
def recomputeIpChecksum (ipVersion ipOffset ipHeaderLen : Nat) : List UInt8 :=
  if ipVersion = 4 then
    let blank := overwrite packet (ipOffset + 10) [0, 0]
    overwrite blank (ipOffset + 10)
      (wordBytes (internetChecksum (slice blank ipOffset ipHeaderLen)))
  else packet

/-- A UDP packet of IPv4 without a checksum stays without one. -/
def recomputeChecksums (parsed : ParsedPacket) : IoResult (List UInt8) :=
  let packet := recomputeIpChecksum packet parsed.ipVersion 0 parsed.ipHeaderLen
  let source := if parsed.ipVersion = 4 then slice packet 12 4 else slice packet 8 16
  let destination := if parsed.ipVersion = 4 then slice packet 16 4 else slice packet 24 16
  if parsed.packetLen < parsed.transportOffset ∨ packet.length < parsed.packetLen then
    .error ⟨.invalidData, "short transport packet"⟩
  else
    match checksumOffset parsed.protocol with
    | none => .ok packet
    | some offset =>
      if parsed.transportLen < offset + 2 then
        .error ⟨.invalidData, "short transport packet"⟩
      else
        let position := parsed.transportOffset + offset
        let blank := overwrite packet position [0, 0]
        if parsed.protocol = 17 ∧ parsed.ipVersion = 4 ∧ slice packet position 2 = [0, 0] then
          .ok blank
        else
          let transport := slice blank parsed.transportOffset parsed.transportLen
          let checksum :=
            if parsed.protocol = 1 then internetChecksum transport
            else transportChecksum source destination parsed.protocol transport parsed.ipVersion
          let checksum := if checksum = 0 ∧ parsed.protocol = 17 then 65535 else checksum
          .ok (overwrite blank position (wordBytes checksum))

/-- The addresses in a header of `ipVersion` at `ipOffset`. -/
def writeAddresses (ipVersion ipOffset : Nat) (source destination : IpAddr) : List UInt8 :=
  if ipVersion = 4 then
    overwrite (overwrite packet (ipOffset + 12) (addressBytes source)) (ipOffset + 16)
      (addressBytes destination)
  else
    overwrite (overwrite packet (ipOffset + 8) (addressBytes source)) (ipOffset + 24)
      (addressBytes destination)

/-- Two words next to each other. -/
def writeWords (offset : Nat) (first second : UInt16) : List UInt8 :=
  overwrite (overwrite packet offset (wordBytes first)) (offset + 2) (wordBytes second)

/-- An echo packet has one identifier for both its selectors. -/
def writeSelectors (parsed : ParsedPacket) (rewrite : Rewrite) : List UInt8 :=
  if parsed.protocol = 6 ∨ parsed.protocol = 17 then
    writeWords packet parsed.transportOffset rewrite.sourceSelector rewrite.destinationSelector
  else if parsed.protocol = 1 ∨ parsed.protocol = 58 then
    overwrite packet (parsed.transportOffset + 4) (wordBytes rewrite.sourceSelector)
  else packet

def rewritePacket (parsed : ParsedPacket) (rewrite : Rewrite) : IoResult (List UInt8) :=
  if rewrite.sourceAddress.isIpv4 ≠ (parsed.ipVersion = 4)
      ∨ rewrite.destinationAddress.isIpv4 ≠ (parsed.ipVersion = 4) then
    .error ⟨.invalidInput, "packet rewrite address family mismatch"⟩
  else
    let packet :=
      writeAddresses packet parsed.ipVersion 0 rewrite.sourceAddress rewrite.destinationAddress
    if parsed.packetLen < parsed.transportOffset ∨ packet.length < parsed.packetLen then
      .error ⟨.invalidData, "short transport packet"⟩
    else recomputeChecksums (writeSelectors packet parsed rewrite) parsed

/-- The offset of the first MSS option among the options from `offset` on. -/
def mssOption (packet : List UInt8) (transportOffset headerLen offset : Nat) : Option Nat :=
  if headerLen ≤ offset then none
  else
    let kind := byteAt packet (transportOffset + offset)
    let length := (byteAt packet (transportOffset + offset + 1)).toNat
    if kind = 0 then none
    else if kind = 1 then mssOption packet transportOffset headerLen (offset + 1)
    else if kind = 2 ∧ offset + 4 ≤ headerLen ∧ length = 4 then some offset
    else if headerLen < offset + 2 then none
    else if length < 2 ∨ headerLen < offset + length then none
    else mssOption packet transportOffset headerLen (offset + length)
  termination_by headerLen - offset
  decreasing_by all_goals omega

def clampTcpMss (parsed : ParsedPacket) (mtu : Nat) : IoResult (List UInt8) :=
  if mtu = 0 ∨ parsed.protocol ≠ 6 ∨ parsed.tcpFlags &&& 0x02 = 0 then .ok packet
  else if parsed.packetLen < parsed.transportOffset ∨ packet.length < parsed.packetLen then
    .error ⟨.invalidData, "short TCP packet"⟩
  else if parsed.transportLen < 20 then .ok packet
  else
    let headerLen := (byteAt packet (parsed.transportOffset + 12) >>> 4).toNat * 4
    if headerLen < 20 ∨ parsed.transportLen < headerLen then .ok packet
    else if mtu < parsed.transportOffset + 20 then .ok packet
    else
      let maxMss := min (mtu - (parsed.transportOffset + 20)) 65535
      match mssOption packet parsed.transportOffset headerLen 20 with
      | none => .ok packet
      | some offset =>
        let position := parsed.transportOffset + offset + 2
        if maxMss < (wordAt packet position).toNat then
          recomputeChecksums (overwrite packet position (wordBytes (UInt16.ofNat maxMss))) parsed
        else .ok packet

/-- The checksum of a quoted transport header is adjusted, not computed again: the quote may
be cut short.
-/
def rewriteEmbeddedTransport (embedded : EmbeddedPacket) (sourceAddress : IpAddr)
    (sourceSelector : UInt16) (destinationAddress : IpAddr) (destinationSelector : UInt16)
    : List UInt8 :=
  let offset := embedded.transportOffset
  let length := packet.length - offset
  let addresses (checksum : UInt16) : UInt16 :=
    adjustChecksumAddress (adjustChecksumAddress checksum embedded.source.ip sourceAddress)
      embedded.destination.ip destinationAddress
  let ports := writeWords packet offset sourceSelector destinationSelector
  if embedded.protocol = 6 ∧ 4 ≤ length then ports
  else if embedded.protocol = 17 ∧ 8 ≤ length then
    let checksum := wordAt packet (offset + 6)
    if checksum ≠ 0 ∨ embedded.ipVersion = 6 then
      overwrite ports (offset + 6)
        (wordBytes
          (adjustChecksumWord
            (adjustChecksumWord (addresses checksum) embedded.source.port sourceSelector)
            embedded.destination.port destinationSelector))
    else ports
  else if embedded.protocol = 1 ∧ 8 ≤ length then
    let checksum :=
      adjustChecksumWord (wordAt packet (offset + 2)) embedded.source.port sourceSelector
    writeWords packet (offset + 2) checksum sourceSelector
  else if embedded.protocol = 58 ∧ 8 ≤ length then
    let checksum :=
      adjustChecksumWord (addresses (wordAt packet (offset + 2))) embedded.source.port
        sourceSelector
    writeWords packet (offset + 2) checksum sourceSelector
  else packet

def rewriteEmbeddedPacket (embedded : EmbeddedPacket) (sourceAddress : IpAddr)
    (sourceSelector : UInt16) (destinationAddress : IpAddr) (destinationSelector : UInt16)
    : IoResult (List UInt8) :=
  if sourceAddress.isIpv4 ≠ (embedded.ipVersion = 4)
      ∨ destinationAddress.isIpv4 ≠ (embedded.ipVersion = 4) then
    .error ⟨.invalidInput, "embedded packet rewrite address family mismatch"⟩
  else
    let packet :=
      writeAddresses packet embedded.ipVersion embedded.ipOffset sourceAddress destinationAddress
    let packet :=
      recomputeIpChecksum packet embedded.ipVersion embedded.ipOffset embedded.ipHeaderLen
    if packet.length < embedded.transportOffset then
      .error ⟨.invalidData, "short embedded transport"⟩
    else
      .ok (rewriteEmbeddedTransport packet embedded sourceAddress sourceSelector
        destinationAddress destinationSelector)

end Zay.Endpoint
