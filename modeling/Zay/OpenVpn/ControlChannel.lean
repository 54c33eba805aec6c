import Zay.OpenVpn.Reliable
import Zay.OpenVpn.Session

/-! The protocol core of one reliable TLS control key state
(`protocol/openvpn/control_channel.rs`), with `TlsControlProtection::default()` and no
wrapped client key: control packets travel unwrapped.
-/

namespace Zay.OpenVpn

def tlsControlPayloadSize : Nat := 1024

def tlsControlChannelMtu : Nat := 1250

def tlsControlHeaderLength : Nat := 9

def ipv4ControlDatagramOverhead : Nat := 28

def ipv6ControlDatagramOverhead : Nat := 48

inductive IncomingControlEvent where
  | tlsCiphertext (payload : List UInt8)
  | data (packet : Packet)
  | hardReset (packet : Packet)
  | softReset (packet : Packet)
  deriving Repr, DecidableEq

inductive ControlChannelError where
  | emptyPacket
  | packet (error : PacketError)
  | session (error : SessionError)
  | protection (message : String)
  | reliableWindowFull
  | noPendingAcknowledgment
  deriving Repr, DecidableEq

structure TlsControlChannelCore where
  session : SessionManager
  outgoing : OutgoingReliableState
  incoming : IncomingReliableState
  remoteIsIpv6 : Bool

def isControlOrAcknowledgment (opcode : Opcode) : Bool :=
  opcode.isControl || opcode = .acknowledgmentV1

def isTlsHardResetOpcode : Opcode → Bool
  | .controlHardResetClientV1 | .controlHardResetServerV1 | .controlHardResetClientV2
  | .controlHardResetServerV2 | .controlHardResetClientV3 => true
  | _ => false

/-- `TlsControlProtection::decode` without any key: only the length is checked, and the two
opcodes that announce a wrapped client key are refused.
-/
def decodeUnprotected (raw : List UInt8) : Except ControlChannelError (List UInt8) :=
  if raw.length < tlsControlHeaderLength then
    .error (.protection "invalid OpenVPN control packet")
  else
    match Opcode.fromWire (raw.headD 0 >>> 3) with
    | .controlHardResetClientV3 | .controlWkcV1 =>
      .error (.protection "peer requested tls-crypt-v2 without a server key")
    | _ => .ok raw

def acknowledgmentArrayLength (count : Nat) : Nat :=
  let count := min count maximumAcknowledgmentsPerPacket
  if count = 0 then 1 else 1 + 4 * count + 8

def encodeLinkPacket (packet : Packet) : Except ControlChannelError (List UInt8) :=
  packet.encode.mapError .packet

namespace TlsControlChannelCore

def new (session : SessionManager) (remoteIsIpv6 : Bool)
    : TlsControlChannelCore where
  session
  outgoing := .new
  incoming := .new
  remoteIsIpv6

def decodeLinkPacket (raw : List UInt8)
    : Except ControlChannelError Packet :=
  match raw with
  | [] => .error .emptyPacket
  | header :: _ => do
    let decoded ←
      if isControlOrAcknowledgment (Opcode.fromWire (header >>> 3)) then
        decodeUnprotected raw
      else .ok raw
    (Packet.parse decoded).mapError .packet

variable (core : TlsControlChannelCore)

/-- `ingest_link_packet` on a reliable packet of the current key: it is acknowledged first
and then offered to the receive window, which may refuse it.
-/
def receiveReliable (packet : Packet)
    : List IncomingControlEvent × TlsControlChannelCore :=
  let core := { core with outgoing := core.outgoing.onIncomingPacket packet }
  if packet.opcode = .acknowledgmentV1 ∨ !packet.opcode.isControl then ([], core)
  else
    match core.incoming.tryInsertIncomingPacket packet with
    | (false, incoming) => ([], { core with incoming })
    | (true, incoming) =>
      let (ready, incoming) := incoming.nextOrderedSequence
      ((ready.filter (!·.payload.isEmpty)).map (.tlsCiphertext ·.payload),
        { core with incoming })

def receivePacket (packet : Packet)
    : List IncomingControlEvent × TlsControlChannelCore :=
  if packet.opcode.isData then ([.data packet], core)
  else if !core.session.validateIncomingRemoteSessionId packet then ([], core)
  else if isTlsHardResetOpcode packet.opcode then
    if packet.keyId ≠ 0 ∨ core.session.keyId ≠ 0
        ∨ !core.session.validateIncomingLocalSessionId packet then
      ([], core)
    else ([.hardReset packet], { core with outgoing := core.outgoing.onIncomingPacket packet })
  else if packet.opcode = .controlSoftResetV1 then
    if !core.session.validateIncomingLocalSessionId packet then ([], core)
    else ([.softReset packet], core)
  else if !core.session.validateIncomingLocalSessionId packet
      ∨ packet.keyId ≠ core.session.keyId then
    ([], core)
  else core.receiveReliable packet

def ingestLinkPacket (raw : List UInt8)
    : Except ControlChannelError (List IncomingControlEvent) × TlsControlChannelCore :=
  match decodeLinkPacket raw with
  | .error error => (.error error, core)
  | .ok packet =>
    let (events, core) := core.receivePacket packet
    (.ok events, core)

def controlChannelFrameOverhead (acknowledgmentCount : Nat) : Nat :=
  1 + 8 + acknowledgmentArrayLength acknowledgmentCount + 4
    + if core.remoteIsIpv6 then ipv6ControlDatagramOverhead else ipv4ControlDatagramOverhead

/-- How much of the ciphertext the next control packet takes. -/
def consumable (ciphertext : List UInt8) : Nat :=
  min ciphertext.length
    (min tlsControlPayloadSize tlsControlChannelMtu
      - core.controlChannelFrameOverhead core.outgoing.pendingAcknowledgments.len)

/-- The closure that `packetize_tls_ciphertext` passes to the send window. -/
def createControlPacket (payload : List UInt8) (acknowledgmentIds : List PacketId)
    : Except SessionError (Packet × SessionManager) :=
  (core.session.newControlPacket .controlV1 payload).map
    fun (packet, session) => ({ packet with acknowledgmentIds }, session)

def packetizeTlsCiphertext (ciphertext : List UInt8)
    : Except ControlChannelError (Option (List UInt8 × Nat)) × TlsControlChannelCore :=
  if ciphertext.isEmpty then (.ok none, core)
  else
    let consumed := core.consumable ciphertext
    let payload := ciphertext.take consumed
    match core.outgoing.insertOutgoingPacket maximumAcknowledgmentsPerPacket
      (core.createControlPacket payload) with
    | (.error error, outgoing) => (.error (.session error), { core with outgoing })
    | (.ok none, outgoing) => (.ok none, { core with outgoing })
    | (.ok (some (packet, session)), outgoing) =>
      ((encodeLinkPacket packet).map fun raw => some (raw, consumed),
        { core with outgoing, session })

/-- `new_acknowledgment_packet`, with no wrapped client key to send. -/
def newAcknowledgmentPacket (core : TlsControlChannelCore)
    : Except ControlChannelError (List UInt8) × TlsControlChannelCore :=
  let taken := core.outgoing.takeAcknowledgmentIds acknowledgmentSetCapacity
  if taken.1.isEmpty then (.error .noPendingAcknowledgment, { core with outgoing := taken.2 })
  else
    match core.session.newAcknowledgmentPacket taken.1 with
    | .error error =>
      (.error (.session error),
        { core with outgoing := taken.2.returnAcknowledgmentIds taken.1 })
    | .ok packet => (encodeLinkPacket packet, { core with outgoing := taken.2 })

/-- Retransmissions, followed by a standalone acknowledgment when one is pending. -/
def packetsReadyToSend (core : TlsControlChannelCore) (now : Instant)
    : Except ControlChannelError (List (List UInt8)) × TlsControlChannelCore :=
  let ready := core.outgoing.packetsReadyToSend now
  let core := { core with outgoing := ready.2 }
  match ready.1.mapM encodeLinkPacket with
  | .error error => (.error error, core)
  | .ok packets =>
    if 0 < core.outgoing.pendingAcknowledgments.len then
      let acknowledgment := core.newAcknowledgmentPacket
      match acknowledgment.1 with
      | .ok packet => (.ok (packets ++ [packet]), acknowledgment.2)
      | .error .reliableWindowFull => (.ok packets, acknowledgment.2)
      | .error error => (.error error, acknowledgment.2)
    else (.ok packets, core)

def hasInFlightPackets : Bool :=
  0 < core.outgoing.inFlight.len

end TlsControlChannelCore

end Zay.OpenVpn
