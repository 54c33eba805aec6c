import Zay.OpenVpn.ControlChannel

/-! The demultiplexer of the primary TLS control channel and the soft-reset channels beside
it (`protocol/openvpn/control_mux.rs`). The control protection of a channel is any decoder
with a state of its own, since `TlsControlProtection::decode` may keep a client key it has
unwrapped.
-/

namespace Zay.OpenVpn

open Function

/-- `TlsControlProtection::decode`: the text of the error, or the unwrapped packet. -/
abbrev ControlDecoder (P : Type) :=
  P → List UInt8 → Except String (List UInt8) × P

/-- `TlsControlChannelCore` with its protection. -/
structure ProtectedChannel (P : Type) where
  core : TlsControlChannelCore
  protection : P

def maximumPendingPacketsPerKeyState : Nat := 8

structure RoutedControlEvents where
  keyId : UInt8
  events : List IncomingControlEvent
  deriving Repr, DecidableEq

structure TlsControlChannelMuxCore (P : Type) where
  primaryKeyId : UInt8
  channels : UInt8 → Option (ProtectedChannel P)
  pending : UInt8 → Option (List (List UInt8))

inductive ControlMuxError where
  | emptyPacket
  | invalidRenegotiationKeyId
  | duplicateKeyId (keyId : UInt8)
  | unknownKeyId (keyId : UInt8)
  | wrongInitialResetKeyId
  | channel (error : ControlChannelError)
  deriving Repr, DecidableEq

section

variable {P : Type} (decode : ControlDecoder P)

/-- The part of `ingest_link_packet` that can fail: unwrapping and parsing. -/
def readLinkPacket (protection : P) (raw : List UInt8)
    : Except ControlChannelError Packet × P :=
  match raw with
  | [] => (.error .emptyPacket, protection)
  | header :: _ =>
    if isControlOrAcknowledgment (Opcode.fromWire (header >>> 3)) then
      match decode protection raw with
      | (.error message, protection) => (.error (.protection message), protection)
      | (.ok decoded, protection) => ((Packet.parse decoded).mapError .packet, protection)
    else ((Packet.parse raw).mapError .packet, protection)

namespace ProtectedChannel

def ingestLinkPacket (channel : ProtectedChannel P) (raw : List UInt8)
    : Except ControlChannelError (List IncomingControlEvent) × ProtectedChannel P :=
  match readLinkPacket decode channel.protection raw with
  | (.error error, protection) => (.error error, { channel with protection })
  | (.ok packet, protection) =>
    let received := channel.core.receivePacket packet
    (.ok received.1, { core := received.2, protection })

def seedIncomingPacket (channel : ProtectedChannel P) (packet : Packet)
    : ProtectedChannel P :=
  if channel.core.session.validateIncomingRemoteSessionId packet then
    { channel with
      core := { channel.core with outgoing := channel.core.outgoing.onIncomingPacket packet } }
  else channel

/-- The loop of `register_renegotiation_channel` over the buffered packets. -/
def replay (channel : ProtectedChannel P)
    : (packets : List (List UInt8)) →
      Except ControlChannelError (List IncomingControlEvent × ProtectedChannel P)
  | [] => .ok ([], channel)
  | raw :: packets =>
    match channel.ingestLinkPacket decode raw with
    | (.error error, _) => .error error
    | (.ok events, channel) => do
      let (more, channel) ← channel.replay packets
      .ok (events ++ more, channel)

end ProtectedChannel

namespace TlsControlChannelMuxCore

def new (primary : ProtectedChannel P) : TlsControlChannelMuxCore P where
  primaryKeyId := primary.core.session.keyId
  channels := update (fun _ => none) primary.core.session.keyId (some primary)
  pending _ := none

variable (mux : TlsControlChannelMuxCore P)

def contains (keyId : UInt8) : Bool :=
  (mux.channels keyId).isSome

/-- The packets that wait for `keyId`. -/
def buffered (keyId : UInt8) : List (List UInt8) :=
  (mux.pending keyId).getD []

/-- A packet that cannot be read ends the registration: the buffer is already gone then, and
the channel is dropped.
-/
def registerRenegotiationChannel (channel : ProtectedChannel P) (initialSoftReset : Option Packet)
    : Except ControlMuxError (List IncomingControlEvent) × TlsControlChannelMuxCore P :=
  let keyId := channel.core.session.keyId
  if keyId = 0 then (.error .invalidRenegotiationKeyId, mux)
  else if mux.contains keyId then (.error (.duplicateKeyId keyId), mux)
  else if initialSoftReset.any (·.keyId ≠ keyId) then (.error .wrongInitialResetKeyId, mux)
  else
    let channel := initialSoftReset.elim channel channel.seedIncomingPacket
    let emptied := { mux with pending := update mux.pending keyId none }
    match channel.replay decode (mux.buffered keyId) with
    | .error error => (.error (.channel error), emptied)
    | .ok (events, channel) =>
      (.ok events,
        { emptied with channels := update mux.channels keyId (some channel) })

/-- A full buffer loses its oldest packet. -/
def buffer (keyId : UInt8) (raw : List UInt8) : TlsControlChannelMuxCore P :=
  let waiting := mux.buffered keyId
  let waiting :=
    if maximumPendingPacketsPerKeyState ≤ waiting.length then waiting.tail else waiting
  { mux with pending := update mux.pending keyId (some (waiting ++ [raw])) }

def ingestLinkPacket (mux : TlsControlChannelMuxCore P) (raw : List UInt8)
    : Except ControlMuxError RoutedControlEvents × TlsControlChannelMuxCore P :=
  match raw with
  | [] => (.error .emptyPacket, mux)
  | header :: _ =>
    let announced := header &&& 0x07
    if !mux.contains announced
        && Opcode.fromWire (header >>> 3) ≠ .controlSoftResetV1 then
      (.ok { keyId := announced, events := [] }, mux.buffer announced raw)
    else
      let routed := if mux.contains announced then announced else mux.primaryKeyId
      match mux.channels routed with
      | none => (.error (.unknownKeyId routed), mux)
      | some channel =>
        let ingested := channel.ingestLinkPacket decode raw
        let mux :=
          { mux with channels := update mux.channels routed (some ingested.2) }
        (ingested.1.map (fun events => { keyId := routed, events })
          |>.mapError .channel, mux)

/-- The state after a sequence of link packets, whatever each of them returned. -/
def ingestAll (packets : List (List UInt8)) : TlsControlChannelMuxCore P :=
  packets.foldl (fun mux raw => (mux.ingestLinkPacket decode raw).2) mux

end TlsControlChannelMuxCore

end

/-- The protection without any key, which has no state. -/
def unprotected : ControlDecoder Unit := fun _ raw =>
  match decodeUnprotected raw with
  | .ok decoded => (.ok decoded, ())
  | .error (.protection message) => (.error message, ())
  | .error _ => (.error "", ())

end Zay.OpenVpn
