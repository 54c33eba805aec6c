import Zay.OpenVpn.ControlChannel
import Zay.OpenVpn.ReliableWindow

/-! Two control channel cores joined by a network that may lose, duplicate and reorder the
link packets they produce, and what either side may conclude from an acknowledgment.
-/

namespace Zay.OpenVpn

open Lib

inductive Side where
  | client
  | server
  deriving Repr, DecidableEq

def Side.peer : Side → Side
  | .client => .server
  | .server => .client

@[simp] theorem Side.peer_peer (side : Side) : side.peer.peer = side := by
  cases side <;> rfl

theorem Side.peer_ne (side : Side) : side.peer ≠ side := by
  cases side <;> decide

def tlsPayload? : IncomingControlEvent → Option (List UInt8)
  | .tlsCiphertext payload => some payload
  | _ => none

/-- One side of the link: its core, every link packet it has produced, the pieces of TLS
ciphertext it has packetized and the pieces it has delivered to TLS.
-/
structure Endpoint where
  core : TlsControlChannelCore
  sent : List (List UInt8)
  consumed : List (List UInt8)
  delivered : List (List UInt8)

namespace Endpoint

/-- A fresh core that knows its peer's session id. -/
def start (keyId : UInt8) (sessionId peerId : SessionId) (remoteIsIpv6 : Bool)
    : Endpoint where
  core := .new
    (((SessionManager.withLocalId sessionId).setRemoteSessionId peerId).renegotiation keyId)
    remoteIsIpv6
  sent := []
  consumed := []
  delivered := []

variable (own : Endpoint)

def packetize (ciphertext : List UInt8) : Endpoint :=
  match own.core.packetizeTlsCiphertext ciphertext with
  | (.ok (some (raw, count)), core) =>
    { own with
      core
      sent := own.sent ++ [raw]
      consumed := own.consumed ++ [ciphertext.take count] }
  | (_, core) => { own with core }

def flush (now : Instant) : Endpoint :=
  match own.core.packetsReadyToSend now with
  | (.ok packets, core) => { own with core, sent := own.sent ++ packets }
  | (.error _, core) => { own with core }

def ingest (raw : List UInt8) : Endpoint :=
  match own.core.ingestLinkPacket raw with
  | (.ok events, core) =>
    { own with core, delivered := own.delivered ++ events.filterMap tlsPayload? }
  | (.error _, core) => { own with core }

/-- The receiver is about to acknowledge `id`, or has done so in a packet it produced. -/
def Acknowledges (id : PacketId) : Prop :=
  id ∈ own.core.outgoing.pendingAcknowledgments.keys
  ∨ ∃ raw ∈ own.sent, ∃ packet,
    Packet.parse raw = .ok packet ∧ id ∈ packet.acknowledgmentIds

end Endpoint

structure ControlLink where
  client : Endpoint
  server : Endpoint

/-- What can happen next. A delivery hands the receiver any packet its peer has ever
produced; a packet that is never delivered is lost.
-/
inductive LinkStep where
  | packetize (side : Side) (ciphertext : List UInt8)
  | flush (side : Side) (now : Instant)
  | deliver (receiver : Side) (index : Nat)
  deriving Repr, DecidableEq

/-- The checks of `ingest_link_packet` that let a packet reach the reliability layer. -/
def TlsControlChannelCore.admits (core : TlsControlChannelCore) (packet : Packet) : Bool :=
  core.session.validateIncomingRemoteSessionId packet
    && core.session.validateIncomingLocalSessionId packet
    && packet.keyId = core.session.keyId

variable (link : ControlLink)

namespace ControlLink

def side : Side → Endpoint
  | .client => link.client
  | .server => link.server

def set (side : Side) (own : Endpoint) : ControlLink :=
  match side with
  | .client => { link with client := own }
  | .server => { link with server := own }

def start (keyId : UInt8) (clientId serverId : SessionId) (clientIpv6 serverIpv6 : Bool)
    : ControlLink where
  client := .start keyId clientId serverId clientIpv6
  server := .start keyId serverId clientId serverIpv6

def step : LinkStep → ControlLink
  | .packetize side ciphertext =>
    link.set side ((link.side side).packetize ciphertext)
  | .flush side now => link.set side ((link.side side).flush now)
  | .deliver receiver index =>
    match (link.side receiver.peer).sent[index]? with
    | none => link
    | some raw => link.set receiver ((link.side receiver).ingest raw)

def run (steps : List LinkStep) : ControlLink :=
  steps.foldl step link

/-- Control packets are numbered from one, so packet `id` carries piece `id - 1`. The
receiver has it when that piece has been delivered or is buffered.
-/
def Retains (receiver : Side) (id : PacketId) : Prop :=
  0 < id.toNat ∧ ∃ payload,
    (link.side receiver.peer).consumed[id.toNat - 1]? = some payload
    ∧ ((link.side receiver).delivered[id.toNat - 1]? = some payload
      ∨ ∃ packet, (link.side receiver).core.incoming.pending.get? id = some packet
        ∧ packet.payload = payload)

structure Sound (link : ControlLink) : Prop where
  acknowledged
    : ∀ receiver id, (link.side receiver).Acknowledges id → link.Retains receiver id
  complete
    : ∀ sender, (link.side sender).core.hasInFlightPackets = false →
      (link.side sender.peer).delivered.flatten
        ++ ((link.side sender.peer).core.incoming.pending.values.map (·.payload)).flatten
        = (link.side sender).consumed.flatten

/-- Before the step: no control packet is delivered whose id lies more than twelve past the
last consumed one while the receiver still has room to acknowledge it.
-/
def WithinWindow : LinkStep → Prop
  | .deliver receiver index =>
    let core := (link.side receiver).core
    ∀ raw ∈ (link.side receiver.peer).sent[index]?, ∀ packet,
      TlsControlChannelCore.decodeLinkPacket raw = .ok packet →
      core.admits packet → packet.opcode = .controlV1 →
      packet.id.toNat ≤ core.incoming.lastConsumedId.toNat + 12
      ∨ acknowledgmentSetCapacity ≤ core.outgoing.pendingAcknowledgments.len
  | _ => True

end ControlLink

end Zay.OpenVpn
