import Zay.OpenVpn.Packet

/-! The session manager of one OpenVPN key state (`protocol/openvpn/session.rs`), as far as
the reliable control channel uses it: session identities, the key id and control packet ids.
-/

namespace Zay.OpenVpn

structure SessionManager where
  keyId : UInt8
  localSessionId : SessionId
  remoteSessionId : Option SessionId
  localControlPacketId : PacketId
  deriving Repr, DecidableEq

inductive SessionError where
  | missingRemoteSessionId
  | packetIdExpired
  | invalidOpcode
  deriving Repr, DecidableEq

namespace SessionManager

def withLocalId (localSessionId : SessionId) : SessionManager where
  keyId := 0
  localSessionId
  remoteSessionId := none
  localControlPacketId := 1

variable (session : SessionManager)

def setRemoteSessionId (id : SessionId) : SessionManager :=
  { session with remoteSessionId := some id }

def renegotiation (keyId : UInt8) : SessionManager :=
  { session with keyId, localControlPacketId := 1 }

/-- Acknowledgments must name our own session; a packet without any is not checked. -/
def validateIncomingRemoteSessionId (packet : Packet) : Bool :=
  packet.acknowledgmentIds.isEmpty
    || (packet.remoteSessionId ≠ Vector.replicate 8 0
      && packet.remoteSessionId = session.localSessionId)

def validateIncomingLocalSessionId (packet : Packet) : Bool :=
  session.remoteSessionId.any (packet.localSessionId = ·)

def newAcknowledgmentPacket (acknowledgmentIds : List PacketId)
    : Except SessionError Packet :=
  match session.remoteSessionId with
  | none => .error .missingRemoteSessionId
  | some remoteSessionId =>
    .ok { Packet.new .acknowledgmentV1 session.keyId [] with
      localSessionId := session.localSessionId
      remoteSessionId
      acknowledgmentIds }

def newControlPacket (opcode : Opcode) (payload : List UInt8)
    : Except SessionError (Packet × SessionManager) :=
  if !opcode.isControl then .error .invalidOpcode
  else if session.localControlPacketId = 0xFFFFFFFF then .error .packetIdExpired
  else
    let id := session.localControlPacketId
    .ok
      ({ Packet.new opcode session.keyId payload with
          localSessionId := session.localSessionId
          remoteSessionId := session.remoteSessionId.getD (Vector.replicate 8 0)
          id },
        { session with localControlPacketId := id + 1 })

end SessionManager

end Zay.OpenVpn
