import Zay.Error
import Zay.Lib.FrameReader
import Zay.Lib.Runs
import Zay.Net.SocksAddr

/-! UDP over a stream: the connections that frame packets on a stream, and the session of a
client that sends and receives over one of them. A packet of the client drops the read that is
going on, with the bytes it has taken.
-/

namespace Zay.Inbound

open Lib Net Reader FrameReader SocksAddr

def invalidData (message : String) : IoError := { kind := .invalidData, message }

/-- What a read meets at the end of the stream. Before that end it waits. -/
def earlyEof : IoError := { kind := .unexpectedEof, message := "early eof" }

def utf8Host (bytes : List UInt8) (error : String) : IoResult String :=
  match String.fromUTF8? ⟨bytes.toArray⟩ with
  | some host => .ok host
  | none => .error (invalidData error)

def ofResult {α : Type} : IoResult α → Reader IoError α
  | .ok value => pure value
  | .error error => fail error

/-- The host in an address of `kind`, for a protocol with its own numbers of the kinds. -/
def readHost (ipv4 ipv6 domain : UInt8) (protocol : String) (kind : UInt8)
    : Reader IoError String :=
  if kind = ipv4 then do
    return (IpAddr.v4 (BitVec.ofNat 32 (← bigEndian 4 earlyEof))).toString
  else if kind = ipv6 then do
    return (IpAddr.v6 (BitVec.ofNat 128 (← bigEndian 16 earlyEof))).toString
  else if kind = domain then do
    let length ← byte earlyEof
    let bytes ← take length.toNat earlyEof
    ofResult (utf8Host bytes (protocol ++ " domain is not UTF-8"))
  else fail (invalidData ("unknown " ++ protocol ++ " address type: " ++ toString kind.toNat))

def readAddress (ipv4 ipv6 domain : UInt8) (protocol : String) : Reader IoError SocksAddr := do
  let kind ← byte earlyEof
  let host ← readHost ipv4 ipv6 domain protocol kind
  let port ← bigEndian 2 earlyEof
  return new host (UInt16.ofNat port)

/-- `socks::read_address`. -/
def readSocksAddress : Reader IoError SocksAddr := readAddress 1 4 3 "SOCKS"

/-- `uot::read_address`. -/
def readUotAddress : Reader IoError SocksAddr := readAddress 0 1 2 "UDP-over-TCP"

def decodeXudpAddress : List UInt8 → IoResult SocksAddr
  | high :: low :: kind :: rest =>
    let port := UInt16.ofNat (ofBigEndian [high, low])
    if kind = 1 then
      if 4 ≤ rest.length then
        let address := IpAddr.v4 (BitVec.ofNat 32 (ofBigEndian (rest.take 4)))
        .ok (new address.toString port)
      else .error (invalidData "truncated XUDP IPv4 address")
    else if kind = 3 then
      if 16 ≤ rest.length then
        let address := IpAddr.v6 (BitVec.ofNat 128 (ofBigEndian (rest.take 16)))
        .ok (new address.toString port)
      else .error (invalidData "truncated XUDP IPv6 address")
    else if kind = 2 then
      match rest with
      | [] => .error (invalidData "truncated XUDP domain length")
      | length :: rest =>
        if length.toNat ≤ rest.length then do
          let host ← utf8Host (rest.take length.toNat) "XUDP domain is not UTF-8"
          return new host port
        else .error (invalidData "truncated XUDP domain")
    else .error (invalidData ("unsupported XUDP address family: " ++ toString kind.toNat))
  | _ => .error (invalidData "truncated XUDP address")

/-- The size of the buffer that the session reads into. -/
def responseSize : Nat := 65535

/-- A payload of `length` bytes, which must fit the buffer. -/
def readPayload (protocol : String) (length : Nat) : Reader IoError (List UInt8) := do
  refuse (responseSize < length) (invalidData (protocol ++ " payload exceeds buffer"))
  take length earlyEof

def readXudpDestination (fallback : SocksAddr) (headerLength : Nat) : Reader IoError SocksAddr :=
  if 4 < headerLength then do
    let network ← byte earlyEof
    let header ← take (headerLength - 5) earlyEof
    refuse (network ≠ 2) (invalidData ("unsupported XUDP network: " ++ toString network.toNat))
    ofResult (decodeXudpAddress header)
  else pure fallback

/-- One turn of the loop of `read_xudp_frame`. A frame without data is passed over. -/
def readXudpFrame (fallback : SocksAddr) : Reader IoError (Option (List UInt8 × SocksAddr)) := do
  let headerLength ← bigEndian 2 earlyEof
  refuse (headerLength < 4) (invalidData "XUDP frame header is shorter than 4 bytes")
  let session ← bigEndian 2 earlyEof
  refuse (session ≠ 0) (invalidData ("unsupported XUDP session id: " ++ toString session))
  let status ← byte earlyEof
  let option ← byte earlyEof
  refuse (status = 3) { kind := .unexpectedEof, message := "XUDP session ended" }
  refuse (status ≠ 1 ∧ status ≠ 2)
    (invalidData ("unsupported XUDP status: " ++ toString status.toNat))
  let destination ← readXudpDestination fallback headerLength
  refuse (option &&& 2 ≠ 0) { kind := .connectionReset, message := "XUDP peer closed with error" }
  if option &&& 1 = 0 then return none
  else do
    let length ← bigEndian 2 earlyEof
    return some (← readPayload "XUDP" length, destination)

/-- `vless::read_response`. -/
def readResponse : Reader IoError Unit := do
  let version ← byte earlyEof
  refuse (version ≠ 0)
    (invalidData ("unknown VLESS response version: " ++ toString version.toNat))
  let length ← byte earlyEof
  let _ ← take length.toNat earlyEof

inductive PacketConnection where
  | trojan
  | vless (destination : SocksAddr)
  | xudp (destination : SocksAddr)
  | uot (isConnect : Bool) (destination : SocksAddr)
  deriving Repr, DecidableEq

def readUotDestination (isConnect : Bool) (destination : SocksAddr) : Reader IoError SocksAddr :=
  if isConnect then pure destination else readUotAddress

/-- `recv_from` up to the next point behind which nothing that was read is needed again. VLESS
keeps that it has read the response.
-/
def PacketConnection.recvFrom (connection : PacketConnection) (responseRead : Bool)
    : Reader IoError (Bool × Option (List UInt8 × SocksAddr)) :=
  match connection with
  | .trojan => do
    let destination ← readSocksAddress
    let length ← bigEndian 2 earlyEof
    let crlf ← take 2 earlyEof
    refuse (crlf ≠ [0x0d, 0x0a]) (invalidData "invalid Trojan UDP packet delimiter")
    return (responseRead, some (← readPayload "Trojan UDP" length, destination))
  | .vless destination =>
    if responseRead then do
      let length ← bigEndian 2 earlyEof
      return (true, some (← readPayload "VLESS UDP" length, destination))
    else do
      readResponse
      return (true, none)
  | .xudp destination => do return (responseRead, ← readXudpFrame destination)
  | .uot isConnect destination => do
    let destination ← readUotDestination isConnect destination
    let length ← bigEndian 2 earlyEof
    return (responseRead, some (← readPayload "UDP-over-TCP" length, destination))

structure UdpSession where
  reader : FrameReader Bool IoError (List UInt8 × SocksAddr) := { mode := false }
  /-- The packets of the client that were sent on. -/
  outgoing : List (List UInt8)
  ended : Option (IoResult Unit) := none
  deriving DecidableEq

inductive SessionEvent where
  | arrives (chunk : List UInt8)
  /-- A packet of the client is ready first. -/
  | incoming (payload : List UInt8) (sent : IoResult Unit)
  /-- The client is gone, its socket fails, or nothing happened for too long. -/
  | stops (result : IoResult Unit)
  deriving Repr, DecidableEq

/-- A turn of the loop of `proxy_udp_session`, or a part of one. -/
def UdpSession.step (connection : PacketConnection) (session : UdpSession) (event : SessionEvent)
    : UdpSession :=
  if session.ended.isSome then session
  else
    match event with
    | .arrives chunk =>
      let reader := chunk.foldl (feed earlyEof connection.recvFrom) session.reader
      { session with reader, ended := reader.failed.map .error }
    | .incoming payload sent =>
      { reader := session.reader.giveUp
        outgoing := session.outgoing ++ [payload]
        ended := if sent = .ok () then none else some sent }
    | .stops result => { session with ended := some result }

/-- The bytes that have arrived. -/
def arrived (events : List SessionEvent) : List UInt8 :=
  events.flatMap fun
    | .arrives chunk => chunk
    | _ => []

/-- A packet of the client comes in only while no byte of the next frame has been read. -/
def UdpSession.Undisturbed (session : UdpSession) : SessionEvent → Prop
  | .incoming _ _ => session.reader.consumed = []
  | _ => True

theorem fielded_ofResult {α : Type} (result : IoResult α)
    : Fielded earlyEof (ofResult result) := by
  cases result with
  | ok value => exact .pure value
  | error error => exact fielded_fail error

theorem fielded_readAddress (ipv4 ipv6 domain protocol)
    : Fielded earlyEof (readAddress ipv4 ipv6 domain protocol) := by
  refine fielded_byte.bind fun _ => .bind ?_ fun _ =>
    (fielded_bigEndian 2).bind fun _ => .pure _
  unfold readHost
  split
  · exact (fielded_bigEndian 4).bind fun bits => .pure _
  split
  · exact (fielded_bigEndian 16).bind fun bits => .pure _
  split
  · exact fielded_byte.bind fun _ => (fielded_take _).bind fun _ => fielded_ofResult _
  · exact fielded_fail _

theorem fielded_readPayload (protocol length) : Fielded earlyEof (readPayload protocol length) :=
  (fielded_refuse _ _).bind fun _ => fielded_take length

theorem fielded_readXudpFrame (fallback) : Fielded earlyEof (readXudpFrame fallback) := by
  refine (fielded_bigEndian 2).bind fun _ => (fielded_refuse _ _).bind fun _ =>
    (fielded_bigEndian 2).bind fun _ => (fielded_refuse _ _).bind fun _ =>
    fielded_byte.bind fun _ => fielded_byte.bind fun _ =>
    (fielded_refuse _ _).bind fun _ => (fielded_refuse _ _).bind fun _ =>
    .bind ?_ fun _ => (fielded_refuse _ _).bind fun _ => ?_
  · unfold readXudpDestination
    split
    · exact fielded_byte.bind fun _ => (fielded_take _).bind fun _ =>
        (fielded_refuse _ _).bind fun _ => fielded_ofResult _
    · exact .pure fallback
  · split
    · exact .pure none
    exact (fielded_bigEndian 2).bind fun _ =>
      (fielded_readPayload _ _).bind fun _ => .pure _

theorem fielded_readResponse : Fielded earlyEof readResponse :=
  fielded_byte.bind fun _ => (fielded_refuse _ _).bind fun _ =>
    fielded_byte.bind fun _ => (fielded_take _).bind fun _ => .pure ()

variable (connection : PacketConnection) (responseRead : Bool)

/-- Each connection reads its frames field by field. -/
theorem PacketConnection.fielded_recvFrom
    : Fielded earlyEof (connection.recvFrom responseRead) := by
  cases connection with
  | trojan =>
    have address : Fielded earlyEof readSocksAddress := fielded_readAddress 1 4 3 "SOCKS"
    exact address.bind fun destination => (fielded_bigEndian 2).bind fun length =>
      (fielded_take 2).bind fun _ => (fielded_refuse _ _).bind fun _ =>
      (fielded_readPayload _ _).bind fun payload => .pure _
  | vless destination =>
    cases responseRead with
    | false => exact fielded_readResponse.bind fun _ => .pure _
    | true =>
      exact (fielded_bigEndian 2).bind fun length =>
        (fielded_readPayload _ _).bind fun payload => .pure _
  | xudp destination => exact (fielded_readXudpFrame destination).bind fun _ => .pure _
  | uot isConnect destination =>
    have address : Fielded earlyEof (readUotDestination isConnect destination) := by
      cases isConnect with
      | false => exact fielded_readAddress 0 1 2 "UDP-over-TCP"
      | true => exact .pure destination
    exact address.bind fun destination => (fielded_bigEndian 2).bind fun length =>
      (fielded_readPayload _ _).bind fun payload => .pure _

theorem PacketConnection.recvFrom_nil : connection.recvFrom responseRead [] = .error earlyEof := by
  cases connection with
  | trojan => rfl
  | vless destination => cases responseRead <;> rfl
  | xudp destination => rfl
  | uot isConnect destination => cases isConnect <;> rfl

/-- What holds of a session while `rest` is still to arrive. -/
structure UdpSession.Sound (connection : PacketConnection) (mode : Bool)
    (packets : List (List UInt8 × SocksAddr)) (session : UdpSession) (rest : List UInt8)
    : Prop where
  unfailed : session.reader.failed = none
  handed : session.reader.read <+: packets
  aligned
    : session.ended = none →
      Aligned connection.recvFrom mode packets session.reader rest

theorem UdpSession.Sound.step {connection mode packets} {session : UdpSession} {rest} (event)
    (hs : session.Sound connection mode packets (arrived [event] ++ rest))
    (undisturbed : session.Undisturbed event)
    : (session.step connection event).Sound connection mode packets rest := by
  unfold UdpSession.step
  split
  next stopped =>
    refine ⟨hs.unfailed, hs.handed, fun open_ => ?_⟩
    rw [open_] at stopped
    cases stopped
  next going =>
    have live : session.ended = none := by simpa using going
    have ha := hs.aligned live
    cases event with
    | arrives chunk =>
      have next : Aligned connection.recvFrom mode packets
          (chunk.foldl (feed earlyEof connection.recvFrom) session.reader) rest :=
        Aligned.foldl connection.fielded_recvFrom connection.recvFrom_nil
          (by simpa [arrived] using ha)
      exact ⟨next.unfailed, next.read_front, fun _ => next⟩
    | incoming _ _ =>
      rw [giveUp_of_consumed undisturbed]
      exact ⟨hs.unfailed, hs.handed, fun _ => ha⟩
    | stops _ => exact ⟨hs.unfailed, hs.handed, nofun⟩

/-- A VLESS response and a packet whose payload itself starts like a packet. -/
def exampleFrames : List (List UInt8) := [[0, 0], [0, 5, 0, 1, 7, 8, 9]]

def examplePeer : SocksAddr := .domain "example.com" 53

end Zay.Inbound
