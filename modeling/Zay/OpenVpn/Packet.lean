import Zay.Lib.MachineInt

/-! OpenVPN link packets and their wire format (`protocol/openvpn/packet.rs`). The link
source that the UDP server attaches to a parsed packet never reaches the wire and is left
out.
-/

namespace Zay.OpenVpn

open Lib Vector

abbrev SessionId := Vector UInt8 8

abbrev PacketId := UInt32

abbrev PeerId := Vector UInt8 3

inductive Opcode where
  | controlHardResetClientV1
  | controlHardResetServerV1
  | controlSoftResetV1
  | controlV1
  | acknowledgmentV1
  | dataV1
  | controlHardResetClientV2
  | controlHardResetServerV2
  | dataV2
  | controlHardResetClientV3
  | controlWkcV1
  | unknown (value : UInt8)
  deriving Repr, DecidableEq

def Opcode.fromWire (value : UInt8) : Opcode :=
  match value with
  | 1 => .controlHardResetClientV1
  | 2 => .controlHardResetServerV1
  | 3 => .controlSoftResetV1
  | 4 => .controlV1
  | 5 => .acknowledgmentV1
  | 6 => .dataV1
  | 7 => .controlHardResetClientV2
  | 8 => .controlHardResetServerV2
  | 9 => .dataV2
  | 10 => .controlHardResetClientV3
  | 11 => .controlWkcV1
  | value => .unknown value

def Opcode.wireValue : Opcode → UInt8
  | .controlHardResetClientV1 => 1
  | .controlHardResetServerV1 => 2
  | .controlSoftResetV1 => 3
  | .controlV1 => 4
  | .acknowledgmentV1 => 5
  | .dataV1 => 6
  | .controlHardResetClientV2 => 7
  | .controlHardResetServerV2 => 8
  | .dataV2 => 9
  | .controlHardResetClientV3 => 10
  | .controlWkcV1 => 11
  | .unknown value => value

def Opcode.isControl : Opcode → Bool
  | .controlHardResetClientV1 | .controlHardResetServerV1 | .controlSoftResetV1
  | .controlV1 | .controlHardResetClientV2 | .controlHardResetServerV2
  | .controlHardResetClientV3 | .controlWkcV1 => true
  | _ => false

def Opcode.isData : Opcode → Bool
  | .dataV1 | .dataV2 => true
  | _ => false

structure Packet where
  opcode : Opcode
  keyId : UInt8
  peerId : PeerId
  localSessionId : SessionId
  acknowledgmentIds : List PacketId
  remoteSessionId : SessionId
  id : PacketId
  payload : List UInt8
  deriving Repr, DecidableEq

inductive PacketError where
  | tooShort
  | tooManyAcknowledgments
  deriving Repr, DecidableEq

def Packet.new (opcode : Opcode) (keyId : UInt8) (payload : List UInt8) : Packet where
  opcode
  keyId := keyId &&& 0x07
  peerId := replicate 3 0
  localSessionId := replicate 8 0
  acknowledgmentIds := []
  remoteSessionId := replicate 8 0
  id := 0
  payload

/-- `take`: the first `length` bytes, and the input that remains. -/
def take (input : List UInt8) (length : Nat)
    : Except PacketError (Vector UInt8 length × List UInt8) :=
  if h : length ≤ input.length then
    .ok (⟨(input.take length).toArray, by simp [Nat.min_eq_left h]⟩, input.drop length)
  else .error .tooShort

def u32FromBeBytes (bytes : Vector UInt8 4) : UInt32 :=
  UInt32.ofNat (ofBigEndian bytes.toList)

def u32ToBeBytes (value : UInt32) : Vector UInt8 4 :=
  ⟨(toBigEndian 4 value.toNat).toArray, by simp⟩

/-- The acknowledgment loop of `parse`: `count` big-endian packet ids. -/
def takeAcknowledgments
    : (count : Nat) → (body : List UInt8) → Except PacketError (List PacketId × List UInt8)
  | 0, body => .ok ([], body)
  | count + 1, body => do
    let (id, body) ← take body 4
    let (ids, body) ← takeAcknowledgments count body
    .ok (u32FromBeBytes id :: ids, body)

/-- The reliability header that control and acknowledgment packets carry. -/
def takeControlHeader (packet : Packet) (body : List UInt8)
    : Except PacketError (Packet × List UInt8) := do
  let (localSessionId, body) ← take body 8
  let (count, body) ← take body 1
  let (acknowledgmentIds, body) ← takeAcknowledgments count[0].toNat body
  let (remoteSessionId, body) ←
    if 0 < count[0].toNat then take body 8 else .ok (packet.remoteSessionId, body)
  let (id, body) ←
    if packet.opcode ≠ .acknowledgmentV1 then
      (take body 4).map fun (id, body) => (u32FromBeBytes id, body)
    else .ok (packet.id, body)
  .ok ({ packet with localSessionId, acknowledgmentIds, remoteSessionId, id }, body)

/-- `parse` after the header byte. -/
def Packet.parseBody (packet : Packet) (body : List UInt8) : Except PacketError Packet := do
  let (packet, body) ←
    if packet.opcode = .dataV2 then
      (take body 3).map fun (peerId, body) => ({ packet with peerId }, body)
    else .ok (packet, body)
  let (packet, body) ←
    if packet.opcode.isControl ∨ packet.opcode = .acknowledgmentV1 then
      takeControlHeader packet body
    else .ok (packet, body)
  .ok { packet with payload := body }

def Packet.parse (input : List UInt8) : Except PacketError Packet :=
  match input with
  | [] => .error .tooShort
  | header :: body =>
    (Packet.new (Opcode.fromWire (header >>> 3)) (header &&& 0x07) []).parseBody body

def Packet.controlHeader (packet : Packet) : List UInt8 :=
  packet.localSessionId.toList
    ++ [UInt8.ofNat packet.acknowledgmentIds.length]
    ++ packet.acknowledgmentIds.flatMap (fun id => (u32ToBeBytes id).toList)
    ++ (if packet.acknowledgmentIds = [] then [] else packet.remoteSessionId.toList)
    ++ (if packet.opcode = .acknowledgmentV1 then [] else (u32ToBeBytes packet.id).toList)

def Packet.encode (packet : Packet) : Except PacketError (List UInt8) :=
  let header := (packet.opcode.wireValue <<< 3) ||| (packet.keyId &&& 0x07)
  if packet.opcode = .dataV2 then
    .ok (header :: packet.peerId.toList ++ packet.payload)
  else if packet.opcode.isControl ∨ packet.opcode = .acknowledgmentV1 then
    if packet.acknowledgmentIds.length ≤ 255 then
      .ok (header :: packet.controlHeader ++ packet.payload)
    else .error .tooManyAcknowledgments
  else .ok (header :: packet.payload)

/-- The opcodes that five header bits can name. An `unknown` opcode is one of them when its
value is not assigned to another constructor.
-/
def Opcode.Named (opcode : Opcode) : Prop :=
  opcode.wireValue < 32 ∧ Opcode.fromWire opcode.wireValue = opcode

instance Opcode.decidableNamed (opcode : Opcode) : Decidable opcode.Named :=
  inferInstanceAs (Decidable (_ ∧ _))

/-- What the wire format carries of a packet. -/
def Packet.onWire (packet : Packet) : Packet :=
  let reliable := packet.opcode.isControl ∨ packet.opcode = .acknowledgmentV1
  { packet with
    keyId := packet.keyId &&& 0x07
    peerId := if packet.opcode = .dataV2 then packet.peerId else replicate 3 0
    localSessionId := if reliable then packet.localSessionId else replicate 8 0
    acknowledgmentIds := if reliable then packet.acknowledgmentIds else []
    remoteSessionId :=
      if reliable ∧ packet.acknowledgmentIds ≠ [] then packet.remoteSessionId
      else replicate 8 0
    id := if packet.opcode.isControl then packet.id else 0 }

variable {opcode : UInt8} {packet : Packet}

/-- The two parts of the header byte. -/
theorem header_parts (keyId : UInt8) (h : opcode < 32)
    : ((opcode <<< 3) ||| (keyId &&& 0x07)) >>> 3 = opcode
      ∧ ((opcode <<< 3) ||| (keyId &&& 0x07)) &&& 0x07 = keyId &&& 0x07 := by
  have table : ∀ opcode < 32, ∀ low < 8,
      ((UInt8.ofNat opcode <<< 3) ||| UInt8.ofNat low) >>> 3 = UInt8.ofNat opcode
      ∧ ((UInt8.ofNat opcode <<< 3) ||| UInt8.ofNat low) &&& 0x07 = UInt8.ofNat low := by
    decide +kernel
  have low : (keyId &&& 0x07).toNat < 8 := by
    rw [UInt8.toNat_and]
    exact Nat.lt_succ_of_le Nat.and_le_right
  simpa using table opcode.toNat (UInt8.lt_iff_toNat_lt.mp h) (keyId &&& 0x07).toNat low

theorem take_append {length} (bytes : Vector UInt8 length) (rest)
    : take (bytes.toList ++ rest) length = .ok (bytes, rest) := by
  obtain ⟨bytes, rfl⟩ := bytes
  simp [take]

theorem u32FromBeBytes_toBeBytes (value : UInt32)
    : u32FromBeBytes (u32ToBeBytes value) = value := by
  have hb := value.toNat_lt
  simp [u32FromBeBytes, u32ToBeBytes, @ofBigEndian_toBigEndian 4 _ hb]

theorem takeAcknowledgments_append (ids rest)
    : takeAcknowledgments ids.length
        (ids.flatMap (fun id => (u32ToBeBytes id).toList) ++ rest)
      = .ok (ids, rest) := by
  induction ids with
  | nil => rfl
  | cons id ids ih =>
    rw [List.flatMap_cons, List.append_assoc, List.length_cons, takeAcknowledgments, take_append]
    simp [bind, Except.bind, ih, u32FromBeBytes_toBeBytes]

theorem takeControlHeader_append {base} (few : packet.acknowledgmentIds.length ≤ 255)
    (opcode : base.opcode = packet.opcode) (rest)
    : takeControlHeader base (packet.controlHeader ++ rest)
      = .ok
        ({ base with
            localSessionId := packet.localSessionId
            acknowledgmentIds := packet.acknowledgmentIds
            remoteSessionId :=
              if packet.acknowledgmentIds = [] then base.remoteSessionId
              else packet.remoteSessionId
            id := if packet.opcode = .acknowledgmentV1 then base.id else packet.id },
          rest) := by
  have count : (UInt8.ofNat packet.acknowledgmentIds.length).toNat
      = packet.acknowledgmentIds.length := by
    rw [UInt8.toNat_ofNat']
    omega
  have hc (rest : List UInt8)
      : take ([UInt8.ofNat packet.acknowledgmentIds.length] ++ rest) 1
        = .ok (#v[UInt8.ofNat packet.acknowledgmentIds.length], rest) :=
    take_append #v[UInt8.ofNat packet.acknowledgmentIds.length] rest
  simp only [takeControlHeader, Packet.controlHeader, List.append_assoc, take_append, bind,
    Except.bind, hc, opcode]
  have first : (#v[UInt8.ofNat packet.acknowledgmentIds.length])[0].toNat
      = packet.acknowledgmentIds.length := count
  simp only [first, takeAcknowledgments_append, List.length_pos_iff]
  by_cases bare : packet.acknowledgmentIds = []
  · by_cases standalone : packet.opcode = .acknowledgmentV1
    · simp [bare, standalone]
    · simp [bare, standalone, Except.map, take_append, u32FromBeBytes_toBeBytes]
  by_cases standalone : packet.opcode = .acknowledgmentV1
  · simp [bare, standalone, take_append]
  · simp [bare, standalone, Except.map, take_append, u32FromBeBytes_toBeBytes]

theorem parse_header {opcode : Opcode} (named : opcode.Named) (keyId body)
    : Packet.parse (((opcode.wireValue <<< 3) ||| (keyId &&& 0x07)) :: body)
      = (Packet.new opcode keyId []).parseBody body := by
  simp only [Packet.parse, header_parts keyId named.1, named.2]
  simp [Packet.new, UInt8.and_assoc]

/-- Parsing an encoded packet gives back what the wire format carries of it. -/
theorem parse_encode {raw} (named : packet.opcode.Named) (h : packet.encode = .ok raw)
    : Packet.parse raw = .ok packet.onWire := by
  unfold Packet.encode at h
  split at h
  next data =>
    obtain rfl := Except.ok.inj h
    rw [List.cons_append, parse_header named]
    simp [Packet.parseBody, Packet.new, data, Opcode.isControl, take_append, Except.map, bind,
      Except.bind, Packet.onWire]
  next data =>
    split at h
    next reliable =>
      split at h
      next few =>
        obtain rfl := Except.ok.inj h
        rw [List.cons_append, parse_header named]
        by_cases standalone : packet.opcode = .acknowledgmentV1
        · simp [Packet.parseBody, Packet.new, takeControlHeader_append few, bind, Except.bind,
            Packet.onWire, standalone, Opcode.isControl]
        have control := reliable.resolve_right standalone
        simp [Packet.parseBody, Packet.new, data, takeControlHeader_append few, bind, Except.bind,
          Packet.onWire, standalone, control]
      · simp at h
    next unreliable =>
      rw [not_or] at unreliable
      obtain rfl := Except.ok.inj h
      rw [parse_header named]
      simp [Packet.parseBody, Packet.new, data, unreliable, bind, Except.bind, Packet.onWire]

end Zay.OpenVpn
