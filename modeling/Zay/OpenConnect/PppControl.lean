import Zay.Lib.Checks
import Zay.OpenConnect.Esp

/-! PPP packet headers, control packets and configuration options
(`protocol/openconnect_ppp_control.rs`).
-/

namespace Zay.OpenConnect

open Lib List

/-- The protocols whose packets negotiate: the link itself and the two network families. -/
inductive ControlProtocol where
  | lcp
  | ipcp
  | ip6cp
  deriving Repr, DecidableEq

namespace ControlProtocol

def number : ControlProtocol → UInt16
  | lcp => 0xc021
  | ipcp => 0x8021
  | ip6cp => 0x8057

def ofNumber? (protocol : UInt16) : Option ControlProtocol :=
  if protocol = lcp.number then some lcp
  else if protocol = ipcp.number then some ipcp
  else if protocol = ip6cp.number then some ip6cp
  else none

@[simp] theorem ofNumber?_number (protocol) : ofNumber? protocol.number = some protocol := by
  cases protocol <;> decide

end ControlProtocol

def pppProtocolIpv4 : UInt16 := 0x0021

def pppProtocolIpv6 : UInt16 := 0x0057

inductive PppCode where
  | configureRequest
  | configureAcknowledgement
  | configureNegativeAcknowledgement
  | configureRejection
  | terminateRequest
  | terminateAcknowledgement
  | codeRejection
  | protocolRejection
  | echoRequest
  | echoReply
  | discardRequest
  deriving Repr, DecidableEq

namespace PppCode

def byte : PppCode → UInt8
  | configureRequest => 1
  | configureAcknowledgement => 2
  | configureNegativeAcknowledgement => 3
  | configureRejection => 4
  | terminateRequest => 5
  | terminateAcknowledgement => 6
  | codeRejection => 7
  | protocolRejection => 8
  | echoRequest => 9
  | echoReply => 10
  | discardRequest => 11

def all : List PppCode :=
  [configureRequest, configureAcknowledgement, configureNegativeAcknowledgement,
    configureRejection, terminateRequest, terminateAcknowledgement, codeRejection,
    protocolRejection, echoRequest, echoReply, discardRequest]

def ofByte? (code : UInt8) : Option PppCode :=
  all.find? (·.byte == code)

@[simp] theorem ofByte?_byte (code) : ofByte? code.byte = some code := by
  cases code <;> decide

theorem byte_of_ofByte? {code known} (read : ofByte? code = some known) : code = known.byte := by
  have he := find?_some read
  exact (eq_of_beq he).symm

theorem byte_injective {left right : PppCode} (he : left.byte = right.byte) : left = right := by
  have read := ofByte?_byte left
  rw [he, ofByte?_byte] at read
  exact (Option.some.inj read).symm

end PppCode

def lcpOptionMru : UInt8 := 1

def lcpOptionAsyncMap : UInt8 := 2

def lcpOptionMagic : UInt8 := 5

def lcpOptionProtocolCompression : UInt8 := 7

def lcpOptionAddressCompression : UInt8 := 8

def ipcpOptionAddresses : UInt8 := 1

def ipcpOptionAddress : UInt8 := 3

/-- The options that ask for a name server, in the order of their numbers. -/
inductive NameServerOption where
  | primaryDns
  | primaryNbns
  | secondaryDns
  | secondaryNbns
  deriving Repr, DecidableEq

namespace NameServerOption

def kind : NameServerOption → UInt8
  | primaryDns => 129
  | primaryNbns => 130
  | secondaryDns => 131
  | secondaryNbns => 132

def all : List NameServerOption :=
  [primaryDns, primaryNbns, secondaryDns, secondaryNbns]

def ofKind? (kind : UInt8) : Option NameServerOption :=
  all.find? (·.kind == kind)

end NameServerOption

def ip6cpOptionInterfaceId : UInt8 := 1

def pppDefaultMru : UInt16 := 1500

def pppMinimumMru : UInt16 := 128

def pppMaximumPayloadLength : Nat := 65535

structure PppOption where
  kind : UInt8
  value : Bytes
  raw : Bytes
  deriving Repr, DecidableEq

structure PppControlPacket where
  code : UInt8
  identifier : UInt8
  payload : Bytes
  deriving Repr, DecidableEq

structure PppPacket where
  protocol : UInt16
  payload : Bytes
  deriving Repr, DecidableEq

inductive PppControlError where
  | truncatedOptionHeader
  | invalidOptionLength (length : Nat)
  | optionTooLarge
  | controlPacketTooLarge
  | controlPacketTooShort
  | invalidControlPacketLength (length : Nat)
  | emptyPacket
  | missingProtocol
  | truncatedProtocol
  | invalidProtocolLowBit
  | invalidIpv4OptionLength (length : Nat)
  | invalidIpv6InterfaceIdLength (length : Nat)
  deriving Repr, DecidableEq

/-- The loop of `parse_ppp_options`. Each round takes two bytes or more, so that as many
rounds as there are bytes read them all.
-/
def parseOptionsWithin : (rounds : Nat) → Bytes → Except PppControlError (List PppOption)
  | _, [] => .ok []
  | 0, _ => .ok []
  | _ + 1, [_] => .error .truncatedOptionHeader
  | rounds + 1, kind :: size :: rest =>
    let payload := kind :: size :: rest
    let length := size.toNat
    if length < 2 ∨ length > payload.length then .error (.invalidOptionLength length)
    else do
      let option :=
        { kind, value := (payload.take length).drop 2, raw := payload.take length }
      let options ← parseOptionsWithin rounds (payload.drop length)
      return option :: options

def parsePppOptions (payload : Bytes) : Except PppControlError (List PppOption) :=
  parseOptionsWithin payload.length payload

def appendPppOption (destination : Bytes) (kind : UInt8) (value : Bytes)
    : Except PppControlError Bytes :=
  let length := value.length + 2
  if length < 256 then .ok (destination ++ [kind, UInt8.ofNat length] ++ value)
  else .error .optionTooLarge

/-- Several options behind each other, as pairs of a kind and a value. -/
def appendPppOptions (destination : Bytes) (options : List (UInt8 × Bytes))
    : Except PppControlError Bytes :=
  options.foldlM (fun payload option => appendPppOption payload option.1 option.2) destination

def buildPppControlPacket (code identifier : UInt8) (payload : Bytes)
    : Except PppControlError Bytes :=
  let packetLength := payload.length + 4
  if packetLength > pppMaximumPayloadLength then .error .controlPacketTooLarge
  else .ok ([code, identifier] ++ toBigEndian 2 packetLength ++ payload)

def parsePppControlPacket (packet : Bytes) : Except PppControlError PppControlPacket :=
  if packet.length < 4 then .error .controlPacketTooShort
  else
    let packetLength := ofBigEndian ((packet.take 4).drop 2)
    if packetLength < 4 ∨ packetLength > packet.length then
      .error (.invalidControlPacketLength packetLength)
    else
      .ok {
        code := packet.getD 0 0
        identifier := packet.getD 1 0
        payload := (packet.take packetLength).drop 4 }

def parsePppPacket (packet : Bytes) : Except PppControlError PppPacket :=
  if packet.isEmpty then .error .emptyPacket
  else
    let rest := if packet.take 2 = [0xff, 0x03] then packet.drop 2 else packet
    match rest with
    | [] => .error .missingProtocol
    | first :: rest =>
      if first &&& 1 ≠ 0 then .ok { protocol := first.toUInt16, payload := rest }
      else
        match rest with
        | [] => .error .truncatedProtocol
        | second :: rest =>
          let protocol := UInt16.ofNat (ofBigEndian [first, second])
          if protocol &&& 1 = 0 then .error .invalidProtocolLowBit
          else .ok { protocol, payload := rest }

def pppIpv4FromBytes (value : Bytes) : Except PppControlError (BitVec 32) :=
  if value.length = 4 then .ok (BitVec.ofNat 32 (ofBigEndian value))
  else .error (.invalidIpv4OptionLength value.length)

def pppIpv6FromInterfaceId (value : Bytes) : Except PppControlError (BitVec 128) :=
  if value.length = 8 then .ok (0xfe80#16 ++ 0#48 ++ BitVec.ofNat 64 (ofBigEndian value))
  else .error (.invalidIpv6InterfaceIdLength value.length)

def pppInterfaceId (address : BitVec 128) : BitVec 64 :=
  address.setWidth 64

/-- A control packet is read as it was built. -/
theorem parsePppControlPacket_of_build {code identifier payload packet}
    (built : buildPppControlPacket code identifier payload = .ok packet)
    : parsePppControlPacket packet = .ok { code, identifier, payload } := by
  obtain ⟨hf, written⟩ := guard_eq_ok.mp built
  cases written
  have hs : payload.length + 4 < 256 ^ 2 := by
    rw [pppMaximumPayloadLength] at hf
    omega
  have number := ofBigEndian_toBigEndian hs
  have size := length_toBigEndian 2 (payload.length + 4)
  generalize toBigEndian 2 (payload.length + 4) = bytes at number size
  match bytes, size, number with
  | [high, low], _, number =>
    have hl : ¬payload.length + 4 < 4 := by omega
    simp [parsePppControlPacket, number, hl]

/-- Options with short values are always written, and take two bytes more than their values. -/
theorem appendPppOptions_fits {bound} (hs : bound < 254) (destination : Bytes) (options)
    (sizes : ∀ option ∈ options, option.2.length ≤ bound)
    : ∃ payload, appendPppOptions destination options = .ok payload
      ∧ payload.length ≤ destination.length + (bound + 2) * options.length := by
  induction options generalizing destination with
  | nil => exact ⟨destination, rfl, by simp⟩
  | cons option options ih =>
    have size := sizes option (mem_cons_self ..)
    obtain ⟨payload, written, length⟩ :=
      ih (destination ++ [option.1, UInt8.ofNat (option.2.length + 2)] ++ option.2)
        fun other hm => sizes other (mem_cons_of_mem _ hm)
    refine ⟨payload, ?_, ?_⟩
    · unfold appendPppOptions at written ⊢
      rw [foldlM_cons, appendPppOption, if_pos (by omega)]
      exact written
    · simp only [length_append, length_cons, length_nil] at length
      rw [length_cons, Nat.mul_succ]
      omega

end Zay.OpenConnect
