import Zay.Clock
import Zay.Lib.OrderedMap
import Zay.OpenVpn.Packet

/-! The two halves of OpenVPN's reliability layer (`protocol/openvpn/reliable.rs`): the
six-slot send window with the set of acknowledgments still to send, and the twelve-id
receive window that reorders packets. A mutex makes each method atomic.
-/

namespace Zay.OpenVpn

open Lib

def reliableSendBufferSize : Nat := 6

def reliableReceiveBufferSize : UInt32 := 12

def maximumAcknowledgmentsPerPacket : Nat := 4

def acknowledgmentSetCapacity : Nat := 8

def initialRetransmissionTimeout : Duration := 2000000000

def maximumRetransmissionTimeout : Duration := 60000000000

def fastRetransmissionAckThreshold : Nat := 3

/-- `InFlightPacket`. The two counters saturate at `u8::MAX` and `u32::MAX`. -/
structure InFlightPacket where
  packet : Packet
  retransmissionDeadline : Option Instant
  higherPacketAcknowledgments : Nat
  retransmissionCount : Nat
  deriving Repr, DecidableEq

namespace InFlightPacket

/-- A packet that has not been sent yet. -/
def new (packet : Packet) : InFlightPacket where
  packet
  retransmissionDeadline := none
  higherPacketAcknowledgments := 0
  retransmissionCount := 0

def schedule (tracked : InFlightPacket) (now : Instant) : InFlightPacket :=
  let count := min (tracked.retransmissionCount + 1) (2 ^ 32 - 1)
  let timeout :=
    min (initialRetransmissionTimeout * 2 ^ min (count - 1) 31) maximumRetransmissionTimeout
  { tracked with
    retransmissionCount := count
    retransmissionDeadline := some (now + timeout) }

def ready (tracked : InFlightPacket) (now : Instant) : Bool :=
  tracked.retransmissionDeadline.all (· ≤ now)
    || fastRetransmissionAckThreshold ≤ tracked.higherPacketAcknowledgments

end InFlightPacket

structure OutgoingReliableState where
  inFlight : OrderedMap PacketId InFlightPacket
  pendingAcknowledgments : OrderedSet PacketId

/-- The loop of `return_acknowledgments`, which stops when a new id would not fit. -/
def returnAcknowledgments (pending : OrderedSet PacketId) : List PacketId → OrderedSet PacketId
  | [] => pending
  | id :: ids =>
    if acknowledgmentSetCapacity ≤ pending.len ∧ !pending.containsKey id then pending
    else returnAcknowledgments (pending.insert id ()) ids

/-- `on_incoming_packet` for one acknowledged id. -/
def acknowledge (inFlight : OrderedMap PacketId InFlightPacket) (acknowledgedId : PacketId)
    : OrderedMap PacketId InFlightPacket :=
  (inFlight.erase acknowledgedId).mapValues fun id tracked =>
    if id < acknowledgedId then
      { tracked with
        higherPacketAcknowledgments := min (tracked.higherPacketAcknowledgments + 1) 255 }
    else tracked

namespace OutgoingReliableState

def new : OutgoingReliableState := ⟨.empty, .empty⟩

variable {ε α : Type} (state : OutgoingReliableState)

/-- `take_acknowledgments`: the lowest pending ids, which are removed one by one. -/
def takeAcknowledgmentIds (maximum : Nat)
    : List PacketId × OutgoingReliableState :=
  let ids := state.pendingAcknowledgments.keys.take maximum
  (ids, { state with
    pendingAcknowledgments := ids.foldl (·.erase ·) state.pendingAcknowledgments })

def returnAcknowledgmentIds (ids : List PacketId) : OutgoingReliableState :=
  { state with
    pendingAcknowledgments := returnAcknowledgments state.pendingAcknowledgments ids }

/-- `insert_outgoing_packet`. The creation of the packet is the caller's; it may fail, and
it carries the caller's own new state `α`.
-/
def insertOutgoingPacket (maximumAcknowledgments : Nat)
    (create : List PacketId → Except ε (Packet × α))
    : Except ε (Option (Packet × α)) × OutgoingReliableState :=
  if reliableSendBufferSize ≤ state.inFlight.len then (.ok none, state)
  else
    let ids := (state.takeAcknowledgmentIds maximumAcknowledgments).1
    let taken := (state.takeAcknowledgmentIds maximumAcknowledgments).2
    match create ids with
    | .error error => (.error error, taken.returnAcknowledgmentIds ids)
    | .ok (packet, result) =>
      (.ok (some (packet, result)),
        { taken with inFlight := taken.inFlight.insert packet.id (.new packet) })

def onIncomingPacket (packet : Packet) : OutgoingReliableState where
  pendingAcknowledgments :=
    if packet.opcode ≠ .acknowledgmentV1
        ∧ state.pendingAcknowledgments.len < acknowledgmentSetCapacity then
      state.pendingAcknowledgments.insert packet.id ()
    else state.pendingAcknowledgments
  inFlight := packet.acknowledgmentIds.foldl acknowledge state.inFlight

def packetsReadyToSend (now : Instant)
    : List Packet × OutgoingReliableState :=
  let ready := state.inFlight.values.filter (·.ready now)
  (ready.map (·.packet),
    { state with
      inFlight := state.inFlight.mapValues fun _ tracked =>
        if tracked.ready now then tracked.schedule now else tracked })

end OutgoingReliableState

structure IncomingReliableState where
  pending : OrderedMap PacketId Packet
  lastConsumedId : PacketId

namespace IncomingReliableState

def new : IncomingReliableState := ⟨.empty, 0⟩

def tryInsertIncomingPacket (state : IncomingReliableState) (packet : Packet)
    : Bool × IncomingReliableState :=
  if packet.id ≤ state.lastConsumedId ∨ state.pending.containsKey packet.id then
    (false, state)
  else
    let next := state.lastConsumedId + 1
    if reliableReceiveBufferSize ≤ packet.id - next
        ∨ reliableReceiveBufferSize.toNat ≤ state.pending.len then
      (false, state)
    else (true, { state with pending := state.pending.insert packet.id packet })

/-- The loop of `next_ordered_sequence`. Every round removes a buffered packet, so as many
rounds as there are packets exhaust it.
-/
def drain : (rounds : Nat) → (state : IncomingReliableState) →
    List Packet × IncomingReliableState
  | 0, state => ([], state)
  | rounds + 1, state =>
    let next := state.lastConsumedId + 1
    match state.pending.get? next with
    | none => ([], state)
    | some packet =>
      let (ready, final) := drain rounds ⟨state.pending.erase next, next⟩
      (packet :: ready, final)

def nextOrderedSequence (state : IncomingReliableState)
    : List Packet × IncomingReliableState :=
  state.drain state.pending.len

end IncomingReliableState

end Zay.OpenVpn
