import Mathlib.Data.List.MinMax
import Zay.Lib.Assembly
import Zay.Lib.AssocMap
import Zay.Lib.Checks
import Zay.Lib.Runs

/-! UDP messages of Hysteria (`protocol/hysteria.rs`), cut into fragments and put together again.
An incomplete message is kept under its packet id until others displace it.
-/

namespace Zay.Hysteria

open Lib List Option

structure UdpMessage where
  sessionId : UInt32
  packetId : UInt16
  fragmentId : UInt8
  fragmentCount : UInt8
  host : String
  port : UInt16
  data : List UInt8
  deriving DecidableEq

def UdpMessage.headerSize (message : UdpMessage) : Except String Nat :=
  if 65535 < message.host.utf8ByteSize then .error "host exceeds u16"
  else .ok (14 + message.host.utf8ByteSize)

def fragmentUdpMessage (message : UdpMessage) (maximumPacketSize : Nat)
    : Except String (List UdpMessage) := do
  let payloadMtu := maximumPacketSize - (← message.headerSize)
  if payloadMtu = 0 then throw "maximum packet size is smaller than UDP header"
  if message.data.length ≤ payloadMtu then return [message]
  let count := (message.data.length + payloadMtu - 1) / payloadMtu
  if 255 < count then throw "too many UDP fragments"
  return (chunks payloadMtu message.data).mapIdx fun index data =>
    { message with
      fragmentId := UInt8.ofNat index
      fragmentCount := UInt8.ofNat count
      data }

structure FragmentEntry where
  updated : Nat
  parts : List (Option UdpMessage)

abbrev Entries := AssocMap UInt16 FragmentEntry

/-- The order in which the map is walked. -/
abbrev Order := List (UInt16 × FragmentEntry) → List (UInt16 × FragmentEntry)

def assemble : List UdpMessage → Option UdpMessage
  | [] => none
  | output :: parts =>
    some { output with
      fragmentId := 0
      fragmentCount := 1
      data := output.data ++ parts.flatMap (·.data) }

/-- `UdpDefragmenter::feed`. A part that is there already leaves its entry as it is. -/
def feed (order : Order) (entries : Entries) (message : UdpMessage) (now : Nat)
    : Option UdpMessage × Entries :=
  if message.fragmentCount ≤ 1 then (some message, entries)
  else if message.fragmentCount ≤ message.fragmentId then (none, entries)
  else
    let room := if 10 ≤ entries.len ∧ entries.get? message.packetId = none then
        ((order entries.entries).argmin (·.2.updated)).map fun oldest => entries.erase oldest.1
      else some entries
    match room with
    | none => (none, entries)
    | some room =>
      let blank := replicate message.fragmentCount.toNat none
      let parts := ((room.get? message.packetId).map (·.parts)).getD blank
      let parts := if parts.length ≠ message.fragmentCount.toNat then blank else parts
      if parts[message.fragmentId.toNat]?.any isSome then (none, room)
      else
        let parts := parts.set message.fragmentId.toNat (some message)
        if parts.any isNone then
          (none, room.insert message.packetId { updated := now, parts })
        else (assemble (parts.filterMap id), room.erase message.packetId)

/-- Messages that are sent one after the other, with counted packet ids. -/
structure Traffic where
  message : Nat → UdpMessage
  maximumPacketSize : Nat → Nat
  whole : ∀ number, (message number).fragmentId = 0 ∧ (message number).fragmentCount = 1
  counted : ∀ number, (message (number + 1)).packetId = (message number).packetId + 1

/-- A fragment that is not lost. -/
structure Arrival where
  number : Nat
  index : Nat
  now : Nat

structure Receiver where
  entries : Entries := .empty
  /-- The message that the last fragment was of. -/
  latest : Option Nat := none
  returned : List UdpMessage := []

namespace Traffic

variable (traffic : Traffic) (order : Order)

/-- A message that cannot be fragmented is not sent. -/
def fragments (number : Nat) : List UdpMessage :=
  match fragmentUdpMessage (traffic.message number) (traffic.maximumPacketSize number) with
  | .ok fragments => fragments
  | .error _ => []

def step (receiver : Receiver) (arrival : Arrival) : Receiver :=
  match (traffic.fragments arrival.number)[arrival.index]? with
  | none => receiver
  | some fragment =>
    let fed := feed order receiver.entries fragment arrival.now
    { entries := fed.2
      latest := some arrival.number
      returned := receiver.returned ++ fed.1.toList }

/-- No entry is left under the packet id of a message when the first of its fragments arrives. In
sending order this is the one that follows a fragment of another message.
-/
def Clears (receiver : Receiver) (arrival : Arrival) : Prop :=
  receiver.latest ≠ some arrival.number →
    receiver.entries.get? (traffic.message arrival.number).packetId = none

end Traffic

/-- The fragments of a message, when there are several. -/
structure Cut (message : UdpMessage) (fragments : List UdpMessage) : Prop where
  few : fragments.length < 256
  several : 1 < fragments.length
  part : ∀ (index : Nat) part, fragments[index]? = some part →
    part = { message with
      fragmentId := UInt8.ofNat index
      fragmentCount := UInt8.ofNat fragments.length
      data := part.data }
  data : fragments.flatMap (·.data) = message.data

variable {message fragment : UdpMessage} {fragments : List UdpMessage} {index : Nat}

theorem cut_of_fragment {size} (made : fragmentUdpMessage message size = .ok fragments)
    : fragments = [message] ∨ Cut message fragments := by
  obtain ⟨header, -, made⟩ := bind_eq_ok.mp made
  obtain ⟨hpos, made⟩ := guard_eq_ok.mp made
  split at made
  · cases made
    exact .inl rfl
  next hl =>
  obtain ⟨few, made⟩ := guard_eq_ok.mp made
  cases made
  obtain ⟨hw, count⟩ := @chunksFrom_spec _ _ _ message.data (Nat.pos_of_ne_zero hpos) le_rfl
  have hs := (Nat.le_div_iff_mul_le (Nat.pos_of_ne_zero hpos)).mpr
    (by omega : 2 * (size - header) ≤ message.data.length + (size - header) - 1)
  rw [← count] at few hs
  refine .inr ⟨?_, ?_, fun index _ hf => ?_, ?_⟩
  · rw [length_mapIdx]
    exact Nat.lt_succ_of_le (Nat.le_of_not_lt few)
  · rw [length_mapIdx]
    exact hs
  · rw [getElem?_mapIdx, map_eq_some_iff] at hf
    obtain ⟨_, -, rfl⟩ := hf
    rw [length_mapIdx, chunks, count]
  · rw [flatMap_def]
    refine Eq.trans (congrArg flatten (ext_getElem? fun index => ?_)) hw
    rw [getElem?_map, getElem?_mapIdx, Option.map_map]
    exact congrFun map_id _

theorem Cut.assemble (cut : Cut message fragments)
    (hw : message.fragmentId = 0 ∧ message.fragmentCount = 1)
    : Hysteria.assemble fragments = some message := by
  obtain ⟨_, hs, part, data⟩ := cut
  cases fragments with
  | nil => cases hs
  | cons first _ =>
    rw [flatMap_cons] at data
    rw [Hysteria.assemble, data, part 0 first rfl]
    obtain ⟨_, _, _, _, _, _, _⟩ := message
    obtain ⟨rfl, rfl⟩ := hw
    rfl

theorem Cut.feed (cut : Cut message fragments)
    (hw : message.fragmentId = 0 ∧ message.fragmentCount = 1)
    (own : fragments[index]? = some fragment) {entries}
    (held : ∀ entry ∈ entries.get? message.packetId, PartsOf fragments entry.parts) (order : Order)
    (now : Nat)
    : (∀ result ∈ (feed order entries fragment now).1, result = message)
      ∧ ∀ entry ∈ (feed order entries fragment now).2.get? message.packetId,
        PartsOf fragments entry.parts := by
  have few := cut.few
  have hs := cut.several
  have hi := (List.getElem?_eq_some_iff.mp own).1
  have shape := cut.part index fragment own
  have he : fragment.packetId = message.packetId := by rw [shape]
  have place : fragment.fragmentId.toNat = index := by
    rw [shape, UInt8.toNat_ofNat']
    omega
  have count : fragment.fragmentCount.toNat = fragments.length := by
    rw [shape, UInt8.toNat_ofNat']
    omega
  rw [Hysteria.feed, if_neg (by rw [UInt8.le_iff_toNat_le, count]; exact not_le.mpr hs),
    if_neg (by rw [UInt8.le_iff_toNat_le, count, place]; exact not_le.mpr hi), he, count,
    place]
  dsimp only
  split
  · exact ⟨by simp, held⟩
  next room made =>
  have held : ∀ entry ∈ room.get? message.packetId, PartsOf fragments entry.parts := by
    split at made
    · obtain ⟨_, -, rfl⟩ := map_eq_some_iff.mp made
      exact fun entry hf => held entry (AssocMap.get?_of_erase hf)
    cases made
    exact held
  have partsOf : PartsOf fragments (((room.get? message.packetId).map (·.parts)).getD
      (replicate fragments.length none)) := by
    cases hf : room.get? message.packetId with
    | none => exact .blank fragments
    | some entry => exact held entry hf
  rw [if_neg (not_not_intro partsOf.length)]
  generalize Option.getD _ _ = parts at partsOf
  split
  · exact ⟨by simp, held⟩
  have partsOf := partsOf.set own
  split
  · refine ⟨by simp, fun entry hf => ?_⟩
    rw [AssocMap.get?_insert, if_pos rfl] at hf
    cases hf
    exact partsOf
  next full =>
    refine ⟨fun result hj => ?_, fun entry hf => ?_⟩
    · rw [partsOf.filterMap_id full, cut.assemble hw] at hj
      exact (some.inj hj).symm
    · rw [AssocMap.get?_erase, if_pos rfl] at hf
      cases hf

namespace Traffic

variable {traffic : Traffic} {receiver : Receiver} {arrival : Arrival} {order : Order}

/-- What is left under the packet id of the latest message is of this message. -/
structure Sound (traffic : Traffic) (receiver : Receiver) : Prop where
  held : ∀ number ∈ receiver.latest, Cut (traffic.message number) (traffic.fragments number) →
    ∀ entry ∈ receiver.entries.get? (traffic.message number).packetId,
      PartsOf (traffic.fragments number) entry.parts
  returned : ∀ message ∈ receiver.returned, ∃ number, message = traffic.message number

theorem Sound.step (hs : traffic.Sound receiver) (clears : traffic.Clears receiver arrival)
    : traffic.Sound (traffic.step order receiver arrival) := by
  unfold Traffic.step
  cases own : (traffic.fragments arrival.number)[arrival.index]? with
  | none => exact hs
  | some _ =>
    have hw := traffic.whole arrival.number
    have made : traffic.fragments arrival.number = [traffic.message arrival.number]
        ∨ Cut (traffic.message arrival.number) (traffic.fragments arrival.number) := by
      unfold fragments at own ⊢
      split at own
      next made => exact cut_of_fragment made
      · cases own
    rcases made with single | cut
    · rw [single] at own
      obtain rfl := mem_singleton.mp (mem_of_getElem? own)
      have fed : feed order receiver.entries _ arrival.now = (_, receiver.entries) :=
        if_pos (UInt8.le_of_eq hw.2)
      dsimp only
      rw [fed]
      refine ⟨fun number latest cut => ?_, forall_mem_append.mpr
        ⟨hs.returned, forall_mem_singleton.mpr ⟨arrival.number, rfl⟩⟩⟩
      cases latest
      have several := cut.several
      simp [single] at several
    · have held : ∀ entry ∈ receiver.entries.get? (traffic.message arrival.number).packetId,
          PartsOf (traffic.fragments arrival.number) entry.parts := by
        by_cases again : receiver.latest = some arrival.number
        · exact hs.held _ again cut
        intro entry hf
        rw [clears again] at hf
        cases hf
      obtain ⟨hg, hk⟩ := cut.feed hw own held order arrival.now
      refine ⟨fun number latest _ => ?_, forall_mem_append.mpr ⟨hs.returned,
        fun message new => ⟨arrival.number, hg message (mem_toList.mp new)⟩⟩⟩
      cases latest
      exact hk

end Traffic

/-- Every message that is returned was sent, in a run in which no entry is left under the packet id
of a message when the first of its fragments arrives.
-/
theorem udp_reassembly_unmixed (traffic : Traffic) (order : Order) (arrivals : List Arrival)
    (clears : AllAdmitted (traffic.step order) traffic.Clears {} arrivals)
    : ∀ message ∈ (arrivals.foldl (traffic.step order) {}).returned,
      ∃ number, message = traffic.message number :=
  (clears.run (fun receiver _ => traffic.Sound receiver) (fun _ _ _ sound => sound.step)
    ⟨nofun, nofun⟩).returned

/-- Messages of two fragments. The first differs from the others. -/
def exampleTraffic : Traffic where
  message number :=
    { sessionId := 1
      packetId := UInt16.ofNat number
      fragmentId := 0
      fragmentCount := 1
      host := ""
      port := 53
      data := if number = 0 then [0, 0] else [1, 1] }
  maximumPacketSize _ := 15
  whole _ := ⟨rfl, rfl⟩
  counted number := UInt16.ofNat_add number 1

theorem udp_reassembly_unmixed_example
    : let arrivals : List Arrival := [⟨0, 0, 0⟩, ⟨1, 0, 0⟩, ⟨1, 1, 0⟩]
      (arrivals.foldl (exampleTraffic.step id) {}).returned = [exampleTraffic.message 1]
      ∧ ∀ message ∈ (arrivals.foldl (exampleTraffic.step id) {}).returned,
        ∃ number, message = exampleTraffic.message number := by
  intro arrivals
  refine ⟨by decide +kernel, udp_reassembly_unmixed exampleTraffic id arrivals ?_⟩
  refine ⟨fun _ => rfl, fun _ => ?_, fun again => absurd ?_ again, trivial⟩
  · decide +kernel
  · decide +kernel

/-- The first fragment of a message and the second of the message that has its packet id again,
65536 messages later.
-/
theorem udp_reassembly_mixes
    : let arrivals : List Arrival := [⟨0, 0, 0⟩, ⟨65536, 1, 0⟩]
      arrivals.Pairwise (fun left right => left.number < right.number)
      ∧ ∃ message ∈ (arrivals.foldl (exampleTraffic.step id) {}).returned,
        ∀ number, message ≠ exampleTraffic.message number := by
  refine ⟨by simp, { exampleTraffic.message 0 with data := [0, 1] }, by decide +kernel, ?_⟩
  intro number same
  have data := congrArg UdpMessage.data same
  simp only [exampleTraffic] at data
  split at data <;> simp at data

end Zay.Hysteria
