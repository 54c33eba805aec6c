import Mathlib.Data.List.Perm.Subperm
import Zay.OpenVpn.Reliable

/-! What each operation of the reliability layer does to the packets in flight, the pending
acknowledgments and the receive window.
-/

namespace Zay.OpenVpn

open Lib OrderedMap List Option UInt32

variable {id : PacketId} {packet : Packet} {state final : IncomingReliableState}
  {ready : List Packet} {maximum : Nat} {pieces : List (List UInt8)}

theorem keys_returnAcknowledgments {pending ids} (h : id ∈ (returnAcknowledgments pending ids).keys)
    : id ∈ pending.keys ∨ id ∈ ids := by
  fun_induction returnAcknowledgments pending ids with
  | case1 pending => exact .inl h
  | case2 => exact .inl h
  | case3 pending first ids room ih =>
    rcases ih h with hk | hr
    · rw [mem_keys_iff] at hk ⊢
      simp only [get?_insert] at hk
      grind
    · exact .inr (mem_cons_of_mem _ hr)

/-- Acknowledged ids leave the flight; every other packet stays as it was. -/
theorem get?_foldl_acknowledge (inFlight) (ids : List PacketId) (id)
    : ((ids.foldl acknowledge inFlight).get? id).map (·.packet)
      = if id ∈ ids then none else (inFlight.get? id).map (·.packet) := by
  induction ids generalizing inFlight with
  | nil => simp
  | cons first ids ih =>
    rw [foldl_cons, ih, acknowledge, get?_mapValues, get?_erase]
    have hk : ∀ tracked : InFlightPacket, (if id < first then
          { tracked with
            higherPacketAcknowledgments := min (tracked.higherPacketAcknowledgments + 1) 255 }
        else tracked).packet = tracked.packet := by
      intro tracked
      split <;> rfl
    by_cases he : id = first
    · simp [he]
    · simp [he, Function.comp_def, hk]

namespace OutgoingReliableState

variable {state : OutgoingReliableState}

/-- Taking acknowledgments moves ids from the pending set to the result. -/
theorem mem_takeAcknowledgmentIds (h : id ∈ (state.takeAcknowledgmentIds maximum).1)
    : id ∈ state.pendingAcknowledgments.keys :=
  mem_of_mem_take h

theorem length_takeAcknowledgmentIds (state : OutgoingReliableState) (maximum : Nat)
    : (state.takeAcknowledgmentIds maximum).1.length ≤ maximum :=
  length_take_le _ _

theorem keys_takeAcknowledgmentIds
    (h : id ∈ (state.takeAcknowledgmentIds maximum).2.pendingAcknowledgments.keys)
    : id ∈ state.pendingAcknowledgments.keys := by
  rw [mem_keys_iff] at h ⊢
  obtain ⟨mark, hf⟩ := h
  exact ⟨mark, (get?_foldl_erase_eq_some.mp hf).1⟩

/-- What `insert_outgoing_packet` can do: nothing but give acknowledgments back, or put the
created packet in flight with acknowledgments taken from the pending set.
-/
theorem insertOutgoingPacket_cases {ε α : Type}
    (state : OutgoingReliableState) (maximum : Nat) (create : List PacketId → Except ε (Packet × α))
    : (∃ result outgoing,
        state.insertOutgoingPacket maximum create = (result, outgoing)
        ∧ (∀ made, result ≠ .ok (some made))
        ∧ outgoing.inFlight = state.inFlight
        ∧ ∀ id ∈ outgoing.pendingAcknowledgments.keys,
          id ∈ state.pendingAcknowledgments.keys)
      ∨ ∃ ids packet made outgoing,
        create ids = .ok (packet, made)
        ∧ state.insertOutgoingPacket maximum create = (.ok (some (packet, made)), outgoing)
        ∧ ids.length ≤ maximum
        ∧ (∀ id ∈ ids, id ∈ state.pendingAcknowledgments.keys)
        ∧ outgoing.inFlight = state.inFlight.insert packet.id (.new packet)
        ∧ ∀ id ∈ outgoing.pendingAcknowledgments.keys,
          id ∈ state.pendingAcknowledgments.keys := by
  by_cases full : reliableSendBufferSize ≤ state.inFlight.len
  · exact .inl ⟨_, _, if_pos full, by simp, rfl, fun _ hm => hm⟩
  have unfolded : state.insertOutgoingPacket maximum create = _ := if_neg full
  cases made : create (state.takeAcknowledgmentIds maximum).1 with
  | error error =>
    simp only [made] at unfolded
    refine .inl ⟨_, _, unfolded, by simp, rfl, fun id hm => ?_⟩
    rcases keys_returnAcknowledgments hm with hk | hr
    · exact keys_takeAcknowledgmentIds hk
    · exact mem_takeAcknowledgmentIds hr
  | ok _ =>
    simp only [made] at unfolded
    exact .inr ⟨_, _, _, _, made, unfolded, state.length_takeAcknowledgmentIds maximum,
      fun _ => mem_takeAcknowledgmentIds, rfl, fun _ => keys_takeAcknowledgmentIds⟩

/-- An incoming packet adds at most its own id to the pending acknowledgments. -/
theorem keys_onIncomingPacket (h : id ∈ (state.onIncomingPacket packet).pendingAcknowledgments.keys)
    : id ∈ state.pendingAcknowledgments.keys
      ∨ (id = packet.id ∧ packet.opcode ≠ .acknowledgmentV1
        ∧ state.pendingAcknowledgments.len < acknowledgmentSetCapacity) := by
  simp only [onIncomingPacket] at h
  split at h
  next hr =>
    rw [mem_keys_iff] at h ⊢
    simp only [get?_insert] at h
    grind
  · exact .inl h

end OutgoingReliableState

theorem toNat_sub_next {last} (h : last.toNat < id.toNat)
    : (id - (last + 1)).toNat = id.toNat - (last.toNat + 1) := by
  have hb := id.toNat_lt
  have next : (last + 1).toNat = last.toNat + 1 := by
    rw [UInt32.toNat_add]
    exact Nat.mod_eq_of_lt (by simp; omega)
  rw [UInt32.toNat_sub_of_le _ _ (le_iff_toNat_le.mpr (by omega)), next]

namespace IncomingReliableState

/-- Every buffered packet has one of the twelve ids after the last consumed one. -/
def Windowed (state : IncomingReliableState) : Prop :=
  ∀ id packet, state.pending.get? id = some packet →
    state.lastConsumedId.toNat < id.toNat ∧ id.toNat ≤ state.lastConsumedId.toNat + 12

/-- Between calls nothing that could be delivered is left in the buffer. -/
structure Settled (state : IncomingReliableState) : Prop where
  windowed : state.Windowed
  gap : state.pending.get? (state.lastConsumedId + 1) = none

/-- A buffer whose ids are among `count` consecutive ones holds no more packets. -/
theorem len_le (start) {count} (h : ∀ id packet, state.pending.get? id = some packet →
      id.toNat ∈ range' start count)
    : state.pending.len ≤ count := by
  have hd : (state.pending.keys.map toNat).Nodup :=
    List.Nodup.map (fun _ _ => UInt32.toNat_inj.mp) state.pending.keys_nodup
  have hi : state.pending.keys.map toNat ⊆ range' start count := by
    intro position hm
    obtain ⟨id, buffered, rfl⟩ := mem_map.mp hm
    obtain ⟨packet, hp⟩ := mem_keys_iff.mp buffered
    exact h id packet hp
  have few := (hd.subperm hi).length_le
  simpa only [length_map, length_range', OrderedMap.keys, len] using few

theorem Windowed.len_le (hw : state.Windowed) : state.pending.len ≤ 12 :=
  IncomingReliableState.len_le (state.lastConsumedId.toNat + 1) fun id packet hp => by
    have bounds := hw id packet hp
    exact mem_range'_1.mpr (by omega)

theorem Settled.len_lt (h : state.Settled) : state.pending.len < 12 := by
  refine Nat.lt_succ_of_le (len_le (state.lastConsumedId.toNat + 2) fun id packet hp => ?_)
  obtain ⟨ha, near⟩ := h.windowed id packet hp
  have notNext : id.toNat ≠ state.lastConsumedId.toNat + 1 := by
    intro next
    have he : id = state.lastConsumedId + 1 := by
      refine UInt32.toNat_inj.mp ?_
      have hb := id.toNat_lt
      rw [UInt32.toNat_add, next]
      exact (Nat.mod_eq_of_lt (by simpa using next ▸ hb)).symm
    rw [he, h.gap] at hp
    simp at hp
  exact mem_range'_1.mpr (by omega)

/-- What `try_insert_incoming_packet` accepts. -/
theorem tryInsert_cases (state : IncomingReliableState) (packet)
    : state.tryInsertIncomingPacket packet = (false, state)
      ∨ state.lastConsumedId.toNat < packet.id.toNat
        ∧ packet.id.toNat ≤ state.lastConsumedId.toNat + 12
        ∧ state.pending.get? packet.id = none
        ∧ state.tryInsertIncomingPacket packet
          = (true, { state with pending := state.pending.insert packet.id packet }) := by
  simp only [tryInsertIncomingPacket]
  split
  · exact .inl rfl
  next hn =>
    obtain ⟨ha, hno⟩ := not_or.mp hn
    rw [le_iff_toNat_le, Nat.not_le] at ha
    split
    · exact .inl rfl
    next hi =>
      have near := (not_or.mp hi).1
      rw [le_iff_toNat_le, toNat_sub_next ha] at near
      simp only [reliableReceiveBufferSize, toNat_ofNat] at near
      exact .inr ⟨ha, by omega, by simpa [containsKey] using hno, rfl⟩

/-- An id of the window that is not buffered yet is accepted. -/
theorem Settled.tryInsert_fresh (h : state.Settled)
    (ha : state.lastConsumedId.toNat < packet.id.toNat)
    (near : packet.id.toNat ≤ state.lastConsumedId.toNat + 12)
    (hno : state.pending.get? packet.id = none)
    : state.tryInsertIncomingPacket packet
      = (true, { state with pending := state.pending.insert packet.id packet }) := by
  have room := h.len_lt
  have hr : ¬ packet.id ≤ state.lastConsumedId := by
    rw [le_iff_toNat_le]
    omega
  have hi : ¬ reliableReceiveBufferSize ≤ packet.id - (state.lastConsumedId + 1) := by
    rw [le_iff_toNat_le, toNat_sub_next ha]
    simp [reliableReceiveBufferSize]
    omega
  have unfull : ¬ reliableReceiveBufferSize.toNat ≤ state.pending.len := by
    simp [reliableReceiveBufferSize]
    omega
  simp [tryInsertIncomingPacket, hr, hi, unfull, containsKey, hno]

/-- An id past the window is refused. -/
theorem tryInsert_far (far : state.lastConsumedId.toNat + 12 < packet.id.toNat)
    : state.tryInsertIncomingPacket packet = (false, state) := by
  rcases tryInsert_cases state packet with he | ⟨-, near, -⟩
  · exact he
  · omega

end IncomingReliableState

/-- Draining hands out the packets of consecutive ids after the last consumed one, and
leaves the others in the buffer.
-/
structure Drained (state : IncomingReliableState) (ready : List Packet)
    (final : IncomingReliableState) : Prop where
  consumed : final.lastConsumedId.toNat = state.lastConsumedId.toNat + ready.length
  ordered
    : ∀ index packet, ready[index]? = some packet → ∃ id : PacketId,
      id.toNat = state.lastConsumedId.toNat + 1 + index
      ∧ state.pending.get? id = some packet
  kept
    : ∀ id : PacketId, final.pending.get? id
      = if id.toNat ≤ final.lastConsumedId.toNat then none else state.pending.get? id

section

variable (hw : state.Windowed)

include hw

theorem Drained.refl
    : Drained state [] state where
  consumed := rfl
  ordered := by simp
  kept := by
    intro id
    split
    next consumed =>
      by_contra buffered
      obtain ⟨packet, hp⟩ := ne_none_iff_exists'.mp buffered
      have ha := (hw id packet hp).1
      omega
    · rfl

section

variable (hp : state.pending.get? (state.lastConsumedId + 1) = some packet)
include hp

/-- A buffered packet with the next id can be consumed. -/
theorem IncomingReliableState.Windowed.next
    : (state.lastConsumedId + 1).toNat = state.lastConsumedId.toNat + 1
      ∧ IncomingReliableState.Windowed
        ⟨state.pending.erase (state.lastConsumedId + 1), state.lastConsumedId + 1⟩ := by
  obtain ⟨ha, near⟩ := hw _ packet hp
  have next : (state.lastConsumedId + 1).toNat = state.lastConsumedId.toNat + 1 := by
    rw [UInt32.toNat_add] at ha ⊢
    simp only [toNat_one] at ha ⊢
    omega
  refine ⟨next, fun id other buffered => ?_⟩
  simp only [get?_erase] at buffered
  split at buffered
  · simp at buffered
  next hne =>
    have bounds := hw id other buffered
    have apart : id.toNat ≠ (state.lastConsumedId + 1).toNat :=
      fun he => hne (UInt32.toNat_inj.mp he)
    simp only [next] at apart ⊢
    omega

theorem Drained.cons (rest : Drained
      ⟨state.pending.erase (state.lastConsumedId + 1), state.lastConsumedId + 1⟩ ready final)
    : Drained state (packet :: ready) final := by
  obtain ⟨next, -⟩ := hw.next hp
  have hc := rest.consumed
  simp only [next] at hc
  refine ⟨?_, ?_, ?_⟩
  · rw [length_cons]
    omega
  · intro index other hf
    cases index with
    | zero =>
      obtain rfl : packet = other := by simpa using hf
      exact ⟨_, next, hp⟩
    | succ index =>
      obtain ⟨id, position, buffered⟩ := rest.ordered index other (by simpa using hf)
      simp only [get?_erase, next] at position buffered
      split at buffered
      · simp at buffered
      · exact ⟨id, by omega, buffered⟩
  · intro id
    rw [rest.kept id, get?_erase]
    split
    · rfl
    next hr =>
      rw [if_neg]
      rintro rfl
      omega

end

theorem IncomingReliableState.drained_drain (rounds : Nat)
    : Drained state (state.drain rounds).1 (state.drain rounds).2 := by
  induction rounds generalizing state with
  | zero => exact .refl hw
  | succ rounds ih =>
    cases hp : state.pending.get? (state.lastConsumedId + 1) with
    | none => simpa only [drain, hp] using Drained.refl hw
    | some _ =>
      simp only [drain, hp]
      exact .cons hw hp (ih (hw.next hp).2)

end

/-- Packets taken from the buffer carry the next pieces of the stream. -/
theorem Drained.payloads (h : Drained state ready final)
    (buffered : ∀ id packet, state.pending.get? id = some packet →
      pieces[id.toNat - 1]? = some packet.payload)
    : ready.map (·.payload)
      = (pieces.drop state.lastConsumedId.toNat).take ready.length := by
  refine ext_getElem? fun index => ?_
  rw [getElem?_map, getElem?_take, getElem?_drop]
  cases hf : ready[index]? with
  | none =>
    have past := getElem?_eq_none_iff.mp hf
    rw [if_neg (by omega)]
    rfl
  | some packet =>
    have hi := (List.getElem?_eq_some_iff.mp hf).1
    obtain ⟨id, position, hp⟩ := h.ordered index packet hf
    have piece := buffered id packet hp
    rw [position] at piece
    rw [if_pos hi, show state.lastConsumedId.toNat + index
      = state.lastConsumedId.toNat + 1 + index - 1 by omega, piece]
    rfl

namespace IncomingReliableState

/-- As many rounds as there are buffered packets leave nothing to hand out. -/
theorem gap_drain {rounds} (he : state.pending.len ≤ rounds)
    : (state.drain rounds).2.pending.get? ((state.drain rounds).2.lastConsumedId + 1)
      = none := by
  induction rounds generalizing state with
  | zero => exact len_eq_zero_iff.mp (Nat.le_zero.mp he) _
  | succ rounds ih =>
    cases hp : state.pending.get? (state.lastConsumedId + 1) with
    | none => simp [drain, hp]
    | some packet =>
      have hs := len_erase_lt hp
      simp only [drain, hp]
      exact ih (show (state.pending.erase _).len ≤ rounds by omega)

/-- `next_ordered_sequence` settles the buffer. -/
theorem settled_nextOrderedSequence (hw : state.Windowed)
    : Drained state state.nextOrderedSequence.1 state.nextOrderedSequence.2
      ∧ state.nextOrderedSequence.2.Settled := by
  have drained := drained_drain hw state.pending.len
  refine ⟨drained, ?_, gap_drain (le_refl _)⟩
  intro id packet buffered
  rw [nextOrderedSequence, drained.kept id] at buffered
  split at buffered
  · simp at buffered
  have bounds := hw id packet buffered
  have hc := drained.consumed
  simp only [nextOrderedSequence]
  omega

/-- Packet `id` has been consumed or is buffered. -/
def Holds (state : IncomingReliableState) (id : PacketId) : Prop :=
  0 < id.toNat ∧ (id.toNat ≤ state.lastConsumedId.toNat
    ∨ ∃ packet, state.pending.get? id = some packet)

/-- The receiver is reading a stream whose packet `id` carries piece `id - 1`. -/
structure Follows (state : IncomingReliableState)
    (pieces : List (List UInt8)) : Prop where
  settled : state.Settled
  received : state.lastConsumedId.toNat ≤ pieces.length
  buffered
    : ∀ id packet, state.pending.get? id = some packet →
      pieces[id.toNat - 1]? = some packet.payload

theorem Holds.drained (h : Drained state ready final) (held : state.Holds id)
    : final.Holds id := by
  refine ⟨held.1, ?_⟩
  by_cases hc : id.toNat ≤ final.lastConsumedId.toNat
  · exact .inl hc
  rcases held.2 with he | ⟨packet, hp⟩
  · have hg := h.consumed
    omega
  · exact .inr ⟨packet, by rw [h.kept, if_neg hc, hp]⟩

/-- Accepting a new packet of the stream delivers the next pieces, as far as they have
arrived, and forgets nothing.
-/
theorem Follows.accept (h : state.Follows pieces)
    (ha : state.lastConsumedId.toNat < packet.id.toNat)
    (near : packet.id.toNat ≤ state.lastConsumedId.toNat + 12)
    (piece : pieces[packet.id.toNat - 1]? = some packet.payload) (sequence : nextOrderedSequence
      { state with pending := state.pending.insert packet.id packet } = (ready, final))
    : final.Follows pieces
      ∧ pieces.take state.lastConsumedId.toNat ++ ready.map (·.payload)
        = pieces.take final.lastConsumedId.toNat
      ∧ (∀ id, state.Holds id → final.Holds id)
      ∧ final.Holds packet.id := by
  let inserted : IncomingReliableState :=
    { state with pending := state.pending.insert packet.id packet }
  have lookup (id : PacketId)
      : inserted.pending.get? id
        = if id = packet.id then some packet else state.pending.get? id :=
    state.pending.get?_insert packet.id id packet
  have hw : inserted.Windowed := by
    intro id other hp
    rw [lookup] at hp
    split at hp
    next he =>
      exact ⟨he ▸ ha, he ▸ near⟩
    · exact h.settled.windowed id other hp
  have buffered : ∀ id other, inserted.pending.get? id = some other →
      pieces[id.toNat - 1]? = some other.payload := by
    intro id other hp
    rw [lookup] at hp
    split at hp
    next he =>
      rw [he, piece, some.inj hp]
    · exact h.buffered id other hp
  obtain ⟨drained, hs⟩ := settled_nextOrderedSequence hw
  rw [sequence] at drained hs
  dsimp only at drained hs
  have payloads := drained.payloads buffered
  have hc := drained.consumed
  have hh (id : PacketId) (held : state.Holds id) : inserted.Holds id := by
    refine ⟨held.1, held.2.imp_right ?_⟩
    rintro ⟨other, hp⟩
    by_cases he : id = packet.id
    · exact ⟨packet, by rw [lookup, if_pos he]⟩
    · exact ⟨other, by rw [lookup, if_neg he, hp]⟩
  have delivered : pieces.take state.lastConsumedId.toNat ++ ready.map (·.payload)
      = pieces.take final.lastConsumedId.toNat := by
    rw [payloads, hc, take_add]
  refine ⟨⟨hs, ?_, ?_⟩, delivered, fun id held => (hh id held).drained drained, ?_⟩
  · have hl := congrArg length payloads
    simp only [length_map, length_take, length_drop] at hl
    have hr := h.received
    have hk : inserted.lastConsumedId = state.lastConsumedId := rfl
    rw [hk] at hc hl
    omega
  · intro id other hp
    rw [drained.kept] at hp
    split at hp
    · simp at hp
    · exact buffered id other hp
  · refine Holds.drained drained ⟨by omega, .inr ⟨packet, ?_⟩⟩
    rw [lookup, if_pos rfl]

end IncomingReliableState

end Zay.OpenVpn
