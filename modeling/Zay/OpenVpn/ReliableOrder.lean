import Zay.OpenVpn.ReliableWindow

/-! In-order delivery: whatever packets arrive, and whenever the next ones are asked for, the
packets handed out have the ids 1, 2, 3 and so on.
-/

namespace Zay.OpenVpn

open Lib OrderedMap List Option

inductive IncomingCall where
  | tryInsert (packet : Packet)
  | nextOrdered

/-- A receive window, the packet first accepted for each id and the packets handed out. -/
structure IncomingRun where
  state : IncomingReliableState := .new
  first : PacketId → Option Packet := fun _ => none
  delivered : List Packet := []

namespace IncomingRun

def step (run : IncomingRun) : IncomingCall → IncomingRun
  | .tryInsert packet =>
    let (inserted, state) := run.state.tryInsertIncomingPacket packet
    { run with
      state
      first := fun id =>
        (run.first id).or (if inserted ∧ id = packet.id then some packet else none) }
  | .nextOrdered =>
    let (ready, state) := run.state.nextOrderedSequence
    { run with state, delivered := run.delivered ++ ready }

def after (calls : List IncomingCall) : IncomingRun := calls.foldl step {}

structure InOrder (run : IncomingRun) : Prop where
  windowed : run.state.Windowed
  unmet
    : ∀ id : PacketId, run.state.lastConsumedId.toNat < id.toNat →
      run.state.pending.get? id = none → run.first id = none
  buffered
    : ∀ id packet, run.state.pending.get? id = some packet →
      packet.id = id ∧ run.first id = some packet
  consumed : run.state.lastConsumedId.toNat = run.delivered.length
  delivered
    : ∀ index packet, run.delivered[index]? = some packet →
      packet.id.toNat = index + 1 ∧ run.first packet.id = some packet

variable {run : IncomingRun} (h : run.InOrder)

include h

/-- An id in the window that is not buffered is met for the first time. -/
theorem InOrder.tryInsert (packet) : (run.step (.tryInsert packet)).InOrder := by
  rcases run.state.tryInsert_cases packet with he | ⟨ha, near, hno, inserted⟩
  · simpa [step, he] using h
  have hn := h.unmet packet.id ha hno
  have first (id) : (run.first id).or (if id = packet.id then some packet else none)
      = if id = packet.id then some packet else run.first id := by
    split <;> simp [*]
  simp only [step, inserted, true_and, first]
  refine { windowed := ?_, unmet := ?_, buffered := ?_, consumed := h.consumed, delivered := ?_ }
  · intro id other hp
    simp only [get?_insert] at hp
    split at hp
    next he => exact ⟨he ▸ ha, he ▸ near⟩
    · exact h.windowed id other hp
  · intro id ha hno
    simp only [get?_insert] at hno
    split at hno
    · simp at hno
    next hne => exact (if_neg hne).trans (h.unmet id ha hno)
  · intro id other hp
    dsimp only
    simp only [get?_insert] at hp
    split at hp
    next he =>
      cases hp
      exact ⟨he.symm, if_pos he⟩
    next hne =>
      rw [if_neg hne]
      exact h.buffered id other hp
  · intro index other hf
    obtain ⟨id, hf⟩ := h.delivered index other hf
    refine ⟨id, (if_neg fun he => ?_).trans hf⟩
    simp [he, hn] at hf

/-- The ids that are drained follow the last one that was consumed. -/
theorem InOrder.nextOrdered : (run.step .nextOrdered).InOrder := by
  obtain ⟨drained, hs⟩ := IncomingReliableState.settled_nextOrderedSequence h.windowed
  have consumed := drained.consumed
  refine {
    windowed := hs.windowed
    unmet := fun id ha hno => ?_
    buffered := fun id packet hp => ?_
    consumed := ?_
    delivered := ?_ }
  · rw [show (run.step .nextOrdered).state.pending.get? id = _ from drained.kept id,
      if_neg (by simp only [step] at ha; omega)] at hno
    exact h.unmet id (by simp only [step] at ha; omega) hno
  · rw [show (run.step .nextOrdered).state.pending.get? id = _ from drained.kept id] at hp
    split at hp
    · simp at hp
    · exact h.buffered id packet hp
  · rw [step, length_append, consumed, h.consumed]
  · intro index packet hf
    rw [step, getElem?_append] at hf
    split at hf
    · exact h.delivered index packet hf
    obtain ⟨id, position, hp⟩ := drained.ordered _ packet hf
    obtain ⟨rfl, first⟩ := h.buffered id packet hp
    exact ⟨by have := h.consumed; omega, first⟩

omit h

theorem inOrder_after (calls) : (after calls).InOrder := by
  have start : InOrder {} := {
    windowed := fun _ _ hp => by simp [IncomingReliableState.new] at hp
    unmet := by simp
    buffered := by simp [IncomingReliableState.new]
    consumed := rfl
    delivered := by simp }
  refine foldlRecOn calls _ start fun _ h call _ => ?_
  cases call with
  | tryInsert packet => exact h.tryInsert packet
  | nextOrdered => exact h.nextOrdered

end IncomingRun

open IncomingRun in
/-- Whatever is called, the packets handed out are the first ones accepted for the ids 1, 2, 3 and
so on, and the buffer holds at most twelve packets, of the twelve ids that come next.
-/
theorem incoming_in_order (calls : List IncomingCall)
    : (after calls).delivered.map (·.id.toNat) = range' 1 (after calls).delivered.length
      ∧ (∀ packet ∈ (after calls).delivered, (after calls).first packet.id = some packet)
      ∧ (after calls).state.lastConsumedId.toNat = (after calls).delivered.length
      ∧ (after calls).state.pending.len ≤ 12 ∧ (after calls).state.Windowed := by
  have h := inOrder_after calls
  refine ⟨ext_getElem (by simp) fun index hi _ => ?_, fun packet hm => ?_, h.consumed,
    h.windowed.len_le, h.windowed⟩
  · rw [length_map] at hi
    rw [getElem_map, getElem_range', (h.delivered index _ (getElem?_eq_getElem hi)).1]
    omega
  · obtain ⟨index, hf⟩ := mem_iff_getElem?.mp hm
    exact (h.delivered index packet hf).2

end Zay.OpenVpn
