import Zay.OpenVpn.ControlMux

/-! What the packets buffered for a key state do to its registration. They are replayed in
the order of arrival, and the first one that cannot be read ends the registration.
-/

namespace Zay.OpenVpn

open TlsControlChannelMuxCore ProtectedChannel List Function Except Bool

section

variable {P : Type} (decode : ControlDecoder P)

/-- Every packet in turn can be unwrapped and parsed. -/
def Readable : (protection : P) → (packets : List (List UInt8)) → Prop
  | _, [] => True
  | protection, raw :: packets =>
    (readLinkPacket decode protection raw).1.isOk
    ∧ Readable (readLinkPacket decode protection raw).2 packets

instance decidableReadable
    : (protection : P) → (packets : List (List UInt8)) →
      Decidable (Readable decode protection packets)
  | _, [] => isTrue trivial
  | protection, raw :: packets =>
    have := decidableReadable (readLinkPacket decode protection raw).2 packets
    inferInstanceAs (Decidable (_ ∧ _))

/-- What the readable packets deliver; the others are passed over. -/
def ProtectedChannel.replayReadable (channel : ProtectedChannel P)
    : (packets : List (List UInt8)) → List IncomingControlEvent × ProtectedChannel P
  | [] => ([], channel)
  | raw :: packets =>
    let ingested := channel.ingestLinkPacket decode raw
    let rest := ingested.2.replayReadable packets
    (ingested.1.toOption.getD [] ++ rest.1, rest.2)

/-- The packets that wait for `keyId` while it has no channel. -/
def waitsFor (keyId : UInt8) : List UInt8 → Bool
  | [] => false
  | header :: _ =>
    header &&& 0x07 = keyId && Opcode.fromWire (header >>> 3) ≠ .controlSoftResetV1

/-- The most recent of a list. -/
def latest {α : Type} (count : Nat) (list : List α) : List α :=
  list.drop (list.length - count)

variable (mux : TlsControlChannelMuxCore P) (raw : List UInt8) (packets : List (List UInt8))
  {keyId : UInt8}

theorem ProtectedChannel.readLinkPacket_of_ingest (channel : ProtectedChannel P)
    : (channel.ingestLinkPacket decode raw).1.isOk
        = (readLinkPacket decode channel.protection raw).1.isOk
      ∧ (channel.ingestLinkPacket decode raw).2.protection
        = (readLinkPacket decode channel.protection raw).2 := by
  unfold ingestLinkPacket
  rcases readLinkPacket decode channel.protection raw with ⟨_ | _, _⟩ <;>
    exact ⟨rfl, rfl⟩

/-- The replay gets through exactly when every packet can be read. -/
theorem ProtectedChannel.replay_eq_iff (channel : ProtectedChannel P)
    : channel.replay decode packets = .ok (channel.replayReadable decode packets)
      ↔ Readable decode channel.protection packets := by
  induction packets generalizing channel with
  | nil => simp [replay, replayReadable, Readable]
  | cons raw packets ih =>
    obtain ⟨reads, next⟩ := channel.readLinkPacket_of_ingest decode raw
    rw [Readable, ← reads, ← next, ← ih, replay, replayReadable]
    rcases channel.ingestLinkPacket decode raw with ⟨error | _, after⟩
    · simp [Except.toBool]
    cases played : after.replay decode packets with
    | error error => simp [bind, Except.bind, played]
    | ok _ =>
      simp [bind, Except.bind, played, Except.toOption, Except.toBool, Prod.ext_iff]

theorem latest_concat {α : Type} {count} (hpos : 0 < count) (list) (last : α)
    : latest count (list ++ [last])
      = (if count ≤ (latest count list).length then (latest count list).tail
          else latest count list) ++ [last] := by
  have length : (latest count list).length = min count list.length := by
    simp only [latest, length_drop]
    omega
  rw [length]
  unfold latest
  split
  · rw [tail_drop, length_append, length_singleton,
      show list.length + 1 - count = list.length - count + 1 by omega,
      drop_append_of_le_length (by omega)]
  rw [length_append, length_singleton,
    show list.length + 1 - count = 0 by omega, show list.length - count = 0 by omega]
  simp

namespace TlsControlChannelMuxCore

/-- A link packet is buffered, or it leaves the buffers alone. -/
theorem ingestLinkPacket_cases
    : (∃ keyId, mux.contains keyId = false ∧ waitsFor keyId raw
        ∧ (mux.ingestLinkPacket decode raw).2 = mux.buffer keyId raw)
      ∨ ((∀ keyId, mux.contains keyId = false → waitsFor keyId raw = false)
        ∧ (mux.ingestLinkPacket decode raw).2.pending = mux.pending
        ∧ ∀ keyId, (mux.ingestLinkPacket decode raw).2.contains keyId
          = mux.contains keyId) := by
  cases raw with
  | nil => exact .inr ⟨fun _ _ => rfl, rfl, fun _ => rfl⟩
  | cons header body =>
    simp only [ingestLinkPacket]
    split
    next hw =>
      simp only [and_eq_true, not_eq_true'] at hw
      exact .inl ⟨header &&& 0x07, hw.1, by simpa [waitsFor] using hw.2, rfl⟩
    next routes =>
      have passes : ∀ keyId, mux.contains keyId = false →
          waitsFor keyId (header :: body) = false := by
        intro keyId fresh
        by_contra hw
        simp only [waitsFor, not_eq_false, and_eq_true, decide_eq_true_eq] at hw
        obtain ⟨rfl, other⟩ := hw
        exact routes (by simpa [fresh] using other)
      refine .inr ⟨passes, ?_⟩
      generalize (if mux.contains (header &&& 0x07) then header &&& 0x07
        else mux.primaryKeyId) = routed
      split
      · exact ⟨rfl, fun _ => rfl⟩
      next channel hf =>
        refine ⟨rfl, fun keyId => ?_⟩
        simp only [contains, update_apply]
        split
        next he =>
          rw [he, hf]
          rfl
        · rfl

theorem waitsFor_unique {left right raw} (hl : waitsFor left raw) (hr : waitsFor right raw)
    : left = right := by
  cases raw with
  | nil => simp [waitsFor] at hl
  | cons _ _ =>
    simp only [waitsFor, and_eq_true, decide_eq_true_eq] at hl hr
    rw [← hl.1, ← hr.1]

/-- While a key state has no channel, its most recent packets are kept in order. -/
theorem buffered_ingestAll (fresh : mux.contains keyId = false) (empty : mux.buffered keyId = [])
    : (mux.ingestAll decode packets).contains keyId = false
      ∧ (mux.ingestAll decode packets).buffered keyId
        = latest maximumPendingPacketsPerKeyState (packets.filter (waitsFor keyId)) := by
  induction packets using reverseRecOn with
  | nil => exact ⟨fresh, by simp [ingestAll, empty, latest]⟩
  | append_singleton packets raw ih =>
    obtain ⟨still, hk⟩ := ih
    have last : mux.ingestAll decode (packets ++ [raw])
        = ((mux.ingestAll decode packets).ingestLinkPacket decode raw).2 := by
      simp [ingestAll]
    rw [last, filter_append]
    rcases (mux.ingestAll decode packets).ingestLinkPacket_cases decode raw with
      ⟨other, -, waits, next⟩ | ⟨passes, next, he⟩
    · rw [next]
      refine ⟨still, ?_⟩
      unfold buffered at hk
      simp only [buffer, buffered, update_apply]
      split
      next he =>
        subst he
        rw [filter_cons_of_pos waits, filter_nil, latest_concat (by decide), ← hk]
        rfl
      next hne =>
        rw [filter_cons_of_neg fun mine => hne (waitsFor_unique mine waits), hk]
        simp
    · rw [filter_cons_of_neg (by simp [passes keyId still])]
      simp only [buffered, next, filter_nil, append_nil] at hk ⊢
      exact ⟨(he keyId).trans still, hk⟩

theorem no_other_keyId {initialSoftReset : Option Packet}
    (reset : ∀ packet ∈ initialSoftReset, packet.keyId = keyId)
    : initialSoftReset.any (·.keyId ≠ keyId) = false := by
  cases initialSoftReset with
  | none => rfl
  | some packet => simpa using reset packet rfl

section Register

variable {channel : ProtectedChannel P} {initialSoftReset : Option Packet}
  (nonzero : channel.core.session.keyId ≠ 0)
  (fresh : mux.contains channel.core.session.keyId = false)
  (reset : ∀ packet ∈ initialSoftReset, packet.keyId = channel.core.session.keyId)

include nonzero fresh reset

theorem register_of_replay {events seeded}
    (played : (initialSoftReset.elim channel channel.seedIncomingPacket).replay decode
      (mux.buffered channel.core.session.keyId) = .ok (events, seeded))
    : ∃ next, mux.registerRenegotiationChannel decode channel initialSoftReset
        = (.ok events, next)
      ∧ next.channels channel.core.session.keyId = some seeded := by
  have matching := no_other_keyId reset
  simp only [registerRenegotiationChannel, if_neg nonzero, fresh, matching, played,
    false_eq_true, if_false]
  exact ⟨_, rfl, update_self _ _ _⟩

end Register

end TlsControlChannelMuxCore

/-- Whatever link packets came before, the registration of a fresh key state succeeds and
delivers what the readable buffered packets carry, in order, exactly when each of the most
recent packets that announced it can be unwrapped and parsed in turn.
-/
theorem controlMux_registers_iff_readable (primary channel : ProtectedChannel P)
    (packets : List (List UInt8)) (initialSoftReset : Option Packet)
    (nonzero : channel.core.session.keyId ≠ 0)
    (fresh : (new primary).contains channel.core.session.keyId = false)
    (reset : ∀ packet ∈ initialSoftReset, packet.keyId = channel.core.session.keyId)
    : let mux := (new primary).ingestAll decode packets
      let delivered :=
        (initialSoftReset.elim channel channel.seedIncomingPacket).replayReadable decode
          (mux.buffered channel.core.session.keyId)
      (∃ next, mux.registerRenegotiationChannel decode channel initialSoftReset
          = (.ok delivered.1, next)
        ∧ next.channels channel.core.session.keyId = some delivered.2)
      ↔ Readable decode channel.protection (latest maximumPendingPacketsPerKeyState
          (packets.filter (waitsFor channel.core.session.keyId))) := by
  intro mux delivered
  obtain ⟨still, kept⟩ := (new primary).buffered_ingestAll decode packets fresh rfl
  have seeded : (initialSoftReset.elim channel channel.seedIncomingPacket).protection
      = channel.protection := by
    cases initialSoftReset with
    | none => rfl
    | some packet =>
      show (channel.seedIncomingPacket packet).protection = _
      unfold seedIncomingPacket
      split <;> rfl
  rw [← seeded, ← kept, ← replay_eq_iff]
  constructor
  · rintro ⟨next, registered, found⟩
    cases played : (initialSoftReset.elim channel channel.seedIncomingPacket).replay decode
        (mux.buffered channel.core.session.keyId) with
    | error error =>
      have matching := no_other_keyId reset
      simp only [registerRenegotiationChannel, if_neg nonzero, matching, played,
        false_eq_true, if_false] at registered
      split at registered <;> cases registered
    | ok _ =>
      obtain ⟨_, registered', found'⟩ :=
        mux.register_of_replay decode nonzero still reset played
      obtain ⟨sameEvents, rfl⟩ := Prod.mk.inj (registered.symm.trans registered')
      have sameChannel := Option.some.inj (found.symm.trans found')
      exact congrArg ok (Prod.ext (ok.inj sameEvents).symm sameChannel.symm)
  · intro played
    exact mux.register_of_replay decode nonzero still reset played

end

/-- A soft-reset channel of key id 1, as the tests of the source build it. -/
def softResetChannel (keyId : UInt8) : ProtectedChannel Unit where
  core := .new
    (((SessionManager.withLocalId (Vector.replicate 8 1)).setRemoteSessionId
      (Vector.replicate 8 2)).renegotiation keyId) false
  protection := ()

/-- The first control packet of key id 1 arrives before its channel. -/
def earlyControlPacket : List UInt8 :=
  [0x21] ++ replicate 8 2 ++ [0] ++ [0, 0, 0, 1] ++ [0x74]

theorem controlMux_registers_buffered
    : (softResetChannel 1).core.session.keyId ≠ 0
      ∧ let mux := (new (softResetChannel 0)).ingestAll unprotected
          [earlyControlPacket]
        ∃ next, mux.registerRenegotiationChannel unprotected (softResetChannel 1) none
          = (.ok [.tlsCiphertext [0x74]], next) := by
  refine ⟨by decide, ?_⟩
  obtain ⟨next, registered, -⟩ := (controlMux_registers_iff_readable unprotected
    (softResetChannel 0) (softResetChannel 1) [earlyControlPacket] none (by decide) (by decide)
    (by simp)).mpr (by decide +kernel)
  refine ⟨next, registered.trans (Prod.ext (congrArg ok ?_) rfl)⟩
  decide +kernel

/-- One byte that announces key id 1 is buffered, and its replay ends the registration. -/
theorem controlMux_loses_channel
    : let mux := (new (softResetChannel 0)).ingestAll unprotected
        [[0x21]]
      let registered := mux.registerRenegotiationChannel unprotected (softResetChannel 1) none
      registered.1
        = .error (.channel (.protection "invalid OpenVPN control packet"))
      ∧ registered.2.contains 1 = false
      ∧ registered.2.buffered 1 = [] := by
  decide +kernel

end Zay.OpenVpn
