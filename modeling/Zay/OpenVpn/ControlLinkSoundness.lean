import Zay.Lib.Checks
import Zay.Lib.Runs
import Zay.OpenVpn.ControlLink

/-! Acknowledgments on a lossy control link: the invariant of one endpoint against its peer,
each step's effect on it, and the exact condition under which it survives a run.
-/

namespace Zay.OpenVpn

open Lib TlsControlChannelCore ControlLink OrderedMap List Option Except

variable {packet : Packet} {core : TlsControlChannelCore} {raw : List UInt8}
  {own next peer : Endpoint} {link : ControlLink} (now : Instant) (ciphertext : List UInt8)

theorem eq_ok_of_mapError {ε δ α : Type} {result : Except ε α} {convert : ε → δ} {value : α}
    (h : result.mapError convert = .ok value)
    : result = .ok value := by
  cases result with
  | error error => cases h
  | ok _ => exact congrArg _ (ok.inj h)

namespace TlsControlChannelCore

/-- The parts of a core that sending leaves alone, and the acknowledgments it may drop from
the pending set.
-/
structure SentFrom (core next : TlsControlChannelCore) : Prop where
  incoming : next.incoming = core.incoming
  pending
    : ∀ id ∈ next.outgoing.pendingAcknowledgments.keys,
      id ∈ core.outgoing.pendingAcknowledgments.keys

/-- Moreover, the same packets are in flight. -/
structure Resends (core next : TlsControlChannelCore) : Prop
    extends core.SentFrom next where
  session : next.session = core.session
  flight : ∀ id, (next.outgoing.inFlight.get? id).map (·.packet)
    = (core.outgoing.inFlight.get? id).map (·.packet)

theorem consumable_pos (core : TlsControlChannelCore) {ciphertext} (hnil : ciphertext ≠ [])
    : 0 < core.consumable ciphertext := by
  have length := length_pos_iff.mpr hnil
  have overhead : core.controlChannelFrameOverhead core.outgoing.pendingAcknowledgments.len
      ≤ 86 := by
    simp only [controlChannelFrameOverhead, acknowledgmentArrayLength,
      maximumAcknowledgmentsPerPacket, ipv4ControlDatagramOverhead,
      ipv6ControlDatagramOverhead]
    grind
  simp only [consumable, tlsControlPayloadSize, tlsControlChannelMtu]
  omega

theorem createControlPacket_ok {payload ids session}
    (h : core.createControlPacket payload ids = .ok (packet, session))
    : packet.opcode = .controlV1
      ∧ packet.id = core.session.localControlPacketId
      ∧ packet.payload = payload
      ∧ packet.acknowledgmentIds = ids
      ∧ session.localControlPacketId.toNat = core.session.localControlPacketId.toNat + 1 := by
  unfold createControlPacket SessionManager.newControlPacket at h
  split at h
  · simp [Except.map] at h
  split at h
  · simp [Except.map] at h
  next hn =>
    obtain ⟨rfl, rfl⟩ := h
    refine ⟨rfl, rfl, rfl, rfl, ?_⟩
    have hle := core.session.localControlPacketId.toNat_lt
    have hb : core.session.localControlPacketId.toNat ≠ 0xFFFFFFFF :=
      fun last => hn (UInt32.toNat_inj.mp last)
    exact Nat.mod_eq_of_lt (by simp; omega)

/-- A control packet as `packetize_tls_ciphertext` builds it. -/
structure Packetized (core : TlsControlChannelCore)
    (ciphertext : List UInt8) (packet : Packet) (count : Nat) : Prop where
  opcode : packet.opcode = .controlV1
  id : packet.id = core.session.localControlPacketId
  payload : packet.payload = ciphertext.take count
  nonempty : packet.payload ≠ []
  few : packet.acknowledgmentIds.length ≤ maximumAcknowledgmentsPerPacket
  acknowledgments
    : ∀ id ∈ packet.acknowledgmentIds,
      id ∈ core.outgoing.pendingAcknowledgments.keys

/-- What `packets_ready_to_send` may put on the link: a packet in flight, or a standalone
acknowledgment of pending ids.
-/
def Emits (core : TlsControlChannelCore) (packet : Packet) : Prop :=
  (∃ id, (core.outgoing.inFlight.get? id).map (·.packet) = some packet)
  ∨ (packet.opcode = .acknowledgmentV1
    ∧ packet.acknowledgmentIds.length ≤ acknowledgmentSetCapacity
    ∧ ∀ id ∈ packet.acknowledgmentIds, id ∈ core.outgoing.pendingAcknowledgments.keys)

section

variable (core)

/-- `packetize_tls_ciphertext` either puts nothing in flight or sends one new packet. -/
theorem packetize_cases
    : (∃ result next,
        core.packetizeTlsCiphertext ciphertext = (result, next)
        ∧ (∀ made, result ≠ .ok (some made))
        ∧ core.Resends next)
      ∨ ∃ packet raw count next,
        core.packetizeTlsCiphertext ciphertext = (.ok (some (raw, count)), next)
        ∧ packet.encode = .ok raw
        ∧ core.Packetized ciphertext packet count
        ∧ core.SentFrom next
        ∧ next.session.localControlPacketId.toNat
          = core.session.localControlPacketId.toNat + 1
        ∧ next.outgoing.inFlight = core.outgoing.inFlight.insert packet.id (.new packet) := by
  by_cases empty : ciphertext = []
  · refine .inl ⟨.ok none, core, by simp [packetizeTlsCiphertext, empty], by simp,
      ⟨rfl, fun _ hm => hm⟩, rfl, fun _ => rfl⟩
  have hpos := core.consumable_pos empty
  rcases core.outgoing.insertOutgoingPacket_cases maximumAcknowledgmentsPerPacket
      (core.createControlPacket (ciphertext.take (core.consumable ciphertext))) with
    ⟨result, outgoing, inserted, unmade, flight, pending⟩
    | ⟨ids, packet, session, outgoing, hc, inserted, few, known, flight, pending⟩
  · have hk : core.Resends { core with outgoing } :=
      ⟨⟨rfl, pending⟩, rfl, fun _ => by rw [flight]⟩
    rcases result with error | _ | made
    · refine .inl ⟨.error (.session error), { core with outgoing }, ?_, by simp, hk⟩
      simp [packetizeTlsCiphertext, empty, inserted]
    · refine .inl ⟨.ok none, { core with outgoing }, ?_, by simp, hk⟩
      simp [packetizeTlsCiphertext, empty, inserted]
    · exact absurd rfl (unmade made)
  · obtain ⟨opcode, id, payload, acknowledged, next⟩ := createControlPacket_ok hc
    have hs : packet.acknowledgmentIds.length ≤ 255 := by
      rw [acknowledged]
      exact le_trans few (by decide)
    obtain ⟨raw, encoded, hl⟩ : ∃ raw, packet.encode = .ok raw
        ∧ encodeLinkPacket packet = .ok raw := by
      simp [encodeLinkPacket, Packet.encode, opcode, Opcode.isControl, hs, Except.mapError]
    refine .inr ⟨packet, raw, core.consumable ciphertext, { core with outgoing, session }, ?_,
      encoded, ?_, ⟨rfl, pending⟩, next, flight⟩
    · simp [packetizeTlsCiphertext, empty, inserted, hl, Except.map]
    · refine ⟨opcode, id, payload, ?_, acknowledged ▸ few, acknowledged ▸ known⟩
      rw [payload]
      simp only [ne_eq, take_eq_nil_iff, empty, or_false]
      omega

/-- A standalone acknowledgment takes its ids from the pending set and nothing else. -/
theorem newAcknowledgmentPacket_cases
    : core.Resends core.newAcknowledgmentPacket.2
      ∧ ∀ raw, core.newAcknowledgmentPacket.1 = .ok raw →
        ∃ packet, packet.encode = .ok raw ∧ core.Emits packet := by
  let ids := (core.outgoing.takeAcknowledgmentIds acknowledgmentSetCapacity).1
  have hk : core.Resends { core with
      outgoing := (core.outgoing.takeAcknowledgmentIds acknowledgmentSetCapacity).2 } :=
    ⟨⟨rfl, fun _ => OutgoingReliableState.keys_takeAcknowledgmentIds⟩, rfl, fun _ => rfl⟩
  simp only [newAcknowledgmentPacket]
  split
  · exact ⟨hk, by simp⟩
  split
  · refine ⟨⟨⟨rfl, fun id hm => ?_⟩, rfl, fun _ => rfl⟩, by simp⟩
    rcases keys_returnAcknowledgments hm with still | hr
    · exact OutgoingReliableState.keys_takeAcknowledgmentIds still
    · exact OutgoingReliableState.mem_takeAcknowledgmentIds hr
  next packet made =>
    refine ⟨hk, fun raw encoded => ?_⟩
    refine ⟨packet, eq_ok_of_mapError encoded, .inr ?_⟩
    have fields : packet.opcode = .acknowledgmentV1 ∧ packet.acknowledgmentIds = ids := by
      unfold SessionManager.newAcknowledgmentPacket at made
      split at made
      · simp at made
      obtain rfl := ok.inj made
      exact ⟨rfl, rfl⟩
    refine ⟨fields.1, ?_, ?_⟩
    · rw [fields.2]
      exact OutgoingReliableState.length_takeAcknowledgmentIds _ _
    · rw [fields.2]
      exact fun id => OutgoingReliableState.mem_takeAcknowledgmentIds

theorem flush_cases
    : core.Resends (core.packetsReadyToSend now).2
      ∧ ∀ raws, (core.packetsReadyToSend now).1 = .ok raws → ∀ raw ∈ raws,
        ∃ packet, packet.encode = .ok raw ∧ core.Emits packet := by
  let scheduled : TlsControlChannelCore :=
    { core with outgoing := (core.outgoing.packetsReadyToSend now).2 }
  have hk (tracked : InFlightPacket)
      : (if tracked.ready now then tracked.schedule now else tracked).packet
        = tracked.packet := by
    split <;> rfl
  have flight : ∀ id, (scheduled.outgoing.inFlight.get? id).map (·.packet)
      = (core.outgoing.inFlight.get? id).map (·.packet) := by
    simp [scheduled, OutgoingReliableState.packetsReadyToSend, Function.comp_def, hk]
  have hr : ∀ raws, (core.outgoing.packetsReadyToSend now).1.mapM encodeLinkPacket = .ok raws →
      ∀ raw ∈ raws, ∃ packet, packet.encode = .ok raw ∧ core.Emits packet := by
    intro raws encoded raw hm
    obtain ⟨packet, ready, wire⟩ := mem_of_mapM encoded hm
    simp only [OutgoingReliableState.packetsReadyToSend, List.mem_map, mem_filter, values] at ready
    obtain ⟨tracked, ⟨⟨entry, hl, rfl⟩, _⟩, rfl⟩ := ready
    exact ⟨_, eq_ok_of_mapError wire, .inl ⟨entry.1, by rw [get?_eq_some_iff.mpr hl]; rfl⟩⟩
  have hk : core.Resends scheduled := ⟨⟨rfl, fun _ hm => hm⟩, rfl, flight⟩
  obtain ⟨sent, acknowledged⟩ := scheduled.newAcknowledgmentPacket_cases
  have both : core.Resends scheduled.newAcknowledgmentPacket.2 :=
    ⟨⟨sent.incoming, sent.pending⟩, sent.session, fun id => (sent.flight id).trans (flight id)⟩
  have acknowledges : ∀ packet, scheduled.Emits packet → core.Emits packet := by
    rintro packet (⟨id, inFlight⟩ | standalone)
    · exact .inl ⟨id, (flight id).symm.trans inFlight⟩
    · exact .inr standalone
  simp only [packetsReadyToSend]
  split
  · exact ⟨hk, by simp⟩
  next raws encoded =>
    split
    · split
      next raw made =>
        refine ⟨both, fun all he => ?_⟩
        obtain rfl := ok.inj he
        obtain ⟨packet, wire, emitted⟩ := acknowledged _ made
        exact forall_mem_append.mpr ⟨hr raws encoded,
          forall_mem_singleton.mpr ⟨packet, wire, acknowledges packet emitted⟩⟩
      · exact ⟨both, fun all he => ok.inj he ▸ hr raws encoded⟩
      · exact ⟨both, by simp⟩
    · exact ⟨hk, fun all he => ok.inj he ▸ hr raws encoded⟩

end

theorem parse_of_decodeLinkPacket (h : decodeLinkPacket raw = .ok packet)
    : Packet.parse raw = .ok packet := by
  have unprotected {bytes : List UInt8} (h : decodeUnprotected raw = .ok bytes)
      : bytes = raw := by
    unfold decodeUnprotected at h
    split at h
    · simp at h
    · split at h <;> simp_all
  cases raw with
  | nil => simp [decodeLinkPacket] at h
  | cons header body =>
    simp only [decodeLinkPacket, bind, Except.bind] at h
    split at h
    · cases hd : decodeUnprotected (header :: body) with
      | error error => simp [hd] at h
      | ok bytes =>
        simp only [hd] at h
        rw [← unprotected hd]
        exact eq_ok_of_mapError h
    · exact eq_ok_of_mapError h

/-- Packets of the two kinds that the cores exchange reach the reliability layer exactly
when their session ids and key id match.
-/
theorem receivePacket_reliable
    (reliable : packet.opcode = .controlV1 ∨ packet.opcode = .acknowledgmentV1)
    : core.receivePacket packet
      = if core.admits packet then core.receiveReliable packet else ([], core) := by
  have kind : packet.opcode.isData = false ∧ isTlsHardResetOpcode packet.opcode = false
      ∧ packet.opcode ≠ .controlSoftResetV1 := by
    rcases reliable with opcode | opcode <;> rw [opcode] <;> decide
  obtain ⟨notData, notHard, notSoft⟩ := kind
  simp only [receivePacket, notData, notHard, notSoft, admits, Bool.false_eq_true, if_false]
  by_cases remote : core.session.validateIncomingRemoteSessionId packet <;>
    by_cases own : core.session.validateIncomingLocalSessionId packet <;>
      by_cases key : packet.keyId = core.session.keyId <;> simp [remote, own, key]

/-- A packet that the receive window refuses changes only the sending side. -/
theorem receiveReliable_refused
    (hr : core.incoming.tryInsertIncomingPacket packet = (false, core.incoming))
    : core.receiveReliable packet
      = ([], { core with outgoing := core.outgoing.onIncomingPacket packet }) := by
  simp [receiveReliable, hr]

end TlsControlChannelCore

theorem filterMap_tlsPayload {ready : List Packet} (hnil : ∀ packet ∈ ready, packet.payload ≠ [])
    : ((ready.filter (!·.payload.isEmpty)).map
        (IncomingControlEvent.tlsCiphertext ·.payload)).filterMap tlsPayload?
      = ready.map (·.payload) := by
  induction ready with
  | nil => rfl
  | cons packet ready ih =>
    have first := hnil packet mem_cons_self
    have rest := ih fun other hm => hnil other (mem_cons_of_mem _ hm)
    simp [first, tlsPayload?, rest]

theorem getElem?_of_isPrefix {α : Type} {left right} (h : left <+: right) {index : Nat} {value : α}
    (hf : left[index]? = some value)
    : right[index]? = some value := by
  obtain ⟨_, rfl⟩ := h
  exact List.getElem?_append_left (List.getElem?_eq_some_iff.mp hf).1 ▸ hf

namespace Endpoint

abbrev Holds (own : Endpoint) (id : PacketId) : Prop :=
  own.core.incoming.Holds id

/-- What is true of every packet an endpoint has produced. -/
structure Produced (own : Endpoint) (packet : Packet) : Prop where
  kind
    : (packet.opcode = .controlV1 ∧ 0 < packet.id.toNat
        ∧ own.consumed[packet.id.toNat - 1]? = some packet.payload)
      ∨ packet.opcode = .acknowledgmentV1
  few : packet.acknowledgmentIds.length ≤ 8
  held : ∀ id ∈ packet.acknowledgmentIds, own.Holds id

/-- The later state of an endpoint has packetized at least as much and still holds what it
held.
-/
structure Extends (own next : Endpoint) : Prop where
  consumed : own.consumed <+: next.consumed
  holds : ∀ id, own.Holds id → next.Holds id

theorem Produced.mono (h : own.Produced packet) (hg : own.Extends next)
    : next.Produced packet where
  kind := by
    refine h.kind.imp_left ?_
    rintro ⟨opcode, hpos, piece⟩
    exact ⟨opcode, hpos, getElem?_of_isPrefix hg.consumed piece⟩
  few := h.few
  held := fun id hm => hg.holds id (h.held id hm)

structure Valid (own peer : Endpoint) : Prop where
  nextId : own.core.session.localControlPacketId.toNat = own.consumed.length + 1
  pieces : ∀ piece ∈ own.consumed, piece ≠ []
  sent : ∀ raw ∈ own.sent, ∃ packet, packet.encode = .ok raw ∧ own.Produced packet
  inFlight
    : ∀ id packet, (own.core.outgoing.inFlight.get? id).map (·.packet) = some packet →
      own.Produced packet ∧ packet.opcode = .controlV1 ∧ packet.id = id
  pending : ∀ id ∈ own.core.outgoing.pendingAcknowledgments.keys, own.Holds id
  incoming : own.core.incoming.Follows peer.consumed
  delivered
    : own.delivered = peer.consumed.take own.core.incoming.lastConsumedId.toNat
  covered
    : ∀ id : PacketId, 0 < id.toNat → id.toNat ≤ own.consumed.length →
      (∃ tracked, own.core.outgoing.inFlight.get? id = some tracked) ∨ peer.Holds id

--------
-- Sending keeps the invariant
--------

/-- Sending changes neither what is held nor what has been delivered. -/
theorem Extends.of_sentFrom (sentFrom : own.core.SentFrom next.core)
    (consumed : own.consumed <+: next.consumed)
    : own.Extends next where
  consumed := consumed
  holds := by
    intro id held
    unfold Holds at held ⊢
    rwa [sentFrom.incoming]

namespace Valid

variable (h : own.Valid peer)
include h

/-- A step that produces packets from valid state, and only sends, keeps the endpoint valid. -/
theorem of_sentFrom (sentFrom : own.core.SentFrom next.core) (hg : own.Extends next)
    (delivered : next.delivered = own.delivered)
    (nextId : next.core.session.localControlPacketId.toNat = next.consumed.length + 1)
    (pieces : ∀ piece ∈ next.consumed, piece ≠ []) (sent : ∀ raw ∈ next.sent,
      raw ∈ own.sent ∨ ∃ packet, packet.encode = .ok raw ∧ next.Produced packet)
    (inFlight : ∀ id packet,
      (next.core.outgoing.inFlight.get? id).map (·.packet) = some packet →
      next.Produced packet ∧ packet.opcode = .controlV1 ∧ packet.id = id)
    (covered : ∀ id, 0 < id.toNat → id.toNat ≤ next.consumed.length →
      (∃ tracked, next.core.outgoing.inFlight.get? id = some tracked) ∨ peer.Holds id)
    : next.Valid peer where
  nextId := nextId
  pieces := pieces
  sent := by
    intro raw hm
    rcases sent raw hm with he | hp
    · obtain ⟨packet, encoded, hp⟩ := h.sent raw he
      exact ⟨packet, encoded, hp.mono hg⟩
    · exact hp
  inFlight := inFlight
  pending := fun id hm => hg.holds id (h.pending id (sentFrom.pending id hm))
  incoming := sentFrom.incoming ▸ h.incoming
  delivered := by rw [delivered, h.delivered, sentFrom.incoming]
  covered := covered

/-- Packets in flight and pending acknowledgments may be sent at any time. -/
theorem resend (kept : own.core.Resends core) {raws}
    (hn : ∀ raw ∈ raws, ∃ packet, packet.encode = .ok raw ∧ own.core.Emits packet)
    (resent : next = { own with core, sent := own.sent ++ raws })
    : next.Valid peer ∧ own.Extends next := by
  subst resent
  have hg : own.Extends { own with core, sent := own.sent ++ raws } :=
    .of_sentFrom kept.toSentFrom prefix_rfl
  have produced (packet : Packet) (emits : own.core.Emits packet) : own.Produced packet := by
    rcases emits with ⟨id, inFlight⟩ | ⟨opcode, few, hk⟩
    · exact (h.inFlight id packet inFlight).1
    · exact ⟨.inr opcode, few, fun id hm => h.pending id (hk id hm)⟩
  refine ⟨h.of_sentFrom kept.toSentFrom hg rfl (kept.session ▸ h.nextId) h.pieces ?_ ?_ ?_, hg⟩
  · intro raw hm
    refine (mem_append.mp hm).imp_right fun sent => ?_
    obtain ⟨packet, encoded, emits⟩ := hn raw sent
    exact ⟨packet, encoded, (produced packet emits).mono hg⟩
  · intro id packet hf
    obtain ⟨made, rest⟩ := h.inFlight id packet ((kept.flight id).symm.trans hf)
    exact ⟨made.mono hg, rest⟩
  · intro id hpos hb
    refine (h.covered id hpos hb).imp_left ?_
    rintro ⟨tracked, hp⟩
    obtain ⟨rescheduled, hf, _⟩ :=
      map_eq_some_iff.mp ((kept.flight id).trans (congrArg _ hp))
    exact ⟨rescheduled, hf⟩

theorem packetize
    : (own.packetize ciphertext).Valid peer ∧ own.Extends (own.packetize ciphertext) := by
  rcases own.core.packetize_cases ciphertext with
    ⟨result, next, made, unmade, kept⟩
    | ⟨packet, raw, count, next, made, encoded, packetized, sentFrom, nextId, flight⟩
  · have state : own.packetize ciphertext = { own with core := next } := by
      unfold Endpoint.packetize
      rw [made]
      split
      next he =>
        exact absurd (congrArg Prod.fst he) (unmade _)
      next he =>
        rw [(Prod.mk.inj he).2]
    exact h.resend kept (forall_mem_nil _) (by rw [state, append_nil])
  · have state : own.packetize ciphertext = { own with
        core := next
        sent := own.sent ++ [raw]
        consumed := own.consumed ++ [packet.payload] } := by
      simp [Endpoint.packetize, made, packetized.payload]
    generalize own.packetize ciphertext = after at state
    have hg : own.Extends after := by
      rw [state]
      exact .of_sentFrom sentFrom (prefix_append _ _)
    have position : packet.id.toNat = own.consumed.length + 1 := by
      rw [packetized.id, h.nextId]
    have hp : after.Produced packet := by
      refine ⟨.inl ⟨packetized.opcode, by omega, by simp [state, position]⟩,
        le_trans packetized.few (by decide), fun id hm => ?_⟩
      exact hg.holds id (h.pending id (packetized.acknowledgments id hm))
    subst state
    refine ⟨h.of_sentFrom sentFrom hg rfl ?_ ?_ ?_ ?_ ?_, hg⟩
    · simp [nextId, h.nextId]
    · exact forall_mem_append.mpr ⟨h.pieces, forall_mem_singleton.mpr packetized.nonempty⟩
    · intro other hm
      rcases mem_append.mp hm with earlier | last
      · exact .inl earlier
      · exact .inr ⟨packet, mem_singleton.mp last ▸ encoded, hp⟩
    · intro id other hf
      simp only [flight, get?_insert] at hf
      split at hf
      next he =>
        obtain rfl : packet = other := by simpa [InFlightPacket.new] using hf
        exact ⟨hp, packetized.opcode, he.symm⟩
      obtain ⟨earlier, rest⟩ := h.inFlight id other hf
      exact ⟨earlier.mono hg, rest⟩
    · intro id hpos hb
      simp only [flight, get?_insert]
      by_cases he : id = packet.id
      · exact .inl ⟨.new packet, by simp [he]⟩
      have earlier : id.toNat ≤ own.consumed.length := by
        have ha : id.toNat ≠ packet.id.toNat := fun eq => he (UInt32.toNat_inj.mp eq)
        simp only [length_append, length_singleton] at hb
        omega
      simpa [he] using h.covered id hpos earlier

theorem flush : (own.flush now).Valid peer ∧ own.Extends (own.flush now) := by
  obtain ⟨hk, emitted⟩ := own.core.flush_cases now
  obtain ⟨raws, state, hn⟩ : ∃ raws, own.flush now
        = { own with core := (own.core.packetsReadyToSend now).2, sent := own.sent ++ raws }
      ∧ ∀ raw ∈ raws, ∃ packet, packet.encode = .ok raw ∧ own.core.Emits packet := by
    unfold Endpoint.flush
    split
    next sending =>
      rw [sending] at emitted ⊢
      exact ⟨_, rfl, emitted _ rfl⟩
    next sending =>
      exact ⟨[], by simp [sending], nofun⟩
  exact h.resend hk hn state

end Valid

--------
-- Receiving keeps the invariant
--------

/-- The wire format loses nothing that matters of a produced packet. -/
theorem Produced.onWire (h : own.Produced packet) : own.Produced packet.onWire := by
  have acknowledgments : packet.onWire.acknowledgmentIds = packet.acknowledgmentIds := by
    rcases h.kind with ⟨opcode, -⟩ | opcode <;> simp [Packet.onWire, opcode, Opcode.isControl]
  refine ⟨h.kind.imp_left ?_, acknowledgments ▸ h.few, acknowledgments ▸ h.held⟩
  rintro ⟨opcode, hpos, piece⟩
  have id : packet.onWire.id = packet.id := by
    simp [Packet.onWire, opcode, Opcode.isControl]
  exact ⟨opcode, id ▸ hpos, id ▸ piece⟩

theorem Produced.parse (h : own.Produced packet) (encoded : packet.encode = .ok raw)
    : Packet.parse raw = .ok packet.onWire := by
  refine parse_encode ?_ encoded
  rcases h.kind with ⟨opcode, -⟩ | opcode <;> rw [opcode] <;> decide

theorem Valid.decoded (h : own.Valid peer) (hm : raw ∈ own.sent)
    (hd : decodeLinkPacket raw = .ok packet)
    : own.Produced packet := by
  obtain ⟨_, encoded, produced⟩ := h.sent raw hm
  have hp := parse_of_decodeLinkPacket hd
  rw [produced.parse encoded] at hp
  exact ok.inj hp ▸ produced.onWire

/-- The effect of an admitted packet on a valid endpoint, once the receive window is known
to follow the peer's stream.
-/
theorem Valid.of_received (h : own.Valid peer) (produced : peer.Produced packet) {incoming}
    (follows : incoming.Follows peer.consumed) (hh : ∀ id, own.Holds id → incoming.Holds id)
    (acknowledged : packet.opcode ≠ .acknowledgmentV1 →
      own.core.outgoing.pendingAcknowledgments.len < acknowledgmentSetCapacity →
      incoming.Holds packet.id) {delivered}
    (stream : delivered = peer.consumed.take incoming.lastConsumedId.toNat)
    (received : next = { own with
      core := { own.core with outgoing := own.core.outgoing.onIncomingPacket packet, incoming }
      delivered })
    : next.Valid peer ∧ own.Extends next := by
  have hg : own.Extends next := by
    rw [received]
    exact ⟨prefix_rfl, hh⟩
  have flight := get?_foldl_acknowledge own.core.outgoing.inFlight packet.acknowledgmentIds
  refine ⟨?_, hg⟩
  subst received
  exact {
    nextId := h.nextId
    pieces := h.pieces
    sent := by
      intro raw hm
      obtain ⟨earlier, encoded, made⟩ := h.sent raw hm
      exact ⟨earlier, encoded, made.mono hg⟩
    inFlight := by
      intro id other hf
      simp only [OutgoingReliableState.onIncomingPacket, flight] at hf
      split at hf
      · simp at hf
      obtain ⟨made, rest⟩ := h.inFlight id other hf
      exact ⟨made.mono hg, rest⟩
    pending := by
      intro id hm
      rcases OutgoingReliableState.keys_onIncomingPacket hm with
        earlier | ⟨rfl, control, room⟩
      · exact hh id (h.pending id earlier)
      · exact acknowledged control room
    incoming := follows
    delivered := stream
    covered := by
      intro id hpos hb
      -- An id leaves the flight only when the peer has acknowledged it.
      by_cases hm : id ∈ packet.acknowledgmentIds
      · exact .inr (produced.held id hm)
      refine (h.covered id hpos hb).imp_left ?_
      rintro ⟨tracked, hp⟩
      have hk := flight id
      rw [if_neg hm, hp] at hk
      obtain ⟨later, hf, _⟩ := map_eq_some_iff.mp hk
      exact ⟨later, hf⟩
  }

theorem ingest_admitted (hd : decodeLinkPacket raw = .ok packet)
    (reliable : packet.opcode = .controlV1 ∨ packet.opcode = .acknowledgmentV1)
    (ha : own.core.admits packet)
    : own.ingest raw = { own with
        core := (own.core.receiveReliable packet).2
        delivered := own.delivered
          ++ (own.core.receiveReliable packet).1.filterMap tlsPayload? } := by
  simp [ingest, ingestLinkPacket, hd, receivePacket_reliable reliable, ha]

namespace Valid

variable (h : own.Valid peer) {id : PacketId}

include h

theorem holds_of_acknowledges (acknowledges : own.Acknowledges id) : own.Holds id := by
  rcases acknowledges with pending | ⟨raw, hm, _, hp, acknowledged⟩
  · exact h.pending id pending
  obtain ⟨_, encoded, produced⟩ := h.sent raw hm
  rw [produced.parse encoded] at hp
  exact produced.onWire.held id (ok.inj hp ▸ acknowledged)

/-- What the receiver holds of packet `id` is the piece that its peer put into it. -/
theorem retains_of_holds (held : own.Holds id)
    : ∃ payload, peer.consumed[id.toNat - 1]? = some payload
      ∧ (own.delivered[id.toNat - 1]? = some payload
        ∨ ∃ packet, own.core.incoming.pending.get? id = some packet
          ∧ packet.payload = payload) := by
  obtain ⟨hpos, hc | ⟨packet, hp⟩⟩ := held
  · have hi : id.toNat - 1 < peer.consumed.length := by
      have hr := h.incoming.received
      omega
    refine ⟨peer.consumed[id.toNat - 1], getElem?_eq_getElem hi, .inl ?_⟩
    rw [h.delivered, getElem?_take, if_pos (by omega), getElem?_eq_getElem hi]
  · exact ⟨packet.payload, h.incoming.buffered id packet hp, .inr ⟨packet, hp, rfl⟩⟩

variable (hp : peer.Valid own)
include hp

/-- An admitted control packet within the window, or one that is not acknowledged, keeps
the endpoint valid.
-/
theorem receiveControl (produced : peer.Produced packet)
    (control : packet.opcode = .controlV1) (hpos : 0 < packet.id.toNat)
    (piece : peer.consumed[packet.id.toNat - 1]? = some packet.payload)
    (hw : packet.id.toNat ≤ own.core.incoming.lastConsumedId.toNat + 12
      ∨ acknowledgmentSetCapacity ≤ own.core.outgoing.pendingAcknowledgments.len)
    (received : next = { own with
      core := (own.core.receiveReliable packet).2
      delivered := own.delivered
        ++ (own.core.receiveReliable packet).1.filterMap tlsPayload? })
    : next.Valid peer ∧ own.Extends next := by
  subst received
  by_cases hk : packet.id.toNat ≤ own.core.incoming.lastConsumedId.toNat
      ∨ ∃ buffered, own.core.incoming.pending.get? packet.id = some buffered
  · rw [receiveReliable_refused (if_pos (hk.imp UInt32.le_iff_toNat_le.mpr containsKey_iff.mpr))]
    exact h.of_received produced h.incoming (fun _ held => held)
      (fun _ _ => ⟨hpos, hk⟩) (by simpa using h.delivered) rfl
  rw [not_or] at hk
  have ha : own.core.incoming.lastConsumedId.toNat < packet.id.toNat := by omega
  by_cases near : packet.id.toNat ≤ own.core.incoming.lastConsumedId.toNat + 12
  · have hno : own.core.incoming.pending.get? packet.id = none := by
      by_contra present
      exact hk.2 (ne_none_iff_exists'.mp present)
    have inserted := h.incoming.settled.tryInsert_fresh ha near hno
    rcases sequence : IncomingReliableState.nextOrderedSequence { own.core.incoming with
        pending := own.core.incoming.pending.insert packet.id packet } with ⟨ready, final⟩
    obtain ⟨hf, stream, hh, held⟩ :=
      h.incoming.accept ha near piece sequence
    have hnil : ∀ other ∈ ready, other.payload ≠ [] := by
      intro other hm
      have delivered : other.payload ∈ peer.consumed.take final.lastConsumedId.toNat := by
        rw [← stream]
        exact mem_append_right _ (mem_map_of_mem hm)
      exact hp.pieces _ (mem_of_mem_take delivered)
    have result : own.core.receiveReliable packet
        = ((ready.filter (!·.payload.isEmpty)).map (.tlsCiphertext ·.payload), { own.core with
            outgoing := own.core.outgoing.onIncomingPacket packet
            incoming := final }) := by
      simp [receiveReliable, control, Opcode.isControl, inserted, sequence]
    rw [result]
    refine h.of_received produced hf hh (fun _ _ => held) ?_ rfl
    rw [filterMap_tlsPayload hnil, h.delivered, stream]
  · -- The packet is dropped, and the acknowledgment set has no room for its id.
    rw [receiveReliable_refused (IncomingReliableState.tryInsert_far (by omega))]
    exact h.of_received produced h.incoming (fun _ held => held)
      (fun _ hr => absurd hr (by omega)) (by simpa using h.delivered) rfl

theorem ingest (hm : raw ∈ peer.sent) (hw : ∀ packet, decodeLinkPacket raw = .ok packet →
      own.core.admits packet → packet.opcode = .controlV1 →
      packet.id.toNat ≤ own.core.incoming.lastConsumedId.toNat + 12
      ∨ acknowledgmentSetCapacity ≤ own.core.outgoing.pendingAcknowledgments.len)
    : (own.ingest raw).Valid peer ∧ own.Extends (own.ingest raw) := by
  by_cases ha : ∃ packet, decodeLinkPacket raw = .ok packet
      ∧ own.core.admits packet
  · obtain ⟨packet, hd, ha⟩ := ha
    have produced := hp.decoded hm hd
    have hw := hw packet hd ha
    rcases produced.kind with ⟨control, hpos, piece⟩ | standalone
    · exact h.receiveControl hp produced control hpos piece (hw control)
        (ingest_admitted hd (.inl control) ha)
    have received : own.core.receiveReliable packet
        = ([], { own.core with outgoing := own.core.outgoing.onIncomingPacket packet }) := by
      simp [receiveReliable, standalone]
    rw [ingest_admitted hd (.inr standalone) ha, received]
    exact h.of_received produced h.incoming (fun _ held => held)
      (fun control => absurd standalone control) (by simpa using h.delivered) rfl
  · have hr : own.ingest raw = own := by
      unfold Endpoint.ingest ingestLinkPacket
      cases hd : decodeLinkPacket raw with
      | error error => rfl
      | ok packet =>
        have unadmitted : ¬own.core.admits packet := fun admits =>
          ha ⟨packet, hd, admits⟩
        have produced := hp.decoded hm hd
        simp [receivePacket_reliable (produced.kind.imp_left (·.1)), unadmitted]
    rw [hr]
    exact ⟨h, prefix_rfl, fun _ held => held⟩

variable (idle : own.core.hasInFlightPackets = false)
include idle

/-- When nothing is in flight, the peer has consumed the whole stream. -/
theorem lastConsumed_of_idle : peer.core.incoming.lastConsumedId.toNat = own.consumed.length := by
  have empty : ∀ id, own.core.outgoing.inFlight.get? id = none := by
    refine len_eq_zero_iff.mp ?_
    simpa [hasInFlightPackets] using idle
  have hb := own.core.session.localControlPacketId.toNat_lt
  have hr := hp.incoming.received
  have nextId := h.nextId
  by_contra short
  have next : (peer.core.incoming.lastConsumedId + 1).toNat
      = peer.core.incoming.lastConsumedId.toNat + 1 := by
    exact Nat.mod_eq_of_lt (by simp; omega)
  -- The first piece not consumed would have to be buffered, but the buffer is settled.
  rcases h.covered (peer.core.incoming.lastConsumedId + 1) (by omega) (by omega) with
    ⟨tracked, present⟩ | held
  · simp [empty] at present
  rcases held.2 with hc | ⟨packet, buffered⟩
  · omega
  · simp [hp.incoming.settled.gap] at buffered

theorem stream_of_idle
    : peer.delivered.flatten ++ (peer.core.incoming.pending.values.map (·.payload)).flatten
      = own.consumed.flatten := by
  have hc := h.lastConsumed_of_idle hp idle
  have empty : peer.core.incoming.pending.values = [] := by
    refine map_eq_nil_iff.mpr (length_eq_zero_iff.mp ?_)
    refine len_eq_zero_iff.mpr fun id => ?_
    by_contra present
    obtain ⟨packet, buffered⟩ := ne_none_iff_exists'.mp present
    have ha := (hp.incoming.settled.windowed id packet buffered).1
    have hi := (List.getElem?_eq_some_iff.mp (hp.incoming.buffered id packet buffered)).1
    omega
  rw [empty, hp.delivered, hc]
  simp

end Valid

end Endpoint

--------
-- The link
--------

namespace ControlLink

def Valid (link : ControlLink) : Prop :=
  ∀ side : Side, (link.side side).Valid (link.side side.peer)

theorem side_set (link : ControlLink) (side other : Side) (own)
    : (link.set side own).side other = if other = side then own else link.side other := by
  cases side <;> cases other <;> rfl

namespace Valid

variable (h : link.Valid)
include h

theorem sound : link.Sound where
  acknowledged := by
    intro receiver id acknowledges
    have held := (h receiver).holds_of_acknowledges acknowledges
    exact ⟨held.1, (h receiver).retains_of_holds held⟩
  complete := by
    intro sender idle
    have back := h sender.peer
    rw [Side.peer_peer] at back
    exact (h sender).stream_of_idle back idle

/-- Replacing one endpoint by a valid later state keeps the link valid. -/
theorem set {side} (hv : next.Valid (link.side side.peer) ∧ (link.side side).Extends next)
    : (link.set side next).Valid := by
  intro other
  rw [side_set, side_set]
  by_cases same : other = side
  · subst same
    rw [if_pos rfl, if_neg (Side.peer_ne other)]
    exact hv.1
  obtain rfl : other.peer = side := by
    cases other <;> cases side <;> first | rfl | exact absurd rfl same
  rw [if_neg same, if_pos rfl]
  have same := h other
  exact { same with
    incoming := {
      settled := same.incoming.settled
      received := le_trans same.incoming.received hv.2.consumed.length_le
      buffered := fun id packet hp =>
        getElem?_of_isPrefix hv.2.consumed (same.incoming.buffered id packet hp) }
    delivered := by
      obtain ⟨_, hg⟩ := hv.2.consumed
      rw [same.delivered, ← hg, take_append_of_le_length same.incoming.received]
    covered := fun id hpos hb =>
      (same.covered id hpos hb).imp_right (hv.2.holds id) }

theorem step {step} (hw : link.WithinWindow step) : (link.step step).Valid := by
  cases step with
  | packetize side ciphertext => exact h.set ((h side).packetize ciphertext)
  | flush side now => exact h.set ((h side).flush now)
  | deliver receiver index =>
    simp only [ControlLink.step]
    cases sent : (link.side receiver.peer).sent[index]? with
    | none => exact h
    | some raw =>
      have back := h receiver.peer
      rw [Side.peer_peer] at back
      exact h.set ((h receiver).ingest back (mem_of_getElem? sent)
        fun packet hd => hw raw sent packet hd)

/-- A delivery past the window breaks the promise at once: the id is pending for
acknowledgment while the packet has been dropped.
-/
theorem not_sound_step {step} (ho : ¬ link.WithinWindow step) : ¬ (link.step step).Sound := by
  cases step with
  | packetize side ciphertext => exact absurd trivial ho
  | flush side now => exact absurd trivial ho
  | deliver receiver index =>
    simp only [WithinWindow, not_forall, not_or] at ho
    obtain ⟨raw, sent, packet, hd, ha, control, far, hr⟩ := ho
    have own := h receiver
    have dropped := receiveReliable_refused
      (IncomingReliableState.tryInsert_far (Nat.lt_of_not_le far))
    intro hs
    have state : (link.step (.deliver receiver index)).side receiver
        = { link.side receiver with
          core := { (link.side receiver).core with
            outgoing := (link.side receiver).core.outgoing.onIncomingPacket packet } } := by
      simp only [ControlLink.step, mem_def.mp sent, side_set, if_pos]
      rw [Endpoint.ingest_admitted hd (.inl control) ha, dropped]
      simp
    have pending
        : (link.step (.deliver receiver index)).side receiver |>.Acknowledges packet.id := by
      rw [state]
      refine .inl (mem_keys_iff.mpr ⟨(), ?_⟩)
      simp [OutgoingReliableState.onIncomingPacket, control, Nat.lt_of_not_le hr]
    obtain ⟨hpos, payload, -, delivered | ⟨buffered, hp, -⟩⟩ :=
      hs.acknowledged receiver packet.id pending
    · rw [state] at delivered
      simp only [own.delivered] at delivered
      have hi := (List.getElem?_eq_some_iff.mp delivered).1
      rw [length_take] at hi
      omega
    · rw [state] at hp
      have near := (own.incoming.settled.windowed packet.id buffered hp).2
      exact far near

end Valid

theorem valid_start (keyId clientId serverId clientIpv6 serverIpv6)
    : (start keyId clientId serverId clientIpv6 serverIpv6).Valid := by
  have hn (own peer : SessionId) (ipv6 : Bool) (other : Endpoint) (hs : other.consumed = [])
      : (Endpoint.start keyId own peer ipv6).Valid other := by
    exact {
      nextId := rfl
      pieces := by simp [Endpoint.start]
      sent := by simp [Endpoint.start]
      inFlight := by simp [Endpoint.start, new, OutgoingReliableState.new]
      pending := by
        simp [Endpoint.start, new, OutgoingReliableState.new, OrderedMap.keys, empty]
      incoming := ⟨⟨(fun _ _ hno => by cases hno), rfl⟩, Nat.zero_le _,
        (fun _ _ hno => by cases hno)⟩
      delivered := by simp [Endpoint.start, hs]
      covered := by
        intro id hpos hb
        simp only [Endpoint.start, length_nil] at hb
        omega
    }
  intro side
  cases side
  · exact hn _ _ _ _ rfl
  · exact hn _ _ _ _ rfl

/-- A run stays sound as long as every step is within the window, and not a step longer. -/
theorem exact_step
    : Exact step (fun link _ => link.Valid) Sound WithinWindow where
  sound_of_valid _ _ valid := valid.sound
  valid_step _ _ _ valid within := valid.step within
  admits_of_sound _ _ _ valid sound := by
    by_contra outside
    exact valid.not_sound_step outside sound

end ControlLink

/-- For every pair of cores and every run of the link: every state of the run is sound, in
that whatever is acknowledged is delivered or buffered and an idle sender's ciphertext has
arrived in full, exactly when no delivery of the run is past the receive window while its
acknowledgment still finds room.
-/
theorem controlLink_sound_iff_withinWindow (keyId : UInt8) (clientId serverId : SessionId)
    (clientIpv6 serverIpv6 : Bool) (steps : List LinkStep)
    : (∀ done, done <+: steps →
        ((start keyId clientId serverId clientIpv6 serverIpv6).run done).Sound)
      ↔ ∀ done step, done ++ [step] <+: steps →
        ((start keyId clientId serverId clientIpv6 serverIpv6).run
          done).WithinWindow step :=
  exact_step.forall_sound_iff (valid_start keyId clientId serverId clientIpv6 serverIpv6)

/-- The client's first packet is lost. Selective acknowledgments let the client send on to
packet 13, which the server drops and will acknowledge.
-/
def lostFirstPacket : List LinkStep :=
  List.replicate 6 (.packetize .client [0x5a])
    ++ [1, 2, 3, 4, 5].map (.deliver .server ·) ++ [.flush .server 0, .deliver .client 0]
    ++ List.replicate 5 (.packetize .client [0x5a])
    ++ [6, 7, 8, 9, 10].map (.deliver .server ·) ++ [.flush .server 0, .deliver .client 1]
    ++ List.replicate 2 (.packetize .client [0x5a])
    ++ [.deliver .server 12]

theorem lostFirstPacket_acknowledges_dropped
    : let link := (start 0 (Vector.replicate 8 1) (Vector.replicate 8 2) false
        false).run lostFirstPacket
      13 ∈ link.server.core.outgoing.pendingAcknowledgments.keys
      ∧ link.server.core.incoming.pending.get? 13 = none
      ∧ link.server.delivered = [] := by
  decide +kernel

end Zay.OpenVpn
