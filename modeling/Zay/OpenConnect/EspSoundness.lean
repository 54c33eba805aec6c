import Mathlib.Data.List.Nodup
import Zay.OpenConnect.EspDelivery

/-! The key sets of two peers in every reachable state: the windows of the receiver track what
was opened under their SPI, and the sender counts up under each of its keys.
-/

namespace Zay.OpenConnect

open Lib SecurityAssociation List

theorem getElem?_concat {α : Type} {items} {last item : α} {index}
    : (items ++ [last])[index]? = some item
      ↔ items[index]? = some item ∨ index = items.length ∧ item = last := by
  rw [getElem?_append]
  split
  next hi =>
    simp [Nat.ne_of_lt hi]
  next ho =>
    rw [getElem?_eq_none (Nat.le_of_not_lt ho), getElem?_singleton]
    by_cases last : index - items.length = 0
    · have he : index = items.length := by omega
      simp [he, eq_comm]
    have other : index ≠ items.length := by omega
    simp [last, other]

namespace EspPeers

variable {crypto : EspPrimitives} {peers : EspPeers}

theorem Apart.symm {first second} (ha : Apart first second) : Apart second first :=
  ⟨ha.spi.symm, ha.encryptionKey.symm, ha.authenticationKey.symm⟩

/-- A datagram under `spi` with this sequence number was opened. -/
def Accepted (peers : EspPeers) (spi : UInt32) (sequence : Nat) : Prop :=
  ∃ entry ∈ peers.opened, ∃ sealed, peers.sealed[entry.1]? = some sealed
    ∧ sealed.association.spi = spi ∧ sealed.association.sequence = sequence

/-- The datagram is what `seal` makes of its payload. -/
def Genuine (primitives : EspPrimitives) (sealed : SealedDatagram) : Prop :=
  sealed.payload ≠ []
  ∧ ∃ nextHeader, selectNextHeader sealed.payload sealed.requested = .ok nextHeader
    ∧ SealedAs primitives sealed.association sealed.payload nextHeader sealed.datagram

/-- The keys of the sender are apart, and under each it counts up. -/
structure SenderSound (primitives : EspPrimitives) (peers : EspPeers) : Prop where
  current : peers.sender.outbound.keying ∈ peers.outbounds
  apart
    : ∀ first ∈ peers.outbounds, ∀ second ∈ peers.outbounds, first = second ∨ Apart first second
  genuine : ∀ sealed ∈ peers.sealed, Genuine primitives sealed
  listed : ∀ sealed ∈ peers.sealed, sealed.association.keying ∈ peers.outbounds
  counted
    : ∀ sealed ∈ peers.sealed, sealed.association.keying = peers.sender.outbound.keying →
      sealed.association.sequence < peers.sender.outbound.sequence
  distinct
    : ∀ (first second : Nat) (left right : SealedDatagram), peers.sealed[first]? = some left →
      peers.sealed[second]? = some right → left.association.keying = right.association.keying →
      left.association.sequence = right.association.sequence → first = second

/-- What holds of one inbound association. -/
structure Follows (peers : EspPeers) (association : SecurityAssociation) : Prop where
  listed : association.keying ∈ peers.inbounds
  tracks : association.replay.Tracks (peers.Accepted association.spi)

structure ReceiverSound (peers : EspPeers) : Prop where
  alive : peers.receiver.inbound.destroyed = false ∧ peers.receiver.inbound.current.valid = true
  checked : peers.receiver.inbound.disableReplayProtection = false
  current : peers.Follows peers.receiver.inbound.current
  previous
    : ∀ association, peers.receiver.inbound.previous = some association →
      peers.Follows association ∧ association.spi ≠ peers.receiver.inbound.current.spi
  matching : Matching peers.outbounds peers.inbounds
  opened
    : ∀ entry ∈ peers.opened, ∃ sealed nextHeader, peers.sealed[entry.1]? = some sealed
      ∧ selectNextHeader sealed.payload sealed.requested = .ok nextHeader
      ∧ entry.2 = (sealed.payload, nextHeader)
      ∧ ∃ inbound ∈ peers.inbounds, inbound.material.spi = sealed.association.spi
  once : (peers.opened.map Prod.fst).Nodup

namespace ReceiverSound

variable (hs : peers.ReceiverSound)

include hs

variable (sender : EspKeySet)

/-- Nothing that was opened is touched by another datagram at the end. -/
theorem accepted_append (last spi)
    : ({ peers with sender, sealed := peers.sealed ++ [last] } : EspPeers).Accepted spi
      = peers.Accepted spi := by
  funext sequence
  apply propext
  constructor
  · rintro ⟨entry, hm, sealed, hf, he⟩
    obtain ⟨_, _, at_index, -⟩ := hs.opened entry hm
    rcases getElem?_concat.mp hf with old | ⟨end_index, -⟩
    · exact ⟨entry, hm, sealed, old, he⟩
    rw [end_index, getElem?_eq_none (le_refl _)] at at_index
    cases at_index
  · rintro ⟨entry, hm, sealed, hf, he⟩
    exact ⟨entry, hm, sealed, getElem?_concat.mpr (.inl hf), he⟩

theorem append (last) : ReceiverSound { peers with sender, sealed := peers.sealed ++ [last] } := by
  have follows {own : SecurityAssociation} (hb : peers.Follows own)
      : Follows { peers with sender, sealed := peers.sealed ++ [last] } own := by
    refine ⟨hb.listed, ?_⟩
    rw [hs.accepted_append]
    exact hb.tracks
  refine { hs with current := follows hs.current, previous := ?_, opened := ?_ }
  · exact fun association hf => (hs.previous association hf).imp_left follows
  · intro entry hm
    obtain ⟨sealed, nextHeader, hf, rest⟩ := hs.opened entry hm
    exact ⟨sealed, nextHeader, getElem?_concat.mpr (.inl hf), rest⟩

/-- The other direction does not matter. -/
theorem reverse (outbound)
    : ReceiverSound { peers with sender, receiver := { peers.receiver with outbound } } :=
  { hs with
    current := ⟨hs.current.listed, hs.current.tracks⟩
    previous := fun association hf =>
      (hs.previous association hf).imp_left fun old => ⟨old.listed, old.tracks⟩ }

theorem seal_step (payload : Bytes) (requested)
    : (peers.step crypto (.sealPayload payload requested)).ReceiverSound := by
  cases made : (peers.sender.sealPayload crypto payload requested).2 with
  | ok _ =>
    simp only [step, made]
    exact hs.append _ _
  | error error =>
    simp only [step, made]
    exact hs.reverse _ _

end ReceiverSound

variable (next : SecurityAssociation) (receiver : EspKeySet)

namespace SenderSound

variable (hs : peers.SenderSound crypto)
include hs

theorem count (keying : next.keying = peers.sender.outbound.keying)
    (sequence : peers.sender.outbound.sequence ≤ next.sequence)
    : SenderSound crypto { peers with sender := { peers.sender with outbound := next } } :=
  { hs with
    current := by
      exact keying ▸ hs.current
    counted := fun sealed hm he =>
      lt_of_lt_of_le (hs.counted sealed hm (he.trans keying)) sequence }

theorem append (keying : next.keying = peers.sender.outbound.keying)
    (sequence : next.sequence = peers.sender.outbound.sequence + 1) (last)
    (association : last.association = peers.sender.outbound) (genuine : Genuine crypto last)
    : SenderSound crypto
      { peers with
        sender := { peers.sender with outbound := next }
        sealed := peers.sealed ++ [last] } where
  current := by
    exact keying ▸ hs.current
  apart := hs.apart
  genuine := forall_mem_append.mpr ⟨hs.genuine, forall_mem_singleton.mpr genuine⟩
  listed := by
    refine forall_mem_append.mpr ⟨hs.listed, forall_mem_singleton.mpr ?_⟩
    exact association ▸ hs.current
  counted := by
    rw [sequence]
    refine forall_mem_append.mpr ⟨fun sealed old he => ?_,
      forall_mem_singleton.mpr fun _ => association ▸ Nat.lt_succ_self _⟩
    exact Nat.lt_succ_of_lt (hs.counted sealed old (he.trans keying))
  distinct first second left right leftAt rightAt he equal := by
    have new : ∀ (index : Nat) (sealed : SealedDatagram), peers.sealed[index]? = some sealed →
        sealed.association.keying = last.association.keying →
        sealed.association.sequence ≠ last.association.sequence := by
      intro index sealed hf own
      rw [association] at own ⊢
      exact Nat.ne_of_lt (hs.counted sealed (mem_of_getElem? hf) own)
    rcases getElem?_concat.mp leftAt with leftOld | ⟨leftEnd, rfl⟩
    · rcases getElem?_concat.mp rightAt with rightOld | ⟨rightEnd, rfl⟩
      · exact hs.distinct first second left right leftOld rightOld he equal
      · exact absurd equal (new first left leftOld he)
    rcases getElem?_concat.mp rightAt with rightOld | ⟨rightEnd, rfl⟩
    · exact absurd equal.symm (new second right rightOld he.symm)
    · rw [leftEnd, rightEnd]

theorem seal_step {payload} (hnil : payload ≠ []) (requested)
    : (peers.step crypto (.sealPayload payload requested)).SenderSound crypto := by
  rcases sealPayload_cases crypto peers.sender.outbound payload requested
    with ⟨error, result⟩ | ⟨error, result⟩ | ⟨nextHeader, iv, datagram, hl, made, result⟩
  · simp only [step, EspKeySet.sealPayload, result]
    exact { hs with }
  · simp only [step, EspKeySet.sealPayload, result]
    exact hs.count _ rfl (Nat.le_succ _)
  simp only [step, EspKeySet.sealPayload, result]
  exact hs.append
    { peers.sender.outbound with sequence := peers.sender.outbound.sequence + 1, iv } rfl rfl
    ⟨peers.sender.outbound, payload, requested, datagram⟩ rfl
    ⟨hnil, nextHeader, hl, made⟩

end SenderSound

--------
-- Delivery
--------

/-- The window after a sequence number that was new under an SPI. -/
structure Admitted (peers : EspPeers) (spi : UInt32) (sequence : Nat) (window : EspReplayWindow)
    : Prop where
  new : ¬peers.Accepted spi sequence
  tracks : window.Tracks fun other => peers.Accepted spi other ∨ other = sequence

/-- What the delivery of a sealed datagram does: nothing, or it passes the window of the
association of its SPI.
-/
inductive Delivered (peers : EspPeers) (sealed : SealedDatagram) (nextHeader : UInt8)
    (inbound : InboundAssociations) (result : EspResult (Bytes × UInt8))
    : Prop
  | refused (error : EspError) (same : inbound = peers.receiver.inbound)
      (failed : result = .error error)
  | current (window : EspReplayWindow)
      (spi : sealed.association.spi = peers.receiver.inbound.current.spi)
      (admitted : peers.Admitted sealed.association.spi sealed.association.sequence window)
      (state
        : inbound = { peers.receiver.inbound with
            current := { peers.receiver.inbound.current with replay := window } })
      (opened : result = .ok (sealed.payload, nextHeader))
  | previous (association : SecurityAssociation) (window : EspReplayWindow)
      (kept : peers.receiver.inbound.previous = some association)
      (spi : sealed.association.spi = association.spi)
      (admitted : peers.Admitted sealed.association.spi sealed.association.sequence window)
      (state
        : inbound = { peers.receiver.inbound with
            previous := some { association with replay := window } })
      (opened : result = .ok (sealed.payload, nextHeader))

variable {own : SecurityAssociation} {sealed : SealedDatagram} {nextHeader : UInt8} {index : Nat}
  {random : EspResult Block} {config : EspKeySetConfig}

theorem Follows.keying_eq (hf : peers.Follows own)
    (matching : Matching peers.outbounds peers.inbounds)
    (hl : sealed.association.keying ∈ peers.outbounds) (spi : sealed.association.spi = own.spi)
    : own.keying = sealed.association.keying :=
  (matching _ hl _ hf.listed spi).symm

/-- The window of an association that has the SPI of the datagram decides. -/
theorem Follows.openDatagram (hf : peers.Follows own) (lawful : crypto.Lawful)
    (matching : Matching peers.outbounds peers.inbounds)
    (hl : sealed.association.keying ∈ peers.outbounds) (hnil : sealed.payload ≠ [])
    (made : SealedAs crypto sealed.association sealed.payload nextHeader sealed.datagram)
    (spi : sealed.association.spi = own.spi) {sequence}
    (sequence_eq : sequence.toNat = sealed.association.sequence) {unchecked}
    (hc : unchecked = false)
    : ((peers.Accepted own.spi sealed.association.sequence
          ∨ sealed.association.sequence + 65 < own.replay.nextSequence)
        ∧ own.openDatagram crypto unchecked sequence sealed.datagram = (own, .error .replay))
      ∨ ∃ window, peers.Admitted own.spi sealed.association.sequence window
        ∧ own.openDatagram crypto unchecked sequence sealed.datagram
          = ({ own with replay := window }, .ok (sealed.payload, nextHeader)) := by
  rw [hc, made.openDatagram lawful (hf.keying_eq matching hl spi) hnil]
  rcases hf.tracks.accept sequence with ⟨admits, window, result, tracks⟩ | ⟨hr, result⟩
  · right
    rw [EspReplayWindow.Admits, sequence_eq] at admits
    rw [sequence_eq] at tracks
    exact ⟨window, ⟨admits.1, tracks⟩, by rw [result]; rfl⟩
  left
  rw [EspReplayWindow.Admits, sequence_eq] at hr
  refine ⟨?_, by rw [result]; rfl⟩
  rcases Classical.em (peers.Accepted own.spi sealed.association.sequence) with old | new
  · exact .inl old
  · exact .inr (Nat.lt_of_not_le fun near => hr ⟨new, near⟩)

theorem ReceiverSound.usable (receiver : peers.ReceiverSound)
    : ¬(peers.receiver.inbound.destroyed || !peers.receiver.inbound.current.valid) := by
  simp [receiver.alive]

theorem delivered (lawful : crypto.Lawful) (sender : peers.SenderSound crypto)
    (receiver : peers.ReceiverSound) (hm : sealed ∈ peers.sealed)
    (made : SealedAs crypto sealed.association sealed.payload nextHeader sealed.datagram)
    : Delivered peers sealed nextHeader
      (peers.receiver.openDatagram crypto sealed.datagram).1.inbound
      (peers.receiver.openDatagram crypto sealed.datagram).2 := by
  have hnil := (sender.genuine sealed hm).1
  have hl := sender.listed sealed hm
  simp only [EspKeySet.openDatagram, if_neg (not_lt.mpr made.length_le), made.spi_eq,
    InboundAssociations.openDatagram, if_neg receiver.usable]
  by_cases current : sealed.association.spi = peers.receiver.inbound.current.spi
  · rw [if_pos current]
    rcases receiver.current.openDatagram lawful receiver.matching hl hnil made current
        made.sequence_eq receiver.checked with ⟨-, result⟩ | ⟨window, admitted, result⟩
    · rw [result]
      exact .refused .replay rfl rfl
    rw [result]
    rw [← current] at admitted
    exact .current window current admitted rfl rfl
  · rw [if_neg current]
    cases hk : peers.receiver.inbound.previous with
    | none => exact .refused InboundAssociations.unknownSpi rfl rfl
    | some association =>
      obtain ⟨hf, -⟩ := receiver.previous association hk
      simp only
      split
      next serves =>
        simp only [Bool.and_eq_true, decide_eq_true_eq] at serves
        have spi : sealed.association.spi = association.spi := serves.1.2.symm
        rcases hf.openDatagram lawful receiver.matching hl hnil made spi
            made.sequence_eq receiver.checked with ⟨-, result⟩ | ⟨window, admitted, result⟩
        · rw [result]
          refine .refused .replay ?_ rfl
          rw [← hk]
        rw [result]
        rw [← spi] at admitted
        exact .previous association window hk spi admitted rfl rfl
      · exact .refused InboundAssociations.unknownSpi rfl rfl

theorem accepted_concat (hf : peers.sealed[index]? = some sealed) (result spi)
    : ({ peers with receiver, opened := peers.opened ++ [(index, result)] } : EspPeers).Accepted spi
      = fun sequence => peers.Accepted spi sequence
        ∨ spi = sealed.association.spi ∧ sequence = sealed.association.sequence := by
  funext sequence
  apply propext
  constructor
  · rintro ⟨entry, hm, other, at_index, spi_eq, sequence_eq⟩
    rcases mem_append.mp hm with old | new
    · exact .inl ⟨entry, old, other, at_index, spi_eq, sequence_eq⟩
    rw [mem_singleton.mp new] at at_index
    cases hf.symm.trans at_index
    exact .inr ⟨spi_eq.symm, sequence_eq.symm⟩
  · rintro (⟨entry, hm, other, rest⟩ | ⟨spi_eq, sequence_eq⟩)
    · exact ⟨entry, mem_append_left _ hm, other, rest⟩
    · exact ⟨(index, result), mem_append_right _ (mem_singleton_self _), sealed, hf,
        spi_eq.symm, sequence_eq.symm⟩

/-- An association with another SPI does not notice that a datagram was opened. -/
theorem Follows.concat_other (follows : peers.Follows own)
    (hf : peers.sealed[index]? = some sealed) (result) (other : own.spi ≠ sealed.association.spi)
    : Follows { peers with receiver, opened := peers.opened ++ [(index, result)] } own where
  listed := follows.listed
  tracks := by
    rw [accepted_concat receiver hf]
    simpa only [other, false_and, or_false] using follows.tracks

theorem Follows.concat_own {window} (follows : peers.Follows own)
    (hf : peers.sealed[index]? = some sealed) (result) (spi : sealed.association.spi = own.spi)
    (tracks
      : window.Tracks fun sequence =>
        peers.Accepted sealed.association.spi sequence ∨ sequence = sealed.association.sequence)
    : Follows { peers with receiver, opened := peers.opened ++ [(index, result)] }
      { own with replay := window } where
  listed := follows.listed
  tracks := by
    rw [accepted_concat receiver hf, ← spi]
    simpa only [true_and] using tracks

/-- The two fields about what was opened, after one more opening. -/
theorem ReceiverSound.opened_concat (hs : peers.ReceiverSound)
    (hf : peers.sealed[index]? = some sealed)
    (hl : selectNextHeader sealed.payload sealed.requested = .ok nextHeader)
    (new : ¬peers.Accepted sealed.association.spi sealed.association.sequence)
    (follows : peers.Follows own) (spi : sealed.association.spi = own.spi)
    : (∀ entry ∈ peers.opened ++ [(index, sealed.payload, nextHeader)],
        ∃ sealed nextHeader, peers.sealed[entry.1]? = some sealed
        ∧ selectNextHeader sealed.payload sealed.requested = .ok nextHeader
        ∧ entry.2 = (sealed.payload, nextHeader)
        ∧ ∃ inbound ∈ peers.inbounds, inbound.material.spi = sealed.association.spi)
      ∧ ((peers.opened ++ [(index, sealed.payload, nextHeader)]).map Prod.fst).Nodup := by
  constructor
  · refine forall_mem_append.mpr ⟨hs.opened, forall_mem_singleton.mpr ?_⟩
    exact ⟨sealed, nextHeader, hf, hl, rfl, _, follows.listed, spi.symm⟩
  · have hn : index ∉ peers.opened.map Prod.fst := by
      intro hm
      obtain ⟨entry, ho, rfl⟩ := mem_map.mp hm
      exact new ⟨entry, ho, sealed, hf, rfl, rfl⟩
    simpa using hs.once.concat hn

theorem ReceiverSound.deliver_step (hl : crypto.Lawful)
    (sender : peers.SenderSound crypto) (hs : peers.ReceiverSound) (index : Nat)
    : (peers.step crypto (.deliver index)).ReceiverSound := by
  cases hf : peers.sealed[index]? with
  | none =>
    simp only [step, hf]
    exact hs
  | some sealed =>
    have hm := mem_of_getElem? hf
    obtain ⟨_, _, selected, made⟩ := sender.genuine sealed hm
    have effect := delivered hl sender hs hm made
    simp only [step, hf]
    generalize peers.receiver.openDatagram crypto sealed.datagram = outcome at effect ⊢
    obtain ⟨⟨outbound, _⟩, _⟩ := outcome
    cases effect with
    | refused _ same failed =>
      cases same
      cases failed
      exact hs.reverse peers.sender outbound
    | current window spi admitted state opened =>
      cases state
      cases opened
      obtain ⟨openings, once⟩ := hs.opened_concat hf selected admitted.new hs.current spi
      exact { hs with
        current := hs.current.concat_own _ hf _ spi admitted.tracks
        previous := by
          intro association hk
          obtain ⟨follows, other⟩ := hs.previous association hk
          exact ⟨follows.concat_other _ hf _ (spi ▸ other), other⟩
        opened := openings
        once }
    | previous association window hk spi admitted state opened =>
      cases state
      cases opened
      obtain ⟨follows, other⟩ := hs.previous association hk
      obtain ⟨openings, once⟩ := hs.opened_concat hf selected admitted.new follows spi
      exact { hs with
        current := hs.current.concat_other _ hf _ (spi ▸ other.symm)
        previous := by
          intro later hk
          cases hk
          exact ⟨follows.concat_own _ hf _ spi admitted.tracks, other⟩
        opened := openings
        once }

theorem SenderSound.deliver_step (hs : peers.SenderSound crypto) (index : Nat)
    : (peers.step crypto (.deliver index)).SenderSound crypto := by
  cases hf : peers.sealed[index]? with
  | none =>
    simp only [step, hf]
    exact hs
  | some _ =>
    simp only [step, hf]
    exact { hs with }

--------
-- New keys
--------

theorem new_eq_ok {encryption authentication material association}
    (made : new encryption authentication material random = .ok association)
    : association.keying = { encryption, authentication, material } ∧ association.valid = true
      ∧ association.sequence = 0 ∧ association.replay = .empty := by
  unfold new at made
  rw [guard_eq_ok, guard_eq_ok, guard_eq_ok] at made
  obtain ⟨_, -, hj⟩ := bind_eq_ok.mp made.2.2.2
  cases hj
  exact ⟨rfl, rfl, rfl, rfl⟩

theorem newKeySet_eq_ok {keys} (made : EspKeySet.new config random = .ok keys)
    : ∃ outbound inbound, newOutbound config random = .ok outbound
      ∧ newInbound config = .ok inbound
      ∧ keys = {
          outbound
          inbound := {
            current := inbound
            previous := none
            previousLimit := 0
            disableReplayProtection := config.disableReplayProtection
            destroyed := false } } := by
  obtain ⟨outbound, outboundMade, rest⟩ := bind_eq_ok.mp made
  obtain ⟨inbound, inboundMade, hj⟩ := bind_eq_ok.mp rest
  cases hj
  exact ⟨outbound, inbound, outboundMade, inboundMade, rfl⟩

theorem install_eq_ok {keys next : EspKeySet} (made : keys.install config random = .ok next)
    : ∃ outbound inbound, newOutbound config random = .ok outbound
      ∧ newInbound config = .ok inbound
      ∧ next = {
          outbound
          inbound := {
            current := inbound
            previous := some keys.inbound.current
            previousLimit := keys.inbound.current.replay.nextSequence + 32
            disableReplayProtection := config.disableReplayProtection
            destroyed := false } } := by
  obtain ⟨outbound, outboundMade, rest⟩ := bind_eq_ok.mp made
  obtain ⟨inbound, inboundMade, rest⟩ := bind_eq_ok.mp rest
  rw [guard_eq_ok] at rest
  cases rest.2
  exact ⟨outbound, inbound, outboundMade, inboundMade, rfl⟩

variable (random)

theorem SenderSound.installSender_step (hs : peers.SenderSound crypto)
    (hn : ∀ used ∈ peers.outbounds, Apart config.outboundKeying used)
    : (peers.step crypto (.installSender config random)).SenderSound crypto := by
  cases made : peers.sender.install config random with
  | error error =>
    simp only [step, made]
    exact hs
  | ok _ =>
    obtain ⟨_, _, outboundMade, -, rfl⟩ := install_eq_ok made
    obtain ⟨keying, -, _, -⟩ := new_eq_ok outboundMade
    simp only [step, made]
    exact {
      current := keying ▸ mem_cons_self
      apart := by
        intro first firstMember second secondMember
        rcases mem_cons.mp firstMember with rfl | firstOld
        · rcases mem_cons.mp secondMember with rfl | secondOld
          · exact .inl rfl
          · exact .inr (hn second secondOld)
        rcases mem_cons.mp secondMember with rfl | secondOld
        · exact .inr (hn first firstOld).symm
        · exact hs.apart first firstOld second secondOld
      genuine := hs.genuine
      listed := fun sealed hm => mem_cons_of_mem _ (hs.listed sealed hm)
      counted := by
        intro sealed hm same
        have apart := hn _ (hs.listed sealed hm)
        rw [same, keying] at apart
        exact absurd rfl apart.spi
      distinct := hs.distinct }

theorem ReceiverSound.installSender_step (hs : peers.ReceiverSound)
    (matching : Matching (config.outboundKeying :: peers.outbounds) peers.inbounds)
    : (peers.step crypto (.installSender config random)).ReceiverSound := by
  cases made : peers.sender.install config random with
  | error error =>
    simp only [step, made]
    exact hs
  | ok _ =>
    simp only [step, made]
    exact { hs with
      current := ⟨hs.current.listed, hs.current.tracks⟩
      previous := fun association hf =>
        (hs.previous association hf).imp_left fun old => ⟨old.listed, old.tracks⟩
      matching }

theorem SenderSound.installReceiver_step (hs : peers.SenderSound crypto) (config random)
    : (peers.step crypto (.installReceiver config random)).SenderSound crypto := by
  cases made : peers.receiver.install config random with
  | error error =>
    simp only [step, made]
    exact hs
  | ok _ =>
    simp only [step, made]
    exact { hs with }

/-- Under a fresh SPI nothing was opened yet, so the empty window is right. -/
theorem ReceiverSound.installReceiver_step (hs : peers.ReceiverSound)
    (hn : ∀ used ∈ peers.inbounds, Apart config.inboundKeying used)
    (matching : Matching peers.outbounds (config.inboundKeying :: peers.inbounds))
    (checked : config.disableReplayProtection = false)
    : (peers.step crypto (.installReceiver config random)).ReceiverSound := by
  cases made : peers.receiver.install config random with
  | error error =>
    simp only [step, made]
    exact hs
  | ok _ =>
    obtain ⟨_, inbound, -, inboundMade, rfl⟩ := install_eq_ok made
    obtain ⟨keying, valid, -, empty⟩ := new_eq_ok inboundMade
    have spi : inbound.spi = config.inbound.spi := congrArg (·.material.spi) keying
    have unused : peers.Accepted inbound.spi = fun _ => False := by
      funext sequence
      apply eq_false
      rintro ⟨entry, hm, sealed, hf, same, -⟩
      obtain ⟨_, nextHeader, at_index, -, -, used, listed, used_spi⟩ :=
        hs.opened entry hm
      cases hf.symm.trans at_index
      exact (hn used listed).spi ((used_spi.trans (same.trans spi)).symm)
    simp only [step, made]
    exact {
      alive := ⟨rfl, valid⟩
      checked
      current := {
        listed := keying ▸ mem_cons_self
        tracks := by
          show inbound.replay.Tracks (peers.Accepted inbound.spi)
          rw [unused, empty]
          exact EspReplayWindow.tracks_empty }
      previous := by
        intro association kept
        cases kept
        refine ⟨⟨mem_cons_of_mem _ hs.current.listed, hs.current.tracks⟩, ?_⟩
        exact fun same => (hn _ hs.current.listed).spi (spi.symm.trans same.symm)
      matching
      opened := by
        intro entry hm
        obtain ⟨sealed, nextHeader, at_index, hl, result, used, listed, used_spi⟩ :=
          hs.opened entry hm
        exact ⟨sealed, nextHeader, at_index, hl, result, used, mem_cons_of_mem _ listed, used_spi⟩
      once := hs.once }

theorem sound_start {senderConfig receiverConfig senderIv receiverIv sender receiver}
    (newSender : EspKeySet.new senderConfig senderIv = .ok sender)
    (newReceiver : EspKeySet.new receiverConfig receiverIv = .ok receiver)
    (matching : Matching [senderConfig.outboundKeying] [receiverConfig.inboundKeying])
    (checked : receiverConfig.disableReplayProtection = false)
    : (start sender receiver senderConfig receiverConfig).SenderSound crypto
      ∧ (start sender receiver senderConfig receiverConfig).ReceiverSound := by
  obtain ⟨_, -, outboundMade, -, rfl⟩ := newKeySet_eq_ok newSender
  obtain ⟨-, inbound, -, inboundMade, rfl⟩ := newKeySet_eq_ok newReceiver
  obtain ⟨outboundKeying, -, -, -⟩ := new_eq_ok outboundMade
  obtain ⟨inboundKeying, valid, -, empty⟩ := new_eq_ok inboundMade
  have single : ∀ keying ∈ [senderConfig.outboundKeying],
      keying = senderConfig.outboundKeying := fun keying => mem_singleton.mp
  constructor
  · exact {
      current := outboundKeying ▸ mem_singleton_self _
      apart := fun first firstMember second secondMember =>
        .inl ((single first firstMember).trans (single second secondMember).symm)
      genuine := by simp [start]
      listed := by simp [start]
      counted := by simp [start]
      distinct := by simp [start] }
  · exact {
      alive := ⟨rfl, valid⟩
      checked
      current := {
        listed := inboundKeying ▸ mem_singleton_self _
        tracks := by
          show inbound.replay.Tracks _
          rw [empty]
          convert EspReplayWindow.tracks_empty using 2
          simp [EspPeers.Accepted, start] }
      previous := by simp [start]
      matching
      opened := by simp [start]
      once := by simp [start] }

theorem Reachable.sound (hl : crypto.Lawful) (hr : Reachable crypto peers)
    : peers.SenderSound crypto ∧ peers.ReceiverSound := by
  induction hr with
  | start senderConfig receiverConfig senderIv receiverIv sender receiver newSender newReceiver
      matching checked =>
      exact sound_start newSender newReceiver matching checked
  | step peers action hr admissible ih =>
    obtain ⟨sender, receiver⟩ := ih
    cases action with
    | sealPayload payload requested =>
      exact ⟨sender.seal_step admissible requested, receiver.seal_step payload requested⟩
    | deliver index =>
      exact ⟨sender.deliver_step index, receiver.deliver_step hl sender index⟩
    | installSender config random =>
      exact ⟨sender.installSender_step random admissible.1,
        receiver.installSender_step random admissible.2⟩
    | installReceiver config random =>
      exact ⟨sender.installReceiver_step config random,
        receiver.installReceiver_step random admissible.1 admissible.2.1 admissible.2.2⟩

/-- Keys that share a part are the same. -/
theorem SenderSound.keying_eq (hs : peers.SenderSound crypto) {left right}
    (leftMember : left ∈ peers.sealed) (rightMember : right ∈ peers.sealed)
    (shared : ¬Apart left.association.keying right.association.keying)
    : left.association.keying = right.association.keying :=
  (hs.apart _ (hs.listed left leftMember) _ (hs.listed right rightMember)).resolve_right shared

/-- What the two key sets achieve together. -/
structure DeliversOnce (primitives : EspPrimitives) (peers : EspPeers) : Prop where
  once : (peers.opened.map Prod.fst).Nodup
  unchanged
    : ∀ entry ∈ peers.opened, ∃ sealed nextHeader, peers.sealed[entry.1]? = some sealed
      ∧ selectNextHeader sealed.payload sealed.requested = .ok nextHeader
      ∧ entry.2 = (sealed.payload, nextHeader)
  /-- A datagram of the current association, not opened yet and at most 64 behind. -/
  accepted
    : ∀ (index : Nat) (sealed : SealedDatagram), peers.sealed[index]? = some sealed →
      sealed.association.spi = peers.receiver.inbound.current.spi →
      index ∉ peers.opened.map Prod.fst →
      (∀ highest, peers.Accepted sealed.association.spi highest →
        highest ≤ sealed.association.sequence + 64) →
      ∃ nextHeader, selectNextHeader sealed.payload sealed.requested = .ok nextHeader
        ∧ (peers.receiver.openDatagram primitives sealed.datagram).2
          = .ok (sealed.payload, nextHeader)
  unrepeated
    : ∀ (first second : Nat) (left right : SealedDatagram), peers.sealed[first]? = some left →
      peers.sealed[second]? = some right →
      (left.association.encryptionKey = right.association.encryptionKey
        ∨ left.association.authenticationKey = right.association.authenticationKey) →
      left.association.sequence = right.association.sequence → first = second

/-- Whatever is delivered in whatever order and whenever keys are installed. -/
theorem esp_delivers_once (primitives : EspPrimitives) (lawful : primitives.Lawful)
    (peers : EspPeers) (reachable : Reachable primitives peers)
    : DeliversOnce primitives peers := by
  obtain ⟨sender, receiver⟩ := reachable.sound lawful
  refine ⟨receiver.once, ?_, ?_, ?_⟩
  · intro entry member
    obtain ⟨sealed, nextHeader, found, selected, result, -⟩ := receiver.opened entry member
    exact ⟨sealed, nextHeader, found, selected, result⟩
  · intro index sealed found spi fresh near
    have member := mem_of_getElem? found
    obtain ⟨nonempty, nextHeader, selected, made⟩ := sender.genuine sealed member
    refine ⟨nextHeader, selected, ?_⟩
    have listed := sender.listed sealed member
    have new : ¬peers.Accepted sealed.association.spi sealed.association.sequence := by
      rintro ⟨entry, opened, other, at_index, same_spi, same_sequence⟩
      have keying := sender.keying_eq (mem_of_getElem? at_index) member
        fun apart => apart.spi same_spi
      have same := sender.distinct _ _ other sealed at_index found keying same_sequence
      exact fresh (mem_map.mpr ⟨entry, opened, same⟩)
    simp only [EspKeySet.openDatagram, if_neg (not_lt.mpr made.length_le), made.spi_eq,
      InboundAssociations.openDatagram, if_neg receiver.usable, if_pos spi]
    rcases receiver.current.openDatagram lawful receiver.matching listed nonempty made spi
        made.sequence_eq receiver.checked with ⟨old | far, -⟩ | ⟨window, -, result⟩
    · exact absurd (spi ▸ old) new
    · have positive : 0 < peers.receiver.inbound.current.replay.nextSequence := by omega
      have highest := receiver.current.tracks.highest positive
      rw [← spi] at highest
      have := near _ highest
      omega
    · rw [result]
  · intro first second left right leftAt rightAt shared equal
    have keying := sender.keying_eq (mem_of_getElem? leftAt) (mem_of_getElem? rightAt)
      fun apart => shared.elim apart.encryptionKey apart.authenticationKey
    exact sender.distinct first second left right leftAt rightAt keying equal

/-- Ciphers that change nothing. -/
def plainEsp : EspPrimitives where
  cbcEncrypt _ _ _ plaintext := plaintext
  cbcDecrypt _ _ _ ciphertext := ciphertext
  aesBlock _ _ input := input
  hmac _ _ _ := replicate 32 0

theorem plainEsp_lawful : plainEsp.Lawful where
  length_cbcEncrypt _ _ _ _ _ := rfl
  cbcDecrypt_cbcEncrypt _ _ _ _ _ := rfl
  icvLength_le authentication _ _ := by
    cases authentication <;> simp [plainEsp, EspAuthentication.icvLength]

def exampleMaterial (spi : UInt32) : EspKeyMaterial where
  spi := spi
  encryptionKey := replicate 16 0x11
  authenticationKey := replicate 16 0x22

/-- The configuration of one side, with its SPIs. -/
def exampleConfig (outbound inbound : UInt32) : EspKeySetConfig where
  encryption := .aes128Cbc
  authentication := .hmacMd5_96
  outbound := exampleMaterial outbound
  inbound := exampleMaterial inbound
  disableReplayProtection := false

def exampleAssociation (spi : UInt32) : SecurityAssociation where
  encryption := .aes128Cbc
  authentication := .hmacMd5_96
  spi := spi
  encryptionKey := replicate 16 0x11
  authenticationKey := replicate 16 0x22
  sequence := 0
  replay := .empty
  iv := Vector.replicate 16 0
  valid := true

def exampleKeys (outbound inbound : UInt32) : EspKeySet where
  outbound := exampleAssociation outbound
  inbound := {
    current := exampleAssociation inbound
    previous := none
    previousLimit := 0
    disableReplayProtection := false
    destroyed := false }

def examplePeers : EspPeers :=
  start (exampleKeys 1 2) (exampleKeys 2 1) (exampleConfig 1 2) (exampleConfig 2 1)

theorem examplePeers_reachable (crypto) : Reachable crypto examplePeers := by
  refine .start (exampleConfig 1 2) (exampleConfig 2 1) (.ok (Vector.replicate 16 0))
    (.ok (Vector.replicate 16 0)) _ _ (by decide) (by decide) ?_ rfl
  intro outbound outboundMember inbound inboundMember _
  rw [mem_singleton.mp outboundMember, mem_singleton.mp inboundMember]
  rfl

/-- One datagram, delivered twice. -/
theorem esp_delivers_once_example
    : let peers := ((examplePeers.step plainEsp (.sealPayload [0x45, 1] none)).step plainEsp
        (.deliver 0)).step plainEsp (.deliver 0)
      peers.opened = [(0, [0x45, 1], 4)] ∧ DeliversOnce plainEsp peers :=
  ⟨by decide +kernel, esp_delivers_once plainEsp plainEsp_lawful _
    (.step _ _ (.step _ _ (.step _ _ (examplePeers_reachable _) (cons_ne_nil _ _))
      trivial) trivial)⟩

/-- An empty payload is sealed when its header is given, but the datagram does not open. -/
theorem esp_refuses_empty_payload
    : let peers := examplePeers.step plainEsp (.sealPayload [] (some 4))
      ∃ sealed, peers.sealed = [sealed] ∧ peers.opened = []
        ∧ sealed.association.spi = peers.receiver.inbound.current.spi
        ∧ (peers.receiver.openDatagram plainEsp sealed.datagram).2
          = .error (.invalidDatagram "padding consumes payload") :=
  ⟨_, rfl, rfl, rfl, by decide +kernel⟩

end EspPeers

end Zay.OpenConnect
