import Zay.Endpoint.IpRewrite

/-! The packet that an ICMP error quotes reads back as it was rewritten. -/

namespace Zay.Endpoint

open Lib Net Option

namespace EmbeddedPacket

variable {before after packet : List UInt8} {outer : ParsedPacket} {embedded : EmbeddedPacket}

/-- The bytes that decide where the parts of the quoted packet are. -/
def Fixed (embedded : EmbeddedPacket) (index : Nat) : Prop :=
  index = embedded.ipOffset ∨ embedded.ipVersion = 4 ∧ index = embedded.ipOffset + 9
  ∨ embedded.ipVersion = 6
    ∧ (index = embedded.ipOffset + 6
      ∨ embedded.ipOffset + 40 ≤ index ∧ index < embedded.transportOffset)

structure Quoted (packet : List UInt8) (embedded : EmbeddedPacket) : Prop where
  version : embedded.ipVersion = 4 ∧ embedded.ipOffset + 20 ≤ embedded.transportOffset
    ∨ embedded.ipVersion = 6 ∧ embedded.ipOffset + 40 ≤ embedded.transportOffset
  fits : embedded.transportOffset ≤ packet.length
  finished : finish packet embedded.ipVersion embedded.protocol
    (addressAt packet embedded.ipVersion (embedded.ipOffset + 12) (embedded.ipOffset + 8))
    (addressAt packet embedded.ipVersion (embedded.ipOffset + 16) (embedded.ipOffset + 24))
    embedded.ipOffset embedded.ipHeaderLen embedded.transportOffset = some embedded

/-- A packet that quotes one with its parts where `embedded` has them. -/
def reread (embedded : EmbeddedPacket) (packet : List UInt8) : Option EmbeddedPacket :=
  finish packet embedded.ipVersion embedded.protocol
    (addressesAt packet embedded.ipVersion embedded.ipOffset).1
    (addressesAt packet embedded.ipVersion embedded.ipOffset).2 embedded.ipOffset
    embedded.ipHeaderLen embedded.transportOffset

/-- A packet with the same fixed bytes quotes a packet with its parts at the same places. -/
structure Located (packet : List UInt8) (outer : ParsedPacket) (embedded : EmbeddedPacket) : Prop
    extends Quoted packet embedded where
  parsed : parse packet outer = some embedded
  place : embedded.ipOffset = outer.transportOffset + 8
  places : ∀ after, Agrees packet after embedded.Fixed → parse after outer = embedded.reread after

variable {ipVersion ipOffset ipHeaderLen transportOffset : Nat} {protocol : UInt8}
  {source destination : SocketAddr} {result : List UInt8}

theorem finish_fields {source destination}
    (hf : finish packet ipVersion protocol source destination ipOffset ipHeaderLen
      transportOffset = some embedded)
    : embedded.ipVersion = ipVersion ∧ embedded.protocol = protocol
      ∧ embedded.ipOffset = ipOffset ∧ embedded.ipHeaderLen = ipHeaderLen
      ∧ embedded.transportOffset = transportOffset ∧ transportOffset ≤ packet.length
      ∧ ((protocol = 6 ∨ protocol = 17) ∧ transportOffset + 4 ≤ packet.length
        ∨ (protocol = 1 ∨ protocol = 58) ∧ transportOffset + 8 ≤ packet.length)
      ∧ (embedded.source.ip, embedded.destination.ip) = (source, destination) := by
  simp only [finish, ite_none_left_eq_some] at hf
  obtain ⟨hi, hf⟩ := hf
  split at hf
  next ports =>
    cases hf
    exact ⟨rfl, rfl, rfl, rfl, rfl, by omega, .inl ⟨ports.1, by omega⟩, rfl⟩
  obtain ⟨icmp, ⟨⟩⟩ := ite_none_right_eq_some.mp hf
  exact ⟨rfl, rfl, rfl, rfl, rfl, by omega, .inr ⟨icmp.1, by omega⟩, rfl⟩

theorem located_of_parse (hp : parse before outer = some embedded)
    : Located before outer embedded := by
  suffices hk : embedded.ipOffset = outer.transportOffset + 8
      ∧ (embedded.ipVersion = 4 ∧ embedded.ipOffset + 20 ≤ embedded.transportOffset
        ∨ embedded.ipVersion = 6 ∧ embedded.ipOffset + 40 ≤ embedded.transportOffset)
      ∧ ∀ after, Agrees before after embedded.Fixed → parse after outer = embedded.reread after by
    obtain ⟨place, version, places⟩ := hk
    have hf := (places before (.refl ..)).symm.trans hp
    obtain ⟨-, -, -, -, -, fits, -⟩ := finish_fields hf
    exact ⟨⟨version, fits, hf⟩, hp, place, places⟩
  obtain ⟨hq, hp⟩ := ite_none_left_eq_some.mp hp
  dsimp only at hp
  split at hp
  next version4 =>
    obtain ⟨sized, hf⟩ := ite_none_left_eq_some.mp hp
    obtain ⟨version, protocol, place, headerLen, offset, -⟩ := finish_fields hf
    refine ⟨place, .inl ⟨version, by omega⟩, fun after agrees => ?_⟩
    have first := byteAt_of_agrees agrees (.inl rfl)
    have kind := byteAt_of_agrees agrees (.inr (.inl ⟨version, rfl⟩))
    rw [place] at first kind
    simp only [parse]
    rw [agrees.length, if_neg hq, first, if_pos version4, if_neg sized, kind, reread,
      ← protocol, version, headerLen, offset, place]
    rfl
  next version4 =>
    obtain ⟨version6, hp⟩ := ite_none_right_eq_some.mp hp
    obtain ⟨sized, hp⟩ := ite_none_left_eq_some.mp hp
    split at hp
    · cases hp
    next _ protocol start fragment skipped =>
      obtain ⟨hc, hf⟩ := ite_none_left_eq_some.mp hp
      obtain ⟨version, protocol', place, headerLen, offset, -⟩ := finish_fields hf
      have ha : outer.transportOffset + 8 + 40 ≤ start := (skipExtensions_bounds skipped).1
      refine ⟨place, .inr ⟨version, by omega⟩, fun after agrees => ?_⟩
      have first := byteAt_of_agrees agrees (.inl rfl)
      have kind := byteAt_of_agrees agrees (.inr (.inr ⟨version, .inl rfl⟩))
      rw [place] at first kind
      have again := skipExtensions_of_agrees agrees skipped fun _ low high =>
        .inr (.inr ⟨version, .inr ⟨by rw [place]; exact low, by rw [offset]; exact high⟩⟩)
      simp only [parse]
      rw [agrees.length, if_neg hq, first, if_neg version4, if_pos version6, if_neg sized,
        kind, again]
      simp only [if_neg hc]
      rw [reread, ← protocol', version, headerLen, offset, place]
      rfl

section

variable (hq : Quoted packet embedded)

include hq

theorem Quoted.room
    : (embedded.protocol = 6 ∨ embedded.protocol = 17)
        ∧ embedded.transportOffset + 4 ≤ packet.length
      ∨ (embedded.protocol = 1 ∨ embedded.protocol = 58)
        ∧ embedded.transportOffset + 8 ≤ packet.length :=
  (finish_fields hq.finished).2.2.2.2.2.2.1

theorem Quoted.addresses
    : (embedded.source.ip, embedded.destination.ip)
      = addressesAt packet embedded.ipVersion embedded.ipOffset :=
  (finish_fields hq.finished).2.2.2.2.2.2.2

end

structure Rewritten (embedded : EmbeddedPacket) (source destination : SocketAddr)
    (before after : List UInt8)
    : Prop where
  agrees : Agrees before after fun index => index < embedded.ipOffset ∨ embedded.Fixed index
  sourceAddress :
    addressAt after embedded.ipVersion (embedded.ipOffset + 12) (embedded.ipOffset + 8)
      = source.ip
  destinationAddress :
    addressAt after embedded.ipVersion (embedded.ipOffset + 16) (embedded.ipOffset + 24)
      = destination.ip
  ports : embedded.protocol = 6 ∨ embedded.protocol = 17 →
    wordAt after embedded.transportOffset = source.port
    ∧ wordAt after (embedded.transportOffset + 2) = destination.port
  identifier : embedded.protocol = 1 ∨ embedded.protocol = 58 →
    wordAt after (embedded.transportOffset + 4) = source.port

/-- The transport header is quoted as far as rewriting needs it. -/
def Carries (packet : List UInt8) (embedded : EmbeddedPacket) : Prop :=
  embedded.protocol = 6 ∧ embedded.transportOffset + 4 ≤ packet.length
  ∨ embedded.protocol = 17 ∧ embedded.transportOffset + 8 ≤ packet.length
  ∨ (embedded.protocol = 1 ∨ embedded.protocol = 58)
    ∧ embedded.transportOffset + 8 ≤ packet.length

theorem Quoted.carries (hq : Quoted packet embedded)
    (hl : embedded.protocol = 17 → embedded.transportOffset + 8 ≤ packet.length)
    : Carries packet embedded := by
  rcases hq.room with ⟨tcp | udp, hr⟩ | icmp
  · exact .inl ⟨tcp, hr⟩
  · exact .inr (.inl ⟨udp, hl udp⟩)
  · exact .inr (.inr icmp)

/-- The bytes of a quoted transport header that rewriting keeps. -/
def TransportKept (embedded : EmbeddedPacket) (index : Nat) : Prop :=
  (embedded.protocol = 6 ∨ embedded.protocol = 17 →
    index < embedded.transportOffset ∨ embedded.transportOffset + 4 ≤ index)
  ∧ (embedded.protocol = 17 →
    index < embedded.transportOffset + 6 ∨ embedded.transportOffset + 8 ≤ index)
  ∧ (embedded.protocol = 1 ∨ embedded.protocol = 58 →
    index < embedded.transportOffset + 2 ∨ embedded.transportOffset + 6 ≤ index)

theorem agrees_rewriteEmbeddedTransport (packet embedded) (source destination : SocketAddr)
    : Agrees packet (rewriteEmbeddedTransport packet embedded source.ip source.port destination.ip
        destination.port) embedded.TransportKept := by
  unfold rewriteEmbeddedTransport
  simp only
  split
  next tcp =>
    exact (writeWords_spec (by omega) _ _).1.mono fun index keep => keep.1 (.inl tcp.1)
  split
  next udp =>
    have ports := writeWords_spec (by omega : embedded.transportOffset + 4 ≤ packet.length)
      source.port destination.port
    have kept := ports.1.mono fun index (keep : embedded.TransportKept index) =>
      keep.1 (.inr udp.1)
    split
    · refine kept.trans ((agrees_overwrite_word ?_ _).mono fun index keep => keep.2.1 udp.1)
      rw [kept.length]
      omega
    · exact kept
  split
  next icmp =>
    exact (writeWords_spec (by omega) _ _).1.mono fun index keep => keep.2.2 (.inl icmp.1)
  split
  next icmp =>
    exact (writeWords_spec (by omega) _ _).1.mono fun index keep => keep.2.2 (.inr icmp.1)
  · exact .refl ..

theorem wordAt_rewriteEmbeddedTransport (hc : Carries packet embedded)
    (hw : rewriteEmbeddedTransport packet embedded source.ip source.port destination.ip
      destination.port = result)
    : (embedded.protocol = 6 ∨ embedded.protocol = 17 →
        wordAt result embedded.transportOffset = source.port
        ∧ wordAt result (embedded.transportOffset + 2) = destination.port)
      ∧ (embedded.protocol = 1 ∨ embedded.protocol = 58 →
        wordAt result (embedded.transportOffset + 4) = source.port) := by
  rw [← hw, rewriteEmbeddedTransport]
  rcases hc with ⟨tcp, hr⟩ | ⟨udp, hr⟩ | ⟨icmp, hr⟩
  · have hg : embedded.protocol = 6 ∧ 4 ≤ packet.length - embedded.transportOffset :=
      ⟨tcp, by omega⟩
    simp only [if_pos hg]
    refine ⟨fun _ => (writeWords_spec hr source.port destination.port).2, fun icmp => ?_⟩
    rw [tcp] at icmp
    exact absurd icmp (by decide)
  · have notTcp : ¬(embedded.protocol = 6 ∧ 4 ≤ packet.length - embedded.transportOffset) := by
      rw [udp]
      exact fun tcp => absurd tcp.1 (by decide)
    have hg : embedded.protocol = 17 ∧ 8 ≤ packet.length - embedded.transportOffset :=
      ⟨udp, by omega⟩
    have notIcmp : ¬(embedded.protocol = 1 ∨ embedded.protocol = 58) := by
      rw [udp]
      decide
    simp only [if_neg notTcp, if_pos hg]
    obtain ⟨kept, words⟩ := writeWords_spec (by omega
      : embedded.transportOffset + 4 ≤ packet.length) source.port destination.port
    refine ⟨fun _ => ?_, fun icmp => absurd icmp notIcmp⟩
    split
    · have summed (checksum : UInt16) := agrees_overwrite_word (by rw [kept.length]; omega
        : embedded.transportOffset + 6 + 2 ≤ (writeWords packet embedded.transportOffset
          source.port destination.port).length) checksum
      rw [wordAt_of_agrees (summed _) fun index _ _ => .inl (by omega),
        wordAt_of_agrees (summed _) fun index _ _ => .inl (by omega)]
      exact words
    · exact words
  · obtain ⟨notTcp, notUdp⟩ := ParsedPacket.not_ports_of_icmp icmp
    have noPorts : ¬(embedded.protocol = 6 ∨ embedded.protocol = 17) := by
      rcases icmp with protocol | protocol <;> rw [protocol] <;> decide
    have hf : embedded.transportOffset + 2 + 4 ≤ packet.length := by omega
    refine ⟨fun ports => absurd ports noPorts, fun _ => ?_⟩
    simp only [if_neg (notTcp _), if_neg (notUdp _)]
    split
    · exact (writeWords_spec hf _ source.port).2.2
    next other =>
      rw [if_pos ⟨icmp.resolve_left fun protocol => other ⟨protocol, by omega⟩, by omega⟩]
      exact (writeWords_spec hf _ source.port).2.2

/-- The packet with the quoted IP header rewritten. -/
def rewriteEmbeddedHeader (packet : List UInt8) (embedded : EmbeddedPacket)
    (source destination : IpAddr)
    : List UInt8 :=
  recomputeIpChecksum
    (writeAddresses packet embedded.ipVersion embedded.ipOffset source destination)
    embedded.ipVersion embedded.ipOffset embedded.ipHeaderLen

section

variable (hq : Quoted packet embedded) (sourceFamily : Family embedded.ipVersion source.ip)
  (hd : Family embedded.ipVersion destination.ip)

include hq sourceFamily hd

theorem rewriteEmbeddedHeader_spec
    : Agrees packet (rewriteEmbeddedHeader packet embedded source.ip destination.ip) (fun index =>
        (embedded.ipVersion = 4 → index < embedded.ipOffset + 10 ∨ embedded.ipOffset + 20 ≤ index)
        ∧ (embedded.ipVersion ≠ 4 →
          index < embedded.ipOffset + 8 ∨ embedded.ipOffset + 40 ≤ index))
      ∧ addressesAt (rewriteEmbeddedHeader packet embedded source.ip destination.ip)
        embedded.ipVersion embedded.ipOffset = (source.ip, destination.ip) := by
  have version := hq.version
  have hf := hq.fits
  have hl : embedded.ipOffset + (if embedded.ipVersion = 4 then 20 else 40) ≤ packet.length := by
    split <;> omega
  have addressed := agrees_writeAddresses sourceFamily hd hl
  have addresses := addressesAt_writeAddresses sourceFamily hd hl
  unfold rewriteEmbeddedHeader
  generalize writeAddresses packet embedded.ipVersion embedded.ipOffset source.ip destination.ip
    = moved at addressed addresses ⊢
  have movedLen := addressed.length
  have summed : Agrees moved
      (recomputeIpChecksum moved embedded.ipVersion embedded.ipOffset embedded.ipHeaderLen) _ :=
    agrees_recomputeIpChecksum (by omega)
  constructor
  · refine (addressed.mono ?_).trans (summed.mono ?_)
    all_goals
      omega
  · rw [addressesAt_of_agrees summed ?_, addresses]
    intro index
    split <;> omega

theorem rewriteEmbeddedPacket_of_families
    : rewriteEmbeddedPacket packet embedded source.ip source.port destination.ip destination.port
      = .ok (rewriteEmbeddedTransport
        (rewriteEmbeddedHeader packet embedded source.ip destination.ip) embedded source.ip
        source.port destination.ip destination.port) := by
  have hf := hq.fits
  have length := (rewriteEmbeddedHeader_spec hq sourceFamily hd).1.length
  rw [rewriteEmbeddedPacket, if_neg (by simp_all [Family])]
  simp only
  rw [← rewriteEmbeddedHeader, if_neg (by omega)]

/-- The quoted packet is rewritten and nothing in front of it is. -/
theorem rewriteEmbeddedPacket_eq (hc : Carries packet embedded)
    : ∃ result, rewriteEmbeddedPacket packet embedded source.ip source.port destination.ip
        destination.port = .ok result
      ∧ embedded.Rewritten source destination packet result := by
  have version := hq.version
  obtain ⟨headed, addresses⟩ := rewriteEmbeddedHeader_spec hq sourceFamily hd
  refine ⟨_, rewriteEmbeddedPacket_of_families hq sourceFamily hd, ?_⟩
  generalize rewriteEmbeddedHeader packet embedded source.ip destination.ip = header
    at headed addresses ⊢
  have carried : Carries header embedded := by
    unfold Carries at hc ⊢
    rwa [headed.length]
  have hk := agrees_rewriteEmbeddedTransport header embedded source destination
  obtain ⟨ports, identifier⟩ := wordAt_rewriteEmbeddedTransport carried rfl
  rw [← addressesAt_of_agrees hk] at addresses
  · obtain ⟨first, second⟩ := Prod.mk.inj addresses
    refine ⟨(headed.mono ?_).trans (hk.mono ?_), first, second, ports, identifier⟩
    all_goals
      simp only [Fixed, TransportKept]
      omega
  · unfold TransportKept
    intro index
    split <;> omega

end

/-- Whether the quote can be rewritten is a matter of the addresses alone. -/
theorem Quoted.of_rewriteEmbeddedPacket {source destination sourcePort destinationPort}
    (hq : Quoted packet embedded)
    (hr : rewriteEmbeddedPacket packet embedded source sourcePort destination
      destinationPort = .ok result)
    : Family embedded.ipVersion source ∧ Family embedded.ipVersion destination
      ∧ result.length = packet.length
      ∧ addressesAt result embedded.ipVersion embedded.ipOffset = (source, destination) := by
  have families : Family embedded.ipVersion source ∧ Family embedded.ipVersion destination := by
    unfold rewriteEmbeddedPacket at hr
    split at hr
    · cases hr
    next he =>
      simp only [ne_eq, not_or, not_not] at he
      exact ⟨Bool.eq_iff_iff.mpr (by simp [he.1]), Bool.eq_iff_iff.mpr (by simp [he.2])⟩
  have first : Family embedded.ipVersion (SocketAddr.mk source sourcePort).ip := families.1
  have second : Family embedded.ipVersion (SocketAddr.mk destination destinationPort).ip :=
    families.2
  rw [rewriteEmbeddedPacket_of_families hq first second] at hr
  cases hr
  obtain ⟨headed, addresses⟩ := rewriteEmbeddedHeader_spec hq first second
  have hk := agrees_rewriteEmbeddedTransport (rewriteEmbeddedHeader packet embedded source
    destination) embedded ⟨source, sourcePort⟩ ⟨destination, destinationPort⟩
  refine ⟨first, second, hk.length.trans headed.length, ?_⟩
  rw [addressesAt_of_agrees hk]
  · exact addresses
  · have version := hq.version
    unfold TransportKept
    intro index
    split <;> omega

theorem Rewritten.parse (hw : embedded.Rewritten source destination packet result)
    (hl : Located packet outer embedded)
    : EmbeddedPacket.parse result outer = some { embedded with
      source
      destination := ⟨destination.ip,
        if embedded.protocol = 6 ∨ embedded.protocol = 17 then destination.port
        else source.port⟩ } := by
  have hr := hl.room
  have length := hw.agrees.length
  have hf := hl.fits
  rw [hl.places result (hw.agrees.mono fun _ => .inr), reread, addressesAt, finish,
    if_neg (by omega), hw.sourceAddress, hw.destinationAddress]
  by_cases ports : embedded.protocol = 6 ∨ embedded.protocol = 17
  · have hg : (embedded.protocol = 6 ∨ embedded.protocol = 17)
        ∧ 4 ≤ result.length - embedded.transportOffset :=
      ⟨ports, by omega⟩
    obtain ⟨first, second⟩ := hw.ports ports
    simp [if_pos hg, if_pos ports, first, second]
  have icmp := (hr.resolve_left fun held => ports held.1)
  have hg : (embedded.protocol = 1 ∨ embedded.protocol = 58)
      ∧ 8 ≤ result.length - embedded.transportOffset :=
    ⟨icmp.1, by omega⟩
  have noPorts : ¬((embedded.protocol = 6 ∨ embedded.protocol = 17)
      ∧ 4 ≤ result.length - embedded.transportOffset) := fun held => ports held.1
  simp [if_neg noPorts, if_pos hg, if_neg ports, hw.identifier icmp.1]

/-- What stands in front of the quote does not count for it. -/
theorem parse_of_same_quote (hp : parse before outer = some embedded)
    (agrees : Agrees before after (outer.transportOffset + 8 ≤ ·))
    : parse after outer = some embedded := by
  have hl := located_of_parse hp
  have place := hl.place
  have version := hl.version
  have fixed : ∀ index, embedded.Fixed index → outer.transportOffset + 8 ≤ index := by
    unfold Fixed
    omega
  have wordKept (offset : Nat) (ha : embedded.transportOffset ≤ offset)
      : wordAt after offset = wordAt before offset :=
    wordAt_of_agrees agrees fun index _ _ => by omega
  rw [hl.places after (agrees.mono fixed), reread, addressesAt_of_agrees agrees
    fun index low _ => by split at low <;> omega]
  refine Eq.trans ?_ hl.finished
  unfold finish addressesAt
  rw [agrees.length, wordKept _ (le_refl _), wordKept _ (Nat.le_add_right ..),
    wordKept _ (Nat.le_add_right ..)]

end EmbeddedPacket

end Zay.Endpoint
