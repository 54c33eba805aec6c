import Zay.Endpoint.IpPacket

/-! A rewritten packet reads back with the addresses and selectors that were written and is
otherwise the packet it was.
-/

namespace Zay.Endpoint

open Lib Net ParsedPacket List Option BitVec

@[simp] theorem length_wordBytes (word : UInt16) : (wordBytes word).length = 2 :=
  length_toBigEndian 2 _

/-- The address of a header of `ipVersion` whose fields for IPv4 and IPv6 are at the offsets
given.
-/
def addressAt (packet : List UInt8) (ipVersion offset4 offset6 : Nat) : IpAddr :=
  if ipVersion = 4 then ipv4At packet offset4 else ipv6At packet offset6

/-- Source and destination in the header at `base`. -/
def addressesAt (packet : List UInt8) (ipVersion base : Nat) : IpAddr × IpAddr :=
  (addressAt packet ipVersion (base + 12) (base + 8),
    addressAt packet ipVersion (base + 16) (base + 24))

section Fields

variable {before after packet : List UInt8} {kept : Nat → Prop} {offset : Nat}

theorem byteAt_of_agrees (ha : Agrees before after kept) (keep : kept offset)
    : byteAt after offset = byteAt before offset := by
  simp [byteAt, ha.same offset keep]

theorem wordAt_of_agrees (ha : Agrees before after kept)
    (hw : ∀ index, offset ≤ index → index < offset + 2 → kept index)
    : wordAt after offset = wordAt before offset := by
  rw [wordAt, ha.slice hw, wordAt]

theorem ofBigEndian_slice_overwrite {count value} (fits : offset + count ≤ packet.length)
    (hs : value < 256 ^ count)
    : ofBigEndian (slice (overwrite packet offset (toBigEndian count value)) offset count)
      = value := by
  have length := length_toBigEndian count value
  have fits' : offset + (toBigEndian count value).length ≤ packet.length := by rwa [length]
  have read := slice_overwrite fits'
  rw [length] at read
  rw [read, ofBigEndian_toBigEndian hs]

theorem wordAt_overwrite (fits : offset + 2 ≤ packet.length) (word : UInt16)
    : wordAt (overwrite packet offset (wordBytes word)) offset = word := by
  rw [wordAt, wordBytes, ofBigEndian_slice_overwrite fits word.toNat_lt, UInt16.ofNat_toNat]

theorem ipv4At_overwrite (fits : offset + 4 ≤ packet.length) (bits : BitVec 32)
    : ipv4At (overwrite packet offset (addressBytes (.v4 bits))) offset = .v4 bits := by
  rw [ipv4At, addressBytes, ofBigEndian_slice_overwrite fits bits.isLt, ofNat_toNat, setWidth_eq]

theorem ipv6At_overwrite (fits : offset + 16 ≤ packet.length) (bits : BitVec 128)
    : ipv6At (overwrite packet offset (addressBytes (.v6 bits))) offset = .v6 bits := by
  rw [ipv6At, addressBytes, ofBigEndian_slice_overwrite fits bits.isLt, ofNat_toNat, setWidth_eq]

theorem agrees_overwrite_word (fits : offset + 2 ≤ packet.length) (word : UInt16)
    : Agrees packet (overwrite packet offset (wordBytes word))
      fun index => index < offset ∨ offset + 2 ≤ index :=
  agrees_overwrite (by simpa using fits) (fun index keep => by simpa using keep)

theorem writeWords_spec (fits : offset + 4 ≤ packet.length) (first second : UInt16)
    : Agrees packet (writeWords packet offset first second)
        (fun index => index < offset ∨ offset + 4 ≤ index)
      ∧ wordAt (writeWords packet offset first second) offset = first
      ∧ wordAt (writeWords packet offset first second) (offset + 2) = second := by
  have begun := agrees_overwrite_word (le_trans (by omega) fits : offset + 2 ≤ _) first
  have fits' : offset + 2 + 2 ≤ (overwrite packet offset (wordBytes first)).length := by
    rw [begun.length]
    omega
  have done := agrees_overwrite_word fits' second
  refine ⟨(begun.mono fun index keep => ?_).trans (done.mono fun index keep => ?_), ?_,
    wordAt_overwrite fits' second⟩
  · omega
  · omega
  · exact (wordAt_of_agrees done fun index _ _ => .inl (by omega)).trans
      (wordAt_overwrite (by omega) first)

end Fields

--------
-- What parsing reads
--------

variable {packetLen offset : Nat} {protocol : UInt8} {found : UInt8 × Nat × Bool}

theorem skipExtensions_bounds {packet}
    (skipped : skipExtensions packet packetLen protocol offset = some found)
    : offset ≤ found.2.1 ∧ (offset ≤ packetLen → found.2.1 ≤ packetLen) := by
  fun_induction skipExtensions packet packetLen protocol offset with
  | case1 => cases skipped
  | case2 => cases skipped
  | case3 protocol offset extension long length fits ih =>
    obtain ⟨low, high⟩ := ih skipped
    exact ⟨by omega, fun _ => high (by omega)⟩
  | case4 => cases skipped; exact ⟨le_refl _, id⟩
  | case5 => cases skipped; exact ⟨le_refl _, id⟩

variable {kept : Nat → Prop} {before after : List UInt8} {ipHeaderLen transportOffset : Nat}

/-- Only the extension headers themselves are read. -/
theorem skipExtensions_of_agrees (ha : Agrees before after kept)
    (skipped : skipExtensions before packetLen protocol offset = some found)
    (hw : ∀ index, offset ≤ index → index < found.2.1 → kept index)
    : skipExtensions after packetLen protocol offset = some found := by
  fun_induction skipExtensions before packetLen protocol offset with
  | case1 => cases skipped
  | case2 => cases skipped
  | case3 protocol offset extension long length fits ih =>
    have low := (skipExtensions_bounds skipped).1
    have next := ih skipped (fun index above => hw index (by omega))
    have size : byteAt after (offset + 1) = byteAt before (offset + 1) :=
      byteAt_of_agrees ha (hw _ (by omega) (by omega))
    have kind : byteAt after offset = byteAt before offset :=
      byteAt_of_agrees ha (hw _ (by omega) (by omega))
    rw [skipExtensions, if_pos extension, if_neg long, size, if_neg fits, kind]
    exact next
  | case4 offset other =>
    rw [skipExtensions, if_neg other, if_pos rfl]
    exact skipped
  | case5 protocol offset other whole =>
    rw [skipExtensions, if_neg other, if_neg whole]
    exact skipped

namespace ParsedPacket

/-- A packet that was parsed whole. -/
structure Whole (packet : List UInt8) (header : ParsedPacket) : Prop where
  version : header.ipVersion = 4 ∧ 20 ≤ header.transportOffset
    ∨ header.ipVersion = 6 ∧ 40 ≤ header.transportOffset
  inside : header.transportOffset ≤ header.packetLen
  fits : header.packetLen ≤ packet.length
  finished : finish packet header.ipVersion header.protocol
    (addressAt packet header.ipVersion 12 8) (addressAt packet header.ipVersion 16 24)
    header.ipHeaderLen header.transportOffset header.packetLen false = some header

/-- The bytes that decide where the parts of a packet are. -/
def Fixed (header : ParsedPacket) (index : Nat) : Prop :=
  index < 8 ∨ header.ipVersion = 4 ∧ index = 9
  ∨ header.ipVersion = 6 ∧ 40 ≤ index ∧ index < header.transportOffset

/-- A packet with its parts where the header has them. -/
def reread (header : ParsedPacket) (packet : List UInt8) : Option ParsedPacket :=
  finish packet header.ipVersion header.protocol (addressAt packet header.ipVersion 12 8)
    (addressAt packet header.ipVersion 16 24) header.ipHeaderLen header.transportOffset
    header.packetLen false

/-- A packet with the same fixed bytes has its parts at the same places. -/
structure Located (packet : List UInt8) (header : ParsedPacket) : Prop
    extends Whole packet header where
  parsed : parse packet = some header
  complete : header.fragmented = false
  places : ∀ after, Agrees packet after header.Fixed → parse after = header.reread after

variable {packet : List UInt8} {header : ParsedPacket}

theorem finish_fields {ipVersion source destination fragmented}
    (hf : finish packet ipVersion protocol source destination ipHeaderLen transportOffset
      packetLen fragmented = some header)
    : header.ipVersion = ipVersion ∧ header.protocol = protocol
      ∧ header.ipHeaderLen = ipHeaderLen ∧ header.transportOffset = transportOffset
      ∧ header.packetLen = packetLen ∧ header.fragmented = fragmented := by
  unfold finish at hf
  split at hf
  · cases hf
    simp_all
  split at hf
  · cases hf
  cases hf
  simp_all

theorem located_of_parse (hp : parse before = some header) (hc : header.fragmented = false)
    : Located before header := by
  have byteKept {after : List UInt8} (agrees : Agrees before after header.Fixed) (offset : Nat)
      (hs : offset < 8)
      : byteAt after offset = byteAt before offset :=
    byteAt_of_agrees agrees (.inl hs)
  have wordKept {after : List UInt8} (agrees : Agrees before after header.Fixed) (offset : Nat)
      (hs : offset ≤ 6)
      : wordAt after offset = wordAt before offset :=
    wordAt_of_agrees agrees fun index _ high => .inl (by omega)
  have emptyKept {after : List UInt8} (agrees : Agrees before after header.Fixed)
      : after.isEmpty = before.isEmpty := by
    rw [Bool.eq_iff_iff, isEmpty_iff_length_eq_zero, isEmpty_iff_length_eq_zero, agrees.length]
  suffices hk : (header.ipVersion = 4 ∧ 20 ≤ header.transportOffset
        ∨ header.ipVersion = 6 ∧ 40 ≤ header.transportOffset)
      ∧ header.transportOffset ≤ header.packetLen ∧ header.packetLen ≤ before.length
      ∧ ∀ after, Agrees before after header.Fixed → parse after = header.reread after by
    obtain ⟨hv, inside, fits, places⟩ := hk
    have hf := (places before (.refl ..)).symm.trans hp
    exact ⟨⟨hv, inside, fits, hf⟩, hp, hc, places⟩
  unfold parse at hp
  split at hp
  · cases hp
  rename_i filled
  split at hp
  next version4 =>
    simp only [parseV4, ite_none_left_eq_some] at hp
    obtain ⟨hl, sized, hf⟩ := hp
    obtain ⟨hv, protocol, headerLen, offset, len, fragmented⟩ := finish_fields hf
    refine ⟨.inl ⟨hv, by omega⟩, by omega, by omega, fun after agrees => ?_⟩
    have kind : byteAt after 9 = byteAt before 9 :=
      byteAt_of_agrees agrees (.inr (.inl ⟨hv, rfl⟩))
    rw [parse, emptyKept agrees, if_neg filled, byteKept agrees 0 (by omega), if_pos version4,
      parseV4, agrees.length, if_neg hl]
    simp only [byteKept agrees 0, wordKept agrees 2, wordKept agrees 6, kind, Nat.reduceLeDiff,
      Nat.reduceLT, le_refl]
    rw [if_neg sized, reread, ← protocol, ← fragmented, hc, hv, headerLen, offset, len]
    rfl
  split at hp
  next version4 version6 =>
    simp only [parseV6, ite_none_left_eq_some] at hp
    obtain ⟨hl, sized, hp⟩ := hp
    split at hp
    · cases hp
    next _ protocol start fragment skipped =>
      obtain ⟨hv, protocol', headerLen, offset, len, fragmented⟩ := finish_fields hp
      have bounds : 40 ≤ start ∧ (40 ≤ _ → start ≤ _) := skipExtensions_bounds skipped
      refine ⟨.inr ⟨hv, by omega⟩, ?_, by omega, fun after agrees => ?_⟩
      · rw [offset, len]
        exact bounds.2 (Nat.le_add_right ..)
      · have again := skipExtensions_of_agrees agrees skipped fun index low high =>
          .inr (.inr ⟨hv, low, by rw [offset]; exact high⟩)
        rw [parse, emptyKept agrees, if_neg filled, byteKept agrees 0 (by omega), if_neg version4,
          if_pos version6, parseV6, agrees.length, if_neg hl]
        simp only [wordKept agrees 4 (by omega), byteKept agrees 6 (by omega)]
        rw [if_neg sized, again]
        rw [reread, ← protocol', ← fragmented, hc, hv, headerLen, offset, len]
        rfl
  · cases hp

/-- There is a transport header to rewrite. -/
def Carries (header : ParsedPacket) : Prop :=
  header.protocol = 6 ∧ header.transportOffset + 20 ≤ header.packetLen
  ∨ header.protocol = 17 ∧ header.transportOffset + 8 ≤ header.packetLen
  ∨ (header.protocol = 1 ∨ header.protocol = 58)
    ∧ header.transportOffset + 8 ≤ header.packetLen

theorem not_ports_of_icmp (icmp : protocol = 1 ∨ protocol = 58)
    : (∀ long, ¬(protocol = 6 ∧ long)) ∧ ∀ long, ¬(protocol = 17 ∧ long) := by
  rcases icmp with rfl | rfl <;> simp

/-- What the transport header says, read where the header has it. -/
abbrev selectorsOf (header : ParsedPacket) (packet : List UInt8)
    : UInt16 × UInt16 × UInt8 × UInt8 × Bool :=
  selectors packet header.protocol header.transportOffset header.transportLen

theorem Whole.selectors (hw : Whole packet header)
    : header = { header with
      source := ⟨addressAt packet header.ipVersion 12 8, (header.selectorsOf packet).1⟩
      destination := ⟨addressAt packet header.ipVersion 16 24, (header.selectorsOf packet).2.1⟩
      tcpFlags := (header.selectorsOf packet).2.2.1
      icmpType := (header.selectorsOf packet).2.2.2.1
      hasFlow := (header.selectorsOf packet).2.2.2.2
      fragmented := false } := by
  have hf := hw.finished
  have fits := hw.fits
  have inside := hw.inside
  rw [finish, if_neg (by decide), if_neg (by omega)] at hf
  exact (some.inj hf).symm

theorem Whole.carries (hw : Whole packet header) (useful : header.hasFlow ∨ header.isIcmpError)
    : header.Carries := by
  have shape := hw.selectors
  unfold selectorsOf ParsedPacket.selectors transportLen at shape
  by_cases tcp : header.protocol = 6 ∧ 20 ≤ header.packetLen - header.transportOffset
  · exact .inl ⟨tcp.1, by omega⟩
  by_cases udp : header.protocol = 17 ∧ 8 ≤ header.packetLen - header.transportOffset
  · exact .inr (.inl ⟨udp.1, by omega⟩)
  by_cases icmp : (header.protocol = 1 ∨ header.protocol = 58)
      ∧ 8 ≤ header.packetLen - header.transportOffset
  · exact .inr (.inr ⟨icmp.1, by omega⟩)
  rw [if_neg tcp, if_neg udp, if_neg icmp] at shape
  rw [shape] at useful
  simp [isIcmpError] at useful

end ParsedPacket

def Family (ipVersion : Nat) (address : IpAddr) : Prop := address.isIpv4 = decide (ipVersion = 4)

section Writing

variable {packet : List UInt8} {ipVersion base : Nat} {source destination : IpAddr}

section

variable (family : Family ipVersion source)
include family

theorem Family.exists_v4 (hv : ipVersion = 4) : ∃ bits, source = .v4 bits := by
  cases source with
  | v4 bits => exact ⟨bits, rfl⟩
  | v6 bits => simp [Family, IpAddr.isIpv4, hv] at family

theorem Family.exists_v6 (hv : ipVersion ≠ 4) : ∃ bits, source = .v6 bits := by
  cases source with
  | v4 bits => simp [Family, IpAddr.isIpv4, hv] at family
  | v6 bits => exact ⟨bits, rfl⟩

theorem length_addressBytes : (addressBytes source).length = if ipVersion = 4 then 4 else 16 := by
  by_cases hv : ipVersion = 4
  · obtain ⟨bits, rfl⟩ := family.exists_v4 hv
    rw [if_pos hv]
    exact length_toBigEndian 4 _
  obtain ⟨bits, rfl⟩ := family.exists_v6 hv
  rw [if_neg hv]
  exact length_toBigEndian 16 _

end

theorem addressesAt_of_agrees (ha : Agrees before after kept)
    (hw : ∀ index, base + (if ipVersion = 4 then 12 else 8) ≤ index →
      index < base + (if ipVersion = 4 then 20 else 40) → kept index)
    : addressesAt after ipVersion base = addressesAt before ipVersion base := by
  unfold addressesAt addressAt
  split
  next hv =>
    simp only [if_pos hv] at hw
    rw [ipv4At, ipv4At, ha.slice fun index _ _ => hw index (by omega) (by omega),
      ha.slice fun index _ _ => hw index (by omega) (by omega), ipv4At, ipv4At]
  next hv =>
    simp only [if_neg hv] at hw
    rw [ipv6At, ipv6At, ha.slice fun index _ _ => hw index (by omega) (by omega),
      ha.slice fun index _ _ => hw index (by omega) (by omega), ipv6At, ipv6At]

section

variable (hsf : Family ipVersion source) (hd : Family ipVersion destination)
  (fits : base + (if ipVersion = 4 then 20 else 40) ≤ packet.length)

include hsf hd fits

theorem agrees_writeAddresses
    : Agrees packet (writeAddresses packet ipVersion base source destination) fun index =>
      (ipVersion = 4 → index < base + 12 ∨ base + 20 ≤ index)
      ∧ (ipVersion ≠ 4 → index < base + 8 ∨ base + 40 ≤ index) := by
  have sourceLen := length_addressBytes hsf
  have destinationLen := length_addressBytes hd
  unfold writeAddresses
  by_cases hv : ipVersion = 4
  all_goals
    simp only [hv, ↓reduceIte] at fits sourceLen destinationLen ⊢
    refine (agrees_overwrite (by omega) fun index keep => ?_).trans
      (agrees_overwrite (by rw [length_overwrite (by omega)]; omega) fun index keep => ?_)
    all_goals
      simp at keep
      omega

theorem addressesAt_writeAddresses
    : addressesAt (writeAddresses packet ipVersion base source destination) ipVersion base
      = (source, destination) := by
  have sourceLen := length_addressBytes hsf
  have destinationLen := length_addressBytes hd
  unfold writeAddresses addressesAt addressAt
  by_cases hv : ipVersion = 4
  · obtain ⟨bits, rfl⟩ := hsf.exists_v4 hv
    obtain ⟨bits', rfl⟩ := hd.exists_v4 hv
    simp only [hv, ↓reduceIte] at fits sourceLen destinationLen ⊢
    rw [ipv4At, slice_overwrite_before (by rw [length_overwrite] <;> omega) (by omega), ← ipv4At,
      ipv4At_overwrite (by omega), ipv4At_overwrite (by rw [length_overwrite] <;> omega)]
  obtain ⟨bits, rfl⟩ := hsf.exists_v6 hv
  obtain ⟨bits', rfl⟩ := hd.exists_v6 hv
  simp only [hv, ↓reduceIte] at fits sourceLen destinationLen ⊢
  rw [ipv6At, slice_overwrite_before (by rw [length_overwrite] <;> omega) (by omega), ← ipv6At,
    ipv6At_overwrite (by omega), ipv6At_overwrite (by rw [length_overwrite] <;> omega)]

end

theorem agrees_recomputeIpChecksum (fits : base + 12 ≤ packet.length)
    : Agrees packet (recomputeIpChecksum packet ipVersion base ipHeaderLen)
      fun index => ipVersion = 4 → index < base + 10 ∨ base + 12 ≤ index := by
  unfold recomputeIpChecksum
  split
  next hv =>
    have blank : Agrees packet (overwrite packet (base + 10) [0, 0])
        fun index => index < base + 10 ∨ base + 12 ≤ index :=
      agrees_overwrite fits fun index keep => keep
    refine (blank.trans (agrees_overwrite_word ?_ _)).mono fun index keep => keep hv
    rw [blank.length]
    exact fits
  · exact .refl ..

theorem recomputeChecksums_eq {header} (hc : checksumOffset header.protocol = some offset)
    (hl : header.transportOffset + offset + 2 ≤ header.packetLen)
    (fits : header.packetLen ≤ packet.length) (headed : 12 ≤ packet.length)
    : ∃ result, recomputeChecksums packet header = .ok result
      ∧ Agrees packet result fun index => (header.ipVersion = 4 → index < 10 ∨ 12 ≤ index)
        ∧ (index < header.transportOffset + offset
          ∨ header.transportOffset + offset + 2 ≤ index) := by
  have first : Agrees packet (recomputeIpChecksum packet header.ipVersion 0 header.ipHeaderLen)
      fun index => (header.ipVersion = 4 → index < 10 ∨ 12 ≤ index)
        ∧ (index < header.transportOffset + offset
          ∨ header.transportOffset + offset + 2 ≤ index) :=
    (agrees_recomputeIpChecksum (by omega)).mono fun index keep => by omega
  unfold recomputeChecksums
  generalize recomputeIpChecksum packet header.ipVersion 0 header.ipHeaderLen = summed at first ⊢
  have length := first.length
  have hr : header.transportOffset + offset + 2 ≤ summed.length := by omega
  have zeroed : Agrees summed (overwrite summed (header.transportOffset + offset) [0, 0]) _ :=
    agrees_overwrite (by exact hr) fun index keep => keep
  have blank := first.trans (zeroed.mono fun index keep => keep.2)
  simp only [hc]
  rw [if_neg (by omega), if_neg (by unfold transportLen; omega)]
  split
  · exact ⟨_, rfl, blank⟩
  refine ⟨_, rfl, blank.trans ((agrees_overwrite_word ?_ _).mono fun index keep => keep.2)⟩
  rw [blank.length]
  omega

end Writing

--------
-- A rewritten packet
--------

namespace ParsedPacket

/-- The bytes that rewriting a packet keeps. -/
def Kept (header : ParsedPacket) (index : Nat) : Prop :=
  header.Fixed index ∨ header.protocol = 6 ∧ index = header.transportOffset + 13
  ∨ (header.protocol = 1 ∨ header.protocol = 58)
    ∧ (index = header.transportOffset ∨ header.transportOffset + 8 ≤ index)

structure Rewritten (header : ParsedPacket) (rewrite : Rewrite) (before after : List UInt8)
    : Prop where
  agrees : Agrees before after header.Kept
  source : addressAt after header.ipVersion 12 8 = rewrite.sourceAddress
  destination : addressAt after header.ipVersion 16 24 = rewrite.destinationAddress
  ports : header.protocol = 6 ∨ header.protocol = 17 →
    wordAt after header.transportOffset = rewrite.sourceSelector
    ∧ wordAt after (header.transportOffset + 2) = rewrite.destinationSelector
  identifier : header.protocol = 1 ∨ header.protocol = 58 →
    wordAt after (header.transportOffset + 4) = rewrite.sourceSelector

/-- The transport header from its selectors up to the checksum. -/
def selectorSpan (header : ParsedPacket) : Nat × Nat :=
  if header.protocol = 6 ∨ header.protocol = 17 then (0, 4) else (4, 6)

variable {packet : List UInt8} {header : ParsedPacket} {rewrite : Rewrite}

theorem Carries.layout (carries : header.Carries)
    : header.protocol = 6 ∧ checksumOffset header.protocol = some 16
        ∧ header.selectorSpan = (0, 4) ∧ header.transportOffset + 20 ≤ header.packetLen
      ∨ header.protocol = 17 ∧ checksumOffset header.protocol = some 6
        ∧ header.selectorSpan = (0, 4) ∧ header.transportOffset + 8 ≤ header.packetLen
      ∨ (header.protocol = 1 ∨ header.protocol = 58) ∧ checksumOffset header.protocol = some 2
        ∧ header.selectorSpan = (4, 6) ∧ header.transportOffset + 8 ≤ header.packetLen := by
  unfold selectorSpan checksumOffset
  rcases carries with ⟨protocol, hl⟩ | ⟨protocol, hl⟩ | ⟨protocol | protocol, hl⟩
  · exact .inl (by simp [protocol, hl])
  · exact .inr (.inl (by simp [protocol, hl]))
  · exact .inr (.inr (by simp [protocol, hl]))
  · exact .inr (.inr (by simp [protocol, hl]))

theorem Carries.checksum (carries : header.Carries)
    : ∃ offset, checksumOffset header.protocol = some offset
      ∧ header.transportOffset + offset + 2 ≤ header.packetLen
      ∧ (offset + 2 ≤ header.selectorSpan.1 ∨ header.selectorSpan.2 ≤ offset)
      ∧ header.transportOffset + header.selectorSpan.2 ≤ header.packetLen ∧ 2 ∣ offset := by
  rcases carries.layout with ⟨-, hc, span, hl⟩ | ⟨-, hc, span, hl⟩
    | ⟨-, hc, span, hl⟩
  all_goals
    rw [span]
    exact ⟨_, hc, by omega, by omega, by omega, by decide⟩

/-- Apart from the addresses, the selectors and the checksums. -/
def Apart (header : ParsedPacket) (index : Nat) : Prop :=
  (header.ipVersion = 4 → index < 10 ∨ 20 ≤ index)
  ∧ (header.ipVersion ≠ 4 → index < 8 ∨ 40 ≤ index)
  ∧ (index < header.transportOffset + header.selectorSpan.1
    ∨ header.transportOffset + header.selectorSpan.2 ≤ index)
  ∧ ∀ offset, checksumOffset header.protocol = some offset →
    index < header.transportOffset + offset ∨ header.transportOffset + offset + 2 ≤ index

/-- There are headers of the two versions in front of the transport. -/
abbrev Headed (header : ParsedPacket) : Prop :=
  header.ipVersion = 4 ∧ 20 ≤ header.transportOffset
  ∨ header.ipVersion = 6 ∧ 40 ≤ header.transportOffset

theorem Kept.apart {index} (keep : header.Kept index) (hv : header.Headed)
    (carries : header.Carries)
    : header.Apart index := by
  rcases carries.layout with ⟨kind, place, span, -⟩ | ⟨kind, place, span, -⟩
    | ⟨kind | kind, place, span, -⟩
  all_goals
    simp only [Kept, Fixed, Apart, kind, span] at keep ⊢
    rw [← kind, place]
    simp at keep ⊢
    omega

theorem agrees_writeSelectors (packet rewrite) (carries : header.Carries)
    (fits : header.packetLen ≤ packet.length)
    : Agrees packet (writeSelectors packet header rewrite) fun index =>
      index < header.transportOffset + header.selectorSpan.1
      ∨ header.transportOffset + header.selectorSpan.2 ≤ index := by
  obtain ⟨-, -, -, -, hr, -⟩ := carries.checksum
  unfold writeSelectors selectorSpan at *
  split
  next ports =>
    simp only [ports, ↓reduceIte] at hr ⊢
    exact (writeWords_spec (le_trans hr fits) _ _).1
  next noPorts =>
    simp only [noPorts, ↓reduceIte] at hr ⊢
    split
    · exact (agrees_overwrite_word (by omega) _).mono fun index keep => by omega
    · exact .refl ..

/-- The selectors of the rewrite stand in the transport header. -/
def Selected (header : ParsedPacket) (rewrite : Rewrite) (packet : List UInt8) : Prop :=
  (header.protocol = 6 ∨ header.protocol = 17 →
    wordAt packet header.transportOffset = rewrite.sourceSelector
    ∧ wordAt packet (header.transportOffset + 2) = rewrite.destinationSelector)
  ∧ (header.protocol = 1 ∨ header.protocol = 58 →
    wordAt packet (header.transportOffset + 4) = rewrite.sourceSelector)

theorem selected_writeSelectors (packet rewrite) (carries : header.Carries)
    (fits : header.packetLen ≤ packet.length)
    : header.Selected rewrite (writeSelectors packet header rewrite) := by
  obtain ⟨-, -, -, -, hr, -⟩ := carries.checksum
  unfold writeSelectors selectorSpan at *
  constructor
  · intro ports
    simp only [ports, ↓reduceIte] at hr ⊢
    exact (writeWords_spec (le_trans hr fits) _ _).2
  · intro icmp
    have noPorts : ¬(header.protocol = 6 ∨ header.protocol = 17) := by
      rcases icmp with protocol | protocol <;> simp [protocol]
    simp only [noPorts, icmp, ↓reduceIte] at hr ⊢
    exact wordAt_overwrite (by omega) _

theorem Selected.of_agrees {kept : Nat → Prop} (hs : header.Selected rewrite packet)
    (ha : Agrees packet after kept)
    (hw : ∀ index, header.transportOffset + header.selectorSpan.1 ≤ index →
      index < header.transportOffset + header.selectorSpan.2 → kept index)
    : header.Selected rewrite after := by
  constructor
  · intro ports
    rw [selectorSpan, if_pos ports] at hw
    rw [wordAt_of_agrees ha fun index _ _ => hw index (by omega) (by omega),
      wordAt_of_agrees ha fun index _ _ => hw index (by omega) (by omega)]
    exact hs.1 ports
  · intro icmp
    have span : header.selectorSpan = (4, 6) := by
      rcases icmp with protocol | protocol <;> simp [selectorSpan, protocol]
    rw [span] at hw
    rw [wordAt_of_agrees ha hw]
    exact hs.2 icmp

/-- The packet with new addresses and selectors and its old checksums. -/
def translated (header : ParsedPacket) (rewrite : Rewrite) (packet : List UInt8) : List UInt8 :=
  writeSelectors
    (writeAddresses packet header.ipVersion 0 rewrite.sourceAddress rewrite.destinationAddress)
    header rewrite

section Translation

variable (hv : header.Headed) (inside : header.transportOffset ≤ header.packetLen)
  (fits : header.packetLen ≤ packet.length) (carries : header.Carries)
  (hsf : Family header.ipVersion rewrite.sourceAddress)
  (hd : Family header.ipVersion rewrite.destinationAddress)

include hv inside fits carries hsf hd

/-- Every stage is described by the bytes it leaves alone. -/
theorem translated_spec
    : Agrees packet (header.translated rewrite packet) (fun index =>
        (header.ipVersion = 4 → index < 12 ∨ 20 ≤ index)
        ∧ (header.ipVersion ≠ 4 → index < 8 ∨ 40 ≤ index)
        ∧ (index < header.transportOffset + header.selectorSpan.1
          ∨ header.transportOffset + header.selectorSpan.2 ≤ index))
      ∧ addressesAt (header.translated rewrite packet) header.ipVersion 0
        = (rewrite.sourceAddress, rewrite.destinationAddress)
      ∧ header.Selected rewrite (header.translated rewrite packet)
      ∧ rewritePacket packet header rewrite
        = recomputeChecksums (header.translated rewrite packet) header := by
  have headed : 0 + (if header.ipVersion = 4 then 20 else 40) ≤ packet.length := by
    split <;> omega
  have addressed := agrees_writeAddresses hsf hd headed
  have addresses := addressesAt_writeAddresses hsf hd headed
  rw [rewritePacket, if_neg (by simp_all [Family])]
  unfold translated
  generalize writeAddresses packet header.ipVersion 0 rewrite.sourceAddress
    rewrite.destinationAddress = moved at addressed addresses ⊢
  have length := addressed.length
  have hs := agrees_writeSelectors moved rewrite carries (by omega)
  refine ⟨(addressed.mono ?_).trans (hs.mono ?_), ?_,
    selected_writeSelectors moved rewrite carries (by omega), if_neg (by omega)⟩
  · omega
  · omega
  · rw [addressesAt_of_agrees hs ?_, addresses]
    intro index
    split <;> omega

theorem rewritePacket_eq
    : ∃ result, rewritePacket packet header rewrite = .ok result
      ∧ header.Rewritten rewrite packet result ∧ Agrees packet result header.Apart := by
  obtain ⟨offset, hc, hl, separate, -⟩ := carries.checksum
  obtain ⟨kept, addresses, words, he⟩ :=
    translated_spec hv inside fits carries hsf hd
  rw [he]
  generalize header.translated rewrite packet = chosen at kept addresses words ⊢
  have length := kept.length
  obtain ⟨result, summed, hr⟩ :=
    recomputeChecksums_eq hc hl (by omega : _ ≤ chosen.length) (by omega)
  have hs := words.of_agrees hr fun index _ _ => by omega
  have ha : Agrees packet result header.Apart := by
    refine (kept.mono ?_).trans (hr.mono ?_)
    all_goals
      intro index keep
      have := keep.2.2.2 offset hc
      unfold Apart at keep
      omega
  rw [← addressesAt_of_agrees hr] at addresses
  · obtain ⟨source, destination⟩ := Prod.mk.inj addresses
    exact ⟨result, summed, ⟨ha.mono fun _ keep => keep.apart hv carries, source,
      destination, hs.1, hs.2⟩, ha⟩
  · split <;> omega

end Translation

variable {result : List UInt8}

theorem Rewritten.selectors (hr : header.Rewritten rewrite packet result) (carries : header.Carries)
    : header.selectorsOf result
      = (rewrite.sourceSelector,
        if header.isIcmp then rewrite.sourceSelector else rewrite.destinationSelector,
        (header.selectorsOf packet).2.2) := by
  unfold selectorsOf ParsedPacket.selectors transportLen isIcmp
  rcases carries.layout with ⟨tcp, -, -, hl⟩ | ⟨udp, -, -, hl⟩ | ⟨icmp, -, -, hl⟩
  · have flags := byteAt_of_agrees hr.agrees (.inr (.inl ⟨tcp, rfl⟩))
    obtain ⟨source, destination⟩ := hr.ports (.inl tcp)
    have hg : header.protocol = 6 ∧ 20 ≤ header.packetLen - header.transportOffset :=
      ⟨tcp, by omega⟩
    rw [if_pos hg, if_pos hg, flags, source, destination, tcp]
    rfl
  · obtain ⟨source, destination⟩ := hr.ports (.inr udp)
    have notTcp : ¬(header.protocol = 6 ∧ 20 ≤ header.packetLen - header.transportOffset) := by
      rw [udp]
      exact fun tcp => absurd tcp.1 (by decide)
    have hg : header.protocol = 17 ∧ 8 ≤ header.packetLen - header.transportOffset :=
      ⟨udp, by omega⟩
    rw [if_neg notTcp, if_neg notTcp, if_pos hg, if_pos hg, source, destination, udp]
    rfl
  · have kind := byteAt_of_agrees hr.agrees (.inr (.inr ⟨icmp, .inl rfl⟩))
    obtain ⟨notTcp, notUdp⟩ := not_ports_of_icmp icmp
    have hg : (header.protocol = 1 ∨ header.protocol = 58)
        ∧ 8 ≤ header.packetLen - header.transportOffset :=
      ⟨icmp, by omega⟩
    rw [if_neg (notTcp _), if_neg (notTcp _), if_neg (notUdp _), if_neg (notUdp _),
      if_pos hg, if_pos hg, kind, hr.identifier icmp,
      if_pos (decide_eq_true icmp)]

theorem Rewritten.parse (hr : header.Rewritten rewrite packet result)
    (hl : Located packet header) (carries : header.Carries)
    : parse result = some { header with
      source := ⟨rewrite.sourceAddress, rewrite.sourceSelector⟩
      destination := ⟨rewrite.destinationAddress,
        if header.isIcmp then rewrite.sourceSelector else rewrite.destinationSelector⟩ } := by
  have shape := hl.selectors
  have inside := hl.inside
  have fits := hl.fits
  have length := hr.agrees.length
  have flags := congrArg tcpFlags shape
  have kind := congrArg icmpType shape
  have flow := congrArg hasFlow shape
  rw [hl.places result (hr.agrees.mono fun _ => .inl), reread, finish,
    if_neg (by decide), if_neg (by omega), hr.source, hr.destination,
    ← transportLen, ← selectorsOf, hr.selectors carries]
  dsimp only at flags kind flow ⊢
  rw [← flags, ← kind, ← flow, hl.complete]

theorem mssOption_bounds {headerLen found}
    (option : mssOption packet transportOffset headerLen offset = some found)
    : offset ≤ found ∧ found + 4 ≤ headerLen := by
  fun_induction mssOption packet transportOffset headerLen offset with
  | case1 => cases option
  | case2 => cases option
  | case3 offset _ _ _ _ ih =>
    have bounds := ih option
    omega
  | case4 offset _ _ _ _ _ maximum =>
    cases option
    exact ⟨le_refl _, maximum.2.1⟩
  | case5 => cases option
  | case6 => cases option
  | case7 offset _ _ _ _ _ _ _ _ ih =>
    have bounds := ih option
    omega

variable (hl : Located packet header)

include hl

/-- A change outside of what is read leaves a packet what it was. -/
theorem Located.parse_unchanged (agrees : Agrees packet result kept)
    (inHeader : ∀ index, index < header.transportOffset →
      (header.ipVersion = 4 → index < 10 ∨ 12 ≤ index) → kept index)
    (he : header.selectorsOf result = header.selectorsOf packet)
    : parse result = some header := by
  have start := hl.version
  have fixed : ∀ index, header.Fixed index → kept index := by
    intro index fixed
    unfold Fixed at fixed
    exact inHeader index (by omega) (by omega)
  have addresses : addressesAt result header.ipVersion 0 = addressesAt packet header.ipVersion 0 :=
    addressesAt_of_agrees agrees fun index low high => inHeader index (by grind) (by grind)
  simp only [addressesAt, zero_add, Prod.mk.injEq] at addresses
  rw [hl.places result (agrees.mono fixed), reread, addresses.1, addresses.2]
  refine Eq.trans ?_ hl.finished
  rw [finish, finish, agrees.length, ← transportLen, ← selectorsOf, he]

/-- Of the transport header of TCP only the ports and the flags are read. -/
theorem Located.parse_of_agrees_tcp (tcp : header.protocol = 6)
    (ha : Agrees packet result fun index =>
      (header.ipVersion = 4 → index < 10 ∨ 12 ≤ index) ∧ index < header.transportOffset + 14)
    : parse result = some header := by
  have start := hl.version
  refine hl.parse_unchanged ha (fun index hb hne => ⟨hne, by omega⟩) ?_
  have wordKept (start : Nat) (hs : start ≤ 2)
      : wordAt result (header.transportOffset + start)
        = wordAt packet (header.transportOffset + start) :=
    wordAt_of_agrees ha fun index _ _ => by omega
  have flags : byteAt result (header.transportOffset + 13)
      = byteAt packet (header.transportOffset + 13) :=
    byteAt_of_agrees ha (by omega)
  have first := wordKept 0 (by omega)
  rw [add_zero] at first
  simp [selectors, tcp, first, wordKept 2, flags]

/-- Of an ICMP packet nothing is read after its first eight bytes. -/
theorem Located.parse_of_agrees_icmp (icmp : header.protocol = 1 ∨ header.protocol = 58)
    (ha : Agrees packet result (· < header.transportOffset + 8))
    : parse result = some header := by
  refine hl.parse_unchanged ha (fun index hb _ => by omega) ?_
  have identifier : wordAt result (header.transportOffset + 4)
      = wordAt packet (header.transportOffset + 4) :=
    wordAt_of_agrees ha fun index _ _ => by omega
  have kind : byteAt result header.transportOffset = byteAt packet header.transportOffset :=
    byteAt_of_agrees ha (by omega)
  obtain ⟨notTcp, notUdp⟩ := not_ports_of_icmp icmp
  unfold selectorsOf selectors
  simp [if_neg (notTcp _), if_neg (notUdp _), identifier, kind]

theorem Located.clampTcpMss_eq (mtu : Nat)
    : ∃ result, clampTcpMss packet header mtu = .ok result ∧ parse result = some header := by
  have hp := hl.parsed
  have inside := hl.inside
  have fits := hl.fits
  unfold clampTcpMss
  split
  · exact ⟨packet, rfl, hp⟩
  rename_i useful
  have tcp : header.protocol = 6 := by
    by_contra other
    exact useful (.inr (.inl other))
  rw [if_neg (by omega)]
  split
  · exact ⟨packet, rfl, hp⟩
  rename_i long
  unfold transportLen at long ⊢
  simp only
  split
  · exact ⟨packet, rfl, hp⟩
  split
  · exact ⟨packet, rfl, hp⟩
  split
  · exact ⟨packet, rfl, hp⟩
  rename_i offset option
  have bounds := mssOption_bounds option
  split
  · have clamped := agrees_overwrite_word (by omega
        : header.transportOffset + offset + 2 + 2 ≤ packet.length)
      (UInt16.ofNat (min (mtu - (header.transportOffset + 20)) 65535))
    have length := clamped.length
    have hc : checksumOffset header.protocol = some 16 := by
      rw [tcp]
      rfl
    obtain ⟨result, summed, ha⟩ := recomputeChecksums_eq hc (by omega) (length ▸ fits) (by omega)
    refine ⟨result, summed, hl.parse_of_agrees_tcp tcp ?_⟩
    refine (clamped.mono ?_).trans (ha.mono ?_)
    all_goals
      omega
  · exact ⟨packet, rfl, hp⟩

end ParsedPacket

end Zay.Endpoint
