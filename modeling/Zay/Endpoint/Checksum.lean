import Zay.Endpoint.IpRewrite

/-! The checksums of the internet: a sum of words closed by its complement. A packet verifies
again once its checksums are written, whatever else was changed in it.
-/

namespace Zay.Endpoint

open Lib List Option UInt32

--------
-- Sums of words
--------

variable {sum : Nat} {word : UInt16}

/-- The sum of the words as it is, before it is reduced to `u32`. -/
def wordSum : List UInt8 → Nat
  | high :: low :: rest => high.toNat * 256 + low.toNat + wordSum rest
  | [last] => last.toNat * 256
  | [] => 0

/-- The sum of the code is the sum of the words in `u32`. -/
theorem checksumSumFrom_eq (sum data)
    : checksumSumFrom (ofNat sum) data = ofNat (sum + wordSum data) := by
  fun_induction wordSum data generalizing sum with
  | case1 high low rest ih =>
    have word : (UInt16.ofNat (ofBigEndian [high, low])).toUInt32
        = ofNat (high.toNat * 256 + low.toNat) := by
      have := high.toNat_lt
      have := low.toNat_lt
      rw [← UInt32.toNat_inj, UInt16.toNat_toUInt32, UInt16.toNat_ofNat', toNat_ofNat']
      simp only [ofBigEndian, foldl_cons, foldl_nil]
      omega
    rw [checksumSumFrom, word, ← ofNat_add, ih, add_assoc]
  | case2 last =>
    have shifted : last.toUInt32 <<< 8 = ofNat (last.toNat * 256) := by
      simp [← UInt32.toNat_inj, Nat.shiftLeft_eq]
    rw [checksumSumFrom, shifted, ofNat_add]
  | case3 => rfl

theorem checksumSum_eq (data) : checksumSum data = ofNat (wordSum data) :=
  (checksumSumFrom_eq 0 data).trans (by rw [zero_add])

/-- A word adds at most 65535, so that 65537 of them fit in `u32`. -/
theorem wordSum_le (data : List UInt8) : wordSum data ≤ 65535 * ((data.length + 1) / 2) := by
  fun_induction wordSum data with
  | case1 high low rest ih =>
    have := high.toNat_lt
    have := low.toNat_lt
    simp only [length_cons]
    omega
  | case2 last =>
    have := last.toNat_lt
    simp only [length_singleton]
    omega
  | case3 => exact Nat.zero_le _

/-- Folding keeps the sum modulo 65535, from 1 to 65535 unless it is zero. -/
theorem toNat_foldCarries (sum)
    : (foldCarries sum).toNat = if sum.toNat = 0 then 0 else (sum.toNat - 1) % 65535 + 1 := by
  fun_induction foldCarries sum with
  | case1 sum small =>
    rw [high_eq_zero_iff] at small
    split <;> omega
  | case2 sum large ih =>
    rw [high_eq_zero_iff] at large
    rw [ih, toNat_carry, if_neg (by omega), if_neg (by omega)]
    omega

theorem toNat_finishChecksum (exact : sum < 2 ^ 32)
    : (finishChecksum (ofNat sum)).toNat
      = 65535 - if sum = 0 then 0 else (sum - 1) % 65535 + 1 := by
  have hs := toNat_foldCarries (ofNat sum)
  rw [toNat_ofNat_of_lt' exact] at hs
  rw [finishChecksum, UInt16.toNat_not, toNat_toUInt16, hs, Nat.mod_eq_of_lt]
  · rfl
  · split <;> omega

/-- A sum verifies when it is zero in ones' complement, written as all ones. -/
theorem finishChecksum_eq_zero_iff (exact : sum < 2 ^ 32)
    : finishChecksum (ofNat sum) = 0 ↔ 0 < sum ∧ 65535 ∣ sum := by
  rw [← UInt16.toNat_inj, toNat_finishChecksum exact, UInt16.toNat_zero]
  split <;> omega

/-- The complement closes the sum, and so does the other zero. -/
theorem finishChecksum_closed (exact : sum + word.toNat < 2 ^ 32)
    (closes : word = finishChecksum (ofNat sum)
      ∨ finishChecksum (ofNat sum) = 0 ∧ word = 65535)
    : finishChecksum (ofNat (sum + word.toNat)) = 0 := by
  have short : sum < 2 ^ 32 := by omega
  rw [finishChecksum_eq_zero_iff exact]
  rcases closes with rfl | ⟨hc, rfl⟩
  · rw [toNat_finishChecksum short]
    split <;> omega
  rw [finishChecksum_eq_zero_iff short] at hc
  rw [show (65535 : UInt16).toNat = 65535 from rfl]
  omega

/-- UDP has the other zero for a checksum that would be zero. -/
theorem finishChecksum_written {udp : Prop} [Decidable udp] (exact : sum + word.toNat < 2 ^ 32)
    (written : (if finishChecksum (ofNat sum) = 0 ∧ udp then 65535
      else finishChecksum (ofNat sum)) = word)
    : finishChecksum (ofNat (sum + word.toNat)) = 0 ∧ (udp → word ≠ 0) := by
  split at written
  next zero =>
    cases written
    exact ⟨finishChecksum_closed exact (.inr ⟨zero.1, rfl⟩), fun _ => by decide⟩
  next other =>
    exact ⟨finishChecksum_closed exact (.inl written.symm),
      fun isUdp zero => other ⟨written.trans zero, isUdp⟩⟩

theorem wordSum_append {front} (even : 2 ∣ front.length) (back)
    : wordSum (front ++ back) = wordSum front + wordSum back := by
  fun_induction wordSum front with
  | case1 high low rest ih =>
    rw [cons_append, cons_append, wordSum, ih (by simpa using even)]
    omega
  | case2 => simp at even
  | case3 => simp

section Slices

variable {packet after : List UInt8} {start offset count : Nat}

theorem toNat_wordAt (hf : offset + 2 ≤ packet.length)
    : (wordAt packet offset).toNat = wordSum (slice packet offset 2) := by
  have two := length_slice hf
  unfold wordAt
  match slice packet offset 2, two with
  | [high, low], _ =>
    have hs : high.toNat * 256 + low.toNat < 65536 := by
      have := high.toNat_lt
      have := low.toNat_lt
      omega
    simpa [wordSum, ofBigEndian] using hs

theorem wordAt_eq_zero_iff (hf : offset + 2 ≤ packet.length)
    : wordAt packet offset = 0 ↔ slice packet offset 2 = [0, 0] := by
  have two := length_slice hf
  rw [← UInt16.toNat_inj, toNat_wordAt hf]
  match slice packet offset 2, two with
  | [high, low], _ =>
    simp [wordSum, ← UInt8.toNat_inj]

/-- One word of the sum, at an even distance from where the sum starts. -/
theorem wordSum_slice (even : 2 ∣ offset) (hi : offset + 2 ≤ count)
    (hf : start + count ≤ packet.length)
    : wordSum (slice packet start count)
      = wordSum (slice packet start offset) + (wordAt packet (start + offset)).toNat
        + wordSum (slice packet (start + offset + 2) (count - (offset + 2))) := by
  obtain ⟨rest, rfl⟩ := Nat.exists_eq_add_of_le hi
  have word : 2 ∣ (slice packet (start + offset) 2).length := by
    rw [length_slice (by omega), Nat.dvd_iff_mod_eq_zero]
  rw [Nat.add_sub_cancel_left, Nat.add_assoc offset, slice_add, slice_add,
    wordSum_append (by rwa [length_slice (by omega)]),
    wordSum_append word, toNat_wordAt (by omega)]
  exact (add_assoc ..).symm

/-- What one word changes in the sum. -/
theorem wordSum_of_agrees
    (agrees : Agrees packet after fun index => index < start + offset ∨ start + offset + 2 ≤ index)
    (even : 2 ∣ offset) (hi : offset + 2 ≤ count) (hf : start + count ≤ packet.length)
    : wordSum (slice after start count) + (wordAt packet (start + offset)).toNat
      = wordSum (slice packet start count) + (wordAt after (start + offset)).toNat := by
  rw [wordSum_slice even hi hf, wordSum_slice even hi (by rwa [agrees.length]),
    agrees.slice fun index _ _ => .inl (by omega), agrees.slice fun index _ _ => .inr (by omega)]
  omega

/-- A checksum written over a blank. -/
theorem wordSum_overwrite (even : 2 ∣ offset) (hi : offset + 2 ≤ count)
    (hf : start + count ≤ packet.length) (word : UInt16)
    : wordSum
        (slice (overwrite (overwrite packet (start + offset) [0, 0]) (start + offset)
          (wordBytes word)) start count)
      = wordSum (slice (overwrite packet (start + offset) [0, 0]) start count)
        + word.toNat := by
  have hr : start + offset + 2 ≤ packet.length := by omega
  have hb : wordAt (overwrite packet (start + offset) [0, 0]) (start + offset) = 0 :=
    wordAt_overwrite hr 0
  have length : (overwrite packet (start + offset) [0, 0]).length = packet.length :=
    length_overwrite hr
  have written := wordSum_of_agrees (agrees_overwrite_word (length ▸ hr) word) even hi
    (length ▸ hf)
  rw [wordAt_overwrite (length ▸ hr), hb] at written
  exact written

theorem wordSum_slice_le (packet start count)
    : wordSum (slice packet start count) ≤ 65535 * ((count + 1) / 2) := by
  have length : (slice packet start count).length ≤ count := length_take_le ..
  have := wordSum_le (slice packet start count)
  omega

end Slices

--------
-- Packets that verify
--------

theorem internetChecksum_recomputeIpChecksum {packet ipOffset ipHeaderLen} (hl : 12 ≤ ipHeaderLen)
    (short : ipHeaderLen ≤ 65575) (hf : ipOffset + ipHeaderLen ≤ packet.length)
    : internetChecksum (slice (recomputeIpChecksum packet 4 ipOffset ipHeaderLen) ipOffset
      ipHeaderLen) = 0 := by
  rw [recomputeIpChecksum, if_pos rfl]
  simp only [internetChecksum, checksumSum_eq]
  rw [wordSum_overwrite (by decide) hl hf]
  refine finishChecksum_closed ?_ (.inl rfl)
  have sum := wordSum_slice_le (overwrite packet (ipOffset + 10) [0, 0]) ipOffset ipHeaderLen
  have word := UInt16.toNat_lt (finishChecksum (ofNat
    (wordSum (slice (overwrite packet (ipOffset + 10) [0, 0]) ipOffset ipHeaderLen))))
  omega

namespace ParsedPacket

variable {packet : List UInt8} {header : ParsedPacket}

/-- The checksum over the transport header and its payload as they are: zero if they verify. -/
def transportSum (header : ParsedPacket) (packet : List UInt8) : UInt16 :=
  let transport := slice packet header.transportOffset header.transportLen
  if header.protocol = 1 then internetChecksum transport
  else
    transportChecksum (if header.ipVersion = 4 then slice packet 12 4 else slice packet 8 16)
      (if header.ipVersion = 4 then slice packet 16 4 else slice packet 24 16) header.protocol
      transport header.ipVersion

/-- What the sum over a transport header starts from. -/
def pseudoSum (header : ParsedPacket) (packet : List UInt8) : Nat :=
  if header.protocol = 1 then 0
  else if header.ipVersion = 4 then
    wordSum (slice packet 12 4) + wordSum (slice packet 16 4) + header.protocol.toNat
      + header.transportLen
  else
    wordSum (slice packet 8 16) + wordSum (slice packet 24 16) + header.protocol.toNat
      + wordSum (toBigEndian 4 header.transportLen)

/-- The checksums of `after`, which came of `before`; no addition of the sums overflows. -/
structure Verifies (header : ParsedPacket) (before after : List UInt8) : Prop where
  ip : header.ipVersion = 4 → internetChecksum (slice after 0 header.ipHeaderLen) = 0
  transport : ∀ offset, checksumOffset header.protocol = some offset →
    if header.protocol = 17 ∧ header.ipVersion = 4
      ∧ wordAt before (header.transportOffset + offset) = 0
    then wordAt after (header.transportOffset + offset) = 0
    else header.transportSum after = 0
      ∧ (header.protocol = 17 → wordAt after (header.transportOffset + offset) ≠ 0)
  exact : header.pseudoSum after
    + wordSum (slice after header.transportOffset header.transportLen) < 2 ^ 32

/-- Either checksum is one sum of words; ICMP has no pseudo header. -/
theorem finishChecksum_pseudoSum {transport} (packet)
    (length : transport.length = header.transportLen)
    : (if header.protocol = 1 then internetChecksum transport
      else
        transportChecksum (if header.ipVersion = 4 then slice packet 12 4 else slice packet 8 16)
          (if header.ipVersion = 4 then slice packet 16 4 else slice packet 24 16)
          header.protocol transport header.ipVersion)
      = finishChecksum (ofNat (header.pseudoSum packet + wordSum transport)) := by
  unfold internetChecksum transportChecksum pseudoSum
  split
  · rw [zero_add, checksumSum_eq]
  have protocol : header.protocol.toUInt32 = ofNat header.protocol.toNat := by simp
  simp only [length, checksumSum_eq, protocol, ← ofNat_add]
  split
  · rw [← ofNat_add]
  · rw [← ofNat_add, Nat.add_right_comm (_ + _) (wordSum (toBigEndian 4 _))]

/-- The largest packet of IPv6 has 65575 bytes: its words and a pseudo header fit in `u32`. -/
theorem pseudoSum_add_lt (packet other start) (short : header.transportLen ≤ 65575)
    : header.pseudoSum packet + wordSum (slice other start header.transportLen) + 65535
      < 2 ^ 32 := by
  have words := wordSum_slice_le other start header.transportLen
  have protocol := header.protocol.toNat_lt
  have length := wordSum_le (toBigEndian 4 header.transportLen)
  rw [length_toBigEndian] at length
  have address := fun start count => wordSum_slice_le packet start count
  unfold pseudoSum
  split
  · omega
  split
  · have := address 12 4
    have := address 16 4
    omega
  · have := address 8 16
    have := address 24 16
    omega

theorem pseudoSum_of_agrees {after} {kept : Nat → Prop} (ha : Agrees packet after kept)
    (version : header.Headed) (hw : ∀ index, index < header.transportOffset → kept index)
    : header.pseudoSum after = header.pseudoSum packet := by
  unfold pseudoSum
  split
  · rfl
  split
  all_goals
    rw [ha.slice fun index _ _ => hw index (by omega),
      ha.slice fun index _ _ => hw index (by omega)]

/-- The word that is written over the blank closes the sum. -/
theorem recomputeChecksums_verifies {result} (carries : header.Carries) (version : header.Headed)
    (short : header.packetLen ≤ 65575) (hf : header.packetLen ≤ packet.length)
    (plain : header.ipVersion = 4 → header.ipHeaderLen = header.transportOffset)
    (recomputed : recomputeChecksums packet header = .ok result)
    : header.Verifies packet result := by
  obtain ⟨offset, hc, hl, -, -, even⟩ := carries.checksum
  have first : Agrees packet (recomputeIpChecksum packet header.ipVersion 0 header.ipHeaderLen) _ :=
    agrees_recomputeIpChecksum (by omega)
  have headed : header.ipVersion = 4 → internetChecksum
      (slice (recomputeIpChecksum packet header.ipVersion 0 header.ipHeaderLen) 0
        header.ipHeaderLen) = 0 := by
    intro version4
    rw [version4]
    exact internetChecksum_recomputeIpChecksum (by omega) (by omega) (by omega)
  have narrow : header.transportLen ≤ 65575 := (Nat.sub_le ..).trans short
  unfold recomputeChecksums at recomputed
  generalize recomputeIpChecksum packet header.ipVersion 0 header.ipHeaderLen = summed
    at first headed recomputed
  have length := first.length
  have hr : header.transportOffset + offset + 2 ≤ summed.length := by omega
  have hi : offset + 2 ≤ header.transportLen := by
    unfold transportLen
    omega
  have zero : slice summed (header.transportOffset + offset) 2 = [0, 0]
      ↔ wordAt packet (header.transportOffset + offset) = 0 := by
    rw [← wordAt_eq_zero_iff hr, wordAt_of_agrees first fun index _ _ => by omega]
  simp only [hc] at recomputed
  rw [if_neg (by omega), if_neg (by omega)] at recomputed
  have blank : Agrees summed (overwrite summed (header.transportOffset + offset) [0, 0]) _ :=
    agrees_overwrite hr fun index keep => keep
  split at recomputed
  next without =>
    cases recomputed
    refine ⟨fun version4 => ?_, fun place he => ?_, ?_⟩
    · rw [blank.slice fun index _ _ => .inl (by omega)]
      exact headed version4
    · cases hc.symm.trans he
      rw [if_pos ⟨without.1, without.2.1, zero.mp without.2.2⟩]
      exact wordAt_overwrite hr 0
    · exact (Nat.le_add_right ..).trans_lt (pseudoSum_add_lt _ _ _ narrow)
  next summing =>
    have hw : header.transportOffset + header.transportLen ≤ summed.length := by
      unfold transportLen
      omega
    have span : (slice (overwrite summed (header.transportOffset + offset) [0, 0])
        header.transportOffset header.transportLen).length = header.transportLen :=
      length_slice (by rwa [blank.length])
    rw [finishChecksum_pseudoSum _ span] at recomputed
    generalize closing : (if _ = (0 : UInt16) ∧ header.protocol = 17 then (65535 : UInt16) else _)
      = word at recomputed
    cases recomputed
    have kept := blank.trans (agrees_overwrite_word (by rwa [blank.length]) word)
    have exact := pseudoSum_add_lt summed
      (overwrite summed (header.transportOffset + offset) [0, 0]) header.transportOffset narrow
    have last := word.toNat_lt
    obtain ⟨closed, hz⟩ := finishChecksum_written (by omega) closing
    refine ⟨fun version4 => ?_, fun place he => ?_,
      (Nat.le_add_right ..).trans_lt (pseudoSum_add_lt _ _ _ narrow)⟩
    · rw [kept.slice fun index _ _ => .inl (by omega)]
      exact headed version4
    · cases hc.symm.trans he
      rw [if_neg fun without => summing ⟨without.1, without.2.1, zero.mpr without.2.2⟩,
        wordAt_overwrite (by rwa [blank.length])]
      refine ⟨?_, hz⟩
      rw [transportSum, finishChecksum_pseudoSum _ (length_slice (by rwa [kept.length])),
        pseudoSum_of_agrees kept version fun index _ => .inl (by omega),
        wordSum_overwrite even hi hw, ← add_assoc]
      exact closed

/-- The lengths a packet can have, and what the header of IPv4 says. -/
theorem fields_of_parse (hp : parse packet = some header)
    : header.packetLen ≤ 65575
      ∧ (header.ipVersion = 4 →
        header.ipHeaderLen = header.transportOffset ∧ 20 ≤ header.ipHeaderLen
        ∧ header.packetLen = (wordAt packet 2).toNat
        ∧ header.fragmented = decide (wordAt packet 6 &&& 0x3fff ≠ 0)) := by
  unfold parse at hp
  split at hp
  · cases hp
  split at hp
  · simp only [parseV4, ite_none_left_eq_some] at hp
    obtain ⟨-, sized, hf⟩ := hp
    obtain ⟨-, -, headerLen, offset, packetLen, fragmented⟩ := finish_fields hf
    have word := (wordAt packet 2).toNat_lt
    exact ⟨by omega, fun _ => ⟨headerLen.trans offset.symm, by omega, packetLen, fragmented⟩⟩
  split at hp
  · simp only [parseV6, ite_none_left_eq_some] at hp
    obtain ⟨-, -, hp⟩ := hp
    split at hp
    · cases hp
    obtain ⟨version6, -, -, -, packetLen, -⟩ := finish_fields hp
    have word := (wordAt packet 4).toNat_lt
    exact ⟨by omega, fun version4 => absurd (version4.symm.trans version6) (by decide)⟩
  · cases hp

/-- A packet of a flow is rewritten, reads back so and verifies. -/
theorem rewrite_packet_translates {rewrite : Rewrite} (parsed : parse packet = some header)
    (complete : header.fragmented = false) (hasFlow : header.hasFlow)
    (sourceFamily : rewrite.sourceAddress.isIpv4 = decide (header.ipVersion = 4))
    (destinationFamily : rewrite.destinationAddress.isIpv4 = decide (header.ipVersion = 4))
    : ∃ result, rewritePacket packet header rewrite = .ok result
      ∧ parse result = some { header with
        source := ⟨rewrite.sourceAddress, rewrite.sourceSelector⟩
        destination := ⟨rewrite.destinationAddress,
          if header.isIcmp then rewrite.sourceSelector else rewrite.destinationSelector⟩ }
      ∧ Agrees packet result header.Apart ∧ header.Verifies packet result := by
  have whole := located_of_parse parsed complete
  have carries := whole.carries (.inl hasFlow)
  have fits := whole.fits
  obtain ⟨result, rewritten, reads, apart⟩ := rewritePacket_eq whole.version whole.inside fits
    carries sourceFamily destinationFamily
  obtain ⟨kept, -, -, same⟩ := translated_spec whole.version whole.inside fits carries
    sourceFamily destinationFamily
  obtain ⟨short, fields⟩ := fields_of_parse parsed
  have verifies := recomputeChecksums_verifies carries whole.version short (by rwa [kept.length])
    (fun version4 => (fields version4).1) (same.symm.trans rewritten)
  refine ⟨result, rewritten, reads.parse whole carries, apart, verifies.ip,
    fun offset checked => ?_, verifies.exact⟩
  obtain ⟨_, checked', -, separate, -⟩ := carries.checksum
  cases checked.symm.trans checked'
  have version := whole.version
  rw [← wordAt_of_agrees kept fun index _ _ => by omega]
  exact verifies.transport offset checked

/-- An echo request from 10.0.0.2 to 192.0.2.1 with the identifier 7. -/
def exampleEcho : List UInt8 :=
  [0x45, 0, 0, 28, 0, 0, 0, 0, 64, 1, 0, 0, 10, 0, 0, 2, 192, 0, 2, 1, 8, 0, 0, 0, 0, 7, 0, 0]

def echoRewrite : Rewrite where
  sourceAddress := .v4 0xac100001
  sourceSelector := 1
  destinationAddress := .v4 0xc0000201
  destinationSelector := 2

theorem rewrite_packet_translates_example
    : ∃ header result, parse exampleEcho = some header
      ∧ rewritePacket exampleEcho header echoRewrite = .ok result
      ∧ internetChecksum (slice result 0 20) = 0 := by
  obtain ⟨header, parsed, complete, hasFlow, version, length⟩
      : ∃ header, parse exampleEcho = some header
      ∧ header.fragmented = false ∧ header.hasFlow ∧ header.ipVersion = 4
      ∧ header.ipHeaderLen = 20 :=
    ⟨(parse exampleEcho).get (by decide), by decide⟩
  obtain ⟨result, rewritten, -, -, verifies⟩ := rewrite_packet_translates parsed complete hasFlow
    (by rw [version]; rfl : echoRewrite.sourceAddress.isIpv4 = _) (by rw [version]; rfl)
  exact ⟨header, result, parsed, rewritten, length ▸ verifies.ip version⟩

/-- There is one identifier for the two selectors of an echo packet. -/
theorem rewrite_packet_one_identifier
    : (((parse exampleEcho).bind fun header =>
        (rewritePacket exampleEcho header echoRewrite).toOption).bind parse).map
          (fun header => (header.source.port, header.destination.port))
      = some (1, 1) := by
  decide +kernel

end ParsedPacket

end Zay.Endpoint
