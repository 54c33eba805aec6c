import Mathlib.Data.List.Nodup
import Zay.Endpoint.Checksum

/-! An IPv4 packet that is too long for a port is cut into fragments. Whoever puts them in the
order of their offsets has the payload again.
-/

namespace Zay.Endpoint

open Lib ParsedPacket List UInt16

/-- The flags and the offset of a fragment. -/
def fragmentField (flagsOffset : UInt16) (start : Nat) (last : Bool) : UInt16 :=
  flagsOffset &&& 0xc000
    ||| (if flagsOffset &&& 0x2000 ≠ 0 ∨ last = false then 0x2000 else 0)
    ||| ((flagsOffset &&& 0x1fff) + ofNat (start / 8))

/-- One turn of the loop, for the chunk of the payload from `start` on. -/
def fragmentAt (packet payload : List UInt8) (headerLen maxPayload start : Nat) : List UInt8 :=
  let chunk := slice payload start maxPayload
  let fragment := overwrite (packet.take headerLen ++ chunk) 2
    (wordBytes (ofNat (headerLen + chunk.length)))
  let field := fragmentField (wordAt packet 6) start (payload.length ≤ start + chunk.length)
  recomputeIpChecksum (overwrite fragment 6 (wordBytes field)) 4 0 headerLen

def fragmentIpv4Packet (packet : List UInt8) (parsed : ParsedPacket) (mtu : Nat)
    : IoResult (List (List UInt8)) :=
  let headerLen := parsed.ipHeaderLen
  if headerLen < 20 ∨ parsed.packetLen ≤ headerLen then .ok []
  else
    let maxPayload := (mtu - headerLen) / 8 * 8
    if maxPayload = 0 then .ok []
    else
      let payload := slice packet headerLen (parsed.packetLen - headerLen)
      .ok ((range ((payload.length + maxPayload - 1) / maxPayload)).map fun index =>
        fragmentAt packet payload headerLen maxPayload (index * maxPayload))

--------
-- One fragment
--------

def fragmentOffset (fragment : List UInt8) : Nat := (wordAt fragment 6 &&& 0x1fff).toNat * 8

def moreFragments (fragment : List UInt8) : Bool := wordAt fragment 6 &&& 0x2000 ≠ 0

theorem and_fragmentField {flagsOffset} (whole : flagsOffset &&& 0x3fff = 0) {start}
    (hs : start / 8 < 8192) (last : Bool)
    : (fragmentField flagsOffset start last &&& 0x1fff).toNat = start / 8
      ∧ (fragmentField flagsOffset start last &&& 0x2000 ≠ 0 ↔ last = false) := by
  have offset : flagsOffset &&& 0x1fff = 0 := by
    rw [show (0x1fff : UInt16) = 0x3fff &&& 0x1fff from rfl, ← UInt16.and_assoc, whole]
    rfl
  have more : flagsOffset &&& 0x2000 = 0 := by
    rw [show (0x2000 : UInt16) = 0x3fff &&& 0x2000 from rfl, ← UInt16.and_assoc, whole]
    rfl
  have value : (ofNat (start / 8)).toNat = start / 8 :=
    toNat_ofNat_of_lt' (Nat.lt_trans hs (by decide))
  have low : start / 8 &&& 8191 = start / 8 := by
    rw [Nat.and_two_pow_sub_one_eq_mod _ 13, Nat.mod_eq_of_lt hs]
  have high : start / 8 &&& 8192 = 0 := by
    rw [← low, Nat.and_assoc]
    exact Nat.and_zero _
  have more' : ¬(flagsOffset &&& 0x2000 ≠ 0) := not_not.mpr more
  simp only [fragmentField, offset, more', false_or, UInt16.zero_add, ne_eq, ← UInt16.toNat_inj,
    UInt16.toNat_and, UInt16.toNat_or, value, Nat.and_or_distrib_right, Nat.and_assoc]
  cases last <;> simp [low, high]

variable {packet payload : List UInt8} {headerLen : Nat}

/-- A header of `headerLen` bytes that verifies in front of a part of a payload. -/
structure Carried (headerLen : Nat) (chunk : List UInt8) (field : UInt16) (fragment : List UInt8)
    : Prop where
  length : fragment.length = headerLen + chunk.length
  payload : fragment.drop headerLen = chunk
  verifies : internetChecksum (slice fragment 0 headerLen) = 0
  size : wordAt fragment 2 = ofNat (headerLen + chunk.length)
  field : wordAt fragment 6 = field

theorem carried_fragmentAt (payload maxPayload start) (long : 20 ≤ headerLen)
    (short : headerLen < 65536) (fits : headerLen ≤ packet.length)
    : Carried headerLen (slice payload start maxPayload)
      (fragmentField (wordAt packet 6) start
        (payload.length ≤ start + (slice payload start maxPayload).length))
      (fragmentAt packet payload headerLen maxPayload start) := by
  simp only [fragmentAt]
  generalize slice payload start maxPayload = chunk
  generalize fragmentField (wordAt packet 6) start (payload.length ≤ start + chunk.length) = field
  have length : (packet.take headerLen ++ chunk).length = headerLen + chunk.length := by
    rw [length_append, length_take, min_eq_left fits]
  have dropped : (packet.take headerLen ++ chunk).drop headerLen = chunk :=
    drop_left' (by rw [length_take, min_eq_left fits])
  generalize packet.take headerLen ++ chunk = whole at length dropped ⊢
  have hr : 2 + 2 ≤ whole.length := by omega
  have size := wordAt_overwrite hr (ofNat (headerLen + chunk.length))
  have sized := agrees_overwrite_word hr (ofNat (headerLen + chunk.length))
  generalize overwrite whole 2 (wordBytes (ofNat (headerLen + chunk.length))) = first
    at size sized ⊢
  have sizedLen := sized.length
  have hr : 6 + 2 ≤ first.length := by omega
  have flags := wordAt_overwrite hr field
  have flagged := agrees_overwrite_word hr field
  generalize overwrite first 6 (wordBytes field) = second at flags flagged ⊢
  have flaggedLen := flagged.length
  have summed : Agrees second (recomputeIpChecksum second 4 0 headerLen) _ :=
    agrees_recomputeIpChecksum (by omega)
  refine ⟨?_, ?_, internetChecksum_recomputeIpChecksum (by omega) (by omega) (by omega), ?_, ?_⟩
  · rw [summed.length, flaggedLen, sizedLen, length]
  · rw [summed.drop fun index _ => by omega, flagged.drop fun index _ => by omega,
      sized.drop fun index _ => by omega, dropped]
  · rw [wordAt_of_agrees summed fun index _ _ => by omega,
      wordAt_of_agrees flagged fun index _ _ => by omega, size]
  · rw [wordAt_of_agrees summed fun index _ _ => by omega, flags]

--------
-- All fragments
--------

theorem flatMap_slice (payload : List UInt8) (maxPayload count : Nat)
    : (range count).flatMap (fun index => slice payload (index * maxPayload) maxPayload)
      = payload.take (count * maxPayload) := by
  induction count with
  | zero => simp
  | succ count ih =>
    rw [range_succ, flatMap_append, ih, Nat.succ_mul, take_add]
    simp [slice]

/-- The payload of fragments that came in some order. -/
def reassemble (headerLen : Nat) (fragments : List (List UInt8)) : List UInt8 :=
  (fragments.mergeSort fun left right => fragmentOffset left ≤ fragmentOffset right).flatMap
    (drop headerLen)

/-- Fragments with increasing offsets have one order. -/
theorem reassemble_of_perm {fragments arrived}
    (increasing : fragments.Pairwise fun left right => fragmentOffset left < fragmentOffset right)
    (perm : arrived.Perm fragments)
    : reassemble headerLen arrived = fragments.flatMap (drop headerLen) := by
  have hs : (arrived.mergeSort fun left right => fragmentOffset left ≤ fragmentOffset right)
      = fragments := by
    have he := (mergeSort_perm arrived
      fun left right => fragmentOffset left ≤ fragmentOffset right).trans perm
    have hd : (fragments.map fragmentOffset).Nodup :=
      pairwise_map.mpr (increasing.imp ne_of_lt)
    refine List.Perm.eq_of_pairwise ?_ (pairwise_mergeSort ?_ ?_ arrived) ?_ he
    · intro left right leftMem rightMem hb after
      simp only [decide_eq_true_eq] at hb after
      exact inj_on_of_nodup_map hd (he.mem_iff.mp leftMem) rightMem (le_antisymm hb after)
    · intro first second third
      simpa using le_trans
    · intro left right
      simpa using le_total ..
    · exact increasing.imp fun hb => by simpa using le_of_lt hb
  rw [reassemble, hs]

/-- A fragment that a receiver can place. -/
structure FragmentOf (payload : List UInt8) (headerLen mtu : Nat) (fragment : List UInt8)
    : Prop where
  fits : fragment.length ≤ mtu
  verifies : internetChecksum (slice fragment 0 headerLen) = 0
  size : (wordAt fragment 2).toNat = fragment.length
  place : fragment.drop headerLen
    = slice payload (fragmentOffset fragment) (fragment.drop headerLen).length
  more : moreFragments fragment
    ↔ fragmentOffset fragment + (fragment.drop headerLen).length < payload.length

section

variable {start mtu : Nat} (maxPayload : Nat) (long : 20 ≤ headerLen)
  (fits : headerLen ≤ packet.length) (whole : wordAt packet 6 &&& 0x3fff = 0)
  (short : headerLen + payload.length < 65536) (inside : start < payload.length)
  (aligned : 8 ∣ start)

include long fits whole short inside aligned

theorem fragmentOffset_fragmentAt
    : fragmentOffset (fragmentAt packet payload headerLen maxPayload start) = start := by
  rw [fragmentOffset, (carried_fragmentAt payload maxPayload start long (by omega) fits).field,
    (and_fragmentField whole (by omega) _).1, Nat.div_mul_cancel aligned]

theorem fragmentOf_fragmentAt (narrow : headerLen + maxPayload ≤ mtu)
    : FragmentOf payload headerLen mtu
      (fragmentAt packet payload headerLen maxPayload start) := by
  have offset := fragmentOffset_fragmentAt maxPayload long fits whole short inside aligned
  have carried := carried_fragmentAt payload maxPayload start long (by omega) fits
  have length : (slice payload start maxPayload).length
      = min maxPayload (payload.length - start) := by
    rw [slice, length_take, length_drop]
  constructor
  · rw [carried.length]
    omega
  · exact carried.verifies
  · rw [carried.size, carried.length, toNat_ofNat_of_lt' (by rw [size]; omega)]
  · rw [offset, carried.payload, slice, slice, length_take, ← take_eq_take_min]
  · rw [moreFragments, carried.field, offset, carried.payload, decide_eq_true_iff,
      (and_fragmentField whole (by omega) _).2]
    simp

end

/-- The fragments can be placed, and in any order of arrival they give back the payload of the
packet.
-/
theorem fragment_ipv4_lossless {header : ParsedPacket} {mtu : Nat}
    (parsed : parse packet = some header) (version4 : header.ipVersion = 4)
    (complete : header.fragmented = false) (room : header.ipHeaderLen + 8 ≤ mtu)
    : ∃ fragments, fragmentIpv4Packet packet header mtu = .ok fragments
      ∧ (∀ fragment ∈ fragments, FragmentOf
        (slice packet header.ipHeaderLen (header.packetLen - header.ipHeaderLen))
        header.ipHeaderLen mtu fragment)
      ∧ ∀ arrived, arrived.Perm fragments → reassemble header.ipHeaderLen arrived
        = slice packet header.ipHeaderLen (header.packetLen - header.ipHeaderLen) := by
  obtain ⟨same, long, sized, fragmented⟩ := (fields_of_parse parsed).2 version4
  have located := located_of_parse parsed complete
  have fits := located.fits
  have inside := located.inside
  have bound := (wordAt packet 2).toNat_lt
  have whole : wordAt packet 6 &&& 0x3fff = 0 := by
    rw [complete] at fragmented
    simpa using fragmented.symm
  have length : (slice packet header.ipHeaderLen (header.packetLen - header.ipHeaderLen)).length
      = header.packetLen - header.ipHeaderLen :=
    length_slice (by omega)
  rw [fragmentIpv4Packet]
  simp only
  split
  next empty =>
    refine ⟨[], rfl, by simp, fun arrived perm => ?_⟩
    have nothing : header.packetLen - header.ipHeaderLen = 0 := by omega
    rw [perm_nil.mp perm, nothing]
    simp [reassemble, slice]
  generalize slice packet header.ipHeaderLen (header.packetLen - header.ipHeaderLen) = payload
    at length ⊢
  have aligned : 8 ∣ (mtu - header.ipHeaderLen) / 8 * 8 := Nat.dvd_mul_left ..
  have narrow : header.ipHeaderLen + (mtu - header.ipHeaderLen) / 8 * 8 ≤ mtu := by omega
  have positive : 0 < (mtu - header.ipHeaderLen) / 8 * 8 := by omega
  generalize (mtu - header.ipHeaderLen) / 8 * 8 = maxPayload at aligned narrow positive ⊢
  rw [if_neg (by omega)]
  have startOf {index : Nat} (small : index < (payload.length + maxPayload - 1) / maxPayload)
      : index * maxPayload < payload.length := by
    have := (Nat.le_div_iff_mul_le positive).mp small
    rw [Nat.succ_mul] at this
    omega
  refine ⟨_, rfl, ?_, fun arrived perm => ?_⟩
  · intro fragment member
    obtain ⟨index, small, rfl⟩ := mem_map.mp member
    exact fragmentOf_fragmentAt maxPayload long (by omega) whole (by omega)
      (startOf (mem_range.mp small)) (Nat.dvd_mul_left_of_dvd aligned index) narrow
  · rw [reassemble_of_perm ?_ perm]
    · have covered : payload.length
          ≤ (payload.length + maxPayload - 1) / maxPayload * maxPayload := by
        have := Nat.lt_div_mul_add positive (a := payload.length + maxPayload - 1)
        omega
      have parts := flatMap_slice payload maxPayload
        ((payload.length + maxPayload - 1) / maxPayload)
      rw [take_of_length_le covered] at parts
      rw [flatMap_map]
      refine Eq.trans ?_ parts
      congr 1
      funext index
      exact (carried_fragmentAt payload maxPayload _ long (by omega) (by omega)).payload
    · rw [pairwise_map]
      refine pairwise_lt_range.imp_of_mem fun leftMem rightMem before => ?_
      have offset {index : Nat} (member : index ∈ range _) :=
        fragmentOffset_fragmentAt maxPayload long (by omega : _ ≤ packet.length) whole (by omega)
          (startOf (mem_range.mp member)) (Nat.dvd_mul_left_of_dvd aligned index)
      rw [offset leftMem, offset rightMem]
      exact Nat.mul_lt_mul_of_pos_right before positive

/-- A query of 24 bytes over UDP. -/
def exampleQuery : List UInt8 :=
  [0x45, 0, 0, 52, 0, 0, 0, 0, 64, 17, 0, 0, 10, 0, 0, 2, 192, 0, 2, 1,
    0xc3, 0x50, 0, 53, 0, 32, 0, 0] ++ replicate 24 7

theorem fragment_ipv4_lossless_example
    : ∃ header fragments, fragmentIpv4Packet exampleQuery header 40 = .ok fragments
      ∧ reassemble 20 fragments.reverse = exampleQuery.drop 20 := by
  obtain ⟨header, parsed, version4, complete, headerLen, packetLen⟩
      : ∃ header, parse exampleQuery = some header ∧ header.ipVersion = 4
        ∧ header.fragmented = false ∧ header.ipHeaderLen = 20 ∧ header.packetLen = 52 :=
    ⟨(parse exampleQuery).get (by decide), by decide⟩
  obtain ⟨fragments, made, -, again⟩ :=
    fragment_ipv4_lossless parsed version4 complete (by omega : _ ≤ 40)
  have payload := again _ (reverse_perm fragments)
  rw [headerLen, packetLen] at payload
  exact ⟨header, fragments, made, payload⟩

end Zay.Endpoint
