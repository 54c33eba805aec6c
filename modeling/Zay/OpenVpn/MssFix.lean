import Mathlib.Algebra.Order.Ring.Int

/-! The payload budget of a data channel and the MSS clamp made from it
(`protocol/openvpn/mss.rs`). A data codec is its `encoded_length`. Sizes are exact: those of
the source are far below the limits of `usize` and `isize`.
-/

namespace Zay.OpenVpn

/-- What `payload_overhead` reads of the framing. -/
structure DataChannelFraming where
  framingOverhead : Nat
  fragmentEnabled : Bool

def DataChannelFraming.payloadOverhead (framing : DataChannelFraming) : Nat :=
  framing.framingOverhead + framing.fragmentEnabled.toNat * 4

structure MssClamp where
  enabled : Bool
  maximumSegmentSize : Nat
  deriving DecidableEq

/-- The loop of `calculate_data_payload_budget`. -/
def searchBudget (fits : Nat → Bool) (minimum maximum : Nat) : Nat :=
  if minimum < maximum then
    let candidate := minimum + (maximum - minimum + 1) / 2
    if fits candidate then searchBudget fits candidate maximum
    else searchBudget fits minimum (candidate - 1)
  else minimum
termination_by maximum - minimum

def calculateDataPayloadBudget (encodedLength : Nat → Nat)
    (packetHeaderSize fixedPayloadSize : Nat) (packetSize : Int) : Int :=
  let minimumPacketLength := packetHeaderSize + encodedLength fixedPayloadSize
  if minimumPacketLength ≥ packetSize then packetSize - minimumPacketLength
  else
    searchBudget
      (fun candidate =>
        packetHeaderSize + encodedLength (fixedPayloadSize + candidate) ≤ packetSize.toNat)
      1 packetSize.toNat

/-- The header in front of the encoded packet, with what `mtu` mode counts as part of it. -/
def countedHeaderSize (mode : String) (packetHeaderSize outerTransportOverhead : Nat) : Nat :=
  if mode = "mtu" then packetHeaderSize + outerTransportOverhead else packetHeaderSize

/-- An IPv4 and a TCP header, and the framing. -/
def fixedSegmentSize (framing : Option DataChannelFraming) : Nat :=
  20 + 20 + framing.elim 0 DataChannelFraming.payloadOverhead

def calculateMssClamp (mssFix : UInt32) (mode : String) (framing : Option DataChannelFraming)
    (encodedLength : Nat → Nat) (packetHeaderSize outerTransportOverhead : Nat) : MssClamp :=
  if mssFix = 0 then { enabled := false, maximumSegmentSize := 0 }
  else if mode = "fixed" then
    { enabled := true, maximumSegmentSize := (mssFix.toUInt16 - 40).toNat }
  else
    { enabled := true
      maximumSegmentSize :=
        (calculateDataPayloadBudget encodedLength
          (countedHeaderSize mode packetHeaderSize outerTransportOverhead)
          (fixedSegmentSize framing) mssFix.toNat % 65536).toNat }

/-- A search over candidates of which smaller ones fit when larger ones do. -/
theorem searchBudget_spec {fits minimum maximum} (ordered : minimum ≤ maximum)
    (hc : ∀ small large, small ≤ large → fits large = true → fits small = true)
    : minimum ≤ searchBudget fits minimum maximum ∧ searchBudget fits minimum maximum ≤ maximum
      ∧ (searchBudget fits minimum maximum = minimum
        ∨ fits (searchBudget fits minimum maximum) = true)
      ∧ ∀ larger ≤ maximum, fits larger = true → larger ≤ searchBudget fits minimum maximum := by
  fun_induction searchBudget fits minimum maximum with
  | case1 minimum maximum narrow candidate fit ih =>
    obtain ⟨low, high, best, greatest⟩ := ih (by omega)
    refine ⟨by omega, high, .inr ?_, greatest⟩
    rcases best with least | best
    · rwa [least]
    · exact best
  | case2 minimum maximum narrow candidate misfit ih =>
    obtain ⟨low, high, best, greatest⟩ := ih (by omega)
    refine ⟨low, by omega, best, fun larger hb fit => greatest larger ?_ fit⟩
    by_contra beyond
    exact misfit (hc candidate larger (by omega) fit)
  | case3 minimum maximum wide =>
    exact ⟨le_refl _, ordered, .inl rfl, fun larger hb _ => by omega⟩

/-- The packet with that much payload. -/
def packetLength (encodedLength : Nat → Nat) (packetHeaderSize fixedPayloadSize payload : Nat)
    : Nat :=
  packetHeaderSize + encodedLength (fixedPayloadSize + payload)

/-- A positive budget fits into the packet, and one byte more does not. -/
def LargestBudget (encodedLength : Nat → Nat) (header fixed : Nat) (packetSize : Int) : Prop :=
  ∀ budget : Nat, 0 < budget →
    calculateDataPayloadBudget encodedLength header fixed packetSize = budget →
    packetLength encodedLength header fixed budget ≤ packetSize
    ∧ packetSize < packetLength encodedLength header fixed (budget + 1)

/-- The packet of a segment with that much payload, as `calculate_mss_clamp` counts it. -/
def segmentLength (encodedLength : Nat → Nat) (mode : String)
    (framing : Option DataChannelFraming) (header outer payload : Nat) : Nat :=
  packetLength encodedLength (countedHeaderSize mode header outer) (fixedSegmentSize framing)
    payload

section

variable {encodedLength : Nat → Nat} (monotone : Monotone encodedLength) (header fixed : Nat)
  {packetSize : Int}

include monotone

theorem packetLength_mono : Monotone (packetLength encodedLength header fixed) := by
  intro hs large le
  exact Nat.add_le_add_left (monotone (Nat.add_le_add_left le fixed)) header

/-- A positive budget is one byte or fits, and no larger payload up to the packet size fits. -/
theorem calculateDataPayloadBudget_spec
    (hr : packetLength encodedLength header fixed 0 < packetSize)
    : ∃ budget, 1 ≤ budget ∧ budget ≤ packetSize.toNat
      ∧ calculateDataPayloadBudget encodedLength header fixed packetSize = budget
      ∧ (budget = 1 ∨ packetLength encodedLength header fixed budget ≤ packetSize)
      ∧ ∀ larger ≤ packetSize.toNat, packetLength encodedLength header fixed larger ≤ packetSize →
        larger ≤ budget := by
  have he (payload : Nat)
      : decide (packetLength encodedLength header fixed payload ≤ packetSize.toNat) = true
        ↔ packetLength encodedLength header fixed payload ≤ packetSize := by
    rw [decide_eq_true_iff]
    omega
  have hc (small large : Nat) (le : small ≤ large)
      (hf : decide (packetLength encodedLength header fixed large ≤ packetSize.toNat) = true)
      : decide (packetLength encodedLength header fixed small ≤ packetSize.toNat) = true := by
    have := packetLength_mono monotone header fixed le
    rw [he] at hf ⊢
    omega
  obtain ⟨low, high, best, greatest⟩ :=
    searchBudget_spec (show 1 ≤ packetSize.toNat by omega) hc
  exact ⟨_, low, high, if_neg (Int.not_le.mpr hr), best.imp_right (he _).mp,
    fun larger hb hf => greatest larger hb ((he larger).mpr hf)⟩

omit monotone in
theorem budget_of_le {header fixed} (hs : packetSize ≤ packetLength encodedLength header fixed 0)
    : calculateDataPayloadBudget encodedLength header fixed packetSize
      = packetSize - packetLength encodedLength header fixed 0 :=
  if_pos hs

theorem largestBudget_iff (packetSize : Int)
    : LargestBudget encodedLength header fixed packetSize
      ↔ packetSize ≤ packetLength encodedLength header fixed 0
        ∨ packetLength encodedLength header fixed 1 ≤ packetSize
          ∧ packetSize < packetLength encodedLength header fixed (packetSize.toNat + 1) := by
  have hg := packetLength_mono monotone header fixed
  by_cases hr : packetLength encodedLength header fixed 0 < packetSize
  · obtain ⟨budget, hpos, hb, result, best, greatest⟩ :=
      calculateDataPayloadBudget_spec monotone header fixed hr
    constructor
    · intro largest
      obtain ⟨fit, beyond⟩ := largest budget hpos result
      have first := hg hpos
      have last := hg (Nat.add_le_add_right hb 1)
      exact .inr ⟨by omega, by omega⟩
    · rintro (hs | ⟨fit, hw⟩) other _ he
      · omega
      obtain rfl : budget = other := by omega
      refine ⟨?_, Int.not_le.mp fun next => ?_⟩
      · rcases best with rfl | best
        · exact fit
        · exact best
      · -- One byte more would have been found, unless the search ended here.
        by_cases last : budget + 1 ≤ packetSize.toNat
        · have := greatest (budget + 1) last next
          omega
        obtain rfl : budget = packetSize.toNat := by omega
        omega
  · refine iff_of_true (fun budget hpos result => ?_) (.inl (Int.not_lt.mp hr))
    have hs := budget_of_le (Int.not_lt.mp hr)
    omega

/-- The low sixteen bits of a budget are a payload that fits, where there is any. -/
theorem wrapped_budget_fits_iff (size : Nat)
    : packetLength encodedLength header fixed
        (calculateDataPayloadBudget encodedLength header fixed size % 65536).toNat ≤ size
      ↔ packetLength encodedLength header fixed 0 = size
        ∨ packetLength encodedLength header fixed 1 ≤ size := by
  have hg := packetLength_mono monotone header fixed
  have least (payload : Nat) := hg payload.zero_le
  by_cases hr : packetLength encodedLength header fixed 0 < size
  · obtain ⟨budget, hpos, -, result, best, -⟩ :=
      calculateDataPayloadBudget_spec monotone header fixed (Int.ofNat_lt.mpr hr)
    have wrapped : ((budget : Int) % 65536).toNat = budget % 65536 := by omega
    rw [result, wrapped]
    rcases best with rfl | best
    · simp [Nat.ne_of_lt hr]
    have smaller := hg (Nat.mod_le budget 65536)
    have first := hg hpos
    exact iff_of_true (by omega) (.inr (by omega))
  · have hs := budget_of_le (Int.ofNat_le.mpr (not_lt.mp hr))
    by_cases exactly : packetLength encodedLength header fixed 0 = size
    · simp [hs, exactly]
    have := least 1
    have := least (calculateDataPayloadBudget encodedLength header fixed size % 65536).toNat
    exact iff_of_false (by omega) (by omega)

/-- **Payload budgets.** A positive budget is the largest payload that fits exactly when one
byte fits and the packet size itself, as a payload, is too large; a clamp keeps full segments
within `mss_fix` exactly when an empty segment meets it or one byte fits.
-/
theorem payload_budget_largest
    : (∀ header fixed packetSize, LargestBudget encodedLength header fixed packetSize
        ↔ packetSize ≤ packetLength encodedLength header fixed 0
          ∨ packetLength encodedLength header fixed 1 ≤ packetSize
            ∧ packetSize < packetLength encodedLength header fixed (packetSize.toNat + 1))
      ∧ ∀ (mssFix : UInt32) (mode : String) (framing : Option DataChannelFraming)
        (header outer : Nat), mode ≠ "fixed" →
        (((calculateMssClamp mssFix mode framing encodedLength header outer).enabled = true →
          segmentLength encodedLength mode framing header outer
            (calculateMssClamp mssFix mode framing encodedLength header outer).maximumSegmentSize
            ≤ mssFix.toNat)
        ↔ mssFix = 0
          ∨ segmentLength encodedLength mode framing header outer 0 = mssFix.toNat
          ∨ segmentLength encodedLength mode framing header outer 1 ≤ mssFix.toNat) := by
  refine ⟨largestBudget_iff monotone, fun mssFix mode framing header outer unfixed => ?_⟩
  unfold calculateMssClamp
  by_cases off : mssFix = 0
  · simp [off]
  rw [if_neg off, if_neg unfixed, or_iff_right off]
  exact (forall_prop_of_true rfl).trans (wrapped_budget_fits_iff monotone _ _ mssFix.toNat)

end

/-- `encoded_length` of AES-CBC packets with SHA-1. -/
def cbcEncodedLength (payloadLength : Nat) : Nat :=
  20 + (16 + ((4 + payloadLength) / 16 + 1) * 16)

theorem cbcEncodedLength_mono : Monotone cbcEncodedLength := by
  intro small large le
  unfold cbcEncodedLength
  omega

theorem payload_budget_largest_cbc
    : LargestBudget cbcEncodedLength 4 40 1500 :=
  ((payload_budget_largest cbcEncodedLength_mono).1 4 40 1500).mpr (.inr (by decide))

/-- A payload of one byte needs another block and does not fit; a small `mss_fix` wraps. -/
theorem payload_budget_too_large
    : calculateDataPayloadBudget cbcEncodedLength 0 43 90 = 1
      ∧ packetLength cbcEncodedLength 0 43 1 = 100
      ∧ ¬LargestBudget cbcEncodedLength 0 43 90
      ∧ calculateMssClamp 80 "" none cbcEncodedLength 0 0 = ⟨true, 65532⟩
      ∧ ¬segmentLength cbcEncodedLength "" none 0 0 65532 ≤ 80 := by
  refine ⟨?_, rfl, ?_, ?_, by decide⟩
  · simp [calculateDataPayloadBudget, searchBudget, cbcEncodedLength]
  · rw [largestBudget_iff cbcEncodedLength_mono]
    decide
  · simp [calculateDataPayloadBudget, cbcEncodedLength, calculateMssClamp, countedHeaderSize,
      fixedSegmentSize]

end Zay.OpenVpn
