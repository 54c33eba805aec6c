import Zay.Lib.WordBits

/-! The replay window of an inbound ESP association (`OpenConnectEspReplayWindow` in
`protocol/openconnect_esp.rs`). It records the sequence numbers that are still missing below
the highest accepted one: bit `i` stands for `nextSequence - 2 - i`.
-/

namespace Zay.OpenConnect

open Lib

structure EspReplayWindow where
  missing : BitVec 64
  nextSequence : Nat
  deriving Repr, DecidableEq

namespace EspReplayWindow

def empty : EspReplayWindow where
  missing := 0
  nextSequence := 0

/-- The bitmap when `sequence` lies `delta` above the next one. -/
def skip (missing : BitVec 64) (delta : Nat) : BitVec 64 :=
  if 64 ≤ delta then BitVec.allOnes 64
  else if delta = 63 then BitVec.allOnes 64 >>> 1
  else (missing <<< (delta + 1)) ||| (((1#64) <<< delta) - 1#64)

def accept (window : EspReplayWindow) (sequence : UInt32) : Bool × EspReplayWindow :=
  let next := window.nextSequence
  let sequence := sequence.toNat
  if sequence = next then
    (true, { missing := window.missing <<< 1, nextSequence := next + 1 })
  else if next < sequence then
    (true, { missing := skip window.missing (sequence - next), nextSequence := sequence + 1 })
  else
    let delta := next - sequence
    if delta = 1 ∨ 65 < delta then (false, window)
    else
      let mask := (1#64) <<< (delta - 2)
      if window.missing &&& mask = 0#64 then (false, window)
      else (true, { window with missing := window.missing &&& ~~~mask })

variable (missing : BitVec 64)

theorem getLsbD_skip {delta bit} (hs : bit < 64)
    : (skip missing delta).getLsbD bit
      = if bit < delta then true
        else if bit = delta then false
        else missing.getLsbD (bit - (delta + 1)) := by
  unfold skip
  by_cases far : 64 ≤ delta
  · rw [if_pos far, if_pos (by omega), BitVec.getLsbD_allOnes, decide_eq_true hs]
  rw [if_neg far]
  by_cases last : delta = 63
  · subst last
    rw [if_pos rfl, BitVec.getLsbD_ushiftRight, BitVec.getLsbD_allOnes]
    by_cases hb : bit < 63
    · rw [if_pos hb, decide_eq_true (by omega)]
    · rw [if_neg hb, if_pos (by omega), decide_eq_false (by omega)]
  rw [if_neg last, BitVec.getLsbD_or, BitVec.getLsbD_shiftLeft,
    getLsbD_one_shiftLeft_sub_one (by omega)]
  by_cases hb : bit < delta
  · simp [hb]
  by_cases he : bit = delta
  · simp [he]
  have ha : ¬bit < delta + 1 := by omega
  simp [hb, he, ha, hs]

theorem getLsbD_clear {offset bit} (hs : bit < 64)
    : (missing &&& ~~~((1#64) <<< offset)).getLsbD bit
      = (missing.getLsbD bit && !decide (bit = offset)) := by
  rw [BitVec.getLsbD_and, BitVec.getLsbD_not, getLsbD_one_shiftLeft hs]
  simp [hs]

/-- The window stands for the set of accepted sequence numbers. -/
structure Tracks (window : EspReplayWindow) (accepted : Nat → Prop) : Prop where
  below : ∀ sequence, accepted sequence → sequence < window.nextSequence
  highest : 0 < window.nextSequence → accepted (window.nextSequence - 1)
  missing
    : ∀ bit < 64, window.missing.getLsbD bit = true
      ↔ bit + 2 ≤ window.nextSequence ∧ ¬accepted (window.nextSequence - 2 - bit)

theorem tracks_empty : empty.Tracks fun _ => False where
  below _ none := none.elim
  highest positive := absurd positive (by decide)
  missing bit _ := by simp [empty]

/-- What is accepted: a sequence number that was not accepted yet and lies at most 64 below
the highest accepted one.
-/
def Admits (window : EspReplayWindow) (accepted : Nat → Prop) (sequence : UInt32) : Prop :=
  ¬accepted sequence.toNat ∧ window.nextSequence ≤ sequence.toNat + 65

variable {window : EspReplayWindow} {accepted : Nat → Prop} {sequence : UInt32}

theorem skip_zero : skip missing 0 = missing <<< 1 := by
  simp [skip]

variable (ht : window.Tracks accepted)
include ht

theorem Tracks.advance {sequence} (ahead : window.nextSequence ≤ sequence)
    : Tracks
      { missing := skip window.missing (sequence - window.nextSequence)
        nextSequence := sequence + 1 }
      fun other => accepted other ∨ other = sequence where
  below other either := by
    rcases either with old | he
    · exact Nat.lt_succ_of_lt (Nat.lt_of_lt_of_le (ht.below other old) ahead)
    · exact he ▸ Nat.lt_succ_self sequence
  highest _ := .inr rfl
  missing bit small := by
    show (skip _ _).getLsbD bit = true
      ↔ bit + 2 ≤ sequence + 1
        ∧ ¬(accepted (sequence + 1 - 2 - bit) ∨ sequence + 1 - 2 - bit = sequence)
    rw [getLsbD_skip _ small]
    by_cases between : bit < sequence - window.nextSequence
    · have unseen : ¬accepted (sequence + 1 - 2 - bit) := fun seen => by
        have := ht.below _ seen
        omega
      have other : sequence + 1 - 2 - bit ≠ sequence := by omega
      simp only [if_pos between, unseen, other, or_self, not_false_eq_true, and_true, true_iff]
      omega
    rw [if_neg between]
    by_cases last : bit = sequence - window.nextSequence
    · -- The bit of the sequence number that was the highest until now, if there was one.
      rw [if_pos last]
      constructor
      · intro absurd
        cases absurd
      · rintro ⟨hw, unseen⟩
        have place : sequence + 1 - 2 - bit = window.nextSequence - 1 := by omega
        have highest := ht.highest (by omega)
        exact absurd (.inl (place ▸ highest)) unseen
    · rw [if_neg last, ht.missing _ (by omega)]
      have place : window.nextSequence - 2 - (bit - (sequence - window.nextSequence + 1))
          = sequence + 1 - 2 - bit := by omega
      have reach : bit - (sequence - window.nextSequence + 1) + 2 ≤ window.nextSequence
          ↔ bit + 2 ≤ sequence + 1 := by omega
      rw [place, reach]
      apply and_congr_right
      intro hw
      have other : sequence + 1 - 2 - bit ≠ sequence := by omega
      simp only [other, or_false]

theorem Tracks.backtrack {sequence} (behind : sequence + 2 ≤ window.nextSequence)
    : Tracks
      { window with
        missing := window.missing &&& ~~~((1#64) <<< (window.nextSequence - sequence - 2)) }
      fun other => accepted other ∨ other = sequence where
  below other either := by
    rcases either with old | he
    · exact ht.below other old
    show other < window.nextSequence
    omega
  highest positive := .inl (ht.highest positive)
  missing bit small := by
    rw [getLsbD_clear _ small, Bool.and_eq_true, ht.missing bit small]
    by_cases he : bit = window.nextSequence - sequence - 2
    · have place : window.nextSequence - 2 - bit = sequence := by omega
      simp [he]
      omega
    have other : bit + 2 ≤ window.nextSequence → window.nextSequence - 2 - bit ≠ sequence := by
      omega
    simp only [he, decide_false, Bool.not_false, and_true]
    constructor
    · rintro ⟨hw, unseen⟩
      exact ⟨hw, not_or.mpr ⟨unseen, other hw⟩⟩
    · rintro ⟨hw, unseen⟩
      exact ⟨hw, fun seen => unseen (.inl seen)⟩

/-- The window accepts exactly what is new and not too old, and remembers it. -/
theorem Tracks.accept (sequence : UInt32)
    : (window.Admits accepted sequence ∧ ∃ next, window.accept sequence = (true, next)
        ∧ next.Tracks fun other => accepted other ∨ other = sequence.toNat)
      ∨ (¬window.Admits accepted sequence ∧ window.accept sequence = (false, window)) := by
  unfold EspReplayWindow.accept Admits
  by_cases ahead : window.nextSequence ≤ sequence.toNat
  · have new : ¬accepted sequence.toNat := fun seen => by
      have := ht.below _ seen
      omega
    refine .inl ⟨⟨new, by omega⟩, _, ?_, ht.advance ahead⟩
    by_cases he : sequence.toNat = window.nextSequence
    · simp [he, skip_zero]
    · simp [he, show window.nextSequence < sequence.toNat by omega]
  · have notNext : sequence.toNat ≠ window.nextSequence := by omega
    have notAfter : ¬window.nextSequence < sequence.toNat := by omega
    simp only [notNext, notAfter, if_false]
    by_cases edge : window.nextSequence - sequence.toNat = 1
        ∨ 65 < window.nextSequence - sequence.toNat
    · right
      rw [if_pos edge]
      refine ⟨?_, rfl⟩
      rintro ⟨new, near⟩
      have place : window.nextSequence - 1 = sequence.toNat := by omega
      exact new (place ▸ ht.highest (by omega))
    rw [if_neg edge]
    have bit := ht.missing (window.nextSequence - sequence.toNat - 2) (by omega)
    have place : window.nextSequence - 2 - (window.nextSequence - sequence.toNat - 2)
        = sequence.toNat := by omega
    rw [place] at bit
    by_cases hk : window.missing &&& ((1#64) <<< (window.nextSequence - sequence.toNat - 2))
        = 0#64
    · right
      rw [if_pos hk]
      rw [and_mask_eq_zero_iff _ (by omega)] at hk
      refine ⟨?_, rfl⟩
      rintro ⟨new, near⟩
      rw [bit.mpr ⟨by omega, new⟩] at hk
      cases hk
    · left
      rw [if_neg hk]
      rw [and_mask_eq_zero_iff _ (by omega), Bool.not_eq_false, bit] at hk
      exact ⟨⟨hk.2, by omega⟩, _, rfl, ht.backtrack (by omega)⟩

end EspReplayWindow

end Zay.OpenConnect
