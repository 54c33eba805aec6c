import Mathlib.Data.List.Nodup
import Zay.OpenVpn.Replay

/-! Replay protection accepts exactly the ids that are new to their epoch and not too old.
The abstract side is the log of accepted deliveries, newest first; the window is shown to
track that log along every sequence of calls.
-/

namespace Zay.OpenVpn

open Lib ReplayWindow Function

/-- An accepted packet: its id and the timestamp epoch it was accepted in. -/
structure Delivery where
  id : UInt32
  epoch : UInt32
  deriving Repr, DecidableEq

/-- One call on a window. -/
inductive AcceptCall
  | accept (packetId : UInt32) (now : Instant)
  | acceptLongForm (packetId timestamp : UInt32) (now : Instant)
  deriving Repr, DecidableEq

def ReplayWindow.call (window : ReplayWindow) : AcceptCall → Bool × ReplayWindow
  | .accept packetId now => window.acceptAt packetId now
  | .acceptLongForm packetId timestamp now =>
    window.acceptLongFormAt packetId timestamp now

/-- The newest accepted timestamp; zero before anything was accepted. -/
def currentEpoch (log : List Delivery) : UInt32 := (log.head?.map Delivery.epoch).getD 0

/-- The delivery a call asks for. A short-form id belongs to the current epoch. -/
def AcceptCall.delivery (log : List Delivery) : AcceptCall → Delivery
  | .accept packetId _ => ⟨packetId, currentEpoch log⟩
  | .acceptLongForm packetId timestamp _ => ⟨packetId, timestamp⟩

/-- The highest id accepted in `epoch`; zero when there is none. -/
def highestAccepted : List Delivery → UInt32 → Nat
  | [], _ => 0
  | delivery :: log, epoch =>
    if delivery.epoch = epoch then max delivery.id.toNat (highestAccepted log epoch)
    else highestAccepted log epoch

/-- What a window of positive size is to accept. -/
structure Admits (windowSize : UInt32) (log : List Delivery) (delivery : Delivery) : Prop where
  nonzero : delivery.id ≠ 0
  notOlder : currentEpoch log ≤ delivery.epoch
  fresh : delivery ∉ log
  inWindow
    : highestAccepted log delivery.epoch < delivery.id.toNat
      ∨ highestAccepted log delivery.epoch - delivery.id.toNat < windowSize.toNat

/-- Run a sequence of calls and log what was accepted. -/
def ReplayWindow.runLog
    : ReplayWindow → List Delivery → List AcceptCall → ReplayWindow × List Delivery
  | window, log, [] => (window, log)
  | window, log, call :: calls =>
    let (verdict, window) := window.call call
    window.runLog (if verdict then call.delivery log :: log else log) calls

variable {log : List Delivery} {delivery : Delivery}

theorem le_highestAccepted (h : delivery ∈ log)
    : delivery.id.toNat ≤ highestAccepted log delivery.epoch := by
  induction log with
  | nil => simp at h
  | cons head log ih =>
    unfold highestAccepted
    rcases List.mem_cons.mp h with he | rest
    · subst he
      rw [if_pos rfl]
      exact le_max_left _ _
    have := ih rest
    split <;> omega

theorem highestAccepted_eq_zero {epoch} (h : ∀ delivery ∈ log, delivery.epoch ≠ epoch)
    : highestAccepted log epoch = 0 := by
  induction log with
  | nil => rfl
  | cons head log ih =>
    rw [highestAccepted, if_neg (h head (by simp))]
    exact ih fun delivery hm => h delivery (by simp [hm])

/-- The words of a bitmap, extended with zeros. -/
def bitmapWord {count : Nat} (bitmap : Vector (BitVec 64) count) (index : Nat) : BitVec 64 :=
  bitmap[index]?.getD 0

/-- Offset `index` below the highest id is marked as seen. -/
def seen {count : Nat} (bitmap : Vector (BitVec 64) count) (index : Nat) : Bool :=
  wordBit (bitmapWord bitmap) index

variable {count : Nat}

variable (bitmap : Vector (BitVec 64) count)

theorem bitmapWord_eq {index} (h : index < count) : bitmapWord bitmap index = bitmap[index] := by
  simp [bitmapWord, h]

theorem bitmapWord_set {target} (value : BitVec 64) (h : target < count)
    : bitmapWord (bitmap.set target value) = update (bitmapWord bitmap) target value := by
  funext index
  by_cases he : index = target
  · subst he
    simp [bitmapWord]
  · simp [bitmapWord, update_of_ne he, Ne.symm he]

/-- The words below `target` are rewritten from the words at or below them, so the order
from the last word down reads every word before it is overwritten.
-/
theorem bitmapWord_shiftBitmapLoop (wordShift bitShift : Nat) (target : Nat)
    (hle : target ≤ count) (bitmap : Vector (BitVec 64) count) (index : Nat)
    : bitmapWord (shiftBitmapLoop wordShift bitShift target hle bitmap) index
      = if index < target then shiftedWord (bitmapWord bitmap) wordShift bitShift index
        else bitmapWord bitmap index := by
  induction target generalizing bitmap with
  | zero => simp [shiftBitmapLoop]
  | succ target ih =>
    have value
        : (if wordShift ≤ target then
            let source := target - wordShift
            let value := bitmap[source] <<< bitShift
            if 0 < bitShift ∧ 0 < source then
              value ||| (bitmap[source - 1] >>> (64 - bitShift))
            else value
          else 0)
          = shiftedWord (bitmapWord bitmap) wordShift bitShift target := by
      simp only [shiftedWord]
      rw [bitmapWord_eq bitmap (show target - wordShift < count by omega),
        bitmapWord_eq bitmap (show target - wordShift - 1 < count by omega)]
    rw [shiftBitmapLoop, ih, value, bitmapWord_set _ _ (by omega)]
    by_cases hb : index < target
    · rw [if_pos hb, if_pos (by omega)]
      -- A shifted word depends only on the words at or below its own position.
      unfold shiftedWord
      rw [update_of_ne (by omega), update_of_ne (by omega)]
    by_cases he : index = target
    · subst he
      simp
    · rw [if_neg hb, if_neg (by omega), update_of_ne he]

/-- Shifting moves every mark by `shift` offsets. -/
theorem seen_shiftBitmap (shift index : Nat) (h : index / 64 < count)
    : seen (shiftBitmap bitmap shift) index
      = if index < shift then false else seen bitmap (index - shift) := by
  have words
      : seen (shiftBitmap bitmap shift) index
        = wordBit (shiftedWord (bitmapWord bitmap) (shift / 64) (shift % 64)) index := by
    rw [seen, wordBit, wordBit, shiftBitmap, bitmapWord_shiftBitmapLoop, if_pos h]
  rw [words, wordBit_shiftedWord _ _ _ (Nat.mod_lt _ (by decide)), Nat.div_add_mod]
  rfl

/-- Setting one bit marks one offset. -/
theorem seen_set_or (target index : Nat) (h : target / 64 < count)
    : seen (bitmap.set (target / 64) (bitmap[target / 64] ||| ((1#64) <<< (target % 64)))) index
      = (seen bitmap index || decide (index = target)) := by
  rw [seen, bitmapWord_set, ← bitmapWord_eq bitmap h, wordBit_update_or]
  rfl

/-- Setting the lowest bit marks offset zero, the highest id itself. -/
theorem seen_markHighest (index : Nat) (h : 0 < count)
    : seen (bitmap.setIfInBounds 0 (bitmap[0]?.getD 0 ||| 1)) index
      = (seen bitmap index || decide (index = 0)) := by
  have inBounds
      : bitmap.setIfInBounds 0 (bitmap[0]?.getD 0 ||| 1)
        = bitmap.set (0 / 64) (bitmap[0 / 64] ||| ((1#64) <<< (0 % 64))) := by
    ext position
    simp [Vector.getElem_setIfInBounds, Vector.getElem_set, h]
  rw [inBounds, seen_set_or bitmap 0 index h]

theorem seen_replicate (count index : Nat)
    : seen (Vector.replicate count (0 : BitVec 64)) index = false := by
  have zero : bitmapWord (Vector.replicate count (0 : BitVec 64)) = fun _ => 0 := by
    funext word
    by_cases h : word < count <;> simp [bitmapWord, h]
  rw [seen, zero, wordBit_zero]

/-- The inner state stands for the accepted deliveries: the epoch, its highest id and, for
each id of that epoch that the window still reaches, whether it was accepted.
-/
structure Tracks {windowSize : UInt32} (inner : ReplayInner windowSize) (log : List Delivery)
    : Prop where
  minimum : inner.minimumId = 0
  started : inner.initialized = true ↔ log ≠ []
  epoch : inner.highestTimestamp = currentEpoch log
  newest : ∀ delivery ∈ log, delivery.epoch ≤ currentEpoch log
  highest : highestAccepted log (currentEpoch log) = inner.highestId.toNat
  marks
    : 0 < windowSize.toNat
      → ∀ id : UInt32, id ≠ 0
      → id.toNat ≤ inner.highestId.toNat
      → inner.highestId.toNat - id.toNat < windowSize.toNat
      → (seen inner.bitmap (inner.highestId.toNat - id.toNat) = true
          ↔ ⟨id, currentEpoch log⟩ ∈ log)
  nodup : log.Nodup
  ordered : log.Pairwise fun newer older => older.epoch ≤ newer.epoch

theorem tracks_new (windowSize timeWindow) : Tracks (new windowSize timeWindow).inner [] where
  minimum := rfl
  started := by simp [new]
  epoch := rfl
  newest := by simp
  highest := rfl
  marks := by
    intro _ id hz hb
    have zero : id.toNat = 0 := by simpa [new] using hb
    exact absurd (UInt32.toNat_inj.mp zero) hz
  nodup := List.nodup_nil
  ordered := List.Pairwise.nil

theorem currentEpoch_cons (delivery log) : currentEpoch (delivery :: log) = delivery.epoch := rfl

variable {windowSize : UInt32} {inner : ReplayInner windowSize} {packetId : UInt32}

namespace Tracks

variable (h : Tracks inner log)

include h

/-- No delivery of a log lies in an epoch above the current one. -/
theorem older {timestamp} (hr : log = [] ∨ currentEpoch log < timestamp)
    : ∀ delivery ∈ log, delivery.epoch < timestamp := by
  intro delivery hm
  rcases hr with empty | hr
  · simp [empty] at hm
  · exact UInt32.lt_of_le_of_lt (h.newest delivery hm) hr

theorem unused {timestamp} (hr : log = [] ∨ currentEpoch log < timestamp)
    : ∀ delivery ∈ log, delivery.epoch ≠ timestamp := fun delivery hm he =>
  UInt32.lt_irrefl _ (he ▸ h.older hr delivery hm)

/-- Logging a new delivery of the newest epoch keeps the parts of the invariant that do not
mention the bitmap.
-/
theorem cons {timestamp} {next : ReplayInner windowSize}
    (newest : ∀ delivery ∈ log, delivery.epoch ≤ timestamp) (hn : ⟨packetId, timestamp⟩ ∉ log)
    (minimum : next.minimumId = 0) (initialized : next.initialized = true)
    (epoch : next.highestTimestamp = timestamp)
    (highest : next.highestId.toNat = max packetId.toNat (highestAccepted log timestamp)) (marks
      : 0 < windowSize.toNat
        → ∀ id, id ≠ 0
        → id.toNat ≤ next.highestId.toNat
        → next.highestId.toNat - id.toNat < windowSize.toNat
        → (seen next.bitmap (next.highestId.toNat - id.toNat) = true
            ↔ id = packetId ∨ ⟨id, timestamp⟩ ∈ log))
    : Tracks next (⟨packetId, timestamp⟩ :: log) where
  minimum := minimum
  started := by simp [initialized]
  epoch := epoch
  newest := List.forall_mem_cons.mpr ⟨UInt32.le_refl _, newest⟩
  highest := by rw [currentEpoch_cons, highestAccepted, if_pos rfl, highest]
  marks := by
    intro hpos id hz hb near
    rw [marks hpos id hz hb near, currentEpoch_cons, List.mem_cons, Delivery.mk.injEq]
    simp
  nodup := List.nodup_cons.mpr ⟨hn, h.nodup⟩
  ordered := List.pairwise_cons.mpr ⟨newest, h.ordered⟩

/-- `initialize` opens an epoch: the first one, or one above every accepted delivery. -/
theorem initializeWindow {timestamp} (hr : log = [] ∨ currentEpoch log < timestamp) (now)
    : Tracks (inner.initializeWindow packetId timestamp now) (⟨packetId, timestamp⟩ :: log) := by
  have hn (id : UInt32) : ⟨id, timestamp⟩ ∉ log := fun hm => h.unused hr _ hm rfl
  refine h.cons (fun delivery hm => UInt32.le_of_lt (h.older hr delivery hm))
    (hn packetId) rfl rfl rfl ?_ ?_
  · rw [highestAccepted_eq_zero (h.unused hr)]
    exact (Nat.max_zero _).symm
  · -- Only offset zero is marked, and only the new delivery lies in the epoch.
    intro hpos id _ hb _
    have words : 0 < windowWords windowSize := windowWords_pos hpos
    have marked (index : Nat)
        : seen (inner.initializeWindow packetId timestamp now).bitmap index
          = decide (index = 0) := by
      have := seen_markHighest
        (Vector.replicate (windowWords windowSize) (0 : BitVec 64)) index words
      rw [seen_replicate, Bool.false_or] at this
      simpa [ReplayInner.initializeWindow, words] using this
    have he : id = packetId ↔ packetId.toNat - id.toNat = 0 := by
      rw [← UInt32.toNat_inj]
      simp only [ReplayInner.initializeWindow] at hb
      omega
    rw [marked, decide_eq_true_iff, or_iff_left (hn id), he]
    rfl

/-- Ids above the highest one were not accepted in this epoch. -/
theorem above_notMem {id} (ha : inner.highestId.toNat < id.toNat)
    : ⟨id, currentEpoch log⟩ ∉ log := by
  intro hm
  have hb := le_highestAccepted hm
  rw [h.highest] at hb
  simp only at hb
  omega

theorem advance (hs : log ≠ []) (ha : inner.highestId.toNat < packetId.toNat) (now)
    : Tracks (inner.advance packetId now) (⟨packetId, currentEpoch log⟩ :: log) := by
  refine h.cons h.newest (h.above_notMem ha) h.minimum (h.started.mpr hs) h.epoch
    (h.highest ▸ (max_eq_left (le_of_lt ha)).symm) ?_
  intro hpos id hz hb near
  have words : 0 < windowWords windowSize := windowWords_pos hpos
  simp only [ReplayInner.advance] at hb near ⊢
  rw [seen_markHighest _ _ words]
  have he : id = packetId ↔ packetId.toNat - id.toNat = 0 := by
    rw [← UInt32.toNat_inj]
    omega
  have word : (packetId.toNat - id.toNat) / 64 < windowWords windowSize := offset_word_lt near
  by_cases jump : windowSize.toNat ≤ packetId.toNat - inner.highestId.toNat
  · -- The jump leaves the old window behind: nothing below is remembered or reachable.
    rw [if_pos jump, seen_replicate]
    have gone : id ≠ packetId → ⟨id, currentEpoch log⟩ ∉ log := fun _ =>
      h.above_notMem (by omega)
    by_cases eq : id = packetId
    · simp [eq]
    · simp [eq, gone eq, he.not.mp eq]
  · rw [if_neg jump, seen_shiftBitmap _ _ _ word]
    by_cases between : inner.highestId.toNat < id.toNat
    · rw [if_pos (by omega)]
      simp [he, h.above_notMem between]
    rw [if_neg (by omega)]
    have marks := h.marks hpos id hz (by omega) (by omega)
    have distance
        : packetId.toNat - id.toNat - (packetId.toNat - inner.highestId.toNat)
          = inner.highestId.toNat - id.toNat := by
      omega
    rw [distance, Bool.or_eq_true, marks, decide_eq_true_iff, he, or_comm]

/-- `backtrack` accepts exactly the unmarked ids of the window, and marks what it accepts. -/
theorem backtrack (ht : log ≠ []) (hz : packetId ≠ 0)
    (hb : packetId.toNat ≤ inner.highestId.toNat) (now)
    : ((inner.backtrack packetId now).1 = true
        ↔ inner.highestId.toNat - packetId.toNat < windowSize.toNat
          ∧ ⟨packetId, currentEpoch log⟩ ∉ log)
      ∧ Tracks (inner.backtrack packetId now).2
          (if (inner.backtrack packetId now).1 then ⟨packetId, currentEpoch log⟩ :: log
          else log) := by
  have notBelow : ¬ packetId < inner.minimumId := by
    rw [h.minimum]
    exact UInt32.not_lt_zero
  unfold ReplayInner.backtrack
  rw [if_neg notBelow]
  by_cases near : inner.highestId.toNat - packetId.toNat < windowSize.toNat
  · have hpos : 0 < windowSize.toNat := by omega
    have inWords := offset_word_lt near
    have hs : (inner.highestId.toNat - packetId.toNat) % 64 < 64 :=
      Nat.mod_lt _ (by decide)
    have marked
        : inner.bitmap[(inner.highestId.toNat - packetId.toNat) / 64]
              &&& (1#64) <<< ((inner.highestId.toNat - packetId.toNat) % 64) = 0#64
          ↔ ⟨packetId, currentEpoch log⟩ ∉ log := by
      rw [and_mask_eq_zero_iff _ hs, ← bitmapWord_eq _ inWords, ← h.marks hpos packetId hz hb near]
      simp [seen, wordBit]
    simp only [dif_pos near]
    by_cases hn : ⟨packetId, currentEpoch log⟩ ∈ log
    · rw [if_pos (fun zero => marked.mp zero hn)]
      exact ⟨by simp [hn], h⟩
    rw [if_neg (not_not.mpr (marked.mpr hn))]
    refine ⟨by simp [hn, near], ?_⟩
    refine h.cons h.newest hn h.minimum (h.started.mpr ht) h.epoch
      (h.highest ▸ (max_eq_right hb).symm) ?_
    intro hpos id idNonzero idBelow idNear
    simp only at idBelow idNear ⊢
    rw [seen_set_or _ _ _ inWords, Bool.or_eq_true, decide_eq_true_iff,
      h.marks hpos id idNonzero idBelow idNear, ← UInt32.toNat_inj, or_comm]
    have he
        : inner.highestId.toNat - id.toNat = inner.highestId.toNat - packetId.toNat
          ↔ id.toNat = packetId.toNat := by
      omega
    rw [he]
  · simp only [dif_neg near]
    exact ⟨by simp [near], h⟩

/-- With no window the only id that can follow is the successor of the highest one. -/
theorem successor (empty : windowSize = 0) (hs : log ≠ []) (hz : inner.highestId + 1 ≠ 0)
    : Tracks { inner with highestId := inner.highestId + 1 }
        (⟨inner.highestId + 1, currentEpoch log⟩ :: log) := by
  have next : (inner.highestId + 1).toNat = inner.highestId.toNat + 1 := by
    have hpos : (inner.highestId + 1).toNat ≠ 0 := fun zero =>
      hz (UInt32.toNat_inj.mp zero)
    have hb := inner.highestId.toNat_lt
    rw [UInt32.toNat_add] at hpos ⊢
    simp only [UInt32.toNat_one] at hpos ⊢
    omega
  refine h.cons h.newest (h.above_notMem (by omega)) h.minimum (h.started.mpr hs) h.epoch ?_ ?_
  · rw [next, h.highest]
    omega
  · intro hpos
    simp [empty] at hpos

end Tracks

/-- What one call does to a tracked window: the verdict never repeats a delivery, is exact
for a window of positive size, and the new window tracks the new log.
-/
structure CallOutcome (windowSize : UInt32) (log : List Delivery) (delivery : Delivery)
    (verdict : Bool) (inner : ReplayInner windowSize)
    : Prop where
  fresh : verdict = true → delivery ∉ log ∧ currentEpoch log ≤ delivery.epoch
  exact : 0 < windowSize.toNat → (verdict = true ↔ Admits windowSize log delivery)
  tracks : Tracks inner (if verdict then delivery :: log else log)

section

variable (h : Tracks inner log)
include h

/-- A rejected call changes nothing. -/
theorem CallOutcome.reject (hr : 0 < windowSize.toNat → ¬ Admits windowSize log delivery)
    : CallOutcome windowSize log delivery false inner where
  fresh := by simp
  exact := fun hpos => by simpa using hr hpos
  tracks := h

/-- Opening an epoch is always admitted. -/
theorem CallOutcome.opened {timestamp} (hz : packetId ≠ 0)
    (hr : log = [] ∨ currentEpoch log < timestamp) (now)
    : CallOutcome windowSize log ⟨packetId, timestamp⟩ true
        (inner.initializeWindow packetId timestamp now) := by
  have notOlder : currentEpoch log ≤ timestamp := by
    rcases hr with empty | hr
    · rw [empty]
      exact UInt32.zero_le
    · exact UInt32.le_of_lt hr
  have hn : ⟨packetId, timestamp⟩ ∉ log := fun hm => h.unused hr _ hm rfl
  have unused := highestAccepted_eq_zero (h.unused hr)
  have hpos : 0 < packetId.toNat := by
    have : packetId.toNat ≠ 0 := fun zero => hz (UInt32.toNat_inj.mp zero)
    omega
  refine ⟨fun _ => ⟨hn, notOlder⟩, fun _ => ?_, by simpa using h.initializeWindow hr now⟩
  simp only [true_iff]
  exact ⟨hz, notOlder, hn, Or.inl (by simpa [unused] using hpos)⟩

/-- `accept_locked` on a started window decides ids of the current epoch. -/
theorem acceptLocked_outcome (hz : packetId ≠ 0) (hs : log ≠ []) (now)
    : CallOutcome windowSize log ⟨packetId, currentEpoch log⟩
        (inner.acceptLocked 0 packetId now).1 (inner.acceptLocked 0 packetId now).2 := by
  unfold ReplayInner.acceptLocked
  rw [if_neg (by simp [h.started.mpr hs])]
  by_cases empty : windowSize = 0
  · have noWindow : ¬ 0 < windowSize.toNat := by simp [empty]
    rw [if_pos empty]
    by_cases successor : packetId = inner.highestId + 1
    · subst successor
      have tracks := h.successor empty hs hz
      refine ⟨fun _ => ⟨?_, UInt32.le_refl _⟩, fun hpos => absurd hpos noWindow,
        by simpa using tracks⟩
      exact (List.nodup_cons.mp tracks.nodup).1
    rw [if_pos successor]
    exact .reject h fun hpos => absurd hpos noWindow
  · rw [if_neg empty, ReplayInner.reap, if_pos rfl]
    by_cases above : inner.highestId < packetId
    · rw [if_pos above]
      have hn := h.above_notMem above
      refine ⟨fun _ => ⟨hn, UInt32.le_refl _⟩, fun _ => ?_, by simpa using h.advance hs above now⟩
      simp only [true_iff]
      exact ⟨hz, UInt32.le_refl _, hn, Or.inl (by rw [h.highest]; exact above)⟩
    rw [if_neg above]
    rw [UInt32.lt_iff_toNat_lt, not_lt] at above
    obtain ⟨verdict, tracks⟩ := h.backtrack hs hz above now
    refine ⟨fun ha => ⟨(verdict.mp ha).2, UInt32.le_refl _⟩, fun _ => ?_, tracks⟩
    rw [verdict]
    constructor
    · rintro ⟨near, hn⟩
      exact ⟨hz, UInt32.le_refl _, hn, Or.inr (by rw [h.highest]; exact near)⟩
    · rintro ⟨_, _, hn, inWindow⟩
      simp only [h.highest] at inWindow
      exact ⟨by omega, hn⟩

end

variable {window : ReplayWindow}

/-- One call on a tracked window without a time limit. -/
theorem call_outcome (h : Tracks window.inner log) (timeless : window.timeWindow = 0) (call)
    : ∃ inner,
        (window.call call).2 = { window with inner }
        ∧ CallOutcome window.windowSize log (call.delivery log) (window.call call).1 inner := by
  obtain ⟨windowSize, timeWindow, inner⟩ := window
  simp only at h timeless
  subst timeless
  have zeroRejected (epoch : UInt32) : CallOutcome windowSize log ⟨0, epoch⟩ false inner :=
    .reject h fun _ admits => admits.nonzero rfl
  have hn : inner.initialized = false → log = [] := by
    intro hu
    by_contra hs
    simp [h.started.mpr hs] at hu
  cases call with
  | accept packetId now =>
    simp only [call, AcceptCall.delivery, acceptAt]
    by_cases zero : packetId = 0
    · subst zero
      exact ⟨inner, rfl, zeroRejected _⟩
    rw [if_neg zero]
    refine ⟨_, rfl, ?_⟩
    by_cases empty : log = []
    · -- The first short-form packet opens epoch zero.
      have hu : inner.initialized = false := by
        by_contra hs
        exact h.started.mp (by simpa using hs) empty
      have ho := @CallOutcome.opened _ _ _ packetId h 0 zero (.inl empty) now
      subst empty
      simpa [ReplayInner.acceptLocked, hu, currentEpoch] using ho
    · exact acceptLocked_outcome h zero empty now
  | acceptLongForm packetId timestamp now =>
    simp only [call, AcceptCall.delivery, acceptLongFormAt]
    by_cases zero : packetId = 0
    · subst zero
      exact ⟨inner, rfl, zeroRejected _⟩
    rw [if_neg zero]
    by_cases hu : inner.initialized = false
    · rw [if_pos (by simp [hu])]
      split
      next hr =>
        exact ⟨inner, rfl, .reject h fun hpos => by simp [hr.1] at hpos⟩
      · exact ⟨_, rfl, .opened h zero (.inl (hn hu)) now⟩
    have hs : log ≠ [] := h.started.mp (by simpa using hu)
    rw [if_neg (by simpa using hu)]
    rw [h.epoch]
    by_cases older : timestamp < currentEpoch log
    · rw [if_pos older]
      refine ⟨inner, rfl, .reject h fun _ admits => ?_⟩
      exact absurd older (UInt32.not_lt.mpr admits.notOlder)
    rw [if_neg older]
    by_cases newer : currentEpoch log < timestamp
    · rw [if_pos newer]
      split
      next hr =>
        exact ⟨inner, rfl, .reject h fun hpos => by simp [hr.1] at hpos⟩
      · exact ⟨_, rfl, .opened h zero (.inr newer) now⟩
    rw [if_neg newer]
    have he : timestamp = currentEpoch log := by
      rw [UInt32.lt_iff_toNat_lt] at older newer
      exact UInt32.toNat_inj.mp (by omega)
    subst he
    exact ⟨_, rfl, acceptLocked_outcome h zero hs now⟩

variable (calls : List AcceptCall)

/-- A window keeps its configuration and tracks the log along every sequence of calls. -/
theorem runLog_tracks (h : Tracks window.inner log) (timeless : window.timeWindow = 0)
    : ∃ inner,
        (window.runLog log calls).1 = { window with inner }
        ∧ Tracks inner (window.runLog log calls).2 := by
  induction calls generalizing window log with
  | nil => exact ⟨window.inner, rfl, h⟩
  | cons call calls ih =>
    obtain ⟨inner, state, outcome⟩ := call_outcome h timeless call
    simp only [runLog, state]
    exact @ih _ { window with inner } outcome.tracks timeless

/-- Short-form calls alone stay in epoch zero. -/
theorem runLog_shortForm_epoch (hs : ∀ call ∈ calls, ∃ id now, call = .accept id now)
    (zero : ∀ delivery ∈ log, delivery.epoch = 0)
    : ∀ delivery ∈ (window.runLog log calls).2, delivery.epoch = 0 := by
  induction calls generalizing window log with
  | nil => exact zero
  | cons call calls ih =>
    simp only [runLog]
    apply ih fun other hm => hs other (by simp [hm])
    obtain ⟨id, now, rfl⟩ := hs call (by simp)
    have current : currentEpoch log = 0 := by
      cases log with
      | nil => rfl
      | cons head _ => exact zero head (by simp)
    split
    · exact List.forall_mem_cons.mpr ⟨current, zero⟩
    · exact zero

/-- After any sequence of calls on a window without a time limit, nothing was accepted twice
in one epoch and epochs never went back; the next call accepts nothing repeated or older,
and with a positive window it accepts exactly what `Admits` describes.
-/
theorem replayWindow_exact (windowSize : UInt32) (calls : List AcceptCall) (call : AcceptCall)
    : let (window, log) := (new windowSize 0).runLog [] calls
      let delivery := call.delivery log
      log.Nodup
      ∧ log.Pairwise (fun newer older => older.epoch ≤ newer.epoch)
      ∧ ((∀ call ∈ calls, ∃ id now, call = .accept id now) → (log.map Delivery.id).Nodup)
      ∧ ((window.call call).1 = true
          → delivery ∉ log ∧ ∀ earlier ∈ log, earlier.epoch ≤ delivery.epoch)
      ∧ (0 < windowSize.toNat
          → ((window.call call).1 = true ↔ Admits windowSize log delivery)) := by
  obtain ⟨inner, state, tracks⟩ :=
    runLog_tracks calls (tracks_new windowSize 0) (show (0 : Duration) = 0 from rfl)
  obtain ⟨_, -, outcome⟩ :=
    @call_outcome _ { new windowSize 0 with inner } tracks rfl call
  simp only [state]
  refine ⟨tracks.nodup, tracks.ordered, ?_, ?_, outcome.exact⟩
  · intro short
    have zero :=
      @runLog_shortForm_epoch [] (new windowSize 0) calls short (by simp)
    apply List.Nodup.map_on _ tracks.nodup
    intro left leftMember right rightMember same
    cases left
    cases right
    have leftZero := zero _ leftMember
    have rightZero := zero _ rightMember
    simp only at same leftZero rightZero
    rw [same, leftZero, rightZero]
  · intro accepted
    obtain ⟨fresh, notOlder⟩ := outcome.fresh accepted
    exact ⟨fresh, fun earlier member => UInt32.le_trans (tracks.newest earlier member) notOlder⟩

end Zay.OpenVpn
