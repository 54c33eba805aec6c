import Zay.Clock
import Zay.Lib.WordBits

/-! OpenVPN packet-id replay protection, including long-form timestamp epochs
(`protocol/openvpn/replay.rs`). The mutex around the inner state makes each call atomic.
-/

namespace Zay.OpenVpn

open Vector

/-- The number of 64-bit words behind a window, `window_size.div_ceil(64)`. -/
def windowWords (windowSize : UInt32) : Nat := (windowSize.toNat + 63) / 64

variable {windowSize : UInt32}

theorem windowWords_pos (h : 0 < windowSize.toNat) : 0 < windowWords windowSize := by
  unfold windowWords
  omega

theorem offset_word_lt {offset} (h : offset < windowSize.toNat)
    : offset / 64 < windowWords windowSize := by
  unfold windowWords
  omega

/-- `ReplayInner`. The window size fixes how many words and arrival times there are. -/
structure ReplayInner (windowSize : UInt32) where
  initialized : Bool
  highestId : UInt32
  highestTimestamp : UInt32
  bitmap : Vector (BitVec 64) (windowWords windowSize)
  arrivalTimes : Vector (Option Instant) windowSize.toNat
  minimumId : UInt32
  deriving Repr, DecidableEq

structure ReplayWindow where
  windowSize : UInt32
  timeWindow : Duration
  inner : ReplayInner windowSize

def ReplayWindow.new (windowSize : UInt32) (timeWindow : Duration) : ReplayWindow where
  windowSize := windowSize
  timeWindow := timeWindow
  inner := {
    initialized := false
    highestId := 0
    highestTimestamp := 0
    bitmap := replicate _ 0
    arrivalTimes := replicate _ none
    minimumId := 0
  }

/-- The loop of `shift_bitmap`, which visits the words from the last one down: `target`
words are still to be written.
-/
def shiftBitmapLoop {count : Nat} (wordShift bitShift : Nat)
    : (target : Nat) → target ≤ count → Vector (BitVec 64) count → Vector (BitVec 64) count
  | 0, _, bitmap => bitmap
  | target + 1, bound, bitmap =>
    let value :=
      if wordShift ≤ target then
        let source := target - wordShift
        let value := bitmap[source] <<< bitShift
        if 0 < bitShift ∧ 0 < source then
          value ||| (bitmap[source - 1] >>> (64 - bitShift))
        else value
      else 0
    shiftBitmapLoop wordShift bitShift target (by omega) (bitmap.set target value)

def shiftBitmap {count : Nat} (bitmap : Vector (BitVec 64) count) (shift : Nat)
    : Vector (BitVec 64) count :=
  shiftBitmapLoop (shift / 64) (shift % 64) count (Nat.le_refl _) bitmap

/-- `shift_times`: `copy_within(..len - shift, shift)`, then the first `shift` entries are
cleared. A shift of the whole length or more clears everything.
-/
def shiftTimes {count : Nat} (times : Vector (Option Instant) count) (shift : Nat)
    : Vector (Option Instant) count :=
  ofFn fun index => if index < shift then none else times[index.val - shift]

/-- The first offset whose packet arrived more than `timeWindow` ago. -/
def expiredOffset? {count : Nat} (timeWindow : Duration) (now : Instant)
    (times : Vector (Option Instant) count)
    : Option Nat :=
  times.toList.findIdx? fun arrival =>
    arrival.any fun arrival => timeWindow < now.durationSince arrival

namespace ReplayInner

variable {windowSize : UInt32} (inner : ReplayInner windowSize)

/-- `initialize`: the window of a new epoch holds only `packetId`. -/
def initializeWindow (inner : ReplayInner windowSize) (packetId timestamp : UInt32) (now : Instant)
    : ReplayInner windowSize :=
  { inner with
    initialized := true
    highestTimestamp := timestamp
    highestId := packetId
    minimumId := 0
    bitmap := (replicate _ 0).setIfInBounds 0 1
    arrivalTimes := (replicate _ none).setIfInBounds 0 (some now) }

def reap (timeWindow : Duration) (now : Instant) : ReplayInner windowSize :=
  if timeWindow = 0 then inner
  else
    match expiredOffset? timeWindow now inner.arrivalTimes with
    | none => inner
    | some offset =>
      let minimumId := inner.highestId - UInt32.ofNat offset + 1
      { inner with minimumId := max inner.minimumId minimumId }

/-- `accept_locked` above the highest id: the window moves up to `packetId`. -/
def advance (packetId : UInt32) (now : Instant) : ReplayInner windowSize :=
  let shift := packetId.toNat - inner.highestId.toNat
  let bitmap :=
    if windowSize.toNat ≤ shift then replicate _ 0
    else shiftBitmap inner.bitmap shift
  let arrivalTimes :=
    if windowSize.toNat ≤ shift then replicate _ none
    else shiftTimes inner.arrivalTimes shift
  { inner with
    bitmap := bitmap.setIfInBounds 0 (bitmap[0]?.getD 0 ||| 1)
    arrivalTimes := arrivalTimes.setIfInBounds 0 (some now)
    highestId := packetId }

/-- `accept_locked` at or below the highest id: the id must lie in the window, at or above
the minimum, and its bit must be clear.
-/
def backtrack (packetId : UInt32) (now : Instant) : Bool × ReplayInner windowSize :=
  if packetId < inner.minimumId then (false, inner)
  else
    let offset := inner.highestId.toNat - packetId.toNat
    if bound : offset < windowSize.toNat then
      have inWords := offset_word_lt bound
      let word := inner.bitmap[offset / 64]
      let mask := (1#64) <<< (offset % 64)
      if word &&& mask ≠ 0#64 then (false, inner)
      else
        (true,
          { inner with
            bitmap := inner.bitmap.set (offset / 64) (word ||| mask)
            arrivalTimes := inner.arrivalTimes.set offset (some now) })
    else (false, inner)

def acceptLocked (timeWindow : Duration) (packetId : UInt32) (now : Instant)
    : Bool × ReplayInner windowSize :=
  if !inner.initialized then (true, inner.initializeWindow packetId 0 now)
  else if windowSize = 0 then
    -- `wrapping_add`: after the last id the successor is zero, which no caller passes.
    if packetId ≠ inner.highestId + 1 then (false, inner)
    else (true, { inner with highestId := packetId })
  else
    let inner := inner.reap timeWindow now
    if inner.highestId < packetId then (true, inner.advance packetId now)
    else inner.backtrack packetId now

end ReplayInner

def ReplayWindow.acceptAt (window : ReplayWindow) (packetId : UInt32) (now : Instant)
    : Bool × ReplayWindow :=
  if packetId = 0 then (false, window)
  else
    let (verdict, inner) := window.inner.acceptLocked window.timeWindow packetId now
    (verdict, { window with inner })

def ReplayWindow.acceptLongFormAt (window : ReplayWindow) (packetId timestamp : UInt32)
    (now : Instant)
    : Bool × ReplayWindow :=
  if packetId = 0 then (false, window)
  else if !window.inner.initialized then
    if window.windowSize = 0 ∧ 0 < timestamp ∧ packetId ≠ 1 then (false, window)
    else (true, { window with inner := window.inner.initializeWindow packetId timestamp now })
  else if timestamp < window.inner.highestTimestamp then (false, window)
  else if window.inner.highestTimestamp < timestamp then
    if window.windowSize = 0 ∧ packetId ≠ 1 then (false, window)
    else (true, { window with inner := window.inner.initializeWindow packetId timestamp now })
  else
    let (verdict, inner) := window.inner.acceptLocked window.timeWindow packetId now
    (verdict, { window with inner })

end Zay.OpenVpn
