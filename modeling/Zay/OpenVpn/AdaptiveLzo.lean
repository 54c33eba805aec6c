import Zay.Clock
import Zay.Lib.MachineInt

/-! Adaptive LZO compression of outgoing payloads. What it saves is sampled for two seconds at a
time and, when that is too little, compression is switched off for a minute. The compressor is a
parameter.
-/

namespace Zay.OpenVpn

open Lib Option

def lzoAdaptiveSampleDuration : Duration := 2 * 10 ^ 9
def lzoAdaptiveOffDuration : Duration := 60 * 10 ^ 9
def lzoAdaptiveMinimumBytes : Nat := 1000
def lzoAdaptiveSavePercent : Nat := 5
def openvpnCompressionThreshold : Nat := 100

structure AdaptiveState where
  disabled : Bool := false
  next : Option Instant := none
  totalBytes : Nat := 0
  compressedBytes : Nat := 0
  deriving Repr, DecidableEq

/-- What `DataChannelFraming` compresses with. -/
structure LzoFraming where
  adaptive : Bool
  compressOutbound : Bool
  compress : List UInt8 → List UInt8

/-- How a boundary leaves the state. -/
def AdaptiveState.settled (disabled : Bool) (now : Instant) : AdaptiveState where
  disabled
  next := some (now + if disabled then lzoAdaptiveOffDuration else lzoAdaptiveSampleDuration)

/-- Whether a sample has saved too little; `none` is an underflow. -/
def AdaptiveState.savesTooLittle (state : AdaptiveState) : Option Bool :=
  if lzoAdaptiveMinimumBytes < state.totalBytes then
    (checkedSub state.totalBytes state.compressedBytes).map
      (· < state.totalBytes / (100 / lzoAdaptiveSavePercent))
  else some false

/-- The sums with a payload that was compressed; `none` is an overflow. -/
def AdaptiveState.sampled (state : AdaptiveState) (payload compressed : List UInt8)
    : Option AdaptiveState :=
  let totalBytes := state.totalBytes + payload.length
  let compressedBytes := state.compressedBytes + compressed.length
  if max totalBytes compressedBytes < 2 ^ 64 then some { state with totalBytes, compressedBytes }
  else none

theorem AdaptiveState.savesTooLittle_eq (state : AdaptiveState)
    : state.savesTooLittle
      = if lzoAdaptiveMinimumBytes < state.totalBytes ∧ state.totalBytes < state.compressedBytes
        then none
        else some (decide (lzoAdaptiveMinimumBytes < state.totalBytes
          ∧ (state.totalBytes : Int) - state.compressedBytes < state.totalBytes / 20)) := by
  unfold savesTooLittle checkedSub
  by_cases hm : lzoAdaptiveMinimumBytes < state.totalBytes
  · by_cases hg : state.totalBytes < state.compressedBytes
    · simp [hm, hg]
    · have he : decide (state.totalBytes - state.compressedBytes
            < state.totalBytes / (100 / lzoAdaptiveSavePercent))
          = decide ((state.totalBytes : Int) - state.compressedBytes < state.totalBytes / 20) :=
        decide_eq_decide.mpr (by simp only [lzoAdaptiveSavePercent]; omega)
      simp [hm, hg, Nat.not_lt.mp hg, he]
  · simp [hm]

namespace LzoFraming

variable (framing : LzoFraming)

def lzoCompressionEnabled (state : AdaptiveState) (now : Instant)
    : Option (Bool × AdaptiveState) :=
  if !framing.adaptive then some (true, state)
  else if state.next.all (· ≤ now) then
    if state.disabled then some (true, .settled false now)
    else state.savesTooLittle.map fun off => (!off, .settled off now)
  else some (!state.disabled, state)

def considers (payload : List UInt8) : Bool :=
  framing.compressOutbound && openvpnCompressionThreshold ≤ payload.length

def encodeLzoFrame (state : AdaptiveState) (payload : List UInt8) (now : Instant)
    : Option (List UInt8 × AdaptiveState) :=
  if !framing.considers payload then some (0xfa :: payload, state)
  else do
    let (enabled, state) ← framing.lzoCompressionEnabled state now
    if !enabled then return (0xfa :: payload, state)
    let compressed := framing.compress payload
    let state ← if framing.adaptive then state.sampled payload compressed else some state
    return (if payload.length ≤ compressed.length then 0xfa :: payload else 0x66 :: compressed,
      state)

/-- A state with the payloads that were compressed since the last boundary. -/
structure Run where
  state : AdaptiveState := {}
  sample : List (List UInt8) := []
  deriving DecidableEq

/-- One payload at a time. -/
def step (run : Run) (call : List UInt8 × Instant) : Option Run :=
  (framing.encodeLzoFrame run.state call.1 call.2).map fun encoded =>
    { state := encoded.2
      sample :=
        if !framing.considers call.1 then run.sample
        else
          let kept := if run.state.next.all (· ≤ call.2) then [] else run.sample
          if encoded.2.disabled then kept else kept ++ [call.1] }

def after (calls : List (List UInt8 × Instant)) : Option Run := calls.foldlM framing.step {}

/-- The bytes of payloads, or of what `made` makes of them. -/
def bytes (made : List UInt8 → List UInt8) (payloads : List (List UInt8)) : Nat :=
  (payloads.map fun payload => (made payload).length).sum

/-- The sums are those of the payloads that were compressed. -/
def Sampled (run : Run) : Prop :=
  run.state.totalBytes = bytes id run.sample
    ∧ run.state.compressedBytes = bytes framing.compress run.sample

variable {framing} {state : AdaptiveState} {payload : List UInt8} {now : Instant}
  (adaptive : framing.adaptive)

include adaptive

/-- A boundary starts a sample, and nothing else changes the sums. -/
theorem lzoCompressionEnabled_some {next enabled}
    (h : framing.lzoCompressionEnabled state now = some (enabled, next))
    : next.disabled = !enabled ∧ if state.next.all (· ≤ now)
        then next.totalBytes = 0 ∧ next.compressedBytes = 0 else next = state := by
  rw [lzoCompressionEnabled, if_neg (by simp [adaptive])] at h
  split
  next hd =>
    rw [if_pos hd] at h
    split at h
    · cases h
      exact ⟨rfl, rfl, rfl⟩
    · obtain ⟨_, _, made⟩ := map_eq_some_iff.mp h
      cases made
      exact ⟨(Bool.not_not _).symm, rfl, rfl⟩
  next hd =>
    rw [if_neg hd] at h
    cases h
    exact ⟨(Bool.not_not _).symm, rfl⟩

theorem sampled_step {run next : Run} {call} (h : framing.Sampled run)
    (stepped : framing.step run call = some next)
    : framing.Sampled next := by
  obtain ⟨_, made, rfl⟩ := map_eq_some_iff.mp stepped
  by_cases hc : framing.considers call.1
  · simp only [encodeLzoFrame, hc, Bool.not_true, Bool.false_eq_true, if_false, bind_eq_bind,
      adaptive, if_true, bind_eq_some_iff, Prod.exists] at made
    obtain ⟨enabled, state, decided, made⟩ := made
    obtain ⟨hd, started⟩ := lzoCompressionEnabled_some adaptive decided
    have kept : framing.Sampled
        ⟨state, if run.state.next.all (· ≤ call.2) then [] else run.sample⟩ := by
      split
      next due => exact (if_pos due).mp started
      next early => exact (if_neg early).mp started ▸ h
    cases enabled with
    | false =>
      cases some_inj.mp made
      simpa [hc, hd] using kept
    | true =>
      obtain ⟨next, sampled, made⟩ := bind_eq_some_iff.mp made
      cases some_inj.mp made
      cases (ite_none_right_eq_some.mp sampled).2
      simp only [Sampled] at kept
      simp [Sampled, hc, hd, kept, bytes]
  · rw [encodeLzoFrame, if_pos (by simp [hc])] at made
    cases made
    simpa [hc] using h

theorem sampled_after {calls run} (ran : framing.after calls = some run)
    : framing.Sampled run := by
  have each (calls : List (List UInt8 × Instant)) : ∀ start, framing.Sampled start →
      calls.foldlM framing.step start = some run → framing.Sampled run := by
    induction calls with
    | nil => exact fun start h ran => some_inj.mp ran ▸ h
    | cons _ calls ih =>
      intro start h ran
      obtain ⟨next, stepped, ran⟩ := bind_eq_some_iff.mp ran
      exact ih next (sampled_step adaptive h stepped) ran
  exact each calls {} ⟨rfl, rfl⟩ ran

theorem encodeLzoFrame_isSome (shrunk : lzoAdaptiveMinimumBytes < state.totalBytes →
      state.compressedBytes ≤ state.totalBytes)
    (hb : state.totalBytes + payload.length < 2 ^ 64)
    (hc : state.compressedBytes + (framing.compress payload).length < 2 ^ 64)
    : (framing.encodeLzoFrame state payload now).isSome := by
  by_cases considered : framing.considers payload
  · have decided : (framing.lzoCompressionEnabled state now).isSome := by
      simp only [lzoCompressionEnabled, AdaptiveState.savesTooLittle, checkedSub]
      split_ifs <;> simp_all
    obtain ⟨⟨enabled, next⟩, decided⟩ := isSome_iff_exists.mp decided
    have started := (lzoCompressionEnabled_some adaptive decided).2
    have sums : next.totalBytes ≤ state.totalBytes
        ∧ next.compressedBytes ≤ state.compressedBytes := by
      split at started
      · omega
      · exact started ▸ ⟨le_rfl, le_rfl⟩
    have sampled : next.sampled payload (framing.compress payload) = some _ := if_pos (by omega)
    cases enabled <;> simp [encodeLzoFrame, considered, decided, adaptive, sampled]
  · simp [encodeLzoFrame, considered]

omit adaptive

/-- At a boundary compression is switched off exactly when more than the minimum was sampled and
less than the share of it saved. A payload is encoded unless such a sample grew, which underflows,
or the sums of bytes pass the limit of `usize`.
-/
theorem lzo_decides_by_savings (adaptive : framing.adaptive) {calls run}
    (ran : framing.after calls = some run)
    : (∀ now, run.state.next.all (· ≤ now) → run.state.disabled = false →
        framing.lzoCompressionEnabled run.state now
          = if lzoAdaptiveMinimumBytes < bytes id run.sample
              ∧ bytes id run.sample < bytes framing.compress run.sample then none
            else
              let off := decide (lzoAdaptiveMinimumBytes < bytes id run.sample
                ∧ (bytes id run.sample : Int) - bytes framing.compress run.sample
                  < bytes id run.sample / 20)
              some (!off, .settled off now))
      ∧ ∀ payload now, (lzoAdaptiveMinimumBytes < bytes id run.sample →
          bytes framing.compress run.sample ≤ bytes id run.sample) →
        bytes id run.sample + payload.length < 2 ^ 64 →
        bytes framing.compress run.sample + (framing.compress payload).length < 2 ^ 64 →
        (framing.encodeLzoFrame run.state payload now).isSome := by
  obtain ⟨total, compressed⟩ := sampled_after adaptive ran
  rw [← total, ← compressed]
  refine ⟨fun now due enabled => ?_, fun payload now => encodeLzoFrame_isSome adaptive⟩
  rw [lzoCompressionEnabled, if_neg (by simp [adaptive]), if_pos due, if_neg (by simp [enabled]),
    AdaptiveState.savesTooLittle_eq]
  split <;> rfl

/-- A compressor with the same output for everything. -/
def constant (output : List UInt8) : LzoFraming where
  adaptive := true
  compressOutbound := true
  compress _ := output

def longPayload : List (List UInt8 × Instant) := [(List.replicate 1001 0, 0)]

def sampledOnce : Run where
  state := { next := some lzoAdaptiveSampleDuration, totalBytes := 1001 }
  sample := [List.replicate 1001 0]

theorem lzo_decides_by_savings_once
    : (constant []).lzoCompressionEnabled sampledOnce.state lzoAdaptiveSampleDuration
      = some (true, .settled false lzoAdaptiveSampleDuration) := by
  have ran : (constant []).after longPayload = some sampledOnce := by decide +kernel
  rw [(lzo_decides_by_savings rfl ran).1 _ (by decide) rfl]
  decide +kernel

/-- The payload after one that grew. -/
theorem lzo_underflows
    : (constant (.replicate 1002 0)).after
        (longPayload ++ [(.replicate 100 0, lzoAdaptiveSampleDuration)]) = none := by
  decide +kernel

end LzoFraming

end Zay.OpenVpn
