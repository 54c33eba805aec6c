import Mathlib.Data.List.Sort
import Zay.Clock
import Zay.Lib.Runs
import Zay.OpenVpn.Session

/-! The ring of data keys kept during TLS soft resets
(`protocol/openvpn/data_key_ring.rs`): the outbound key and the receive keys scanned beside
it.
-/

namespace Zay.OpenVpn

open Lib

structure OpenVpnReceiveKeyState (T : Type) where
  keyId : UInt8
  sequence : Nat
  session : SessionManager
  value : T
  expiresAt : Option Instant
  deriving Repr, DecidableEq

structure OpenVpnDataKeyRing (T : Type) where
  receive : List (OpenVpnReceiveKeyState T)
  sendKeyId : UInt8
  sendSequence : Nat
  promotedSequence : Nat
  transitionWindow : Duration
  scanSize : Nat
  deriving Repr, DecidableEq

inductive DataKeyRingError where
  | invalidSoftResetKeyId (keyId : UInt8)
  | missingStagedKey
  deriving Repr, DecidableEq

def validateSoftResetKeyId (keyId : UInt8) : Except DataKeyRingError Unit :=
  if 1 ≤ keyId ∧ keyId ≤ 7 then .ok () else .error (.invalidSoftResetKeyId keyId)

namespace OpenVpnDataKeyRing

variable {T : Type}

def withLimits (keyId : UInt8) (session : SessionManager) (value : T)
    (transitionWindow : Duration) (scanSize : Nat)
    : OpenVpnDataKeyRing T where
  receive := [{ keyId, sequence := 0, session, value, expiresAt := none }]
  sendKeyId := keyId
  sendSequence := 0
  promotedSequence := 0
  transitionWindow
  scanSize := max scanSize 1

variable (ring : OpenVpnDataKeyRing T)

/-- The entry of the outbound key, as `current_send` and `promote` look for it. -/
def isSend (entry : OpenVpnReceiveKeyState T) : Bool :=
  entry.keyId = ring.sendKeyId && entry.sequence = ring.sendSequence

def currentSend : Option (OpenVpnReceiveKeyState T) :=
  ring.receive.find? ring.isSend

/-- `sort_and_limit`: the sort is stable, and the front is drained. -/
def sortAndLimit : OpenVpnDataKeyRing T :=
  let sorted := ring.receive.insertionSort fun left right => left.sequence ≤ right.sequence
  { ring with receive := sorted.drop (sorted.length - ring.scanSize) }

def stage (keyId : UInt8) (sequence : Nat) (session : SessionManager) (value : T) (now : Instant)
    : Except DataKeyRingError (OpenVpnDataKeyRing T) := do
  validateSoftResetKeyId keyId
  let entry : OpenVpnReceiveKeyState T :=
    { keyId, sequence, session, value, expiresAt := some (now + ring.transitionWindow) }
  let others := ring.receive.filter (·.keyId ≠ keyId)
  let staged := { ring with receive := others ++ [entry] }
  .ok staged.sortAndLimit

def prune (now : Instant) : OpenVpnDataKeyRing T :=
  let pruned :=
    { ring with receive := ring.receive.filter fun entry => entry.expiresAt.all (now < ·) }
  pruned.sortAndLimit

/-- The outbound key goes over to the staged entry; the previous one gets an expiry. -/
def handOver (keyId : UInt8) (sequence : Nat) (index : Nat) (expiry : Instant)
    : OpenVpnDataKeyRing T :=
  let demoted := ring.receive.map fun entry =>
    if ring.isSend entry then { entry with expiresAt := some expiry } else entry
  { ring with
    receive := demoted.modify index fun entry => { entry with expiresAt := none }
    sendKeyId := keyId
    sendSequence := sequence
    promotedSequence := sequence }

def promote (keyId : UInt8) (sequence : Nat) (now : Instant)
    : Except DataKeyRingError (Bool × OpenVpnDataKeyRing T) := do
  validateSoftResetKeyId keyId
  if sequence ≤ ring.promotedSequence then .ok (false, ring)
  else
    match ring.receive.findIdx? (fun entry =>
        entry.keyId = keyId && entry.sequence = sequence) with
    | none => .error .missingStagedKey
    | some index =>
      .ok (true,
        (ring.handOver keyId sequence index (now + ring.transitionWindow)).prune now)

def discard (keyId : UInt8) (sequence : Nat) : OpenVpnDataKeyRing T :=
  if keyId = ring.sendKeyId ∧ sequence = ring.sendSequence then ring
  else
    { ring with
      receive := ring.receive.filter fun entry =>
        entry.keyId != keyId || entry.sequence != sequence }

def selectReceive (keyId : UInt8) (now : Instant)
    : Option (OpenVpnReceiveKeyState T) × OpenVpnDataKeyRing T :=
  let ring := ring.prune now
  (ring.receive.find? (·.keyId = keyId), ring)

end OpenVpnDataKeyRing

inductive RingStep (T : Type) where
  | stage (keyId : UInt8) (sequence : Nat) (session : SessionManager) (value : T)
    (now : Instant)
  | promote (keyId : UInt8) (sequence : Nat) (now : Instant)
  | discard (keyId : UInt8) (sequence : Nat)
  | prune (now : Instant)
  | selectReceive (keyId : UInt8) (now : Instant)
  deriving Repr, DecidableEq

/-- The sequence of a staging call. -/
def RingStep.staged? {T : Type} : RingStep T → Option Nat
  | .stage _ sequence _ _ _ => some sequence
  | _ => none

namespace OpenVpnDataKeyRing

variable {T : Type} (ring : OpenVpnDataKeyRing T)

/-- A call that returns an error leaves the ring as it was. -/
def step : RingStep T → OpenVpnDataKeyRing T
  | .stage keyId sequence session value now =>
    match ring.stage keyId sequence session value now with
    | .ok ring => ring
    | .error _ => ring
  | .promote keyId sequence now =>
    match ring.promote keyId sequence now with
    | .ok (_, ring) => ring
    | .error _ => ring
  | .discard keyId sequence => ring.discard keyId sequence
  | .prune now => ring.prune now
  | .selectReceive keyId now => (ring.selectReceive keyId now).2

def run (steps : List (RingStep T)) : OpenVpnDataKeyRing T :=
  steps.foldl step ring

/-- There is an outbound key without an expiry, and at most `scanSize` keys of distinct ids
are retained.
-/
structure RetainsSend (ring : OpenVpnDataKeyRing T) : Prop where
  send : ∃ entry, ring.currentSend = some entry ∧ entry.expiresAt = none
  limited : ring.receive.length ≤ ring.scanSize
  distinct : (ring.receive.map (·.keyId)).Nodup

/-- Before the step: a staged key id is not the outbound one, and the outbound entry, the
entries behind it and the staged one fit into the ring. Entries of the staged key id give
way first.
-/
def HasRoom : RingStep T → Prop
  | .stage keyId _ _ _ _ =>
    1 ≤ keyId ∧ keyId ≤ 7 →
    keyId ≠ ring.sendKeyId
    ∧ ((ring.receive.filter (·.keyId ≠ keyId)).dropWhile (!ring.isSend ·)).length
      < ring.scanSize
  | _ => True

end OpenVpnDataKeyRing

end Zay.OpenVpn
