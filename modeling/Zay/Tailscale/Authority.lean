import Mathlib.Data.List.Sort
import Zay.Tailscale.Aum

/-! The authority of a tailnet lock (`protocol/tailscale_tka_authority.rs`): a tree of signed
updates, the state at each of them and the active head that the fork rules choose. A call of
`SystemTime::now` is a parameter.
-/

namespace Zay.Tailscale

open Lib Lib.Cbor OrderedMap

def maxSyncIterations : Nat := 2000

def maxSyncHeadIntersectionIterations : Nat := 400

def ancestorsSkipStart : Nat := 4

def ancestorsSkipShift : Nat := 2

def nanosPerSecond : Nat := 1000000000

/-- Nanoseconds since the Unix epoch that a signed 64-bit count of seconds can hold. -/
def TimeInRange (nanos : Int) : Prop :=
  -9223372036854775808 * nanosPerSecond ≤ nanos ∧ nanos < 9223372036854775808 * nanosPerSecond

instance instDecidableTimeInRange (nanos : Int) : Decidable (TimeInRange nanos) :=
  inferInstanceAs (Decidable (_ ∧ _))

structure SystemTime where
  sinceEpoch : Int
  inRange : TimeInRange sinceEpoch
  deriving DecidableEq

namespace SystemTime

def unixEpoch : SystemTime := ⟨0, by decide⟩

/-- The duration is a number of nanoseconds. -/
def checkedSub (time : SystemTime) (duration : Nat) : Option SystemTime :=
  if h : TimeInRange (time.sinceEpoch - duration) then some ⟨_, h⟩ else none

/-- `UNIX_EPOCH.checked_add` for a whole number of seconds. -/
def ofSeconds? (seconds : Nat) : Option SystemTime :=
  if h : TimeInRange (seconds * nanosPerSecond : Nat) then some ⟨_, h⟩ else none

/-- Whole seconds since the epoch, zero before it. -/
def unixSeconds (time : SystemTime) : Nat := time.sinceEpoch.toNat / nanosPerSecond

end SystemTime

namespace TailscaleTkaAuthorityState

def findKey (state : TailscaleTkaAuthorityState) (id : List UInt8) : Option TailscaleTkaKey :=
  state.keys.find? (·.publicKey = id)

end TailscaleTkaAuthorityState

section Updates

variable (primitives : TkaPrimitives)

def verifySignatures (state : TailscaleTkaAuthorityState) (digest : TailscaleAumHash)
    : List TailscaleAumSignature → Except TailscaleTkaAuthorityError Unit
  | [] => .ok ()
  | signature :: rest =>
    match state.findKey signature.keyId with
    | none => .error .invalidSignature
    | some key =>
      if primitives.verifyStrict key.publicKey digest signature.signature then
        verifySignatures state digest rest
      else .error .invalidSignature

variable (aum : TailscaleAum) (state : TailscaleTkaAuthorityState)

/-- Whether an update removes the only key. -/
def RemovesFinalKey : Prop :=
  aum.kind = kindRemoveKey ∧ state.keys.length = 1
  ∧ aum.keyId = state.keys.head?.map (·.publicKey)

instance instDecidableRemovesFinalKey (aum : TailscaleAum) (state : TailscaleTkaAuthorityState)
    : Decidable (RemovesFinalKey aum state) :=
  inferInstanceAs (Decidable (_ ∧ _))

def verifyAumSignatures : Except TailscaleTkaAuthorityError Unit :=
  if aum.signatures.isEmpty then invalid "unsigned AUM"
  else do
    verifySignatures primitives state (aum.signatureHash primitives) aum.signatures
    if RemovesFinalKey aum state then invalid "cannot remove the final key" else .ok ()

def addKey : Except TailscaleTkaAuthorityError TailscaleTkaAuthorityState :=
  match aum.key with
  | none => invalid "key missing"
  | some key =>
    if state.keys.any (·.publicKey = key.publicKey) then invalid "key already exists"
    else .ok { state with keys := state.keys ++ [key] }

def removeKey : Except TailscaleTkaAuthorityError TailscaleTkaAuthorityState :=
  match state.keys.findIdx? (·.publicKey = aum.keyId.getD []) with
  | none => invalid "key not found"
  | some index => .ok { state with keys := state.keys.eraseIdx index }

/-- The key with the changes of an update. -/
def TailscaleTkaKey.update (key : TailscaleTkaKey) : TailscaleTkaKey :=
  { key with
    votes := aum.votes.getD key.votes
    metadata := aum.metadata.getD key.metadata }

/-- The first key with that ID gives way to `updated`. -/
def replaceKey (id : List UInt8) (updated : TailscaleTkaKey)
    : List TailscaleTkaKey → List TailscaleTkaKey
  | [] => []
  | key :: rest =>
    if key.publicKey = id then updated :: rest else key :: replaceKey id updated rest

def updateKey : Except TailscaleTkaAuthorityError TailscaleTkaAuthorityState :=
  let id := aum.keyId.getD []
  match state.findKey id with
  | none => invalid "key not found"
  | some key => do
    validateKey (key.update aum)
    return { state with keys := replaceKey id (key.update aum) state.keys }

def restoreCheckpoint : Except TailscaleTkaAuthorityError TailscaleTkaAuthorityState :=
  match aum.state with
  | none => invalid "checkpoint state missing"
  | some checkpoint =>
    if checkpoint.stateId1 ≠ state.stateId1 ∨ checkpoint.stateId2 ≠ state.stateId2 then
      invalid "checkpoint has incorrect state ID"
    else .ok checkpoint

def applyKind : Except TailscaleTkaAuthorityError TailscaleTkaAuthorityState :=
  if aum.kind = kindCheckpoint then restoreCheckpoint aum state
  else if aum.kind = kindAddKey then addKey aum state
  else if aum.kind = kindRemoveKey then removeKey aum state
  else if aum.kind = kindUpdateKey then updateKey aum state
  else .ok state

def applyAum (state : TailscaleTkaAuthorityState) (aum : TailscaleAum)
    : Except TailscaleTkaAuthorityError TailscaleTkaAuthorityState :=
  if state.lastAumHash ≠ aum.previous then invalid "parent AUM hash mismatch"
  else do
    let next ← applyKind aum state
    return { next with lastAumHash := some (aum.hash primitives) }

end Updates

variable (state : TailscaleTkaAuthorityState)

/-- Every key is counted once. The votes of a valid key are at most 4096, so that the sum does
not overflow.
-/
def weighSignatures : (seen : List (List UInt8)) → List TailscaleAumSignature → Nat
  | _, [] => 0
  | seen, signature :: rest =>
    if signature.keyId ∈ seen then weighSignatures seen rest
    else (state.findKey signature.keyId).elim 0 (·.votes.toNat)
      + weighSignatures (signature.keyId :: seen) rest

def signatureWeight (aum : TailscaleAum) : Nat :=
  weighSignatures state [] aum.signatures

abbrev StoredAum := TailscaleAumHash × TailscaleAum

def compareForkCandidates (left right : StoredAum) : Ordering :=
  (compare (signatureWeight state right.2) (signatureWeight state left.2)).then
    ((compare (decide (right.2.kind = kindRemoveKey)) (decide (left.2.kind = kindRemoveKey))).then
      (compare left.1 right.1))

structure TailscaleTkaSyncOffer where
  head : TailscaleAumHash
  ancestors : List TailscaleAumHash
  deriving DecidableEq

structure TailscaleTkaAuthority where
  aums : OrderedMap TailscaleAumHash TailscaleAum
  commitTimes : OrderedMap TailscaleAumHash SystemTime
  oldest : TailscaleAumHash
  head : TailscaleAumHash
  state : TailscaleTkaAuthorityState
  deriving DecidableEq

namespace TailscaleTkaAuthority

section Reading

variable (primitives : TkaPrimitives) (authority : TailscaleTkaAuthority)

/-- The state after an update: that of the nearest checkpoint at or before it, and the updates
from there on. `fuel` is the number of updates the source looks at.
-/
def stateAtWithin (aums : OrderedMap TailscaleAumHash TailscaleAum)
    : (fuel : Nat) → (cursor : TailscaleAumHash)
      → Except TailscaleTkaAuthorityError TailscaleTkaAuthorityState
  | 0, _ => .error .iterationLimit
  | fuel + 1, cursor =>
    match aums.get? cursor with
    | none => .error .unknownParent
    | some aum =>
      if aum.kind = kindCheckpoint then
        match aum.state with
        | none => invalid "checkpoint state missing"
        | some state => .ok { state with lastAumHash := some (aum.hash primitives) }
      else
        match aum.previous with
        | none => .error .unknownParent
        | some parent => do
          let state ← stateAtWithin aums fuel parent
          applyAum primitives state aum

def stateAt (hash : TailscaleAumHash)
    : Except TailscaleTkaAuthorityError TailscaleTkaAuthorityState :=
  stateAtWithin primitives authority.aums maxSyncIterations hash

def childrenOf (aums : OrderedMap TailscaleAumHash TailscaleAum) (hash : TailscaleAumHash)
    : List StoredAum :=
  aums.entries.filter (·.2.previous = some hash)

/-- The child that the fork rules put first. -/
def preferredChild (aums : OrderedMap TailscaleAumHash TailscaleAum)
    (state : TailscaleTkaAuthorityState) (hash : TailscaleAumHash) : Option StoredAum :=
  ((childrenOf aums hash).insertionSort
    fun left right => compareForkCandidates state left right ≠ .gt).head?

def activeHeadWithin (aums : OrderedMap TailscaleAumHash TailscaleAum)
    : (fuel : Nat) → (cursor : TailscaleAumHash) → (state : TailscaleTkaAuthorityState)
      → Except TailscaleTkaAuthorityError (TailscaleAumHash × TailscaleTkaAuthorityState)
  | 0, _, _ => .error .iterationLimit
  | fuel + 1, cursor, state =>
    match preferredChild aums state cursor with
    | none => .ok (cursor, state)
    | some (hash, aum) => do
      let next ← applyAum primitives state aum
      activeHeadWithin aums fuel hash next

def computeActiveHead
    : Except TailscaleTkaAuthorityError (TailscaleAumHash × TailscaleTkaAuthorityState) := do
  let state ← authority.stateAt primitives authority.oldest
  activeHeadWithin primitives authority.aums maxSyncIterations authority.oldest state

/-- Indexing of the map. A missing hash would be a panic of the source. -/
def aumOf (hash : TailscaleAumHash) : Except TailscaleTkaAuthorityError TailscaleAum :=
  match authority.aums.get? hash with
  | some aum => .ok aum
  | none => .error .unknownParent

/-- The updates from the oldest one to `cursor`, in front of those already passed. -/
def chainWithin
    : (fuel : Nat) → (cursor : TailscaleAumHash) → (passed : List TailscaleAumHash)
      → Except TailscaleTkaAuthorityError (List TailscaleAumHash)
  | 0, _, _ => .error .iterationLimit
  | fuel + 1, cursor, passed =>
    if cursor = authority.oldest then .ok (cursor :: passed)
    else do
      let aum ← authority.aumOf cursor
      match aum.previous with
      | none => .error .unknownParent
      | some parent => chainWithin fuel parent (cursor :: passed)

def activeChain : Except TailscaleTkaAuthorityError (List TailscaleAumHash) :=
  authority.chainWithin maxSyncIterations authority.head []

end Reading

variable (authority : TailscaleTkaAuthority)

section Updating

variable (primitives : TkaPrimitives)

def bootstrap (bytes : List UInt8) (now : SystemTime)
    : Except TailscaleTkaAuthorityError TailscaleTkaAuthority := do
  let aum ← TailscaleAum.decode primitives bytes
  if aum.kind ≠ kindCheckpoint ∨ aum.previous.isSome then
    invalid "bootstrap must be a genesis Checkpoint"
  else
    match aum.state with
    | none => invalid "checkpoint state missing"
    | some checkpoint => do
      verifyAumSignatures primitives aum checkpoint
      let hash := aum.hash primitives
      return {
        aums := empty.insert hash aum
        commitTimes := empty.insert hash now
        oldest := hash
        head := hash
        state := { checkpoint with lastAumHash := some hash } }

/-- A new update of a batch, on the copy that `inform_at` works on. -/
def attach (committedAt : SystemTime) (candidate : TailscaleTkaAuthority) (aum : TailscaleAum)
    : Except TailscaleTkaAuthorityError TailscaleTkaAuthority :=
  match aum.previous with
  | none => .error .unknownParent
  | some parent =>
    if !candidate.aums.containsKey parent then .error .unknownParent
    else do
      let parentState ← candidate.stateAt primitives parent
      verifyAumSignatures primitives aum parentState
      let _ ← applyAum primitives parentState aum
      return { candidate with
        aums := candidate.aums.insert (aum.hash primitives) aum
        commitTimes := candidate.commitTimes.insert (aum.hash primitives) committedAt }

def absorb (committedAt : SystemTime) (candidate : TailscaleTkaAuthority) (bytes : List UInt8)
    : Except TailscaleTkaAuthorityError TailscaleTkaAuthority := do
  let aum ← TailscaleAum.decode primitives bytes
  if candidate.aums.containsKey (aum.hash primitives) then .ok candidate
  else attach primitives committedAt candidate aum

def absorbAll (committedAt : SystemTime)
    : (candidate : TailscaleTkaAuthority) → List (List UInt8)
      → Except TailscaleTkaAuthorityError TailscaleTkaAuthority
  | candidate, [] => .ok candidate
  | candidate, bytes :: rest => do
    let next ← absorb primitives committedAt candidate bytes
    absorbAll committedAt next rest

/-- The authority that takes the place of the old one. -/
def informed (authority : TailscaleTkaAuthority) (encoded : List (List UInt8))
    (committedAt : SystemTime) : Except TailscaleTkaAuthorityError TailscaleTkaAuthority := do
  let candidate ← absorbAll primitives committedAt authority encoded
  let (head, state) ← candidate.computeActiveHead primitives
  return { candidate with head := head, state := state }

def informAt (authority : TailscaleTkaAuthority) (encoded : List (List UInt8))
    (committedAt : SystemTime)
    : Except TailscaleTkaAuthorityError Unit × TailscaleTkaAuthority :=
  match authority.informed primitives encoded committedAt with
  | .ok candidate => (.ok (), candidate)
  | .error error => (.error error, authority)

end Updating

/-- Hashes at growing distances from the head. -/
def sampleAncestors (oldest : TailscaleAumHash)
    : (index skip : Nat) → List TailscaleAumHash → List TailscaleAumHash
  | _, _, [] => []
  | index, skip, hash :: rest =>
    if 0 < index ∧ index % skip = 0 ∧ hash ≠ oldest then
      hash :: sampleAncestors oldest (index + 1) (skip <<< ancestorsSkipShift) rest
    else sampleAncestors oldest (index + 1) skip rest

def syncOffer : Except TailscaleTkaAuthorityError TailscaleTkaSyncOffer := do
  let chain ← authority.activeChain
  return {
    head := authority.head
    ancestors :=
      sampleAncestors authority.oldest 0 ancestorsSkipStart
          (chain.reverse.take maxSyncHeadIntersectionIterations)
        ++ [authority.oldest] }

/-- The position in `chain` of the last update that the other side is known to have. -/
def intersection (chain : List TailscaleAumHash) (remote : TailscaleTkaSyncOffer)
    : Option Nat :=
  (chain.idxOf? remote.head).or (remote.ancestors.findSome? (chain.idxOf? ·))

def missingAums (remote : TailscaleTkaSyncOffer)
    : Except TailscaleTkaAuthorityError (List (List UInt8)) :=
  if remote.head = authority.head then .ok []
  else do
    let chain ← authority.activeChain
    match intersection chain remote with
    | none => .error .noIntersection
    | some index =>
      (chain.drop (index + 1)).mapM fun hash => do return (← authority.aumOf hash).encode

def archive : List (List UInt8) :=
  authority.aums.values.map (·.encode)

/-- The source writes the hashes as texts. -/
def commitTimesUnix (hash : TailscaleAumHash) : Option Int :=
  (authority.commitTimes.get? hash).map (·.unixSeconds)

def archiveCommitTime (hash : TailscaleAumHash)
    (commitTimesUnix : TailscaleAumHash → Option Int) (fallback : SystemTime) : SystemTime :=
  match commitTimesUnix hash with
  | some (.ofNat seconds) => (SystemTime.ofSeconds? seconds).getD fallback
  | _ => fallback

section Restoring

variable (primitives : TkaPrimitives)

/-- One pass over the pending updates. Those whose parent is missing are put off. -/
def restorePass
    : (authority : TailscaleTkaAuthority) → List (List UInt8 × SystemTime)
      → Except TailscaleTkaAuthorityError
        (TailscaleTkaAuthority × List (List UInt8 × SystemTime))
  | authority, [] => .ok (authority, [])
  | authority, pending :: rest =>
    match authority.informAt primitives [pending.1] pending.2 with
    | (.ok (), next) => restorePass next rest
    | (.error .unknownParent, unchanged) => do
      let (next, deferred) ← restorePass unchanged rest
      return (next, pending :: deferred)
    | (.error error, _) => .error error

def restorePasses
    : (fuel : Nat) → (authority : TailscaleTkaAuthority) → List (List UInt8 × SystemTime)
      → Except TailscaleTkaAuthorityError TailscaleTkaAuthority
  | 0, _, _ => .error .iterationLimit
  | fuel + 1, authority, pending =>
    if pending.isEmpty then .ok authority
    else do
      let (next, deferred) ← restorePass primitives authority pending
      if deferred.length = pending.length then .error .unknownParent
      else restorePasses fuel next deferred

def decodeArchive
    : List (List UInt8) → Except TailscaleTkaAuthorityError (List (List UInt8 × TailscaleAum))
  | [] => .ok []
  | bytes :: rest => do
    let aum ← TailscaleAum.decode primitives bytes
    return (bytes, aum) :: (← decodeArchive rest)

/-- A checkpoint whose parent is not in the archive. -/
def IsRoot (decoded : List (List UInt8 × TailscaleAum)) (aum : TailscaleAum) : Prop :=
  aum.kind = kindCheckpoint
  ∧ ∀ parent ∈ aum.previous, parent ∉ decoded.map fun entry => entry.2.hash primitives

instance instDecidableIsRoot (decoded : List (List UInt8 × TailscaleAum)) (aum : TailscaleAum)
    : Decidable (IsRoot primitives decoded aum) :=
  inferInstanceAs (Decidable (_ ∧ _))

def fromRoot (decoded : List (List UInt8 × TailscaleAum)) (root : TailscaleAum)
    (commitTimesUnix : TailscaleAumHash → Option Int) (now : SystemTime)
    : Except TailscaleTkaAuthorityError TailscaleTkaAuthority :=
  let rootHash := root.hash primitives
  match root.state with
  | none => invalid "checkpoint state missing"
  | some rootState => do
    if root.previous.isNone then verifyAumSignatures primitives root rootState
    restorePasses primitives maxSyncIterations
      { aums := empty.insert rootHash root
        commitTimes :=
          empty.insert rootHash (archiveCommitTime rootHash commitTimesUnix now)
        oldest := rootHash
        head := rootHash
        state := { rootState with lastAumHash := some rootHash } }
      ((decoded.filter fun entry => entry.2.hash primitives ≠ rootHash).map fun entry =>
        (entry.1, archiveCommitTime (entry.2.hash primitives) commitTimesUnix now))

def fromArchiveWithCommitTimes (encoded : List (List UInt8))
    (commitTimesUnix : TailscaleAumHash → Option Int) (now : SystemTime)
    : Except TailscaleTkaAuthorityError TailscaleTkaAuthority := do
  let decoded ← decodeArchive primitives encoded
  match decoded.filter fun entry => IsRoot primitives decoded entry.2 with
  | [root] => fromRoot primitives decoded root.2 commitTimesUnix now
  | _ => invalid "authority archive must contain one root checkpoint"

end Restoring

end TailscaleTkaAuthority

end Zay.Tailscale
