import Zay.Tailscale.Authority

/-! Compaction of an authority: which of the stored updates are kept, and which checkpoint
becomes the oldest one. The flags that the source keeps in one byte are fields here. A loop of
the source without a bound of its own gets one step for every stored update.
-/

namespace Zay.Tailscale

open Lib

structure Duration where
  nanos : Nat
  inRange : nanos < 18446744073709551616 * nanosPerSecond
  deriving DecidableEq

structure TailscaleTkaCompactionOptions where
  minChain : Nat
  minAge : Duration
  deriving DecidableEq

structure Retention where
  active : Bool := false
  young : Bool := false
  leaf : Bool := false
  ancestor : Bool := false
  candidate : Bool := false
  deriving DecidableEq

namespace Retention

variable (retention : Retention)

/-- `RETAIN_MASK`: the flags that keep an update. -/
def masked : Bool :=
  retention.active || retention.young || retention.leaf || retention.ancestor

def setActive : Retention := { retention with active := true }

def setLeaf : Retention := { retention with leaf := true }

def setAncestor : Retention := { retention with ancestor := true }

def setCandidate : Retention := { retention with candidate := true }

end Retention

abbrev Verdict := OrderedMap TailscaleAumHash Retention

namespace Verdict

variable (verdict : Verdict)

def mark (flag : Retention → Retention) (hash : TailscaleAumHash) : Verdict :=
  verdict.mapValues fun other retention => if other = hash then flag retention else retention

def markKnown (flag : Retention → Retention) (hash : TailscaleAumHash)
    : Except TailscaleTkaAuthorityError Verdict :=
  if verdict.containsKey hash then .ok (verdict.mark flag hash) else .error .unknownParent

def hashesWith (keep : TailscaleAumHash → Retention → Bool) : List TailscaleAumHash :=
  (verdict.entries.filter fun entry => keep entry.1 entry.2).map (·.1)

end Verdict

namespace TailscaleTkaAuthority

section Compaction

variable (authority : TailscaleTkaAuthority)

def logicalParent (hash : TailscaleAumHash)
    : Except TailscaleTkaAuthorityError (Option TailscaleAumHash) :=
  if hash = authority.oldest then .ok none
  else
    match authority.aums.get? hash with
    | none => .error .unknownParent
    | some aum => .ok aum.previous

def compactionCutoff (options : TailscaleTkaCompactionOptions) (now : SystemTime) : SystemTime :=
  (now.checkedSub options.minAge.nanos).getD .unixEpoch

/-- Every update, with the mark of those that were committed after `cutoff`. -/
def youngVerdict (cutoff : SystemTime) : Verdict :=
  authority.aums.mapWithKey fun hash _ =>
    { young := (authority.commitTimes.get? hash).any fun committedAt =>
        cutoff.sinceEpoch < committedAt.sinceEpoch }

/-- Marks up to `steps` updates from `cursor` upwards. The flag says whether the oldest one was
reached.
-/
def markActiveChain
    : (steps : Nat) → Verdict → (cursor : TailscaleAumHash)
      → Except TailscaleTkaAuthorityError (Verdict × TailscaleAumHash × Bool)
  | 0, verdict, cursor => .ok (verdict, cursor, false)
  | steps + 1, verdict, cursor => do
    let verdict ← verdict.markKnown .setActive cursor
    match ← authority.logicalParent cursor with
    | none => return (verdict, cursor, true)
    | some parent => markActiveChain steps verdict parent

/-- Goes on upwards to a checkpoint that is not young, or to the oldest update. -/
def markToCheckpoint
    : (fuel : Nat) → Verdict → (cursor : TailscaleAumHash)
      → Except TailscaleTkaAuthorityError (Verdict × TailscaleAumHash)
  | 0, _, _ => .error .iterationLimit
  | fuel + 1, verdict, cursor =>
    match authority.aums.get? cursor, verdict.get? cursor with
    | some aum, some retention => do
      let parent ← authority.logicalParent cursor
      if aum.kind = kindCheckpoint ∧ (retention.young = false ∨ parent = none) then
        return (verdict.mark .setActive cursor, cursor)
      else
        match parent with
        | none => invalid "oldest retained AUM is not a checkpoint"
        | some parent => markToCheckpoint fuel (verdict.mark .setActive cursor) parent
    | _, _ => .error .unknownParent

/-- Marks what lies above `cursor`. -/
def markCandidates
    : (fuel : Nat) → Verdict → (cursor : TailscaleAumHash)
      → Except TailscaleTkaAuthorityError Verdict
  | 0, _, _ => .error .iterationLimit
  | fuel + 1, verdict, cursor => do
    match ← authority.logicalParent cursor with
    | none => return verdict
    | some parent =>
      if verdict.containsKey parent then
        markCandidates fuel (verdict.mark .setCandidate parent) parent
      else return verdict

def childHashes (hash : TailscaleAumHash) : List TailscaleAumHash :=
  (childrenOf authority.aums hash).map (·.1)

/-- The loop of `mark_compaction_descendants`. What is marked already is taken off the queue
without being counted.
-/
def spreadLeaves
    : (remaining : Nat) → (queue : List TailscaleAumHash) → Verdict
      → Except TailscaleTkaAuthorityError Verdict
  | remaining, queue, verdict =>
    match queue.dropWhile fun hash => (verdict.get? hash).any (·.leaf) with
    | [] => .ok verdict
    | hash :: queue =>
      if !verdict.containsKey hash then .error .unknownParent
      else
        match remaining with
        | 0 => .error .iterationLimit
        | remaining + 1 =>
          spreadLeaves remaining (queue ++ authority.childHashes hash)
            (verdict.mark .setLeaf hash)

def markCompactionDescendants (verdict : Verdict)
    : Except TailscaleTkaAuthorityError Verdict :=
  authority.spreadLeaves maxSyncIterations
    (verdict.hashesWith fun _ retention => retention.masked) verdict

/-- The candidates below `next` that are not active, down to the last one. -/
def markPathBelow : (fuel : Nat) → Verdict → (next : TailscaleAumHash) → Verdict
  | 0, verdict, _ => verdict
  | fuel + 1, verdict, next =>
    match (authority.childHashes next).find? fun hash =>
        (verdict.get? hash).any fun retention => retention.candidate && !retention.active with
    | none => verdict
    | some child => markPathBelow fuel (verdict.mark .setAncestor child) child

/-- The candidate, and whether it was moved. -/
structure Intersection where
  verdict : Verdict
  candidate : TailscaleAumHash
  adjusted : Bool

/-- The loop of `mark_compaction_intersections`. -/
def climb
    : (remaining : Nat) → (queue : List TailscaleAumHash) → Intersection
      → Except TailscaleTkaAuthorityError Intersection
  | remaining, queue, found =>
    match queue.dropWhile fun hash => (found.verdict.get? hash).any (·.ancestor) with
    | [] => .ok found
    | hash :: queue =>
      if !found.verdict.containsKey hash then .error .unknownParent
      else
        match remaining with
        | 0 => .error .iterationLimit
        | remaining + 1 => do
          let verdict := found.verdict.mark .setAncestor hash
          match ← authority.logicalParent hash with
          | none => invalid "retained AUM does not intersect compaction ancestor"
          | some parent =>
            match verdict.get? parent with
            | none => .error .unknownParent
            | some retention =>
              if retention.masked then
                climb remaining queue { found with verdict := verdict }
              else if retention.candidate then
                climb remaining (queue ++ [parent])
                  { verdict := authority.markPathBelow authority.aums.len
                      (verdict.mark .setAncestor parent) parent
                    candidate := parent
                    adjusted := true }
              else
                climb remaining (queue ++ [parent]) { found with verdict := verdict }

/-- From a moved candidate up to a checkpoint. -/
def adjustToCheckpoint
    : (fuel : Nat) → Verdict → (cursor : TailscaleAumHash)
      → Except TailscaleTkaAuthorityError (Verdict × TailscaleAumHash)
  | 0, _, _ => .error .iterationLimit
  | fuel + 1, verdict, cursor =>
    match authority.aums.get? cursor with
    | none => .error .unknownParent
    | some aum =>
      if aum.kind = kindCheckpoint then .ok (verdict.mark .setActive cursor, cursor)
      else do
        match ← authority.logicalParent cursor with
        | none => invalid "no checkpoint before compaction intersection"
        | some parent => adjustToCheckpoint fuel (verdict.mark .setActive cursor) parent

def markCompactionIntersections (verdict : Verdict) (candidate : TailscaleAumHash)
    : Except TailscaleTkaAuthorityError (Verdict × TailscaleAumHash) := do
  let found ← authority.climb maxSyncIterations
    (verdict.hashesWith fun hash retention => decide (hash ≠ candidate) && retention.masked)
    { verdict := verdict, candidate := candidate, adjusted := false }
  if found.adjusted then
    authority.adjustToCheckpoint authority.aums.len found.verdict found.candidate
  else return (found.verdict, found.candidate)

def finishCompaction (oldest : TailscaleAumHash) (verdict : Verdict)
    : Except TailscaleTkaAuthorityError (Nat × TailscaleTkaAuthority) :=
  let toDelete := verdict.hashesWith fun _ retention => !retention.masked
  if !authority.aums.containsKey oldest then .error .unknownParent
  else .ok (toDelete.length,
    { authority with
      aums := toDelete.foldl OrderedMap.erase authority.aums
      commitTimes := toDelete.foldl OrderedMap.erase authority.commitTimes
      oldest := oldest })

def compactAt (options : TailscaleTkaCompactionOptions) (now : SystemTime)
    : Except TailscaleTkaAuthorityError (Nat × TailscaleTkaAuthority) :=
  if options.minChain = 0 ∨ options.minAge.nanos = 0 then .error .invalidCompactionOptions
  else do
    let verdict := authority.youngVerdict (compactionCutoff options now)
    let (verdict, cursor, ended) ←
      authority.markActiveChain options.minChain verdict authority.head
    let (verdict, candidate) ←
      if ended then pure (verdict, cursor)
      else authority.markToCheckpoint authority.aums.len verdict cursor
    let verdict ← authority.markCandidates authority.aums.len verdict candidate
    let verdict ← authority.markCompactionDescendants verdict
    let (verdict, oldest) ← authority.markCompactionIntersections verdict candidate
    authority.finishCompaction oldest verdict

end Compaction

end TailscaleTkaAuthority

end Zay.Tailscale
