import Zay.Tailscale.AuthorityArchive

/-! Compaction changes nothing that can be seen from outside: the head, the state and what an
archive restores are as before.
-/

namespace Zay.Tailscale

open Lib TailscaleTkaAuthority List Option

variable {crypto : TkaPrimitives} {seen : List TailscaleAum}
  {tka next : TailscaleTkaAuthority} {options : TailscaleTkaCompactionOptions}

/-- No update was committed before its parent. -/
def TimesAscend (authority : TailscaleTkaAuthority) : Prop :=
  ∀ hash aum parent time parentTime, authority.aums.get? hash = some aum →
    aum.previous = some parent → authority.commitTimes.get? hash = some time →
    authority.commitTimes.get? parent = some parentTime →
    parentTime.sinceEpoch ≤ time.sinceEpoch

/-- What a compaction has to leave as it is. Updates committed after `cutoff` are young. -/
structure Invisible (primitives : TkaPrimitives) (minChain : Nat) (cutoff : SystemTime)
    (before after : TailscaleTkaAuthority) : Prop where
  head : after.head = before.head
  state : after.state = before.state
  checkpoint : ∃ root, after.aums.get? after.oldest = some root ∧ root.kind = kindCheckpoint
  within : ∀ hash aum, after.aums.get? hash = some aum → before.aums.get? hash = some aum
  paths : ∀ hash ∈ stored after.aums, ∃ path, Linked after.aums (after.oldest :: path)
    ∧ hash = (after.oldest :: path).getLast (cons_ne_nil _ _)
  young : ∀ hash time, before.commitTimes.get? hash = some time →
    cutoff.sinceEpoch < time.sinceEpoch → hash ∈ stored after.aums
  chain : ∃ chain, before.activeChain = .ok chain
    ∧ ∀ hash ∈ chain.reverse.take minChain, hash ∈ stored after.aums
  restores : ∀ moment, ∃ restored,
    fromArchiveWithCommitTimes primitives after.archive after.commitTimesUnix moment = .ok restored
    ∧ restored.oldest = after.oldest ∧ restored.head = after.head ∧ restored.state = after.state

variable {hash : TailscaleAumHash}

theorem isYoung_iff {cutoff}
    : isYoung tka cutoff hash
      ↔ ∃ time, tka.commitTimes.get? hash = some time
        ∧ cutoff.sinceEpoch < time.sinceEpoch := by
  rw [isYoung, Option.any_eq_true]
  simp

theorem StoreSound.young_inherited (hs : StoreSound crypto seen tka)
    (ascend : TimesAscend tka) (cutoff) {parent} (link : tka.up hash = some parent)
    (young : isYoung tka cutoff parent)
    : isYoung tka cutoff hash := by
  obtain ⟨parentTime, parentFound, hl⟩ := isYoung_iff.mp young
  obtain ⟨aum, hf, previous⟩ := parentIn_eq_some.mp (up_eq_some_iff.mp link).2
  obtain ⟨time, timed⟩ := (hs.timed hash).mp ⟨aum, hf⟩
  have order := ascend hash aum parent time parentTime hf previous timed parentFound
  exact isYoung_iff.mpr ⟨time, timed, lt_of_lt_of_le hl order⟩

/-- The path of an update from the oldest one on. -/
theorem linked_of_rooted (store : StoreValid crypto tka.aums tka.oldest)
    (hr : Rooted tka) (hk : hash ∈ stored tka.aums)
    : ∃ path, Linked tka.aums (tka.oldest :: path)
      ∧ hash = (tka.oldest :: path).getLast (cons_ne_nil _ _) := by
  obtain ⟨path, ha⟩ := hr hash hk
  obtain ⟨_, begins⟩ := ha.eq_cons
  have chain := ha.isChain_reverse
  have hnil : path ≠ [] := by simp [begins]
  have last := dropLast_append_getLast hnil
  have top : path.getLast hnil = tka.oldest := by
    rw [← last] at ha
    exact last_eq_oldest store ha hk
  rw [top] at last
  have form : path.reverse = tka.oldest :: path.dropLast.reverse := by
    rw [← last]
    simp
  rw [form] at chain
  refine ⟨path.dropLast.reverse, chain.imp fun _ _ link => (up_eq_some_iff.mp link).2, ?_⟩
  have ends : (tka.oldest :: path.dropLast.reverse).getLast? = some hash := by
    rw [← form, begins]
    simp
  rw [getLast?_eq_some_getLast (cons_ne_nil _ _)] at ends
  exact (some.inj ends).symm

/-- Every authority that batches and compactions lead to, with few updates and commit times in
order, can be compacted without a difference.
-/
theorem compaction_invisible (primitives : TkaPrimitives) {seen : List TailscaleAum}
    {authority : TailscaleTkaAuthority} (reachable : Reachable primitives seen authority)
    (free : HashesApart primitives seen) (small : authority.aums.len < maxSyncIterations)
    (ascend : TimesAscend authority) {options : TailscaleTkaCompactionOptions}
    (chain : options.minChain ≠ 0) (age : options.minAge.nanos ≠ 0) (now : SystemTime)
    : ∃ count next, authority.compactAt options now = .ok (count, next)
      ∧ Invisible primitives options.minChain (compactionCutoff options now) authority next := by
  have sound := reachable.sound free
  obtain ⟨count, next, result⟩ := compactAt_terminates sound.valid sound.rooted chain age
    (le_of_lt small) fun hash _ =>
      sound.young_inherited ascend (compactionCutoff options now)
  have nextSound := sound.compact result
  obtain ⟨_, _, retained, compacted⟩ := compactAt_eq_ok sound.valid sound.rooted result
  have within : Extends authority.aums next.aums := compacted.extends
  have few := le_trans (len_le_of_extends within) (le_of_lt small)
  obtain ⟨_, path⟩ := sound.valid.path fun found => found
  have ascent := path.ascent sound.store
  refine ⟨count, next, result, compacted.head, compacted.state, ?_, fun hash _ => within,
    fun hash => linked_of_rooted nextSound.store nextSound.rooted, fun hash time timed late => ?_,
    ⟨_, path.chain, fun hash member => ?_⟩, fromArchive_eq nextSound few _⟩
  · obtain ⟨root, found, checkpoint, -⟩ := nextSound.store.root
    exact ⟨root, found, checkpoint⟩
  · refine compacted.stored_iff.mpr ⟨(sound.timed hash).mpr ⟨time, timed⟩, ?_⟩
    exact retained.young hash (isYoung_iff.mpr ⟨time, timed, late⟩)
  · refine compacted.stored_iff.mpr ⟨?_, retained.chain _ ascent hash member⟩
    exact path.members hash (mem_reverse.mp (mem_of_mem_take member))

def renewalOf (parent : TailscaleAumHash) : TailscaleAum :=
  { genesisOfKeys 1 with previous := some parent }

def firstHash : TailscaleAumHash := (genesisOfKeys 1).hash lengthDigest

def renewalBatch : List (List UInt8) :=
  [(renewalOf firstHash).encode, (additionOf 1 ((renewalOf firstHash).hash lengthDigest)).encode]

def oneUpdate : TailscaleTkaAuthority :=
  .single firstHash (genesisOfKeys 1) (stateOfKeys 1) .unixEpoch

/-- All three updates are committed at the Unix epoch. -/
def threeUpdates : TailscaleTkaAuthority :=
  (oneUpdate.informed lengthDigest renewalBatch .unixEpoch).toOption.getD oneUpdate

def threeSeen : List TailscaleAum := oneUpdate.aums.values ++ threeUpdates.aums.values

theorem reachable_threeUpdates : Reachable lengthDigest threeSeen threeUpdates := by
  have hs : bootstrap lengthDigest (genesisOfKeys 1).encode .unixEpoch = .ok oneUpdate := by
    decide +kernel
  have informed : oneUpdate.informed lengthDigest renewalBatch .unixEpoch = .ok threeUpdates := by
    decide +kernel
  refine .inform (.bootstrap hs) (?_ : oneUpdate.informAt lengthDigest renewalBatch .unixEpoch = _)
  rw [informAt, informed]

theorem hashesApart_threeSeen : HashesApart lengthDigest threeSeen := by
  unfold HashesApart
  decide +kernel

theorem timesAscend_threeUpdates : TimesAscend threeUpdates := by
  have all : ∀ entry ∈ threeUpdates.commitTimes.entries, entry.2 = .unixEpoch := by
    decide +kernel
  intro hash aum parent time parentTime _ _ timed parentTimed
  have he := all _ (OrderedMap.get?_eq_some_iff.mp timed)
  have parentSame := all _ (OrderedMap.get?_eq_some_iff.mp parentTimed)
  simp only at he parentSame
  rw [he, parentSame]

/-- A minute and one update. -/
def shortAge : TailscaleTkaCompactionOptions := ⟨1, ⟨60 * nanosPerSecond, by decide⟩⟩

/-- The longest duration and one update. -/
def longAge : TailscaleTkaCompactionOptions :=
  ⟨1, ⟨18446744073709551615 * nanosPerSecond + 999999999, by decide⟩⟩

def oneHourLater : SystemTime := ⟨3600 * nanosPerSecond, by decide⟩

theorem compaction_invisible_threeUpdates
    : ∃ count next, threeUpdates.compactAt shortAge oneHourLater = .ok (count, next)
      ∧ Invisible lengthDigest 1 (compactionCutoff shortAge oneHourLater) threeUpdates next :=
  compaction_invisible lengthDigest reachable_threeUpdates hashesApart_threeSeen (by decide +kernel)
    timesAscend_threeUpdates (by decide) (by decide) oneHourLater

/-- Where the clock cannot represent the time `min_age` ago, updates committed at the Unix epoch
or before are deleted, however young they are.
-/
theorem compaction_deletes_young
    : Reachable lengthDigest threeSeen threeUpdates ∧ HashesApart lengthDigest threeSeen
      ∧ threeUpdates.aums.len < maxSyncIterations ∧ TimesAscend threeUpdates
      ∧ longAge.minChain ≠ 0 ∧ longAge.minAge.nanos ≠ 0
      ∧ ∃ count next, threeUpdates.compactAt longAge .unixEpoch = .ok (count, next)
        ∧ threeUpdates.commitTimes.get? firstHash = some .unixEpoch
        ∧ (SystemTime.unixEpoch.sinceEpoch - SystemTime.unixEpoch.sinceEpoch < longAge.minAge.nanos)
        ∧ next.aums.get? firstHash = none := by
  refine ⟨reachable_threeUpdates, hashesApart_threeSeen, by decide +kernel,
    timesAscend_threeUpdates, by decide, by decide, ?_⟩
  have gone : (threeUpdates.compactAt longAge .unixEpoch).toOption.any
      fun result => result.2.aums.get? firstHash = none := by
    decide +kernel
  obtain ⟨result, compacted, gone⟩ := exists_of_any gone
  exact ⟨result.1, result.2, compacted, by decide +kernel, by decide, of_decide_eq_true gone⟩

section

variable (reachable : Reachable crypto seen tka) (free : HashesApart crypto seen)

include reachable free

/-- A restart loses nothing of an authority, however it was reached and whatever commit times
are read back.
-/
theorem archive_restores (small : tka.aums.len ≤ maxSyncIterations) (commitTimesUnix now)
    : ∃ restored,
      fromArchiveWithCommitTimes crypto tka.archive commitTimesUnix now = .ok restored
      ∧ restored.oldest = tka.oldest ∧ restored.head = tka.head ∧ restored.state = tka.state :=
  fromArchive_eq (reachable.sound free) small commitTimesUnix now

/-- Whatever was informed and compacted, only the number of keys can be unsound. -/
theorem trustSound_iff_of_reachable
    : TrustSound crypto tka ↔ tka.state.keys.length ≤ maxKeys :=
  (reachable.sound free).valid.trustSound_iff

end

theorem archive_restores_threeUpdates
    : ∃ restored,
      fromArchiveWithCommitTimes lengthDigest threeUpdates.archive (fun _ => none) .unixEpoch
        = .ok restored ∧ restored.head = threeUpdates.head := by
  obtain ⟨restored, done, -, head, -⟩ := archive_restores reachable_threeUpdates
    hashesApart_threeSeen (by decide +kernel) (fun _ => none) .unixEpoch
  exact ⟨restored, done, head⟩

/-- The genesis is compacted away; what is left is signed by keys of the checkpoint after it. -/
theorem trustSound_threeUpdates
    : ∃ count next, threeUpdates.compactAt shortAge oneHourLater = .ok (count, next)
      ∧ next.aums.get? firstHash = none ∧ next.aums.len = 2 ∧ TrustSound lengthDigest next := by
  have left : (threeUpdates.compactAt shortAge oneHourLater).toOption.any fun result =>
      result.2.aums.get? firstHash = none ∧ result.2.aums.len = 2
        ∧ result.2.state.keys.length ≤ maxKeys := by
    decide +kernel
  obtain ⟨result, compacted, left⟩ := exists_of_any left
  obtain ⟨gone, two, few⟩ := of_decide_eq_true left
  refine ⟨result.1, result.2, compacted, gone, two, ?_⟩
  have reachable := Reachable.compact reachable_threeUpdates compacted
  exact (trustSound_iff_of_reachable reachable hashesApart_threeSeen).mpr few

end Zay.Tailscale
