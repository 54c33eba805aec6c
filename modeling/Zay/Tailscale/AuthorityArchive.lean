import Zay.Tailscale.AuthorityHistory

/-! An archive of the stored updates restores the authority. The archive is in the order of the
hashes, so that several passes may be needed, but every pass gets further.
-/

namespace Zay.Tailscale

open Lib TailscaleTkaAuthority OrderedMap List Option Except

variable {crypto : TkaPrimitives} {tka part next : TailscaleTkaAuthority}
  {hash parent : TailscaleAumHash}

/-- An authority with some of the updates of another one. -/
structure PartOf (primitives : TkaPrimitives) (authority part : TailscaleTkaAuthority) : Prop where
  valid : AuthorityValid primitives part
  oldest : part.oldest = authority.oldest
  within : ∀ {hash aum}, part.aums.get? hash = some aum → authority.aums.get? hash = some aum

theorem len_le_of_extends {all aums} (hl : Extends all aums) : aums.len ≤ all.len := by
  have keys : aums.keys ⊆ all.keys := fun _ hm => by
    obtain ⟨aum, hf⟩ := mem_keys_iff.mp hm
    exact mem_keys_iff.mpr ⟨aum, hl hf⟩
  simpa [OrderedMap.keys, OrderedMap.len] using (aums.keys_nodup.subperm keys).length_le

/-- Every small store has an active head. -/
theorem exists_active (hst : StoreValid crypto tka.aums tka.oldest)
    (small : tka.aums.len ≤ maxSyncIterations)
    : ∃ head state, tka.computeActiveHead crypto = .ok (head, state) := by
  have root := oldest_stored hst
  have nodes : {node | node ∈ tka.aums.keys} = stored tka.aums :=
    Set.ext fun node => mem_keys_iff
  have hc := parentClosed_up hst
  rw [← nodes] at hc root
  have top := (up_eq_none_iff hst (oldest_stored hst)).mpr rfl
  have he : tka.aums.keys.length
      ≤ [tka.oldest].length + (maxSyncIterations - 1) := by
    rw [OrderedMap.keys, length_map, length_singleton, maxSyncIterations]
    exact small
  obtain ⟨passed, greedy, hs⟩ := exists_greedy (rankIn crypto tka.aums) hc root (.root top) he
  rw [nodes] at greedy root
  have links : ∀ above ∈ stored tka.aums, ∀ below ∈ stored tka.aums,
      parentIn tka.aums below = some above ↔ tka.up below = some above := by
    intro above aboveInside below hi
    constructor
    · intro link
      obtain ⟨aum, hf, previous⟩ := parentIn_eq_some.mp link
      exact up_of_previous hst hf previous aboveInside
    · exact fun link => (up_eq_some_iff.mp link).2
  have greedy := greedy.congr (parentIn tka.aums) links root
  obtain ⟨_, rootState, -, -, hk⟩ := hst.root_state
  obtain ⟨final, active⟩ := active_of_greedy (fun hf => hf) hst greedy ⟨_, hk 0⟩
  refine ⟨_, _, computeActiveHead_eq_ok.mpr ⟨_, hk 1999, passed, active, ?_⟩⟩
  rw [maxSyncIterations] at hs ⊢
  omega

theorem informAt_of_absorb {candidate bytes committedAt}
    (hb : absorb crypto committedAt part bytes = .ok candidate)
    (hst : StoreValid crypto candidate.aums candidate.oldest)
    (small : candidate.aums.len ≤ maxSyncIterations)
    : ∃ next, part.informAt crypto [bytes] committedAt = (.ok (), next)
      ∧ AuthorityValid crypto next ∧ next.aums = candidate.aums
      ∧ next.oldest = candidate.oldest := by
  obtain ⟨head, state, hc⟩ := exists_active hst small
  have all : absorbAll crypto committedAt part [bytes] = .ok candidate := by
    rw [absorbAll, hb]
    rfl
  have ha := informed_eq_ok.mpr ⟨candidate, all, head, state, hc, rfl⟩
  obtain ⟨rootState, hk, passed, active⟩ := computeActiveHead_eq_ok.mp hc
  refine ⟨{ candidate with head := head, state := state }, ?_,
    ⟨hst, rootState, passed, ⟨_, hk⟩, active⟩, rfl, rfl⟩
  rw [informAt, ha]

theorem decode_encodingOf {aum} (hst : StoreValid crypto tka.aums tka.oldest)
    (hf : tka.aums.get? hash = some aum)
    : TailscaleAum.decode crypto (encodingOf tka.aums hash) = .ok aum := by
  rw [encodingOf, hf, map_some, getD_some]
  exact hst.decodes hf

namespace PartOf

variable (hst : StoreValid crypto tka.aums tka.oldest)
  (hpt : PartOf crypto tka part)

include hst hpt

/-- A pending update whose parent is there is absorbed. -/
theorem insert (small : tka.aums.len ≤ maxSyncIterations) (committedAt)
    (hk : hash ∈ stored tka.aums) (hr : hash ≠ tka.oldest)
    (link : tka.up hash = some parent) (hi : parent ∈ stored part.aums)
    : ∃ next, part.informAt crypto [encodingOf tka.aums hash] committedAt = (.ok (), next)
      ∧ PartOf crypto tka next
      ∧ stored next.aums = insert hash (stored part.aums) := by
  have hw : Extends tka.aums part.aums := hpt.within
  have all : Extends tka.aums tka.aums := fun hf => hf
  obtain ⟨candidate, hb, hg, hl, oldest⟩ := absorb_encodingOf committedAt
    hpt.valid.store hst hw all hr (up_eq_some_iff.mp link).2 hi hk
  have candidateStore : StoreValid crypto candidate.aums candidate.oldest := by
    obtain ⟨_, hd, ⟨-, rfl⟩ | ⟨new, verified, rfl⟩⟩ := absorb_eq_ok.mp hb
    · exact hpt.valid.store
    · refine extend_valid hpt.valid.store hd new verified fun _ hf above => ?_
      obtain ⟨_, stored⟩ := hk
      obtain ⟨_, rootFound, -, detached⟩ := hst.root
      rw [hpt.oldest] at hf
      rw [hpt.within hf] at rootFound
      cases rootFound
      rw [decode_encodingOf hst stored] at hd
      cases hd
      rw [hst.keyed stored] at above
      rw [detached hash above] at stored
      cases stored
  obtain ⟨next, ha, hv, sameAums, sameOldest⟩ := informAt_of_absorb hb candidateStore
    (le_trans (len_le_of_extends hl) small)
  refine ⟨next, ha, ⟨hv, ?_, fun hf => ?_⟩, ?_⟩
  · rw [sameOldest, oldest, hpt.oldest]
  · rw [sameAums] at hf
    exact hl hf
  · rw [sameAums, hg]

omit hpt in
/-- A pending update whose parent is missing is put off. -/
theorem missing (committedAt) (hk : hash ∈ stored tka.aums)
    (link : tka.up hash = some parent) (ho : parent ∉ stored part.aums)
    (hn : hash ∉ stored part.aums)
    : part.informAt crypto [encodingOf tka.aums hash] committedAt
      = (.error .unknownParent, part) := by
  obtain ⟨aum, hf⟩ := hk
  have previous : aum.previous = some parent := by
    rw [← parentIn_of_stored hf]
    exact (up_eq_some_iff.mp link).2
  have new : part.aums.containsKey (aum.hash crypto) = false := by
    rw [hst.keyed hf, ← Bool.not_eq_true, containsKey_iff]
    exact hn
  have orphan : part.aums.containsKey parent = false := by
    rw [← Bool.not_eq_true, containsKey_iff]
    exact ho
  have hr : part.informed crypto [encodingOf tka.aums hash] committedAt
      = .error .unknownParent := by
    simp [informed, absorbAll, absorb, decode_encodingOf hst hf, bind, Except.bind, new,
      TailscaleTkaAuthority.attach, previous, orphan, Bool.not_false]
  rw [informAt, hr]

end PartOf

/-- A pending update with its commit time. -/
def pendingItem (authority : TailscaleTkaAuthority) (time : TailscaleAumHash → SystemTime)
    (hash : TailscaleAumHash) : List UInt8 × SystemTime :=
  (encodingOf authority.aums hash, time hash)

/-- Updates that are still to be restored. -/
structure Pending (authority part : TailscaleTkaAuthority) (hashes : List TailscaleAumHash)
    : Prop where
  nodup : hashes.Nodup
  known : ∀ hash ∈ hashes, hash ∈ stored authority.aums
  fresh : ∀ hash ∈ hashes, hash ∉ stored part.aums
  cover : ∀ hash ∈ stored authority.aums, hash ∈ stored part.aums ∨ hash ∈ hashes

/-- What one pass does. -/
structure Passed (primitives : TkaPrimitives) (authority part next : TailscaleTkaAuthority)
    (hashes deferred : List TailscaleAumHash) : Prop where
  isPart : PartOf primitives authority next
  sublist : deferred.Sublist hashes
  stored : ∀ hash, hash ∈ Tailscale.stored next.aums
    ↔ hash ∈ Tailscale.stored part.aums ∨ hash ∈ hashes ∧ hash ∉ deferred
  orphans : ∀ hash ∈ deferred, ∀ parent, authority.up hash = some parent →
    parent ∉ Tailscale.stored part.aums

section Passes

variable (hst : StoreValid crypto tka.aums tka.oldest)
  (small : tka.aums.len ≤ maxSyncIterations) (time : TailscaleAumHash → SystemTime)

include hst small

variable {hashes : List TailscaleAumHash}

theorem restorePass_eq (hpt : PartOf crypto tka part) (nodup : hashes.Nodup)
    (hk : ∀ hash ∈ hashes, hash ∈ stored tka.aums) (hn : ∀ hash ∈ hashes, hash ∉ stored part.aums)
    : ∃ next deferred,
      restorePass crypto part (hashes.map (pendingItem tka time))
        = .ok (next, deferred.map (pendingItem tka time))
      ∧ Passed crypto tka part next hashes deferred := by
  induction hashes generalizing part with
  | nil => exact ⟨part, [], rfl, hpt, .slnil, by simp, by simp⟩
  | cons hash rest ih =>
    obtain ⟨hne, nodup⟩ := nodup_cons.mp nodup
    obtain ⟨hashKnown, hk⟩ := forall_mem_cons.mp hk
    obtain ⟨hashFresh, hn⟩ := forall_mem_cons.mp hn
    have hr : hash ≠ tka.oldest := by
      rintro rfl
      refine hashFresh ?_
      rw [← hpt.oldest]
      exact oldest_stored hpt.valid.store
    obtain ⟨parent, link⟩ := Option.ne_none_iff_exists'.mp (mt (up_eq_none_iff hst hashKnown).mp hr)
    rw [map_cons, restorePass, pendingItem]
    by_cases hi : parent ∈ stored part.aums
    · obtain ⟨middle, ha, middlePart, hg⟩ :=
        hpt.insert hst small (time hash) hashKnown hr link hi
      have others : ∀ other ∈ rest, other ∉ stored middle.aums := by
        intro other hm
        rw [hg, Set.mem_insert_iff, not_or]
        exact ⟨fun he => hne (he ▸ hm), hn other hm⟩
      obtain ⟨next, deferred, hp, result⟩ := ih middlePart nodup hk others
      refine ⟨next, deferred, ?_, result.isPart, result.sublist.cons hash, fun other => ?_, ?_⟩
      · simp [ha, hp]
      · have hs : hash ∉ deferred := fun hm => hne (result.sublist.subset hm)
        rw [result.stored, hg, Set.mem_insert_iff, mem_cons]
        by_cases he : other = hash
        · simp [he, hs]
        · simp [he]
      · intro other hm above up hb
        refine result.orphans other hm above up ?_
        rw [hg]
        exact Set.mem_insert_of_mem _ hb
    · have refused := PartOf.missing hst (time hash) hashKnown link hi hashFresh
      obtain ⟨next, deferred, hp, result⟩ := ih hpt nodup hk hn
      refine ⟨next, hash :: deferred, ?_, result.isPart, result.sublist.cons_cons hash,
        fun other => ?_, ?_⟩
      · simp only [refused, hp, bind, Except.bind]
        rfl
      · rw [result.stored, mem_cons, mem_cons, not_or]
        by_cases he : other = hash
        · simp [he, hne]
        · simp [he]
      · refine forall_mem_cons.mpr ⟨fun above up => ?_, result.orphans⟩
        rw [link] at up
        cases up
        exact hi

omit small in
/-- An update that is missing, with its parent present. -/
theorem exists_attachable {path} (hpt : PartOf crypto tka part)
    (ha : Ascent tka.up hash path) (hk : hash ∈ stored tka.aums) (hno : hash ∉ stored part.aums)
    : ∃ other ∈ stored tka.aums, other ∉ stored part.aums
      ∧ ∃ parent, tka.up other = some parent ∧ parent ∈ stored part.aums := by
  induction ha with
  | root top =>
    refine absurd ?_ hno
    rw [(up_eq_none_iff hst hk).mp top, ← hpt.oldest]
    exact oldest_stored hpt.valid.store
  | @step node above path link onward ih =>
    by_cases hi : above ∈ stored part.aums
    · exact ⟨node, hk, hno, above, link, hi⟩
    · exact ih (parentClosed_up hst node hk above link) hi

theorem restorePasses_eq (hr : Rooted tka) (hpt : PartOf crypto tka part)
    (pending : Pending tka part hashes) {fuel} (he : hashes.length < fuel)
    : ∃ restored,
      restorePasses crypto fuel part (hashes.map (pendingItem tka time)) = .ok restored
      ∧ PartOf crypto tka restored
      ∧ ∀ hash ∈ stored tka.aums, hash ∈ stored restored.aums := by
  induction fuel generalizing part hashes with
  | zero => omega
  | succ fuel ih =>
    rw [restorePasses]
    cases hashes with
    | nil =>
      refine ⟨part, rfl, hpt, fun hash hk => ?_⟩
      exact (pending.cover hash hk).resolve_right not_mem_nil
    | cons first rest =>
      obtain ⟨next, deferred, hp, result⟩ := restorePass_eq hst small time hpt
        pending.nodup pending.known pending.fresh
      have firstKnown := pending.known first mem_cons_self
      obtain ⟨path, ha⟩ := hr first firstKnown
      obtain ⟨other, hk, hno, parent, link, hi⟩ := exists_attachable hst hpt
        ha firstKnown (pending.fresh first mem_cons_self)
      have waiting := (pending.cover other hk).resolve_left hno
      have hs : other ∉ deferred := fun hm =>
        result.orphans other hm parent link hi
      have hlt : deferred.length < (first :: rest).length := by
        refine lt_of_le_of_ne result.sublist.length_le fun same => hs ?_
        rw [result.sublist.eq_of_length same]
        exact waiting
      have left : Pending tka next deferred := by
        refine ⟨pending.nodup.sublist result.sublist,
          fun hash hm => pending.known hash (result.sublist.subset hm),
          fun hash hm hi => ?_, fun hash hk => ?_⟩
        · rcases (result.stored hash).mp hi with hb | ⟨-, done⟩
          · exact pending.fresh hash (result.sublist.subset hm) hb
          · exact done hm
        · by_cases hm : hash ∈ deferred
          · exact .inr hm
          refine .inl ((result.stored hash).mpr ?_)
          exact (pending.cover hash hk).imp id fun old => ⟨old, hm⟩
      obtain ⟨restored, done, restoredPart, all⟩ := ih result.isPart left (by omega)
      refine ⟨restored, ?_, restoredPart, all⟩
      have hnil : ((first :: rest).map (pendingItem tka time)).isEmpty = false := rfl
      have hne : ¬(deferred.map (pendingItem tka time)).length
          = ((first :: rest).map (pendingItem tka time)).length := by
        rw [length_map, length_map]
        omega
      simp only [hnil, hp, bind, Except.bind, Bool.false_eq_true, if_false, if_neg hne, done]

end Passes

/-- The updates of an archive apart from the oldest one. -/
def laterHashes (authority : TailscaleTkaAuthority) : List TailscaleAumHash :=
  authority.aums.keys.filter (· ≠ authority.oldest)

theorem mem_laterHashes_iff
    : hash ∈ laterHashes tka ↔ hash ∈ stored tka.aums ∧ hash ≠ tka.oldest := by
  rw [laterHashes, mem_filter, mem_keys_iff, decide_eq_true_eq]
  rfl

section Archive

variable (hst : StoreValid crypto tka.aums tka.oldest)

include hst

theorem decodeArchive_eq
    : decodeArchive crypto tka.archive
      = .ok (tka.aums.entries.map fun entry => (entry.2.encode, entry.2)) := by
  have all : ∀ entry ∈ tka.aums.entries,
      TailscaleAum.decode crypto entry.2.encode = .ok entry.2 := fun entry hm =>
    hst.decodes (get?_eq_some_iff.mpr hm)
  rw [archive, values, List.map_map]
  revert all
  generalize tka.aums.entries = entries
  intro all
  induction entries with
  | nil => rfl
  | cons entry _ ih =>
    obtain ⟨here, others⟩ := forall_mem_cons.mp all
    rw [map_cons, decodeArchive, Function.comp_apply, here, ih others]
    rfl

theorem isRoot_iff {entry} (hm : entry ∈ tka.aums.entries)
    : IsRoot crypto (tka.aums.entries.map fun entry => (entry.2.encode, entry.2)) entry.2
      ↔ entry.1 = tka.oldest := by
  have hashes : (tka.aums.entries.map fun entry => (entry.2.encode, entry.2)).map
      (fun entry => entry.2.hash crypto) = tka.aums.keys := by
    rw [List.map_map, OrderedMap.keys]
    exact map_congr_left fun entry hi =>
      hst.keyed (get?_eq_some_iff.mpr hi)
  have hf : tka.aums.get? entry.1 = some entry.2 := get?_eq_some_iff.mpr hm
  rw [IsRoot, hashes]
  constructor
  · rintro ⟨-, detached⟩
    by_contra hr
    obtain ⟨parent, previous, hi⟩ := hst.parent_stored hf hr
    exact detached parent previous (mem_keys_iff.mpr hi)
  · intro first
    obtain ⟨_, rootFound, checkpoint, detached⟩ := hst.root
    rw [← first, hf] at rootFound
    cases rootFound
    refine ⟨checkpoint, fun parent previous hi => ?_⟩
    obtain ⟨_, hp⟩ := mem_keys_iff.mp hi
    rw [detached parent previous] at hp
    cases hp

theorem pendingEntries_eq {root commitTimesUnix now} (hr : tka.aums.get? tka.oldest = some root)
    : ((tka.aums.entries.map fun entry => (entry.2.encode, entry.2)).filter
        fun entry => entry.2.hash crypto ≠ root.hash crypto).map
      (fun entry => (entry.1, archiveCommitTime (entry.2.hash crypto) commitTimesUnix now))
      = (laterHashes tka).map
        (pendingItem tka (archiveCommitTime · commitTimesUnix now)) := by
  have keyed : ∀ entry ∈ tka.aums.entries, entry.2.hash crypto = entry.1 :=
    fun entry hm => hst.keyed (get?_eq_some_iff.mpr hm)
  rw [laterHashes, OrderedMap.keys, List.filter_map, List.filter_map, List.map_map, List.map_map,
    filter_congr (q := (fun hash => decide (hash ≠ tka.oldest)) ∘ (·.1))]
  · refine map_congr_left fun entry hm => ?_
    have hi := mem_of_mem_filter hm
    have hf : tka.aums.get? entry.1 = some entry.2 := get?_eq_some_iff.mpr hi
    simp [pendingItem, encodingOf, hf, map_some, getD_some, keyed entry hi]
  · intro entry hm
    simp [keyed entry hm, hst.keyed hr]

end Archive

variable {root : TailscaleAum} {state : TailscaleTkaAuthorityState}

/-- From the oldest update alone, the passes restore all others. -/
theorem restorePasses_single (hst : StoreValid crypto tka.aums tka.oldest)
    (hr : Rooted tka) (small : tka.aums.len ≤ maxSyncIterations) (time)
    (rootFound : tka.aums.get? tka.oldest = some root) (held : root.state = some state)
    : ∃ restored,
      restorePasses crypto maxSyncIterations
        (.single (root.hash crypto) root state (time (root.hash crypto)))
        ((laterHashes tka).map (pendingItem tka time)) = .ok restored
      ∧ PartOf crypto tka restored
      ∧ ∀ hash ∈ stored tka.aums, hash ∈ stored restored.aums := by
  have rootHash := hst.keyed rootFound
  obtain ⟨_, he, checkpoint, detached⟩ := hst.root
  rw [rootFound] at he
  cases he
  have startPart : PartOf crypto tka
      (.single (root.hash crypto) root state (time (root.hash crypto))) := by
    refine ⟨single_valid (hst.decodes rootFound) checkpoint held (fun ha => ?_) _, rootHash,
      fun hf => ?_⟩
    · rw [rootHash] at ha
      rw [detached _ ha] at rootFound
      cases rootFound
    · obtain ⟨rfl, rfl⟩ := get?_single.mp hf
      rw [rootHash]
      exact rootFound
  refine restorePasses_eq hst small time hr startPart ⟨tka.aums.keys_nodup.filter _,
    fun hash hm => (mem_laterHashes_iff.mp hm).1, fun hash hm => ?_,
    fun hash hk => ?_⟩ (?_ : (laterHashes tka).length < _)
  · rintro ⟨aum, hf⟩
    obtain ⟨he, -⟩ := get?_single.mp hf
    exact (mem_laterHashes_iff.mp hm).2 (he.trans rootHash)
  · by_cases first : hash = tka.oldest
    · exact .inl ⟨root, get?_single.mpr ⟨first.trans rootHash.symm, rfl⟩⟩
    · exact .inr (mem_laterHashes_iff.mpr ⟨hk, first⟩)
  · have fewer : (laterHashes tka).length < tka.aums.keys.length := by
      refine length_filter_lt_length_iff_exists.mpr ⟨tka.oldest, ?_, by simp⟩
      exact mem_keys_iff.mpr ⟨root, rootFound⟩
    have he : tka.aums.keys.length = tka.aums.len := length_map _
    omega

/-- Every sound authority with few updates is restored from its archive, whatever commit times
are given with it.
-/
theorem fromArchive_eq {seen} (hs : Sound crypto seen tka)
    (small : tka.aums.len ≤ maxSyncIterations) (commitTimesUnix now)
    : ∃ restored,
      fromArchiveWithCommitTimes crypto tka.archive commitTimesUnix now = .ok restored
      ∧ restored.oldest = tka.oldest ∧ restored.head = tka.head
      ∧ restored.state = tka.state := by
  have hst := hs.store
  obtain ⟨root, hr, checkpoint, -⟩ := hst.root
  obtain ⟨state, held⟩ :=
    ne_none_iff_exists'.mp ((hst.static hr).checkpoint checkpoint)
  obtain ⟨restored, done, hpt, all⟩ := restorePasses_single hst hs.rooted small
    (archiveCommitTime · commitTimesUnix now) hr held
  have genesis : root.previous.isNone = true → verifyAumSignatures crypto root state = .ok () :=
    fun first => hs.genesis hr (isNone_iff_eq_none.mp first) held
  have ht : fromRoot crypto (tka.aums.entries.map fun entry => (entry.2.encode, entry.2))
      root commitTimesUnix now = .ok restored := by
    rw [fromRoot, held, pendingEntries_eq hst hr]
    by_cases first : root.previous.isNone = true
    · simp only [first, if_true, genesis first, bind, bind]
      exact done
    simp only [first, bind, bind]
    exact done
  refine ⟨restored, ?_, hpt.oldest, ?_⟩
  · rw [fromArchiveWithCommitTimes, decodeArchive_eq hst]
    simp only [bind, Except.bind, List.filter_map, Function.comp_def]
    rw [List.filter_congr fun entry hm => decide_eq_decide.mpr (isRoot_iff hst hm), filter_key hr]
    exact ht
  · have he : ∀ aum, aum ∈ restored.aums.values ↔ aum ∈ tka.aums.values := by
      intro aum
      rw [mem_values_iff, mem_values_iff]
      refine exists_congr fun hash => ⟨hpt.within, fun hf => ?_⟩
      obtain ⟨_, hp⟩ := all hash ⟨aum, hf⟩
      rw [hp, ← hf, hpt.within hp]
    exact head_and_state_of_values hpt.valid hs.valid hpt.oldest.symm he

end Zay.Tailscale
