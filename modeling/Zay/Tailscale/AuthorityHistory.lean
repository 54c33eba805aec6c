import Zay.Tailscale.CompactionClosure

/-! Authorities that batches and compactions lead to. An update above the oldest one is gone for
good: its parent is gone too, so that no batch can bring it back.
-/

namespace Zay.Tailscale

open Lib TailscaleTkaAuthority List OrderedMap

variable {crypto : TkaPrimitives} {tka next : TailscaleTkaAuthority}
  {seen : List TailscaleAum} {hash : TailscaleAumHash} {aum : TailscaleAum}

/-- The authorities reached by successful calls, with all updates that were ever stored. -/
inductive Reachable (primitives : TkaPrimitives)
    : (seen : List TailscaleAum) → TailscaleTkaAuthority → Prop
  | bootstrap {bytes now authority}
    (started : bootstrap primitives bytes now = .ok authority)
    : Reachable primitives authority.aums.values authority
  | inform {seen authority encoded committedAt next} (before : Reachable primitives seen authority)
    (accepted : authority.informAt primitives encoded committedAt = (.ok (), next))
    : Reachable primitives (seen ++ next.aums.values) next
  | compact {seen authority options now count next} (before : Reachable primitives seen authority)
    (compacted : authority.compactAt options now = .ok (count, next))
    : Reachable primitives seen next

/-- Different updates have different hashes. -/
def HashesApart (primitives : TkaPrimitives) (seen : List TailscaleAum) : Prop :=
  ∀ one ∈ seen, ∀ two ∈ seen, one.hash primitives = two.hash primitives → one = two

/-- Updates that are gone, those above the oldest one among them. -/
structure Forgotten (primitives : TkaPrimitives) (seen : List TailscaleAum)
    (authority : TailscaleTkaAuthority) (gone : Set TailscaleAumHash) : Prop where
  aboveOldest : ∀ {root}, authority.aums.get? authority.oldest = some root →
    ∀ parent ∈ root.previous, parent ∈ gone
  absent : ∀ hash ∈ gone, authority.aums.get? hash = none
  known : ∀ hash ∈ gone, ∃ aum ∈ seen, aum.hash primitives = hash
    ∧ ∀ parent ∈ aum.previous, parent ∈ gone

/-- What holds of the stored updates at any time. -/
structure StoreSound (primitives : TkaPrimitives) (seen : List TailscaleAum)
    (authority : TailscaleTkaAuthority) : Prop where
  store : StoreValid primitives authority.aums authority.oldest
  rooted : Rooted authority
  timed : ∀ hash, hash ∈ stored authority.aums ↔ ∃ time, authority.commitTimes.get? hash = some time
  genesis : ∀ {root state}, authority.aums.get? authority.oldest = some root →
    root.previous = none → root.state = some state →
    verifyAumSignatures primitives root state = .ok ()
  recorded : ∀ aum ∈ authority.aums.values, aum ∈ seen
  forgotten : ∃ gone, Forgotten primitives seen authority gone

theorem Forgotten.apart {gone} (forgotten : Forgotten crypto seen tka gone)
    (free : HashesApart crypto seen) (hm : aum ∈ seen) (hv : Verified crypto tka.aums aum)
    : aum.hash crypto ∉ gone := by
  intro hi
  obtain ⟨old, recorded, he, ha⟩ := forgotten.known _ hi
  obtain rfl := free old recorded aum hm he
  obtain ⟨parent, _, _, against⟩ := hv
  obtain ⟨_, hp⟩ := stored_of_stateAtWithin against.known
  rw [forgotten.absent parent (ha parent against.previous)] at hp
  cases hp

theorem Rooted.extend (hst : StoreValid crypto tka.aums tka.oldest)
    (ho : Rooted tka) (hn : tka.aums.get? hash = none) {parent}
    (previous : aum.previous = some parent) (hi : parent ∈ stored tka.aums) (committedAt)
    : Rooted (tka.extend hash aum committedAt) := by
  have he : ∀ other ∈ stored tka.aums,
      (tka.extend hash aum committedAt).up other = tka.up other := by
    rintro other ⟨value, hf⟩
    have kept : (tka.aums.insert hash aum).get? other = some value :=
      extends_insert hn hf
    unfold up
    rw [parentIn_of_stored hf,
      show parentIn (tka.extend hash aum committedAt).aums other = value.previous from
        parentIn_of_stored kept]
    rfl
  have lift {other : TailscaleAumHash} (hk : other ∈ stored tka.aums)
      : ∃ path, Ascent (tka.extend hash aum committedAt).up other path := by
    obtain ⟨path, ha⟩ := ho other hk
    exact ⟨path, ha.congr fun member hr =>
      he member (mem_stored_of_ascent hst ha hk member hr)⟩
  intro other hk
  rw [TailscaleTkaAuthority.extend, stored_insert, Set.mem_insert_iff] at hk
  rcases hk with rfl | old
  · obtain ⟨path, ha⟩ := lift hi
    refine ⟨_, .step ?_ ha⟩
    have hr : other ≠ tka.oldest := by
      rintro rfl
      obtain ⟨_, hf⟩ := oldest_stored hst
      rw [hn] at hf
      cases hf
    have new : (tka.aums.insert other aum).get? other = some aum := by
      rw [get?_insert, if_pos rfl]
    rw [up, if_neg (show other ≠ (tka.extend other aum committedAt).oldest from hr)]
    exact (parentIn_of_stored new).trans previous
  · exact lift old

variable {committedAt now : SystemTime} {bytes : List UInt8} {encoded : List (List UInt8)}

theorem StoreSound.absorb (hs : StoreSound crypto seen tka) (free : HashesApart crypto seen)
    (absorbed : absorb crypto committedAt tka bytes = .ok next)
    (recorded : ∀ aum ∈ next.aums.values, aum ∈ seen)
    : StoreSound crypto seen next := by
  obtain ⟨aum, hd, ⟨-, rfl⟩ | ⟨hn, hv, rfl⟩⟩ := absorb_eq_ok.mp absorbed
  · exact hs
  · obtain ⟨gone, forgotten⟩ := hs.forgotten
    have new : (tka.aums.insert (aum.hash crypto) aum).get? (aum.hash crypto)
        = some aum := by
      rw [get?_insert, if_pos rfl]
    have hne := forgotten.apart free (recorded aum (mem_values_iff.mpr ⟨_, new⟩)) hv
    obtain ⟨_, _, _, against⟩ := id hv
    obtain ⟨_, firstFound⟩ := oldest_stored hs.store
    have sameRoot {root : TailscaleAum}
        (hf : (tka.extend (aum.hash crypto) aum committedAt).aums.get? tka.oldest
          = some root)
        : tka.aums.get? tka.oldest = some root := by
      rw [← hf]
      exact firstFound.trans (extends_insert hn firstFound).symm
    refine ⟨extend_valid hs.store hd hn hv ?_, hs.rooted.extend hs.store hn against.previous
        (stored_of_stateAtWithin against.known) committedAt, fun hash => ?_, ?_, recorded,
      gone, ?_, fun hash hi => ?_, forgotten.known⟩
    · intro root hf ha
      exact hne (forgotten.aboveOldest hf _ ha)
    · rw [extend, stored_insert, Set.mem_insert_iff, hs.timed, get?_insert]
      by_cases he : hash = aum.hash crypto
      · simp [he]
      · simp [he]
    · intro root state hf
      exact hs.genesis (sameRoot hf)
    · intro root hf
      exact forgotten.aboveOldest (sameRoot hf)
    · rw [extend, get?_insert, if_neg, forgotten.absent hash hi]
      rintro rfl
      exact hne hi

theorem absorb_extends (ha : absorb crypto committedAt tka bytes = .ok next)
    : Extends next.aums tka.aums := by
  obtain ⟨_, _, ⟨-, rfl⟩ | ⟨hn, _, rfl⟩⟩ := absorb_eq_ok.mp ha
  · exact fun hf => hf
  · exact extends_insert hn

theorem StoreSound.absorbAll (hs : StoreSound crypto seen tka) (free : HashesApart crypto seen)
    (ha : absorbAll crypto committedAt tka encoded = .ok next)
    (recorded : ∀ aum ∈ next.aums.values, aum ∈ seen)
    : StoreSound crypto seen next := by
  refine absorbAll_induction (motive := fun reached =>
      (∀ aum ∈ reached.aums.values, aum ∈ seen) → StoreSound crypto seen reached)
    ha (fun _ => hs) (fun hb first recorded => ?_) recorded
  refine (hb fun aum hm => recorded aum ?_).absorb free first recorded
  obtain ⟨hash, hf⟩ := mem_values_iff.mp hm
  exact mem_values_iff.mpr ⟨hash, absorb_extends first hf⟩

theorem StoreSound.mono {more} (hs : StoreSound crypto seen tka) (hl : ∀ aum ∈ seen, aum ∈ more)
    : StoreSound crypto more tka := by
  obtain ⟨gone, aboveOldest, hno, hk⟩ := hs.forgotten
  refine { hs with
    recorded := fun aum hm => hl aum (hs.recorded aum hm)
    forgotten := ⟨gone, aboveOldest, hno, fun hash hi => ?_⟩ }
  obtain ⟨aum, hm, rest⟩ := hk hash hi
  exact ⟨aum, hl aum hm, rest⟩

theorem StoreSound.bootstrap (hs : bootstrap crypto bytes now = .ok tka)
    : StoreSound crypto tka.aums.values tka := by
  obtain ⟨hv, -⟩ := bootstrap_valid hs
  obtain ⟨aum, _, _, _, first, held, signed, rfl⟩ := bootstrap_eq_ok.mp hs
  refine ⟨hv.store, fun hash hi => ⟨[hash], .root ?_⟩, fun hash => ?_, ?_,
    fun _ hm => hm, ∅, ?_, fun _ => False.elim, fun _ => False.elim⟩
  · refine (up_eq_none_iff hv.store hi).mpr ?_
    obtain ⟨value, hf⟩ := hi
    exact (get?_single.mp hf).1
  · simp only [single, stored_insert, get?_insert]
    by_cases he : hash = aum.hash crypto
    · simp [he]
    · simp [stored]
  · intro value state hf _ heldHere
    obtain ⟨-, rfl⟩ := get?_single.mp hf
    rw [held] at heldHere
    cases heldHere
    exact signed
  · intro value hf parent ha
    obtain ⟨-, rfl⟩ := get?_single.mp hf
    rw [first] at ha
    cases ha

/-- A sound store, and a head and a state that the walk over it ends with. -/
structure Sound (primitives : TkaPrimitives) (seen : List TailscaleAum)
    (authority : TailscaleTkaAuthority) : Prop extends StoreSound primitives seen authority where
  valid : AuthorityValid primitives authority

theorem Sound.inform (hs : Sound crypto seen tka)
    (free : HashesApart crypto (seen ++ next.aums.values))
    (ha : tka.informAt crypto encoded committedAt = (.ok (), next))
    : Sound crypto (seen ++ next.aums.values) next := by
  have informed : tka.informed crypto encoded committedAt = .ok next := by
    unfold informAt at ha
    split at ha <;> cases ha
    assumption
  obtain ⟨candidate, absorbed, _, _, computed, rfl⟩ := informed_eq_ok.mp informed
  have start := hs.toStoreSound.mono fun aum hm =>
    mem_append_left candidate.aums.values hm
  have hg := start.absorbAll free absorbed fun aum hm => mem_append_right _ hm
  obtain ⟨rootState, hk, passed, active⟩ := computeActiveHead_eq_ok.mp computed
  exact ⟨{ hg with forgotten := hg.forgotten.imp fun _ forgotten => { forgotten with } },
    ⟨hg.store, rootState, passed, ⟨_, hk⟩, active⟩⟩

section Compaction

variable {cutoff : SystemTime} {minChain : Nat} {kept : TailscaleAumHash → Prop}
  {oldest : TailscaleAumHash} {path front back : List TailscaleAumHash}

section

variable (hc : CompactedTo tka kept oldest next)

include hc

theorem CompactedTo.stored_iff
    : hash ∈ stored next.aums ↔ hash ∈ stored tka.aums ∧ kept hash := by
  constructor
  · rintro ⟨aum, hf⟩
    obtain ⟨hk, isKept⟩ := hc.aums.mp hf
    exact ⟨⟨aum, hk⟩, isKept⟩
  · rintro ⟨⟨aum, hk⟩, isKept⟩
    exact ⟨aum, hc.aums.mpr ⟨hk, isKept⟩⟩

theorem CompactedTo.extends
    : Extends tka.aums next.aums :=
  fun hf => (hc.aums.mp hf).1

theorem CompactedTo.absent (ho : ¬(hash ∈ stored tka.aums ∧ kept hash))
    : next.aums.get? hash = none := by
  rw [← hc.stored_iff] at ho
  exact Option.eq_none_iff_forall_not_mem.mpr fun aum hf => ho ⟨aum, hf⟩

end

variable (hst : StoreValid crypto tka.aums tka.oldest)
  (hre : Retained tka cutoff minChain kept oldest)

include hst hre

/-- The path of a kept update runs through kept updates to the new oldest one. -/
theorem Retained.path_split (ha : Ascent tka.up hash path)
    (hk : hash ∈ stored tka.aums) (isKept : kept hash)
    : ∃ front back, path = front ++ oldest :: back ∧ ∀ member ∈ front, kept member := by
  induction ha with
  | @root node top =>
    by_cases he : node = oldest
    · exact ⟨[], [], by rw [he]; rfl, by simp⟩
    obtain ⟨parent, link, -⟩ := hre.closed node hk isKept he
    rw [top] at link
    cases link
  | @step node above path link onward ih =>
    by_cases he : node = oldest
    · exact ⟨[], path, by rw [he]; rfl, by simp⟩
    obtain ⟨parent, actual, parentKept⟩ := hre.closed node hk isKept he
    cases link.symm.trans actual
    obtain ⟨front, back, rfl, others⟩ :=
      ih (parentClosed_up hst node hk above link) parentKept
    exact ⟨node :: front, back, rfl, forall_mem_cons.mpr ⟨isKept, others⟩⟩

omit hst in
theorem Retained.oldest_stored : oldest ∈ stored tka.aums := by
  obtain ⟨aum, hf, -⟩ := hre.checkpoint
  exact ⟨aum, hf⟩

/-- Nothing above the new oldest update is kept. -/
theorem Retained.not_kept_above (ha : Ascent tka.up oldest (oldest :: back)) (hm : hash ∈ back)
    : ¬kept hash := by
  intro isKept
  have hk := mem_stored_of_ascent hst ha hre.oldest_stored hash (mem_cons_of_mem _ hm)
  have hn := (nodup_cons.mp ha.nodup).1
  obtain ⟨_, _, rfl⟩ := append_of_mem hm
  rw [← cons_append] at ha
  obtain ⟨_, _, form, -⟩ := hre.path_split hst ha.drop hk isKept
  refine hn (mem_append_right _ ?_)
  rw [form]
  simp

variable (hc : CompactedTo tka kept oldest next)

include hc

omit hst in
theorem up_of_compacted (hk : hash ∈ stored tka.aums) (isKept : kept hash) (hr : hash ≠ oldest)
    : next.up hash = tka.up hash := by
  obtain ⟨_, link, -⟩ := hre.closed hash hk isKept hr
  obtain ⟨_, hf⟩ := hk
  have remains := hc.aums.mpr ⟨hf, isKept⟩
  rw [link, up_eq_some_iff, hc.oldest, parentIn_of_stored remains, ← parentIn_of_stored hf]
  exact ⟨hr, (up_eq_some_iff.mp link).2⟩

omit hst in
theorem ascent_of_compacted (hs : Ascent tka.up hash (front ++ oldest :: back))
    (others : ∀ member ∈ front, member ∈ stored tka.aums ∧ kept member)
    : Ascent next.up hash (front ++ [oldest]) := by
  induction front generalizing hash with
  | nil =>
    obtain ⟨rest, form⟩ := hs.eq_cons
    rw [← (cons.inj form).1]
    refine .root ?_
    rw [up, if_pos hc.oldest.symm]
  | cons first front ih =>
    have nodup := hs.nodup
    obtain ⟨rest, form⟩ := hs.eq_cons
    obtain rfl := (cons.inj form).1
    obtain ⟨⟨hk, isKept⟩, others⟩ := forall_mem_cons.mp others
    have hr : first ≠ oldest := by
      rintro rfl
      exact (nodup_cons.mp nodup).1 (by simp)
    obtain ⟨_, link, onward⟩ := hs.tail (by simp)
    refine .step ?_ (ih onward others)
    rw [up_of_compacted hre hc hk isKept hr]
    exact link

theorem verified_of_compacted (hf : tka.aums.get? hash = some aum) (isKept : kept hash)
    (hr : hash ≠ oldest)
    : Verified crypto next.aums aum := by
  obtain ⟨parent, link, parentKept⟩ := hre.closed hash ⟨aum, hf⟩ isKept hr
  obtain ⟨below, previous⟩ := up_eq_some_iff.mp link
  rw [parentIn_of_stored hf] at previous
  obtain ⟨actual, before, after, hv⟩ := hst.verified hf below
  cases hv.previous.symm.trans previous
  refine ⟨parent, before, after, hv.previous, ?_, hv.signed, hv.applies⟩
  rw [← hv.known]
  refine stateAtWithin_congr (fun other => other ∈ stored tka.aums ∧ kept other) ?_ ?_
    ⟨stored_of_stateAtWithin hv.known, parentKept⟩ _
  · rintro other ⟨⟨value, hk⟩, otherKept⟩
    rw [hk, hc.aums.mpr ⟨hk, otherKept⟩]
  · rintro other value ha ⟨-, otherKept⟩ hk kind up
    obtain ⟨_, checkpointFound, isCheckpoint⟩ := hre.checkpoint
    have hne : other ≠ oldest := by
      rintro rfl
      rw [hk] at checkpointFound
      cases checkpointFound
      exact kind isCheckpoint
    obtain ⟨actual, otherLink, aboveKept⟩ :=
      hre.closed other ⟨value, hk⟩ otherKept hne
    have hi := hst.parent_stored_of_ne_checkpoint hk kind up
    rw [up_of_previous hst hk up hi] at otherLink
    cases otherLink
    exact ⟨hi, aboveKept⟩

theorem storeValid_of_compacted (ho : Rooted tka)
    : StoreValid crypto next.aums next.oldest := by
  have hw : Extends tka.aums next.aums := hc.extends
  obtain ⟨checkpoint, hf, isCheckpoint⟩ := hre.checkpoint
  rw [hc.oldest]
  refine ⟨fun stored => hst.keyed (hw stored), fun stored => hst.decodes (hw stored),
    ⟨checkpoint, hc.aums.mpr ⟨hf, hre.root⟩, isCheckpoint, fun parent ha => ?_⟩,
    fun stored hr => ?_⟩
  · refine hc.absent ?_
    rintro ⟨hi, parentKept⟩
    have link := up_of_previous hst hf ha hi
    obtain ⟨_, hs⟩ := ho parent hi
    refine hre.not_kept_above hst (hs.step link) ?_ parentKept
    obtain ⟨_, rfl⟩ := hs.eq_cons
    exact mem_cons_self
  · obtain ⟨hk, isKept⟩ := hc.aums.mp stored
    exact verified_of_compacted hst hre hc hk isKept hr

theorem rooted_of_compacted (hr : Rooted tka) : Rooted next := by
  intro hash remains
  obtain ⟨hk, isKept⟩ := hc.stored_iff.mp remains
  obtain ⟨_, ha⟩ := hr hash hk
  obtain ⟨_, _, rfl, others⟩ := hre.path_split hst ha hk isKept
  refine ⟨_, ascent_of_compacted hre hc ha fun member hi =>
    ⟨?_, others member hi⟩⟩
  exact mem_stored_of_ascent hst ha hk member (mem_append_left _ hi)

omit hre hc in
theorem PathOf.ascent {passed} (path : PathOf crypto tka.aums tka passed)
    : Ascent tka.up tka.head (tka.oldest :: passed).reverse := by
  rw [path.last]
  refine .of_isChain ((up_eq_none_iff hst (Tailscale.oldest_stored hst)).mpr rfl) ?_
  refine path.greedy.isChain.imp_of_mem_imp fun above _ hm _ link => ?_
  obtain ⟨_, hf, previous⟩ := parentIn_eq_some.mp link
  exact up_of_previous hst hf previous (path.members above hm)

/-- The active chain from the new oldest update on. -/
theorem authorityValid_of_compacted (hv : AuthorityValid crypto tka) (hr : Rooted tka)
    : AuthorityValid crypto next := by
  have nextStore := storeValid_of_compacted hst hre hc hr
  have hw : Extends tka.aums next.aums := hc.extends
  obtain ⟨passed, path⟩ := hv.path fun hf => hf
  have ha := path.ascent hst
  obtain ⟨front, back, form, others⟩ :=
    hre.path_split hst ha hv.head_stored hre.head
  have chain : tka.oldest :: passed = back.reverse ++ oldest :: front.reverse := by
    rw [← reverse_reverse (tka.oldest :: passed), form]
    simp
  have hi : ∀ member ∈ front.reverse, member ∈ stored next.aums := by
    intro member hb
    refine hc.stored_iff.mpr ⟨path.members member ?_, others member (mem_reverse.mp hb)⟩
    rw [chain]
    exact mem_append_right _ (mem_cons_of_mem _ hb)
  have greedy := (path.greedy.drop chain).restrict
    (fun hash remains => (hc.stored_iff.mp remains).1) hi
  obtain ⟨root, rootState, -, -, hk⟩ := nextStore.root_state
  rw [hc.oldest] at hk
  obtain ⟨final, active⟩ := active_of_greedy hw nextStore greedy ⟨_, hk 0⟩
  have head : (oldest :: front.reverse).getLast (cons_ne_nil _ _) = tka.head := by
    obtain ⟨rest, begins⟩ := ha.eq_cons
    rw [form] at begins
    cases front with
    | nil => exact (cons.inj begins).1
    | cons first front => simp [(cons.inj begins).1]
  rw [head] at active
  have he := ((active.greedy hw ⟨_, hk 0⟩).2.2.of_extends hw).unique path.reached
  have hk : HasState crypto next.aums next.oldest
      { rootState with lastAumHash := some oldest } := by
    rw [hc.oldest]
    exact ⟨_, hk 0⟩
  refine ⟨nextStore, _, front.reverse, hk, ?_, ?_⟩
  · rw [hc.oldest, hc.head, hc.state, ← he]
    exact active
  · have hl := congrArg length chain
    simp only [length_cons, length_append, length_reverse] at hl
    have hs := path.short
    rw [length_reverse]
    omega

end Compaction

/-- What a compaction leaves is sound, whatever the commit times are. -/
theorem Sound.compact {options count} (hs : Sound crypto seen tka)
    (result : tka.compactAt options now = .ok (count, next))
    : Sound crypto seen next := by
  obtain ⟨_, oldest, hre, hc⟩ := compactAt_eq_ok hs.valid hs.rooted result
  have hst := hs.store
  obtain ⟨gone, forgotten⟩ := hs.forgotten
  obtain ⟨_, ascent⟩ := hs.rooted oldest hre.oldest_stored
  obtain ⟨back, rfl⟩ := ascent.eq_cons
  have hk := mem_stored_of_ascent hst ascent hre.oldest_stored
  -- Above the new oldest update, everything is stored before and gone afterwards.
  have upward : ∀ {hash aum}, tka.aums.get? hash = some aum → hash ∈ oldest :: back →
      ∀ parent ∈ aum.previous, parent ∈ gone ∨ parent ∈ back := by
    intro hash aum hf hm parent previous
    by_cases root : hash = tka.oldest
    · exact .inl (forgotten.aboveOldest (root ▸ hf) parent previous)
    obtain ⟨_, he, hi⟩ := hst.parent_stored hf root
    cases he.symm.trans previous
    obtain ⟨front, _, form⟩ :=
      ascent.split_of_link hm (up_of_previous hst hf he hi)
    cases front with
    | nil => simp [(cons.inj form).2]
    | cons first front => simp [(cons.inj form).2]
  refine ⟨⟨storeValid_of_compacted hst hre hc hs.rooted,
    rooted_of_compacted hst hre hc hs.rooted, fun hash => ?_, ?_, ?_,
    gone ∪ {hash | hash ∈ back}, ?_, ?_, ?_⟩,
    authorityValid_of_compacted hst hre hc hs.valid hs.rooted⟩
  · rw [hc.stored_iff, hs.timed]
    constructor
    · rintro ⟨⟨time, hf⟩, isKept⟩
      exact ⟨time, hc.times.mpr ⟨hf, fun _ => isKept⟩⟩
    · rintro ⟨time, hf⟩
      obtain ⟨hb, isKept⟩ := hc.times.mp hf
      exact ⟨⟨time, hb⟩, isKept ((hs.timed hash).mpr ⟨time, hb⟩)⟩
  · intro root state hf first held
    obtain ⟨hb, -⟩ := hc.aums.mp hf
    refine hs.genesis ?_ first held
    rw [← hb]
    congr 1
    refine Eq.symm ((up_eq_none_iff hst ⟨root, hb⟩).mp ?_)
    unfold up
    split
    · rfl
    · rw [parentIn_of_stored hb, first]
  · intro aum hm
    obtain ⟨hash, hf⟩ := mem_values_iff.mp hm
    exact hs.recorded aum (mem_values_iff.mpr ⟨hash, (hc.aums.mp hf).1⟩)
  · intro root hf parent ha
    rw [hc.oldest] at hf
    exact upward (hc.aums.mp hf).1 mem_cons_self parent ha
  · rintro hash (hi | ha)
    · refine hc.absent ?_
      rintro ⟨⟨aum, hf⟩, -⟩
      rw [forgotten.absent hash hi] at hf
      cases hf
    · refine hc.absent fun both => ?_
      exact hre.not_kept_above hst ascent ha both.2
  · rintro hash (hi | ha)
    · obtain ⟨aum, hm, he, parents⟩ := forgotten.known hash hi
      exact ⟨aum, hm, he, fun parent previous => .inl (parents parent previous)⟩
    · obtain ⟨aum, hf⟩ := hk hash (mem_cons_of_mem _ ha)
      refine ⟨aum, hs.recorded aum (mem_values_iff.mpr ⟨hash, hf⟩), hst.keyed hf, ?_⟩
      exact upward hf (mem_cons_of_mem _ ha)

theorem Reachable.sound (hr : Reachable crypto seen tka) (free : HashesApart crypto seen)
    : Sound crypto seen tka := by
  induction hr with
  | bootstrap started => exact ⟨.bootstrap started, (bootstrap_valid started).1⟩
  | inform _ accepted ih =>
    refine (ih fun one first two second => ?_).inform free accepted
    exact free one (mem_append_left _ first) two (mem_append_left _ second)
  | compact _ hc ih => exact (ih free).compact hc

end Zay.Tailscale
