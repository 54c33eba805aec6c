import Zay.Tailscale.AuthorityForks
import Zay.Tailscale.AuthorityTrust

/-! Synchronisation of two authorities with one genesis. Each side sends the other its active
chain past an update the other one is known to have, and both end with the same head.
-/

namespace Zay.Tailscale

open Lib TailscaleTkaAuthority OrderedMap List

variable {crypto : TkaPrimitives} {aums all : AumStore}

/-- Every update of the list is the parent of the next one. -/
def Linked (all : AumStore) (chain : List TailscaleAumHash) : Prop :=
  chain.IsChain fun above below => parentIn all below = some above

variable {oldest : TailscaleAumHash} {tka : TailscaleTkaAuthority}
  {passed chain : List TailscaleAumHash}

/-- An authority from a genesis, and a store that has all of its updates. -/
structure Replica (primitives : TkaPrimitives) (all : AumStore) (authority : TailscaleTkaAuthority)
    : Prop where
  valid : StoreValid primitives authority.aums authority.oldest
  genesis : FromGenesis authority.aums authority.oldest
  larger : Extends all authority.aums

theorem Replica.parentClosed (part : Replica crypto all tka)
    : ParentClosed (parentIn all) (stored tka.aums) := by
  rintro hash ⟨aum, hf⟩ ha below
  rw [parentIn_of_stored (part.larger hf)] at below
  by_cases first : hash = tka.oldest
  · obtain ⟨_, he, detached⟩ := part.genesis
    rw [← first, hf] at he
    cases he
    rw [detached] at below
    cases below
  obtain ⟨_, previous, hb⟩ := part.valid.parent_stored hf first
  cases previous.symm.trans below
  exact hb

theorem parentIn_eq_some {above below}
    : parentIn aums below = some above
      ↔ ∃ aum, aums.get? below = some aum ∧ aum.previous = some above := by
  rw [parentIn, Option.bind_eq_some_iff]

/-- The walk back from the head finds the path that the walk to the head took. -/
theorem chainWithin_eq_ok (hl : Linked tka.aums (tka.oldest :: passed))
    (hr : ∀ hash ∈ passed, hash ≠ tka.oldest) {fuel} (he : passed.length < fuel) (after)
    : tka.chainWithin fuel
        ((tka.oldest :: passed).getLast (cons_ne_nil _ _)) after
      = .ok (tka.oldest :: passed ++ after) := by
  induction passed using reverseRecOn generalizing fuel after with
  | nil =>
    obtain ⟨less, rfl⟩ := Nat.exists_eq_succ_of_ne_zero (Nat.ne_of_gt he)
    simp [chainWithin]
  | append_singleton passed last ih =>
    rw [length_append, length_singleton] at he
    obtain ⟨less, rfl⟩ := Nat.exists_eq_succ_of_ne_zero (Nat.ne_of_gt (Nat.zero_lt_of_lt he))
    rw [Linked, ← cons_append, isChain_append] at hl
    obtain ⟨front, -, link⟩ := hl
    have step := link ((tka.oldest :: passed).getLast (cons_ne_nil _ _))
      (getLast?_eq_some_getLast _) last rfl
    obtain ⟨_, hf, previous⟩ := parentIn_eq_some.mp step
    have hb := ih front (fun hash hm => hr hash (mem_append_left _ hm))
      (Nat.lt_of_succ_lt_succ he) (last :: after)
    have hne := hr last (mem_append_right _ mem_cons_self)
    have ended
        : (tka.oldest :: (passed ++ [last])).getLast (cons_ne_nil _ _) = last := by
      simp
    rw [ended, chainWithin, if_neg hne, aumOf, hf]
    simp only [bind, Except.bind, previous, hb]
    simp

variable {state final : TailscaleTkaAuthorityState}

theorem Active.ne_oldest {cursor head} (valid : StoreValid crypto aums oldest)
    (active : Active crypto aums cursor state passed head final) (hi : cursor ∈ stored aums)
    : ∀ hash ∈ passed, hash ≠ oldest := by
  induction active with
  | leaf => simp
  | step hp _ _ ih =>
    obtain ⟨_, parentFound⟩ := hi
    obtain ⟨hf, previous⟩ := preferredChild_stored hp
    rw [forall_mem_cons]
    exact ⟨valid.ne_oldest hf previous parentFound, ih ⟨_, hf⟩⟩

/-- The active path of an authority, seen within a store that has all of its updates. -/
structure PathOf (primitives : TkaPrimitives) (all : AumStore) (authority : TailscaleTkaAuthority)
    (passed : List TailscaleAumHash) : Prop where
  greedy : Greedy (parentIn all) (rankIn primitives all) (stored authority.aums)
    authority.oldest passed
  last : authority.head = (authority.oldest :: passed).getLast (cons_ne_nil _ _)
  reached : HasState primitives authority.aums authority.head authority.state
  chain : authority.activeChain = .ok (authority.oldest :: passed)
  short : passed.length < maxSyncIterations
  members : ∀ hash ∈ authority.oldest :: passed, hash ∈ stored authority.aums

theorem AuthorityValid.path (valid : AuthorityValid crypto tka) (hl : Extends all tka.aums)
    : ∃ passed, PathOf crypto all tka passed := by
  obtain ⟨_, passed, hk, active, hs⟩ := valid.active
  obtain ⟨greedy, last, reached⟩ := active.greedy hl hk
  have members : ∀ hash ∈ tka.oldest :: passed, hash ∈ stored tka.aums := by
    obtain ⟨root, hf, -⟩ := valid.store.root
    exact forall_mem_cons.mpr ⟨⟨root, hf⟩, greedy.mem⟩
  refine ⟨passed, greedy, last, reached, ?_, hs, members⟩
  have own := (active.greedy (fun hf => hf) hk).1
  have hr := active.ne_oldest valid.store (members _ mem_cons_self)
  have walked := chainWithin_eq_ok own.isChain hr hs []
  rw [activeChain, last, walked, append_nil]

variable {hash : TailscaleAumHash}

theorem mem_of_mem_sampleAncestors {index skip}
    (hm : hash ∈ sampleAncestors oldest index skip chain)
    : hash ∈ chain := by
  induction chain generalizing index skip with
  | nil => cases hm
  | cons _ _ ih =>
    unfold sampleAncestors at hm
    split at hm
    · rcases mem_cons.mp hm with rfl | hr
      · exact mem_cons_self
      · exact mem_cons_of_mem _ (ih hr)
    · exact mem_cons_of_mem _ (ih hm)

/-- An offer names updates that are stored, the oldest one among them. -/
structure OfferOf (authority : TailscaleTkaAuthority) (offer : TailscaleTkaSyncOffer) : Prop where
  head : offer.head = authority.head
  headStored : offer.head ∈ stored authority.aums
  ancestors : ∀ hash ∈ offer.ancestors, hash ∈ stored authority.aums
  oldest : authority.oldest ∈ offer.ancestors

theorem PathOf.syncOffer (path : PathOf crypto all tka passed)
    : ∃ offer, tka.syncOffer = .ok offer ∧ OfferOf tka offer := by
  refine ⟨_, bind_eq_ok.mpr ⟨_, path.chain, rfl⟩, rfl, ?_, ?_, ?_⟩
  · rw [show (_ : TailscaleTkaSyncOffer).head = tka.head from rfl, path.last]
    exact path.members _ (getLast_mem _)
  · refine forall_mem_append.mpr
      ⟨fun hash sampled => ?_, forall_mem_singleton.mpr (path.members _ mem_cons_self)⟩
    have hi := mem_of_mem_take (mem_of_mem_sampleAncestors sampled)
    exact path.members hash (mem_reverse.mp hi)
  · exact mem_append_right _ mem_cons_self

theorem getElem?_of_idxOf? {index} (hf : chain.idxOf? hash = some index)
    : chain[index]? = some hash := by
  obtain ⟨hi, he, -⟩ := idxOf?_eq_some_iff.mp hf
  rw [getElem?_eq_getElem hi, he]

theorem intersection_eq_some {remote} (offered : oldest ∈ remote.ancestors) (hi : oldest ∈ chain)
    : ∃ index, intersection chain remote = some index
      ∧ ∃ pivot, chain[index]? = some pivot
        ∧ (pivot = remote.head ∨ pivot ∈ remote.ancestors) := by
  unfold intersection
  cases atHead : chain.idxOf? remote.head with
  | some index => exact ⟨index, rfl, remote.head, getElem?_of_idxOf? atHead, .inl rfl⟩
  | none =>
    cases atAncestor : remote.ancestors.findSome? (chain.idxOf? ·) with
    | some index =>
      obtain ⟨pivot, ancestor, hf⟩ := exists_of_findSome?_eq_some atAncestor
      exact ⟨index, rfl, pivot, getElem?_of_idxOf? hf, .inr ancestor⟩
    | none =>
      have hno := findSome?_eq_none_iff.mp atAncestor oldest offered
      exact absurd hi (idxOf?_eq_none_iff.mp hno)

/-- The encodings of stored updates. -/
def encodingOf (aums : AumStore) (hash : TailscaleAumHash) : List UInt8 :=
  ((aums.get? hash).map (·.encode)).getD []

theorem mapM_encode {hashes : List TailscaleAumHash} (hk : ∀ hash ∈ hashes, hash ∈ stored tka.aums)
    : (hashes.mapM fun hash => do return (← tka.aumOf hash).encode)
      = (.ok (hashes.map (encodingOf tka.aums))
        : Except TailscaleTkaAuthorityError (List (List UInt8))) := by
  refine mapM_eq_ok fun hash hm => ?_
  obtain ⟨_, hf⟩ := hk hash hm
  rw [aumOf, hf, encodingOf, hf]
  rfl

variable (committedAt : SystemTime)

section Absorb

variable {mine theirs : AumStore} {theirOldest : TailscaleAumHash} {aum : TailscaleAum}
  {candidate : TailscaleTkaAuthority} {pivot : TailscaleAumHash}

/-- An update that one store has verified is verified in every other store that has its parent. -/
theorem Verified.transfer (valid : StoreValid crypto mine oldest)
    (ht : StoreValid crypto theirs theirOldest) (hl : Extends all mine)
    (theirLarger : Extends all theirs) {parent} (hv : Verified crypto theirs aum)
    (previous : aum.previous = some parent) (hi : parent ∈ stored mine)
    : Verified crypto mine aum := by
  obtain ⟨_, before, next, link, hk, signed, applies⟩ := hv
  cases link.symm.trans previous
  have hg : ∀ hash, hash ∈ stored mine ∧ hash ∈ stored theirs →
      mine.get? hash = theirs.get? hash := by
    rintro hash ⟨⟨one, hf⟩, two, theirFound⟩
    have he := hl hf
    rw [theirLarger theirFound] at he
    rw [hf, theirFound, he]
  refine ⟨parent, before, next, link, ?_, signed, applies⟩
  rw [← hk]
  refine stateAtWithin_congr (fun hash => hash ∈ stored mine ∧ hash ∈ stored theirs)
    hg ?_ ⟨hi, stored_of_stateAtWithin hk⟩ _
  intro hash value ha both hf kind below
  have own := (hg hash both).trans hf
  exact ⟨valid.parent_stored_of_ne_checkpoint own kind below,
    ht.parent_stored_of_ne_checkpoint hf kind below⟩

theorem stored_insert (aums hash aum)
    : stored (aums.insert hash aum) = insert hash (stored aums) := by
  ext other
  simp only [stored, Set.mem_ofPred_eq, Set.mem_insert_iff, get?_insert]
  by_cases he : other = hash
  · simp [he]
  · simp [he]

theorem Extends.insert (hl : Extends all aums) (hk : all.get? hash = some aum)
    : Extends all (aums.insert hash aum) := by
  intro other value hf
  rw [get?_insert] at hf
  split at hf
  next he =>
    cases hf
    rw [he]
    exact hk
  · exact hl hf

variable (valid : StoreValid crypto candidate.aums candidate.oldest)
include valid

/-- An update of another store whose parent is stored is absorbed. -/
theorem absorb_encodingOf (ht : StoreValid crypto theirs theirOldest)
    (hl : Extends all candidate.aums) (theirLarger : Extends all theirs)
    (hr : hash ≠ theirOldest) (link : parentIn all hash = some pivot)
    (hi : pivot ∈ stored candidate.aums) (hk : hash ∈ stored theirs)
    : ∃ next, absorb crypto committedAt candidate (encodingOf theirs hash) = .ok next
      ∧ stored next.aums = insert hash (stored candidate.aums)
      ∧ Extends all next.aums ∧ next.oldest = candidate.oldest := by
  obtain ⟨aum, hf⟩ := hk
  have encoding : encodingOf theirs hash = aum.encode := by rw [encodingOf, hf]; rfl
  have hd := ht.decodes hf
  have keyed := ht.keyed hf
  rw [parentIn_of_stored (theirLarger hf)] at link
  rw [encoding]
  cases hp : candidate.aums.get? hash with
  | some value =>
    refine ⟨candidate, absorb_eq_ok.mpr ⟨aum, hd, .inl ⟨⟨value, ?_⟩, rfl⟩⟩, ?_, hl, rfl⟩
    · rw [keyed, hp]
    · have hm : hash ∈ stored candidate.aums := ⟨value, hp⟩
      rw [Set.insert_eq_of_mem hm]
  | none =>
    have hv := (ht.verified hf hr).transfer valid ht hl theirLarger link hi
    refine ⟨candidate.extend (aum.hash crypto) aum committedAt,
      absorb_eq_ok.mpr ⟨aum, hd, .inr ⟨?_, hv, rfl⟩⟩, ?_, ?_, rfl⟩
    · rw [keyed, hp]
    · rw [keyed]
      exact stored_insert _ _ _
    · rw [keyed]
      exact hl.insert (theirLarger hf)

end Absorb

section Exchange

variable {mine theirs : TailscaleTkaAuthority} {offer : TailscaleTkaSyncOffer}
  (part : Replica crypto all mine) (theirPart : Replica crypto all theirs)

include part theirPart

theorem absorbAll_chain {pivot rest} (linked : Linked all (pivot :: rest))
    (hi : pivot ∈ stored mine.aums) (hk : ∀ hash ∈ rest, hash ∈ stored theirs.aums)
    : ∃ next, absorbAll crypto committedAt mine (rest.map (encodingOf theirs.aums)) = .ok next
      ∧ stored next.aums = stored mine.aums ∪ {hash | hash ∈ rest}
      ∧ Replica crypto all next ∧ next.oldest = mine.oldest := by
  induction rest generalizing mine pivot with
  | nil => exact ⟨mine, rfl, by simp, part, rfl⟩
  | cons hash rest ih =>
    obtain ⟨link, linked⟩ := isChain_cons_cons.mp linked
    have hr : hash ≠ theirs.oldest := by
      rintro rfl
      obtain ⟨_, hf, first⟩ := theirPart.genesis
      rw [parentIn_of_stored (theirPart.larger hf), first] at link
      cases link
    obtain ⟨middle, ha, hg, hl, he⟩ :=
      absorb_encodingOf committedAt part.valid theirPart.valid part.larger theirPart.larger hr
        link hi (hk hash mem_cons_self)
    obtain ⟨valid, genesis⟩ := absorb_valid part.valid part.genesis ha
    obtain ⟨next, others, all, nextPart, oldest⟩ := ih ⟨valid, genesis, hl⟩ linked
      (by rw [hg]; exact Set.mem_insert _ _)
      (fun other hm => hk other (mem_cons_of_mem _ hm))
    refine ⟨next, bind_eq_ok.mpr ⟨middle, ha, others⟩, ?_, nextPart, oldest.trans he⟩
    rw [all, hg]
    ext other
    simp [or_assoc, or_left_comm]

/-- What one side is missing of the other one's chain is sent to it and absorbed. -/
theorem missingAums_absorbed (he : theirs.oldest = mine.oldest) (offered : OfferOf mine offer)
    (path : PathOf crypto all theirs passed)
    : ∃ encoded candidate, theirs.missingAums offer = .ok encoded
      ∧ absorbAll crypto committedAt mine encoded = .ok candidate
      ∧ stored candidate.aums = stored mine.aums ∪ {hash | hash ∈ passed}
      ∧ Replica crypto all candidate ∧ candidate.oldest = mine.oldest := by
  have hc := part.parentClosed
  have hl : Linked all (theirs.oldest :: passed) := path.greedy.isChain
  by_cases heq : offer.head = theirs.head
  · -- The other side sends nothing, and its whole chain is known already.
    have hk : ∀ hash ∈ passed, hash ∈ stored mine.aums := by
      intro hash hm
      refine hc.mem_of_getLast hl ?_ hash (mem_cons_of_mem _ hm)
      intro last ends
      rw [getLast?_eq_some_getLast (cons_ne_nil _ _), ← path.last] at ends
      cases ends
      rw [← heq]
      exact offered.headStored
    refine ⟨[], mine, if_pos heq, rfl, ?_, part, rfl⟩
    exact (Set.union_eq_left.mpr hk).symm
  · have offeredRoot : theirs.oldest ∈ offer.ancestors := he ▸ offered.oldest
    obtain ⟨index, hf, pivot, atIndex, origin⟩ :=
      intersection_eq_some offeredRoot (mem_cons_self : theirs.oldest ∈ _ :: passed)
    have hi : pivot ∈ stored mine.aums := by
      rcases origin with rfl | ancestor
      · exact offered.headStored
      · exact offered.ancestors pivot ancestor
    obtain ⟨hs, here⟩ := List.getElem?_eq_some_iff.mp atIndex
    have split := drop_eq_getElem_cons hs
    rw [here] at split
    have rest : Linked all (pivot :: (theirs.oldest :: passed).drop (index + 1)) := by
      rw [← split]
      exact List.IsChain.drop hl index
    have sent : ∀ hash ∈ (theirs.oldest :: passed).drop (index + 1),
        hash ∈ stored theirs.aums := fun hash hm =>
      path.members hash (mem_of_mem_drop hm)
    obtain ⟨candidate, hb, hg, candidatePart, oldest⟩ :=
      absorbAll_chain committedAt part theirPart rest hi sent
    refine ⟨_, candidate, ?_, hb, ?_, candidatePart, oldest⟩
    · rw [missingAums, if_neg heq, path.chain]
      simp only [bind, Except.bind, hf]
      exact mapM_encode sent
    · -- What is not sent lies above the pivot, and is stored with it.
      have ha : ∀ hash ∈ (theirs.oldest :: passed).take (index + 1), hash ∈ stored mine.aums := by
        refine hc.mem_of_getLast (List.IsChain.take hl (index + 1)) ?_
        intro last ends
        rw [take_add_one, atIndex] at ends
        simp only [Option.toList_some, getLast?_append, getLast?_singleton, Option.some_or] at ends
        cases ends
        exact hi
      have root : theirs.oldest ∈ stored mine.aums := by
        obtain ⟨aum, stored, -⟩ := part.valid.root
        rw [he]
        exact ⟨aum, stored⟩
      rw [hg]
      refine Set.Subset.antisymm (Set.union_subset Set.subset_union_left ?_)
        (Set.union_subset Set.subset_union_left ?_)
      · intro hash hm
        rcases mem_cons.mp (mem_of_mem_drop hm) with rfl | hr
        · exact .inl root
        · exact .inr hr
      · intro hash hm
        have onChain := mem_cons_of_mem theirs.oldest hm
        rw [← take_append_drop (index + 1) (theirs.oldest :: passed)] at onChain
        exact (mem_append.mp onChain).imp (ha hash) id

omit part theirPart in
/-- After the exchange the walk ends where the joint greedy path ends. -/
theorem informed_of_greedy {candidate encoded committedAt joint}
    (part : Replica crypto all candidate)
    (hb : absorbAll crypto committedAt mine encoded = .ok candidate)
    (greedy : Greedy (parentIn all) (rankIn crypto all) (stored candidate.aums)
      candidate.oldest joint) (hs : joint.length < maxSyncIterations)
    : (mine.informAt crypto encoded committedAt).1 = .ok ()
      ∧ (mine.informAt crypto encoded committedAt).2.head
        = (candidate.oldest :: joint).getLast (cons_ne_nil _ _)
      ∧ HasState crypto all (mine.informAt crypto encoded committedAt).2.head
        (mine.informAt crypto encoded committedAt).2.state := by
  obtain ⟨_, _, -, -, hk⟩ := part.valid.root_state
  obtain ⟨_, active⟩ := active_of_greedy part.larger part.valid greedy ⟨_, hk 0⟩
  have hc := computeActiveHead_eq_ok.mpr ⟨_, hk 1999, joint, active, hs⟩
  have ha := informed_eq_ok.mpr ⟨candidate, hb, _, _, hc, rfl⟩
  rw [informAt, ha]
  exact ⟨rfl, rfl, (active.greedy part.larger ⟨_, hk 0⟩).2.2.of_extends part.larger⟩

end Exchange

/-- No update of one authority has the hash of another update of the other one. -/
def CollisionFree (primitives : TkaPrimitives) (mine theirs : TailscaleTkaAuthority) : Prop :=
  ∀ one ∈ mine.aums.values, ∀ two ∈ theirs.aums.values,
    one.hash primitives = two.hash primitives → one = two

/-- Both sides make an offer and send what the other one is missing, and then inform
themselves of what they were sent, with success and with the same result.
-/
def Converge (primitives : TkaPrimitives) (mine theirs : TailscaleTkaAuthority) : Prop :=
  ∃ myOffer theirOffer toMe toThem,
    mine.syncOffer = .ok myOffer ∧ theirs.syncOffer = .ok theirOffer
    ∧ theirs.missingAums myOffer = .ok toMe ∧ mine.missingAums theirOffer = .ok toThem
    ∧ ∀ now later,
      (mine.informAt primitives toMe now).1 = .ok ()
      ∧ (theirs.informAt primitives toThem later).1 = .ok ()
      ∧ (mine.informAt primitives toMe now).2.head
        = (theirs.informAt primitives toThem later).2.head
      ∧ (mine.informAt primitives toMe now).2.state
        = (theirs.informAt primitives toThem later).2.state

theorem mem_values_iff {value} : value ∈ aums.values ↔ ∃ hash, aums.get? hash = some value := by
  simp [values, get?_eq_some_iff]

section Replicas

variable {mine theirs : TailscaleTkaAuthority}

theorem extends_union_right : Extends (mine.aums.union theirs.aums) theirs.aums := by
  intro hash aum hf
  rw [get?_union, hf, Option.some_or]

theorem converge_of_valid (valid : AuthorityValid crypto mine)
    (genesis : FromGenesis mine.aums mine.oldest) (hv : AuthorityValid crypto theirs)
    (theirGenesis : FromGenesis theirs.aums theirs.oldest) (he : theirs.oldest = mine.oldest)
    (free : CollisionFree crypto mine theirs)
    : Converge crypto mine theirs := by
  have hl : Extends (mine.aums.union theirs.aums) mine.aums := by
    intro hash aum hf
    rw [get?_union]
    cases ht : theirs.aums.get? hash with
    | none => rw [Option.none_or, hf]
    | some other =>
      have he := free aum (mem_values_iff.mpr ⟨hash, hf⟩) other (mem_values_iff.mpr ⟨hash, ht⟩)
        ((valid.store.keyed hf).trans (hv.store.keyed ht).symm)
      rw [Option.some_or, he]
  have part : Replica crypto _ mine := ⟨valid.store, genesis, hl⟩
  have theirPart : Replica crypto (mine.aums.union theirs.aums) theirs :=
    ⟨hv.store, theirGenesis, extends_union_right⟩
  obtain ⟨_, path⟩ := valid.path hl
  obtain ⟨_, theirPath⟩ := hv.path theirPart.larger
  obtain ⟨myOffer, offered, isOffer⟩ := path.syncOffer
  obtain ⟨theirOffer, theirOffered, theirIsOffer⟩ := theirPath.syncOffer
  have received (now : SystemTime) :=
    missingAums_absorbed now part theirPart he isOffer theirPath
  have theirReceived (later : SystemTime) :=
    missingAums_absorbed later theirPart part he.symm theirIsOffer path
  obtain ⟨toMe, -, sent, -⟩ := received .unixEpoch
  obtain ⟨toThem, -, theirSent, -⟩ := theirReceived .unixEpoch
  refine ⟨myOffer, theirOffer, toMe, toThem, offered, theirOffered, sent, theirSent, ?_⟩
  intro now later
  obtain ⟨_, _, again, hb, hg, candidatePart, oldest⟩ := received now
  rw [sent] at again
  cases again
  obtain ⟨_, _, again, theirAbsorbed, theirGrown, theirCandidatePart, theirOldest⟩ :=
    theirReceived later
  rw [theirSent] at again
  cases again
  -- Both candidates have the same greedy path, so both walks end at the same update.
  have theirGreedy := theirPath.greedy
  rw [he] at theirGreedy
  obtain ⟨joint, greedy, otherGreedy, origin⟩ := Greedy.exchange rankIn_injective
    part.parentClosed theirPart.parentClosed path.greedy theirGreedy
  have hs : joint.length < maxSyncIterations := by
    rcases origin with rfl | rfl
    · exact path.short
    · exact theirPath.short
  rw [← hg, ← oldest] at greedy
  rw [← theirGrown, ← he, ← theirOldest] at otherGreedy
  obtain ⟨ha, head, reached⟩ :=
    informed_of_greedy candidatePart hb greedy hs
  obtain ⟨theirAccepted, theirHead, theirReached⟩ :=
    informed_of_greedy theirCandidatePart theirAbsorbed otherGreedy hs
  have heads : (mine.informAt crypto toMe now).2.head
      = (theirs.informAt crypto toThem later).2.head := by
    rw [head, theirHead, oldest, theirOldest, he]
  rw [← heads] at theirReached
  exact ⟨ha, theirAccepted, heads, reached.unique theirReached⟩

theorem Active.unique {cursor head otherHead otherFinal otherPassed}
    (one : Active crypto aums cursor state passed head final)
    (two : Active crypto aums cursor state otherPassed otherHead otherFinal)
    : head = otherHead ∧ final = otherFinal := by
  have walk := activeHeadWithin_eq_ok.mpr
    ⟨passed, one, Nat.lt_succ_of_le (Nat.le_max_left _ otherPassed.length)⟩
  rw [activeHeadWithin_eq_ok.mpr
    ⟨otherPassed, two, Nat.lt_succ_of_le (Nat.le_max_right passed.length _)⟩] at walk
  cases walk
  exact ⟨rfl, rfl⟩

theorem aums_eq_of_values (valid : StoreValid crypto mine.aums mine.oldest)
    (hv : StoreValid crypto theirs.aums theirs.oldest)
    (he : ∀ aum, aum ∈ mine.aums.values ↔ aum ∈ theirs.aums.values)
    : mine.aums = theirs.aums := by
  have transfer {one two : TailscaleTkaAuthority} (oneValid : StoreValid crypto one.aums one.oldest)
      (twoValid : StoreValid crypto two.aums two.oldest)
      (sub : ∀ aum, aum ∈ one.aums.values → aum ∈ two.aums.values) {hash : TailscaleAumHash}
      {aum : TailscaleAum} (hf : one.aums.get? hash = some aum)
      : two.aums.get? hash = some aum := by
    obtain ⟨_, hp⟩ := mem_values_iff.mp (sub aum (mem_values_iff.mpr ⟨hash, hf⟩))
    rwa [← twoValid.keyed hp, oneValid.keyed hf] at hp
  refine ext fun hash => Option.ext fun aum => ⟨?_, ?_⟩
  · exact transfer valid hv fun aum => (he aum).mp
  · exact transfer hv valid fun aum => (he aum).mpr

/-- The head and the state are determined by the stored updates. -/
theorem head_and_state_of_values (valid : AuthorityValid crypto mine)
    (hv : AuthorityValid crypto theirs) (oldest : theirs.oldest = mine.oldest)
    (he : ∀ aum, aum ∈ mine.aums.values ↔ aum ∈ theirs.aums.values)
    : mine.head = theirs.head ∧ mine.state = theirs.state := by
  have aums := aums_eq_of_values valid.store hv.store he
  obtain ⟨_, _, hk, active, -⟩ := valid.active
  obtain ⟨_, _, theirKnown, theirActive, -⟩ := hv.active
  rw [← aums, oldest] at theirKnown theirActive
  obtain rfl := hk.unique theirKnown
  exact active.unique theirActive

end Replicas

/-- Two authorities that grew from one genesis converge by one exchange, and the head and the
state of each depend on its updates only.
-/
theorem replicas_converge (primitives : TkaPrimitives) {genesis : List UInt8}
    {mine theirs : TailscaleTkaAuthority} (grown : GrownFrom primitives genesis mine)
    (theirGrown : GrownFrom primitives genesis theirs)
    : (CollisionFree primitives mine theirs → Converge primitives mine theirs)
      ∧ ((∀ aum, aum ∈ mine.aums.values ↔ aum ∈ theirs.aums.values) →
        mine.head = theirs.head ∧ mine.state = theirs.state) := by
  obtain ⟨valid, first⟩ := grown.valid
  obtain ⟨theirValid, theirFirst⟩ := theirGrown.valid
  have oldest : theirs.oldest = mine.oldest := by
    obtain ⟨_, _, _, started, rfl⟩ := grown
    obtain ⟨_, _, _, startedOther, rfl⟩ := theirGrown
    obtain ⟨aum, _, decoded, -, -, -, -, rfl⟩ := bootstrap_eq_ok.mp started
    obtain ⟨_, _, decodedOther, -, -, -, -, rfl⟩ := bootstrap_eq_ok.mp startedOther
    cases decoded.symm.trans decodedOther
    rw [informs_oldest, informs_oldest]
    rfl
  exact ⟨converge_of_valid valid first theirValid theirFirst oldest,
    head_and_state_of_values valid theirValid oldest⟩

/-- The genesis and the same genesis with one more key. -/
theorem replicas_converge_oneAddition
    : Converge kindDigest (genesisAuthority 1)
      ((genesisAuthority 1).informs kindDigest
        [([(additionOf 1 genesisHash).encode], .unixEpoch)]) := by
  have started := @bootstrap_genesisOfKeys 1 (by decide) (by decide)
  refine (replicas_converge kindDigest ⟨_, _, [], started, rfl⟩ ⟨_, _, _, started, rfl⟩).1 ?_
  rw [informs_additionOf (by decide) (by decide)]
  intro one mine two theirs same
  obtain ⟨_, found⟩ := mem_values_iff.mp mine
  obtain ⟨_, theirFound⟩ := mem_values_iff.mp theirs
  have genesis : one = genesisOfKeys 1 := (get?_single.mp found).2
  obtain ⟨-, addition⟩ | again := stored_twoUpdates theirFound
  · rw [genesis, addition, hash_genesisOfKeys, hash_additionOf] at same
    exact absurd same (by decide)
  · rw [genesis, again]

end Zay.Tailscale
