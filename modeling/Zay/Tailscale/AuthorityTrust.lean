import Zay.Tailscale.AumCodec
import Zay.Tailscale.AuthorityStore

/-! What can be relied on in every authority that grows from a genesis by batches of arbitrary
byte strings.
-/

namespace Zay.Tailscale

open Lib Lib.Cbor TailscaleTkaAuthority OrderedMap TailscaleAum List Option

variable {crypto : TkaPrimitives}

/-- An update with signatures, all of them by keys of the state. -/
def SignedBy (primitives : TkaPrimitives) (state : TailscaleTkaAuthorityState)
    (aum : TailscaleAum) : Prop :=
  aum.signatures ≠ []
  ∧ ∀ signature ∈ aum.signatures, ∃ key ∈ state.keys, key.publicKey = signature.keyId
    ∧ primitives.verifyStrict key.publicKey (aum.signatureHash primitives) signature.signature

variable {state : TailscaleTkaAuthorityState} {tka : TailscaleTkaAuthority}

theorem verifySignatures_eq_ok {digest signatures}
    : verifySignatures crypto state digest signatures = .ok ()
      ↔ ∀ signature ∈ signatures, ∃ key, state.findKey signature.keyId = some key
        ∧ crypto.verifyStrict key.publicKey digest signature.signature := by
  induction signatures with
  | nil => simp [verifySignatures]
  | cons signature _ ih =>
    rw [forall_mem_cons, ← ih, verifySignatures]
    cases hf : state.findKey signature.keyId with
    | none => simp
    | some key =>
      by_cases hg : crypto.verifyStrict key.publicKey digest signature.signature
      · simp [hg]
      · simp [hg]

theorem verifyAumSignatures_eq_ok {aum}
    : verifyAumSignatures crypto aum state = .ok ()
      ↔ aum.signatures ≠ []
        ∧ verifySignatures crypto state (aum.signatureHash crypto) aum.signatures = .ok ()
        ∧ ¬RemovesFinalKey aum state := by
  simp [verifyAumSignatures, invalid, guard_eq_ok, check_eq_ok, ne_eq]

theorem signedBy_of_verified {aum} (hv : verifyAumSignatures crypto aum state = .ok ())
    : SignedBy crypto state aum := by
  obtain ⟨signed, hg, -⟩ := verifyAumSignatures_eq_ok.mp hv
  refine ⟨signed, fun signature hm => ?_⟩
  obtain ⟨key, hf, byKey⟩ := verifySignatures_eq_ok.mp hg signature hm
  exact ⟨key, mem_of_find?_eq_some hf, by simpa using find?_some hf, byKey⟩

/-- No update adds a key to a state that is full. -/
def RoomForKeys (primitives : TkaPrimitives) (authority : TailscaleTkaAuthority) : Prop :=
  ∀ hash aum parent before, authority.aums.get? hash = some aum → aum.kind = kindAddKey →
    aum.previous = some parent → authority.stateAt primitives parent = .ok before →
    before.keys.length < maxKeys

theorem Active.checkpointable (hv : StoreValid crypto tka.aums tka.oldest) {cursor head final hp}
    (active : Active crypto tka.aums cursor state hp head final)
    (hk : HasState crypto tka.aums cursor state) (hs : Checkpointable state)
    : Checkpointable final
      ∧ (RoomForKeys crypto tka → state.keys.length ≤ maxKeys →
        final.keys.length ≤ maxKeys) := by
  induction active with
  | leaf => exact ⟨hs, fun _ few => few⟩
  | @step cursor state hash aum next hp head final preferred ha rest ih =>
    obtain ⟨stored, previous⟩ := preferredChild_stored preferred
    obtain ⟨after, verified⟩ := hv.verifiedAgainst_of_hasState stored previous hk
    have kept := (verifyAumSignatures_eq_ok.mp verified.signed).2.2
    obtain ⟨hs, hg⟩ := hs.applyAum (hv.static stored) kept ha
    obtain ⟨hs, few⟩ := ih (hk.step stored previous ha) hs
    refine ⟨hs, fun hr hb => few hr ?_⟩
    rcases hg with checkpoint | hf | ⟨adds, more⟩
    · exact checkpoint
    · exact hf.trans hb
    have free := hr hash aum cursor state stored adds previous verified.known
    omega

theorem AuthorityValid.checkpointable (hv : AuthorityValid crypto tka)
    : Checkpointable tka.state
      ∧ (RoomForKeys crypto tka → tka.state.keys.length ≤ maxKeys) := by
  obtain ⟨_, _, hk, active, -⟩ := hv.active
  obtain ⟨_, checkpoint, stored, held, hf⟩ := hv.store.root_state
  obtain rfl := hk.unique ⟨1, hf 0⟩
  obtain ⟨-, few, hs⟩ := validateCheckpointState_eq_ok.mp
    ((hv.store.static stored).state checkpoint held)
  obtain ⟨final, hb⟩ := active.checkpointable hv.store hk { hs with }
  exact ⟨final, fun hr => hb hr few⟩

/-- A refused batch changes nothing, every update but the root is signed by keys that its
parent's state trusts, and the active state can be put into a checkpoint.
-/
structure TrustSound (primitives : TkaPrimitives) (authority : TailscaleTkaAuthority) : Prop where
  atomic : ∀ encoded committedAt error,
    (authority.informAt primitives encoded committedAt).1 = .error error →
    (authority.informAt primitives encoded committedAt).2 = authority
  signed : ∀ hash aum, authority.aums.get? hash = some aum → hash ≠ authority.oldest →
    ∃ parent before, aum.previous = some parent
      ∧ authority.stateAt primitives parent = .ok before ∧ SignedBy primitives before aum
  checkpoint : validateCheckpointState { authority.state with lastAumHash := none } = .ok ()

theorem AuthorityValid.trustSound_iff (hv : AuthorityValid crypto tka)
    : TrustSound crypto tka ↔ tka.state.keys.length ≤ maxKeys := by
  have hs := hv.checkpointable.1
  refine ⟨fun trusted => (validateCheckpointState_eq_ok.mp trusted.checkpoint).2.1,
    fun few => ⟨?_, ?_, validateCheckpointState_eq_ok.mpr ⟨rfl, few, { hs with }⟩⟩⟩
  · intro encoded committedAt error refused
    unfold informAt at refused ⊢
    cases outcome : tka.informed crypto encoded committedAt with
    | ok next => simp [outcome] at refused
    | error error => rfl
  · intro hash aum stored hr
    obtain ⟨parent, before, next, verified⟩ := hv.store.verified stored hr
    exact ⟨parent, before, verified.previous, verified.known, signedBy_of_verified verified.signed⟩

/-- In every authority that grows from a genesis everything but the number of keys of the
active state is sound. The number of keys is bounded as long as no update adds a key to a full
state.
-/
theorem authority_trust_iff (primitives : TkaPrimitives) {bytes : List UInt8} {now : SystemTime}
    {start : TailscaleTkaAuthority} (started : bootstrap primitives bytes now = .ok start)
    (batches : List (List (List UInt8) × SystemTime))
    : (TrustSound primitives (start.informs primitives batches)
        ↔ (start.informs primitives batches).state.keys.length ≤ maxKeys)
      ∧ (RoomForKeys primitives (start.informs primitives batches) →
        TrustSound primitives (start.informs primitives batches)) := by
  obtain ⟨valid, genesis⟩ := bootstrap_valid started
  obtain ⟨valid, -⟩ := informs_valid valid genesis batches
  exact ⟨valid.trustSound_iff, fun room => valid.trustSound_iff.mpr (valid.checkpointable.2 room)⟩

/-- A digest that shows the kind of an update, and signatures that are all accepted. -/
def kindDigest : TkaPrimitives where
  blake2s bytes := ⟨toBigEndian 32 (bytes[2]?.elim 0 (·.toNat)), length_toBigEndian _ _⟩
  verifyStrict _ _ _ := true
  skip := .fail .typeMismatch

def plainKey (number : Nat) : TailscaleTkaKey where
  kind := 1
  votes := 1
  publicKey := toBigEndian 32 number
  metadata := empty

def stateOfKeys (count : Nat) : TailscaleTkaAuthorityState where
  lastAumHash := none
  disablementValues := [replicate 32 0]
  keys := (range count).map plainKey
  stateId1 := 0
  stateId2 := 0

def bySignature : TailscaleAumSignature := ⟨toBigEndian 32 0, replicate 64 0⟩

def genesisOfKeys (count : Nat) : TailscaleAum :=
  { emptyAum with
    kind := kindCheckpoint, state := some (stateOfKeys count), signatures := [bySignature] }

def additionOf (number : Nat) (parent : TailscaleAumHash) : TailscaleAum :=
  { emptyAum with
    kind := kindAddKey, previous := some parent, key := some (plainKey number),
    signatures := [bySignature] }

section Growth

variable {count : Nat}

variable (number : Nat)

theorem validateKey_plainKey : validateKey (plainKey number) = .ok () := by
  simp [validateKey, plainKey, metadataBytes, empty]

theorem keyFits_plainKey : KeyFits (plainKey number) := by
  refine ⟨?_, ?_, ?_⟩
  · simp [plainKey]
  · simp [plainKey, empty]
  · simp [plainKey, empty]

theorem publicKey_plainKey_inj {one two} (oneSmall : one ≤ count) (few : count ≤ maxKeys)
    (twoSmall : two ≤ count) (he : (plainKey one).publicKey = (plainKey two).publicKey)
    : one = two := by
  have hb {number : Nat} (hs : number ≤ count) : number < 256 ^ 32 :=
    lt_of_le_of_lt (hs.trans few) (by decide)
  rw [← ofBigEndian_toBigEndian (hb oneSmall), ← ofBigEndian_toBigEndian (hb twoSmall)]
  exact congrArg ofBigEndian he

theorem validateCheckpointState_stateOfKeys (some : 0 < count) (few : count ≤ maxKeys)
    : validateCheckpointState (stateOfKeys count) = .ok () := by
  refine validateCheckpointState_eq_ok.mpr ⟨rfl, by simpa [stateOfKeys] using few, ?_⟩
  refine ⟨by simp [stateOfKeys], by simp [stateOfKeys, maxDisablementValues],
    by simp [stateOfKeys], ?_, ?_, ?_⟩
  · simp [stateOfKeys, map_eq_nil_iff, range_eq_nil]
    omega
  · intro key hm
    obtain ⟨number, -, rfl⟩ := mem_map.mp hm
    exact validateKey_plainKey number
  · rw [stateOfKeys, List.map_map]
    refine List.Nodup.map_on ?_ nodup_range
    intro one oneSmall two twoSmall he
    exact publicKey_plainKey_inj (le_of_lt (mem_range.mp oneSmall)) few
      (le_of_lt (mem_range.mp twoSmall)) he

theorem decode_genesisOfKeys (some : 0 < count) (few : count ≤ maxKeys)
    : decode kindDigest (genesisOfKeys count).encode = .ok (genesisOfKeys count) := by
  have checkpoint := validateCheckpointState_stateOfKeys some few
  refine decode_encode kindDigest ⟨?_, ?_, ?_, ?_, ?_, ?_⟩ ?_
  · simp [genesisOfKeys, emptyAum]
  · simp [genesisOfKeys, emptyAum]
  · rintro state ⟨⟩
    refine ⟨by simp [stateOfKeys], by simp [stateOfKeys], ?_, ?_⟩
    · rw [stateOfKeys, length_map, length_range]
      exact lt_of_le_of_lt few (by decide)
    · intro key hm
      obtain ⟨number, -, rfl⟩ := mem_map.mp hm
      exact keyFits_plainKey number
  · simp [genesisOfKeys, emptyAum]
  · simp [genesisOfKeys]
  · simp [genesisOfKeys, bySignature]
  · simp only [staticValidate, check_eq_ok, checkField_eq_ok]
    refine ⟨by simp [genesisOfKeys, emptyAum], by rfl, ?_, by rfl⟩
    rintro state ⟨⟩
    exact checkpoint

variable (parent : TailscaleAumHash)

theorem decode_additionOf
    : decode kindDigest (additionOf number parent).encode
      = .ok (additionOf number parent) := by
  refine decode_encode kindDigest ⟨?_, ?_, ?_, ?_, ?_, ?_⟩ ?_
  · rintro key ⟨⟩
    exact keyFits_plainKey number
  · simp [additionOf, emptyAum]
  · simp [additionOf, emptyAum]
  · simp [additionOf, emptyAum]
  · simp [additionOf]
  · simp [additionOf, bySignature]
  · simp only [staticValidate, check_eq_ok, checkField_eq_ok]
    refine ⟨?_, by rfl, by simp [additionOf, emptyAum], by rfl⟩
    rintro key ⟨⟩
    exact validateKey_plainKey number

def genesisHash : TailscaleAumHash := ⟨toBigEndian 32 5, length_toBigEndian _ _⟩

def additionHash : TailscaleAumHash := ⟨toBigEndian 32 1, length_toBigEndian _ _⟩

variable {aum : TailscaleAum}

theorem getElem?_encode_two (hs : aum.kind.toNat < 24) : aum.encode[2]? = some aum.kind := by
  have fields := lt_of_le_of_lt (encode_fields_le aum) (by decide : 8 < 24)
  simp only [encode, mapHead, mapEntry, unsigned, head_of_lt fields,
    head_of_lt (by decide : 1 < 24), head_of_lt hs, append_assoc, cons_append,
    nil_append]
  simp

theorem hash_kindDigest (hs : aum.kind.toNat < 24)
    : aum.hash kindDigest = ⟨toBigEndian 32 aum.kind.toNat, length_toBigEndian _ _⟩ := by
  simp [TailscaleAum.hash, kindDigest, getElem?_encode_two hs]

theorem hash_genesisOfKeys (count : Nat) : (genesisOfKeys count).hash kindDigest = genesisHash :=
  hash_kindDigest (by decide : kindCheckpoint.toNat < 24)

theorem hash_additionOf : (additionOf number parent).hash kindDigest = additionHash :=
  hash_kindDigest (by decide : kindAddKey.toNat < 24)

/-- The first key signs every update. -/
theorem verifyAumSignatures_bySignature (some : 0 < count)
    (signatures : aum.signatures = [bySignature]) (kind : aum.kind ≠ kindRemoveKey)
    (keys : state.keys = (range count).map plainKey)
    : verifyAumSignatures kindDigest aum state = .ok () := by
  refine verifyAumSignatures_eq_ok.mpr ⟨by simp [signatures], ?_, fun removes => kind removes.1⟩
  refine verifySignatures_eq_ok.mpr fun _ hm => ?_
  rw [signatures, mem_singleton] at hm
  subst hm
  have hf : (state.findKey bySignature.keyId).isSome := by
    refine find?_isSome.mpr ⟨plainKey 0, ?_, by simp [plainKey, bySignature]⟩
    rw [keys]
    exact mem_map.mpr ⟨0, mem_range.mpr some, rfl⟩
  obtain ⟨key, hf⟩ := isSome_iff_exists.mp hf
  exact ⟨key, hf, rfl⟩

/-- The state with one more key. -/
def grownState (count : Nat) : TailscaleTkaAuthorityState :=
  { stateOfKeys count with
    keys := (stateOfKeys count).keys ++ [plainKey count]
    lastAumHash := some additionHash }

theorem applyAum_additionOf (few : count ≤ maxKeys)
    : applyAum kindDigest { stateOfKeys count with lastAumHash := some genesisHash }
        (additionOf count genesisHash)
      = .ok (grownState count) := by
  refine applyAum_eq_ok.mpr ⟨rfl, { grownState count with lastAumHash := some genesisHash }, ?_,
    by rw [hash_additionOf]; rfl⟩
  have hn : (stateOfKeys count).keys.any (·.publicKey = (plainKey count).publicKey) = false := by
    refine any_eq_false.mpr fun key hm he => ?_
    obtain ⟨number, hs, rfl⟩ := mem_map.mp hm
    have hi := mem_range.mp hs
    have heq := publicKey_plainKey_inj (le_of_lt hi) few (le_refl count)
      (by simpa using he)
    omega
  simp only [applyKind, additionOf, addKey, hn]
  rfl

def twoUpdates (count : Nat) : AumStore :=
  (empty.insert genesisHash (genesisOfKeys count)).insert additionHash
    (additionOf count genesisHash)

theorem stored_twoUpdates {hash} (stored : (twoUpdates count).get? hash = some aum)
    : hash = additionHash ∧ aum = additionOf count genesisHash ∨ aum = genesisOfKeys count := by
  simp only [twoUpdates, get?_insert, get?_empty] at stored
  split at stored
  next he =>
    cases stored
    exact .inl ⟨he, rfl⟩
  split at stored
  · cases stored
    exact .inr rfl
  · cases stored

theorem active_twoUpdates (few : count ≤ maxKeys)
    : Active kindDigest (twoUpdates count) genesisHash
      { stateOfKeys count with lastAumHash := some genesisHash } [additionHash] additionHash
      (grownState count) := by
  refine .step ?_ (applyAum_additionOf few) (.leaf ?_)
  · cases hp : preferredChild (twoUpdates count)
        { stateOfKeys count with lastAumHash := some genesisHash } genesisHash with
    | none =>
      have hc := preferredChild_eq_none_iff.mp hp additionHash (additionOf count genesisHash)
      simp [twoUpdates, additionOf] at hc
    | some _ =>
      obtain ⟨stored, previous⟩ := preferredChild_stored hp
      obtain ⟨he, value⟩ | genesis := stored_twoUpdates stored
      · rw [← he, ← value]
      · rw [genesis] at previous
        cases previous
  · refine preferredChild_eq_none_iff.mpr fun _ _ stored previous => ?_
    obtain ⟨-, rfl⟩ | genesis := stored_twoUpdates stored
    · exact absurd (some.inj previous) (by decide)
    · rw [genesis] at previous
      cases previous

def genesisAuthority (count : Nat) : TailscaleTkaAuthority :=
  .single genesisHash (genesisOfKeys count) (stateOfKeys count) .unixEpoch

theorem bootstrap_genesisOfKeys (some : 0 < count) (few : count ≤ maxKeys)
    : bootstrap kindDigest (genesisOfKeys count).encode .unixEpoch
      = .ok (genesisAuthority count) := by
  have kind : kindCheckpoint ≠ kindRemoveKey := by decide
  refine bootstrap_eq_ok.mpr ⟨genesisOfKeys count, stateOfKeys count,
    decode_genesisOfKeys some few, rfl, rfl, rfl,
    verifyAumSignatures_bySignature some rfl kind rfl, ?_⟩
  rw [hash_genesisOfKeys]
  rfl

theorem stateAtWithin_genesisOfKeys {aums}
    (stored : aums.get? genesisHash = some (genesisOfKeys count))
    : stateAtWithin kindDigest aums maxSyncIterations genesisHash
      = .ok { stateOfKeys count with lastAumHash := some genesisHash } := by
  rw [← hash_genesisOfKeys count] at stored ⊢
  exact stateAtWithin_checkpoint stored rfl rfl 1999

theorem verified_additionOf (some : 0 < count) (few : count ≤ maxKeys)
    : Verified kindDigest (genesisAuthority count).aums (additionOf count genesisHash) := by
  have stored : (genesisAuthority count).aums.get? genesisHash
      = .some (genesisOfKeys count) := by
    simp [genesisAuthority, TailscaleTkaAuthority.single]
  have kind : kindAddKey ≠ kindRemoveKey := by decide
  exact ⟨genesisHash, _, grownState count, rfl, stateAtWithin_genesisOfKeys stored,
    verifyAumSignatures_bySignature some rfl kind rfl, applyAum_additionOf few⟩

/-- A full state takes another key like any other. -/
theorem informs_additionOf (some : 0 < count) (few : count ≤ maxKeys)
    : (genesisAuthority count).informs kindDigest
        [([(additionOf count genesisHash).encode], .unixEpoch)]
      = { (genesisAuthority count).extend additionHash (additionOf count genesisHash)
        .unixEpoch with head := additionHash, state := grownState count } := by
  have hn : (genesisAuthority count).aums.get? additionHash = none := by
    rw [genesisAuthority, TailscaleTkaAuthority.single, get?_insert, if_neg (by decide)]
    rfl
  have hv := verified_additionOf some few
  have hb : absorbAll kindDigest .unixEpoch (genesisAuthority count)
        [(additionOf count genesisHash).encode]
      = .ok ((genesisAuthority count).extend additionHash (additionOf count genesisHash)
        .unixEpoch) := by
    refine bind_eq_ok.mpr ⟨_, absorb_eq_ok.mpr ⟨additionOf count genesisHash,
      decode_additionOf count genesisHash, .inr ?_⟩, rfl⟩
    rw [hash_additionOf]
    exact ⟨hn, hv, rfl⟩
  have hr : stateAtWithin kindDigest (twoUpdates count) maxSyncIterations genesisHash
      = .ok { stateOfKeys count with lastAumHash := .some genesisHash } := by
    have stored : (twoUpdates count).get? genesisHash = .some (genesisOfKeys count) := by
      rw [twoUpdates, get?_insert, if_neg (by decide), get?_insert, if_pos rfl]
    exact stateAtWithin_genesisOfKeys stored
  have hc : ((genesisAuthority count).extend additionHash (additionOf count genesisHash)
        .unixEpoch).computeActiveHead kindDigest = .ok (additionHash, grownState count) :=
    computeActiveHead_eq_ok.mpr ⟨_, hr, _, active_twoUpdates few, by decide⟩
  have ha := informed_eq_ok.mpr ⟨_, hb, _, _, hc, rfl⟩
  rw [TailscaleTkaAuthority.informs, foldl_cons, foldl_nil, informAt, ha]

end Growth

/-- A genesis with as many keys as a checkpoint may hold, and one more key. -/
theorem authority_takes_key_beyond_limit
    : bootstrap kindDigest (genesisOfKeys 512).encode .unixEpoch = .ok (genesisAuthority 512)
      ∧ ¬TrustSound kindDigest ((genesisAuthority 512).informs kindDigest
        [([(additionOf 512 genesisHash).encode], .unixEpoch)]) := by
  have started := @bootstrap_genesisOfKeys 512 (by decide) (by decide)
  refine ⟨started, fun sound => ?_⟩
  obtain ⟨valid, genesis⟩ := bootstrap_valid started
  have few := (informs_valid valid genesis _).1.trustSound_iff.mp sound
  rw [informs_additionOf (by decide) (by decide)] at few
  simp [grownState, stateOfKeys, maxKeys] at few

theorem authority_trust_oneKey
    : bootstrap kindDigest (genesisOfKeys 1).encode .unixEpoch = .ok (genesisAuthority 1)
      ∧ TrustSound kindDigest ((genesisAuthority 1).informs kindDigest
        [([(additionOf 1 genesisHash).encode], .unixEpoch)]) := by
  have started := @bootstrap_genesisOfKeys 1 (by decide) (by decide)
  refine ⟨started, (authority_trust_iff kindDigest started _).1.mpr ?_⟩
  rw [informs_additionOf (by decide) (by decide)]
  simp [grownState, stateOfKeys, maxKeys]

end Zay.Tailscale
