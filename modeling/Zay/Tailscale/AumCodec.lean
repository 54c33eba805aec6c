import Zay.Tailscale.Aum

/-! The canonical CBOR form of authority update messages: a message that passes the static
checks is decoded from its encoding, and what the decoder reserves on the way is what the
arrays of signatures announce.
-/

namespace Zay.Tailscale

open Lib Lib.Cbor Lib.Reader TailscaleAum List

variable {bytes : List UInt8}

theorem Reads.decoding {α : Type} {reader} {value : α} (reads : Reads reader bytes value)
    : Reads (decoding reader) bytes value :=
  reads.mapError cborDecodeError

variable {count : Nat}

theorem reads_definiteMap (hb : count < 256 ^ 8)
    : Reads definiteMap (mapHead count) count :=
  (Reads.decoding (reads_readMap hb)).bind_last (Reads.pure count)

theorem reads_definiteArray (hb : count < 256 ^ 8)
    : Reads definiteArray (arrayHead count) count :=
  (Reads.decoding (reads_readArray hb)).bind_last (Reads.pure count)

theorem reads_decodeOptionalHash (hash)
    : Reads decodeOptionalHash (encodeOptionalHash hash) hash := by
  cases hash with
  | none =>
    exact (Reads.decoding (reads_readNullable_null readBytes)).bind_last (Reads.pure none)
  | some hash =>
    have hb : hash.bytes.length < 256 ^ 8 := by
      rw [hash.length_eq]
      decide
    have he : TailscaleAumHash.ofBytes? hash.bytes = some hash := dif_pos hash.length_eq
    refine (Reads.decoding (reads_readNullable_bytes hb)).bind_last ?_
    simp only [he]
    exact Reads.pure (some hash)

/-- Every length fits into the head of its item. -/
structure MetadataFits (metadata : KeyMetadata) : Prop where
  count : metadata.entries.length < 256 ^ 8
  texts : ∀ entry ∈ metadata.entries,
    (utf8 entry.1).length < 256 ^ 8 ∧ (utf8 entry.2).length < 256 ^ 8

variable {metadata : KeyMetadata}

theorem reads_decodeMetadata_entries {entries : List (String × String)} (hf : ∀ entry ∈ entries,
      (utf8 entry.1).length < 256 ^ 8 ∧ (utf8 entry.2).length < 256 ^ 8) (metadata)
    : Reads (loop decodeMetadataEntry entries.length metadata)
      (entries.flatMap fun entry => textString entry.1 ++ textString entry.2)
      (entries.foldl (fun metadata entry => metadata.insert entry.1 entry.2) metadata) := by
  induction entries generalizing metadata with
  | nil => exact Reads.pure metadata
  | cons entry _ ih =>
    obtain ⟨name, value⟩ := hf entry mem_cons_self
    exact ((Reads.decoding (reads_readText name)).bind
      ((Reads.decoding (reads_readText value)).map _)).loop_succ
      (ih (fun other hm => hf other (mem_cons_of_mem _ hm)) _)

theorem reads_decodeMetadata (hf : MetadataFits metadata)
    : Reads decodeMetadata (encodeMetadata metadata) metadata := by
  have perm := mergeSort_perm metadata.entries precedes
  have entries := reads_decodeMetadata_entries
    (fun entry hm => hf.texts entry (perm.mem_iff.mp hm)) OrderedMap.empty
  rw [OrderedMap.foldl_insert_of_perm perm] at entries
  exact (reads_definiteMap (perm.length_eq ▸ hf.count)).bind entries

structure KeyFits (key : TailscaleTkaKey) : Prop where
  publicKey : key.publicKey.length < 256 ^ 8
  metadata : MetadataFits key.metadata

structure StateFits (state : TailscaleTkaAuthorityState) : Prop where
  valueCount : state.disablementValues.length < 256 ^ 8
  values : ∀ value ∈ state.disablementValues, value.length < 256 ^ 8
  keyCount : state.keys.length < 256 ^ 8
  keys : ∀ key ∈ state.keys, KeyFits key

structure AumFits (aum : TailscaleAum) : Prop where
  key : ∀ key ∈ aum.key, KeyFits key
  keyId : ∀ keyId ∈ aum.keyId, keyId.length < 256 ^ 8
  state : ∀ state ∈ aum.state, StateFits state
  metadata : ∀ metadata ∈ aum.metadata, MetadataFits metadata
  signatureCount : aum.signatures.length < 256 ^ 8
  signatures : ∀ signature ∈ aum.signatures,
    signature.keyId.length < 256 ^ 8 ∧ signature.signature.length < 256 ^ 8

variable {skip : Reader CborError Unit}

/-- The key of an entry. -/
theorem reads_entryKey (key : UInt8) : Reads (decoding readU8) (unsigned key.toNat) key :=
  Reads.decoding (reads_readU8 key)

theorem eq_empty_of_isEmpty (empty : metadata.entries.isEmpty = true)
    : metadata = OrderedMap.empty := by
  obtain ⟨_, _⟩ := metadata
  obtain rfl := isEmpty_iff.mp empty
  rfl

theorem reads_decodeKey {key} (hf : KeyFits key)
    : Reads (decodeKey skip) (encodeKey key) key := by
  obtain ⟨kind, votes, _, metadata⟩ := key
  unfold encodeKey
  simp only [append_assoc]
  refine (reads_definiteMap ?_).bind ?_
  · cases metadata.entries.isEmpty <;> decide
  rw [Nat.add_comm 3]
  refine Reads.loop_succ ((reads_entryKey 1).bind ((Reads.decoding (reads_readU8 kind)).map _)) ?_
  refine Reads.loop_succ ((reads_entryKey 2).bind ((Reads.decoding (reads_readU64 votes)).map _)) ?_
  refine Reads.loop_succ
    ((reads_entryKey 3).bind ((Reads.decoding (reads_readBytes hf.publicKey)).map _)) ?_
  refine Reads.loop_end ?_ ?_
  · intro unlabelled
    obtain rfl : metadata = OrderedMap.empty := eq_empty_of_isEmpty (by simpa using unlabelled)
    exact ⟨rfl, rfl⟩
  · intro labelled
    rw [labelled]
    exact (reads_entryKey 12).bind ((reads_decodeMetadata hf.metadata).map _)

variable {α : Type} {key : Nat} {back : List UInt8} {aum : TailscaleAum} {body : α → AumReader α}

/-- A number that is left out when it is zero. -/
theorem reads_loop_nonzero {state next final : α} (number : UInt64)
    (hno : number = 0 → next = state)
    (given : Reads (body state) (mapEntry key (unsigned number.toNat)) next)
    (others : Reads (loop body count next) back final)
    : Reads (loop body (count + (decide (number ≠ 0)).toNat) state)
      ((if decide (number ≠ 0) then mapEntry key (unsigned number.toNat) else []) ++ back)
      final := by
  refine Reads.loop_optional ?_ ?_ others
  · intro zero
    rw [zero]
    exact ⟨rfl, hno (not_not.mp (of_decide_eq_false zero))⟩
  · intro hz
    rw [hz]
    exact given

theorem reads_decodeState {state} (hf : StateFits state)
    : Reads (decodeState skip) (encodeState state) state := by
  obtain ⟨lastAumHash, disablementValues, keys, stateId1, stateId2⟩ := state
  have count : 3 + (decide (stateId1 ≠ 0)).toNat + (decide (stateId2 ≠ 0)).toNat
      = 0 + (decide (stateId2 ≠ 0)).toNat + (decide (stateId1 ≠ 0)).toNat + 1 + 1 + 1 := by
    omega
  unfold encodeState
  simp only [append_assoc]
  refine (reads_definiteMap ?_).bind ?_
  · cases decide (stateId1 ≠ 0) <;> cases decide (stateId2 ≠ 0) <;> decide
  rw [count]
  refine Reads.loop_succ ((reads_entryKey 1).bind ((reads_decodeOptionalHash lastAumHash).map _)) ?_
  refine Reads.loop_succ
    ((reads_entryKey 2).bind (((reads_definiteArray hf.valueCount).bind (reads_times
      fun value hm => Reads.decoding (reads_readBytes (hf.values value hm)))).map _)) ?_
  refine Reads.loop_succ ((reads_entryKey 3).bind ((reads_definiteArray hf.keyCount).bind
    ((reads_times fun key hm => reads_decodeKey (hf.keys key hm)).map _))) ?_
  refine reads_loop_nonzero stateId1 (by rintro rfl; rfl)
    ((reads_entryKey 4).bind ((Reads.decoding (reads_readU64 stateId1)).map _)) ?_
  rw [← append_nil (if _ = true then _ else _)]
  exact reads_loop_nonzero stateId2 (by rintro rfl; rfl)
    ((reads_entryKey 5).bind ((Reads.decoding (reads_readU64 stateId2)).map _)) (Reads.pure _)

theorem reads_decodeSignature {signature}
    (hf : signature.keyId.length < 256 ^ 8 ∧ signature.signature.length < 256 ^ 8)
    : Reads (decodeSignature skip) (encodeSignature signature) signature := by
  obtain ⟨_, body⟩ := signature
  unfold encodeSignature
  rw [append_assoc, ← append_nil (mapEntry 2 (byteString body))]
  refine (reads_definiteMap (by decide)).bind ?_
  refine Reads.loop_succ
    ((reads_entryKey 1).bind ((Reads.decoding (reads_readBytes hf.1)).map _)) ?_
  exact Reads.loop_succ
    ((reads_entryKey 2).bind ((Reads.decoding (reads_readBytes hf.2)).map _)) (Reads.pure _)

/-- The entry is read in front of any input, with its reservation. -/
structure EntryReads (skip : Reader CborError Unit) (aum : TailscaleAum) (bytes : List UInt8)
    (next : TailscaleAum) (capacity : Option Nat) : Prop where
  reads : Reads (decodeAumEntry skip aum) bytes next
  reserves (rest : List UInt8) : entryReservation (bytes ++ rest) = capacity

/-- So are several entries in a row. -/
structure EntriesRead (skip : Reader CborError Unit) (count : Nat) (aum : TailscaleAum)
    (bytes : List UInt8) (final : TailscaleAum) (capacities : List Nat) : Prop where
  reads : Reads (loop (decodeAumEntry skip) count aum) bytes final
  reserves (rest : List UInt8) : entryReservations skip count aum (bytes ++ rest) = capacities

variable {next : TailscaleAum}

theorem entryReads (key : UInt8) {value} (other : key ≠ 23)
    (reads : Reads (decodeAumEntry skip aum) (mapEntry key.toNat value) next)
    : EntryReads skip aum (mapEntry key.toNat value) next none := by
  refine ⟨reads, fun _ => ?_⟩
  have announced : Reads announcedSignatures (unsigned key.toNat) none := by
    refine (reads_entryKey key).bind_last ?_
    rw [if_neg other]
    exact Reads.pure none
  rw [entryReservation, mapEntry, append_assoc, announced]

variable {final : TailscaleAum} {capacities : List Nat}

theorem EntryReads.cons (first : EntryReads skip aum bytes next none)
    (others : EntriesRead skip count next back final capacities)
    : EntriesRead skip (count + 1) aum (bytes ++ back) final capacities := by
  refine ⟨first.reads.loop_succ others.reads, fun rest => ?_⟩
  rw [append_assoc, entryReservations, first.reserves, first.reads]
  exact others.reserves rest

/-- A field that may be missing. -/
theorem EntriesRead.field (build : Option α → TailscaleAum) {field encode} (given : ∀ value ∈ field,
      EntryReads skip (build none) (mapEntry key (encode value)) (build (some value)) none)
    (others : EntriesRead skip count (build field) back final capacities)
    : EntriesRead skip (count + field.isSome.toNat) (build none)
      (optionalMapEntry key encode field ++ back) final capacities := by
  cases field with
  | none => exact others
  | some value => exact (given value rfl).cons others

theorem encode_fields_le (aum : TailscaleAum)
    : 2 + aum.key.isSome.toNat + aum.keyId.isSome.toNat + aum.state.isSome.toNat
      + aum.votes.isSome.toNat + aum.metadata.isSome.toNat + (!aum.signatures.isEmpty).toNat
      ≤ 8 := by
  have few (present : Bool) : present.toNat ≤ 1 := by cases present <;> decide
  have := few aum.key.isSome
  have := few aum.keyId.isSome
  have := few aum.state.isSome
  have := few aum.votes.isSome
  have := few aum.metadata.isSome
  have := few !aum.signatures.isEmpty
  omega

/-- The capacities that an encoding makes the decoder reserve. -/
def signatureCapacities (signatures : List TailscaleAumSignature) : List Nat :=
  if signatures.isEmpty then [] else [signatures.length]

/-- The array of signatures comes last and is left out when there are none. -/
theorem entriesRead_signatures {signatures} (hno : signatures = [] → final = aum)
    (count : signatures.length < 256 ^ 8) (read : Reads (decodeAumEntry skip aum)
      (mapEntry 23 (arrayHead signatures.length ++ signatures.flatMap encodeSignature)) final)
    : EntriesRead skip (!signatures.isEmpty).toNat aum
      (if !signatures.isEmpty then
        mapEntry 23 (arrayHead signatures.length ++ signatures.flatMap encodeSignature)
      else [])
      final (signatureCapacities signatures) := by
  cases signatures with
  | nil =>
    obtain rfl := hno rfl
    exact ⟨Reads.pure _, fun _ => rfl⟩
  | cons signature others =>
    have announced : Reads announcedSignatures
        (unsigned 23 ++ arrayHead (signature :: others).length)
        (some (signature :: others).length) :=
      (reads_entryKey 23).bind ((reads_definiteArray count).map some)
    have entries : Reads (loop (decodeAumEntry skip) 1 aum) (_ ++ []) final :=
      read.loop_succ (Reads.pure final)
    rw [append_nil] at entries
    refine ⟨entries, fun rest => ?_⟩
    have hr : entryReservation (mapEntry 23 (arrayHead (signature :: others).length
        ++ (signature :: others).flatMap encodeSignature) ++ rest)
        = some (signature :: others).length := by
      rw [entryReservation, mapEntry, ← append_assoc, append_assoc, announced]
    change entryReservations skip 1 aum (mapEntry 23 _ ++ rest) = _
    rw [entryReservations, hr, read]
    exact congrArg ([_] ++ ·) (ite_self [])

variable (skip) in
/-- An encoding is a map of as many entries as its head says. -/
theorem exists_entriesRead (hf : AumFits aum)
    : ∃ count fields, aum.encode = mapHead count ++ fields ∧ count < 256 ^ 8
      ∧ EntriesRead skip count emptyAum fields aum (signatureCapacities aum.signatures) := by
  have few := encode_fields_le aum
  obtain ⟨kind, previous, key, keyId, state, votes, metadata, signatures⟩ := aum
  have count (a b c d e f : Nat) : 2 + a + b + c + d + e + f = f + e + d + c + b + a + 1 + 1 := by
    omega
  unfold encode
  simp only [append_assoc]
  refine ⟨_, _, rfl, Nat.lt_of_le_of_lt few (by decide), ?_⟩
  rw [count]
  refine (entryReads 1 (by decide)
    ((reads_entryKey 1).bind ((Reads.decoding (reads_readU8 kind)).map _))).cons ?_
  refine (entryReads 2 (by decide)
    ((reads_entryKey 2).bind ((reads_decodeOptionalHash previous).map _))).cons ?_
  refine EntriesRead.field (mk kind previous · none none none none [])
    (fun given hp => entryReads 3 (by decide)
      ((reads_entryKey 3).bind ((reads_decodeKey (hf.key given hp)).map _))) ?_
  refine EntriesRead.field (mk kind previous key · none none none [])
    (fun given hp => entryReads 4 (by decide) ((reads_entryKey 4).bind
        ((Reads.decoding (reads_readBytes (hf.keyId given hp))).map _))) ?_
  refine EntriesRead.field (mk kind previous key keyId · none none [])
    (fun given hp => entryReads 5 (by decide)
      ((reads_entryKey 5).bind ((reads_decodeState (hf.state given hp)).map _))) ?_
  refine EntriesRead.field (mk kind previous key keyId state · none [])
    (fun given _ => entryReads 6 (by decide)
      ((reads_entryKey 6).bind ((Reads.decoding (reads_readU64 given)).map _))) ?_
  refine EntriesRead.field (mk kind previous key keyId state votes · [])
    (fun given hp => entryReads 7 (by decide)
      ((reads_entryKey 7).bind ((reads_decodeMetadata (hf.metadata given hp)).map _))) ?_
  exact entriesRead_signatures (by rintro rfl; rfl) hf.signatureCount ((reads_entryKey 23).bind
      (((reads_definiteArray hf.signatureCount).bind (reads_times fun signature hm =>
        reads_decodeSignature (hf.signatures signature hm))).map _))

theorem reads_decodeAum (hf : AumFits aum) : Reads (decodeAum skip) aum.encode aum := by
  obtain ⟨_, _, form, hs, entries⟩ := exists_entriesRead skip hf
  rw [form]
  exact (reads_definiteMap hs).bind entries.reads

theorem reservations_encode (hf : AumFits aum)
    : reservations skip aum.encode = signatureCapacities aum.signatures := by
  obtain ⟨_, _, form, hs, entries⟩ := exists_entriesRead skip hf
  have hr := entries.reserves []
  rw [append_nil] at hr
  rw [reservations, form, reads_definiteMap hs]
  exact hr

theorem TailscaleAum.decode_encode (crypto) (hf : AumFits aum) (hv : aum.staticValidate = .ok ())
    : decode crypto aum.encode = .ok aum := by
  have read : decodeAum crypto.skip (aum.encode ++ []) = .ok (aum, []) :=
    reads_decodeAum hf []
  rw [append_nil] at read
  refine bind_eq_ok.mpr ⟨(aum, []), read, ?_⟩
  refine guard_eq_ok.mpr ⟨by simp, bind_eq_ok.mpr ⟨(), hv, ?_⟩⟩
  exact guard_eq_ok.mpr ⟨by simp, rfl⟩

/-- Where the signatures come after entries that are read, the input announces this many. -/
def Announces (skip : Reader CborError Unit) (bytes : List UInt8) (announced : Nat) : Prop :=
  ∃ count entries, definiteMap bytes = .ok (count, entries)
    ∧ ∃ passed < count, ∃ aum rest,
      loop (decodeAumEntry skip) passed emptyAum entries = .ok (aum, rest)
      ∧ entryReservation rest = some announced

theorem loop_succ_eq_ok {state final : α} {input rest}
    : loop body (count + 1) state input = .ok (final, rest)
      ↔ ∃ next behind, body state input = .ok (next, behind)
        ∧ loop body count next behind = .ok (final, rest) := by
  rw [loop, bind_apply]
  cases body state input with
  | error error => simp
  | ok read =>
    obtain ⟨next, behind⟩ := read
    simp

/-- What is bearable of every announced count is bearable of every reservation, and the other
way round: a reservation that panics hides the later ones, but is itself not bearable. -/
theorem forall_entryReservations_iff {bearable : Nat → Prop}
    (fits : ∀ capacity, bearable capacity → capacityFits capacity = true) (count aum input)
    : (∀ capacity ∈ entryReservations skip count aum input, bearable capacity)
      ↔ ∀ passed < count, ∀ next rest,
        loop (decodeAumEntry skip) passed aum input = .ok (next, rest)
        → ∀ announced, entryReservation rest = some announced → bearable announced := by
  induction count generalizing aum input with
  | zero => simp [entryReservations]
  | succ count ih =>
    constructor
    · intro hh passed hs next rest read announced hf
      cases passed with
      | zero =>
        cases read
        exact hh announced (mem_append_left _ (Option.mem_toList.mpr hf))
      | succ passed =>
        obtain ⟨middle, behind, entry, others⟩ := loop_succ_eq_ok.mp read
        have fit : (entryReservation input).all capacityFits = true := by
          rw [Option.all_eq_true]
          intro capacity reserved
          exact fits capacity (hh capacity (mem_append_left _ (Option.mem_toList.mpr reserved)))
        refine (ih middle behind).mp (fun capacity hm => hh capacity ?_) passed (by omega)
          next rest others announced hf
        refine mem_append_right _ ?_
        rw [if_pos fit, entry]
        exact hm
    · intro hh capacity hm
      rcases mem_append.mp hm with first | hr
      · exact hh 0 (by omega) aum input rfl capacity (Option.mem_toList.mp first)
      split at hr
      · split at hr
        next next behind entry =>
          refine (ih next behind).mpr (fun passed hs final rest read => ?_) capacity hr
          exact hh (passed + 1) (by omega) final rest
            (loop_succ_eq_ok.mpr ⟨next, behind, entry, read⟩)
        · exact absurd hr not_mem_nil
      · exact absurd hr not_mem_nil

theorem forall_reservations_iff {bearable : Nat → Prop}
    (fits : ∀ capacity, bearable capacity → capacityFits capacity = true) (bytes)
    : (∀ capacity ∈ reservations skip bytes, bearable capacity)
      ↔ ∀ announced, Announces skip bytes announced → bearable announced := by
  unfold reservations Announces
  cases definiteMap bytes with
  | error error => simp
  | ok head =>
    obtain ⟨count, entries⟩ := head
    rw [forall_entryReservations_iff fits]
    constructor
    · rintro hh announced ⟨_, _, ⟨⟩, passed, hs, aum, rest, read, hf⟩
      exact hh passed hs aum rest read announced hf
    · intro hh passed hs aum rest read announced hf
      exact hh announced ⟨count, entries, rfl, passed, hs, aum, rest, read, hf⟩

theorem TailscaleAum.decodeCall_eq_some {crypto result}
    : decodeCall crypto bytes = some result
      ↔ (∀ capacity ∈ reservations crypto.skip bytes, capacityFits capacity = true)
        ∧ decode crypto bytes = result := by
  rw [decodeCall, Option.ite_none_right_eq_some, all_eq_true, Option.some_inj]

/-- **Canonical form of update messages.** Decoding returns, with no reservation beyond the
length of the input, exactly for inputs whose arrays of signatures do not announce more; what is
encoded is read back, and what is accepted is the encoding of what it is read as. -/
theorem aum_codec_canonical (primitives : TkaPrimitives)
    : (∀ bytes, ((decodeCall primitives bytes).isSome
          ∧ ∀ capacity ∈ reservations primitives.skip bytes, capacity ≤ bytes.length)
        ↔ ∀ announced, Announces primitives.skip bytes announced →
          capacityFits announced ∧ announced ≤ bytes.length)
      ∧ (∀ aum : TailscaleAum, AumFits aum → capacityFits aum.signatures.length →
        aum.staticValidate = .ok () →
        decodeCall primitives aum.encode = some (.ok aum))
      ∧ (∀ bytes aum, decodeCall primitives bytes = some (.ok aum) →
        aum.encode = bytes)
      ∧ ∀ left right aum, decodeCall primitives left = some (.ok aum) →
        decodeCall primitives right = some (.ok aum) → left = right := by
  have canonical {bytes : List UInt8} {aum : TailscaleAum}
      (decoded : decodeCall primitives bytes = some (.ok aum))
      : aum.encode = bytes :=
    (decode_eq_ok (decodeCall_eq_some.mp decoded).2).1
  refine ⟨fun bytes => ?_, ?_, fun _ _ => canonical, ?_⟩
  · rw [← forall_reservations_iff fun _ => And.left]
    simp [Option.isSome_iff_exists, decodeCall_eq_some, and_true, forall_and]
  · intro aum fits bounded valid
    refine decodeCall_eq_some.mpr ⟨?_, decode_encode primitives fits valid⟩
    rw [reservations_encode fits, signatureCapacities]
    split
    · simp
    · simpa using bounded
  · intro left right aum leftDecoded rightDecoded
    exact (canonical leftDecoded).symm.trans (canonical rightDecoded)

/-- A map with one array of signatures that announces `2 ^ 64 - 1` of them. -/
def announcesTooMany : List UInt8 := [0xa1, 0x17, 0x9b, 255, 255, 255, 255, 255, 255, 255, 255]

/-- A digest that shows the length, and signatures that are all accepted. -/
def lengthDigest : TkaPrimitives where
  blake2s bytes := ⟨toBigEndian 32 bytes.length, length_toBigEndian _ _⟩
  verifyStrict _ _ _ := true
  skip := .fail .typeMismatch

/-- A key is removed by a message with one signature. -/
def signedRemoval : TailscaleAum where
  kind := kindRemoveKey
  previous := none
  key := none
  keyId := some [1]
  state := none
  votes := none
  metadata := none
  signatures := [{ keyId := replicate 32 2, signature := replicate 64 3 }]

theorem aum_codec_canonical_removal
    : decodeCall lengthDigest signedRemoval.encode = some (.ok signedRemoval) :=
  (aum_codec_canonical lengthDigest).2.1 signedRemoval
    ⟨nofun, by simp [signedRemoval], nofun, nofun, by decide, by simp [signedRemoval]⟩ (by decide)
    (by decide +kernel)

/-- Eleven bytes make the decoder panic. -/
theorem aum_decode_panics
    : decodeCall lengthDigest announcesTooMany = none
      ∧ reservations lengthDigest.skip announcesTooMany = [2 ^ 64 - 1] := by
  have reserved : reservations lengthDigest.skip announcesTooMany = [2 ^ 64 - 1] := rfl
  refine ⟨?_, reserved⟩
  rfl

end Zay.Tailscale
