import Mathlib.Data.String.Basic
import Zay.Lib.Cbor
import Zay.Lib.Checks
import Zay.Lib.OrderedMap

/-! Authority update messages (AUMs) of a tailnet lock (`protocol/tailscale_tka_authority.rs`):
their fields, the static checks on them and their canonical CBOR form. The BLAKE2s digest, the
strict Ed25519 verification and the decoder library's `skip` are parameters.
-/

namespace Zay.Tailscale

open Lib Lib.Cbor Reader

def maxDisablementValues : Nat := 32

def maxKeys : Nat := 512

def maxMetaBytes : Nat := 512

/-- The causes of the source's `Cbor` error. -/
inductive AumCborCause where
  | decoder (error : CborError)
  | trailingBytes
  | indefiniteMap
  | indefiniteArray
  deriving Repr, DecidableEq

inductive TailscaleTkaAuthorityError where
  | invalidHash
  | cbor (cause : AumCborCause)
  | nonCanonicalCbor
  | invalidAum (message : String)
  | invalidSignature
  | unknownParent
  | noIntersection
  | iterationLimit
  | invalidCompactionOptions
  deriving Repr, DecidableEq

def invalid {α : Type} (message : String) : Except TailscaleTkaAuthorityError α :=
  .error (.invalidAum message)

/-- A digest of 32 bytes. -/
structure TailscaleAumHash where
  bytes : List UInt8
  length_eq : bytes.length = 32

namespace TailscaleAumHash

theorem ofBigEndian_injective
    : Function.Injective fun hash : TailscaleAumHash => ofBigEndian hash.bytes := by
  rintro ⟨left, leftLength⟩ ⟨right, rightLength⟩ he
  have bytes : left = right := by
    rw [← toBigEndian_ofBigEndian left, ← toBigEndian_ofBigEndian right, leftLength, rightLength]
    exact congrArg (toBigEndian 32) he
  cases bytes
  rfl

/-- The order of the bytes, which for one length is the order of the numbers they write. -/
instance instLinearOrder : LinearOrder TailscaleAumHash :=
  LinearOrder.lift' (fun hash => ofBigEndian hash.bytes) ofBigEndian_injective

def ofBytes? (bytes : List UInt8) : Option TailscaleAumHash :=
  if h : bytes.length = 32 then some ⟨bytes, h⟩ else none

end TailscaleAumHash

/-- A `BTreeMap<String, String>`. -/
abbrev KeyMetadata := OrderedMap String String

structure TailscaleTkaKey where
  kind : UInt8
  votes : UInt64
  publicKey : List UInt8
  metadata : KeyMetadata
  deriving DecidableEq

structure TailscaleAumSignature where
  keyId : List UInt8
  signature : List UInt8
  deriving DecidableEq

structure TailscaleTkaAuthorityState where
  lastAumHash : Option TailscaleAumHash
  disablementValues : List (List UInt8)
  keys : List TailscaleTkaKey
  stateId1 : UInt64
  stateId2 : UInt64
  deriving DecidableEq

structure TailscaleAum where
  kind : UInt8
  previous : Option TailscaleAumHash
  key : Option TailscaleTkaKey
  keyId : Option (List UInt8)
  state : Option TailscaleTkaAuthorityState
  votes : Option UInt64
  metadata : Option KeyMetadata
  signatures : List TailscaleAumSignature
  deriving DecidableEq

def kindAddKey : UInt8 := 1

def kindRemoveKey : UInt8 := 2

def kindUpdateKey : UInt8 := 4

def kindCheckpoint : UInt8 := 5

/-- What the authority takes from its libraries. -/
structure TkaPrimitives where
  blake2s : List UInt8 → TailscaleAumHash
  /-- Whether the key and the signature are well formed and the key signed the digest. -/
  verifyStrict (key : List UInt8) (digest : TailscaleAumHash) (signature : List UInt8) : Bool
  skip : Reader CborError Unit

def metadataBytes (metadata : KeyMetadata) : Nat :=
  metadata.entries.foldl
    (fun total entry => total + (entry.1.utf8ByteSize + entry.2.utf8ByteSize)) 0

def validateKey (key : TailscaleTkaKey) : Except TailscaleTkaAuthorityError Unit :=
  if key.kind ≠ 1 ∨ key.publicKey.length ≠ 32 then invalid "unrecognized or malformed key"
  else if key.votes = 0 ∨ key.votes > 4096 then invalid "key votes out of range"
  else if metadataBytes key.metadata > maxMetaBytes then invalid "key metadata too large"
  else .ok ()

def validateKeys : List TailscaleTkaKey → Except TailscaleTkaAuthorityError Unit
  | [] => .ok ()
  | key :: rest => do
    validateKey key
    validateKeys rest

def checkDuplicates : List TailscaleTkaKey → Except TailscaleTkaAuthorityError Unit
  | [] => .ok ()
  | key :: rest =>
    if rest.any (·.publicKey = key.publicKey) then invalid "duplicate checkpoint key"
    else checkDuplicates rest

def validateCheckpointState (state : TailscaleTkaAuthorityState)
    : Except TailscaleTkaAuthorityError Unit :=
  if state.lastAumHash.isSome then invalid "checkpoint cannot specify a parent"
  else if state.disablementValues.isEmpty ∨ state.disablementValues.length > maxDisablementValues
      ∨ state.disablementValues.any (·.length ≠ 32) then
    invalid "invalid checkpoint disablement values"
  else if state.keys.isEmpty ∨ state.keys.length > maxKeys then
    invalid "invalid checkpoint key count"
  else do
    validateKeys state.keys
    checkDuplicates state.keys

/-- The check of a field that may be missing. -/
def checkField {α : Type} (check : α → Except TailscaleTkaAuthorityError Unit)
    : Option α → Except TailscaleTkaAuthorityError Unit
  | some value => check value
  | none => .ok ()

namespace TailscaleAum

variable (aum : TailscaleAum)

/-- The fields that go with the kind. -/
def validateKind : Except TailscaleTkaAuthorityError Unit :=
  if aum.kind = kindAddKey then
    if aum.key.isNone ∨ aum.keyId.isSome ∨ aum.state.isSome ∨ aum.votes.isSome
        ∨ aum.metadata.isSome then
      invalid "AddKey may only specify Key"
    else .ok ()
  else if aum.kind = kindRemoveKey then
    if aum.keyId.all (·.isEmpty) ∨ aum.key.isSome ∨ aum.state.isSome ∨ aum.votes.isSome
        ∨ aum.metadata.isSome then
      invalid "RemoveKey may only specify KeyID"
    else .ok ()
  else if aum.kind = kindUpdateKey then
    if aum.keyId.all (·.isEmpty) ∨ (aum.votes.isNone ∧ aum.metadata.isNone) ∨ aum.key.isSome
        ∨ aum.state.isSome then
      invalid "UpdateKey requires KeyID and an update"
    else .ok ()
  else if aum.kind = kindCheckpoint then
    if aum.state.isNone ∨ aum.key.isSome ∨ aum.keyId.isSome ∨ aum.votes.isSome
        ∨ aum.metadata.isSome then
      invalid "Checkpoint may only specify State"
    else .ok ()
  else .ok ()

def checkSignatureForms : Except TailscaleTkaAuthorityError Unit :=
  if aum.signatures.any fun signature =>
      signature.keyId.length ≠ 32 ∨ signature.signature.length ≠ 64 then
    invalid "signature has malformed key ID or body"
  else .ok ()

def staticValidate : Except TailscaleTkaAuthorityError Unit := do
  checkField validateKey aum.key
  checkSignatureForms aum
  checkField validateCheckpointState aum.state
  validateKind aum

end TailscaleAum

def encodeOptionalHash : Option TailscaleAumHash → List UInt8
  | some hash => byteString hash.bytes
  | none => [nullByte]

/-- The canonical order of texts: shorter ones first. -/
def precedes (left right : String × String) : Bool :=
  match compare left.1.utf8ByteSize right.1.utf8ByteSize with
  | .lt => true
  | .eq => left.1 ≤ right.1
  | .gt => false

def encodeMetadata (metadata : KeyMetadata) : List UInt8 :=
  let entries := metadata.entries.mergeSort precedes
  mapHead entries.length ++ entries.flatMap fun entry => textString entry.1 ++ textString entry.2

/-- An entry of a map: its key, then its value. -/
def mapEntry (key : Nat) (value : List UInt8) : List UInt8 := unsigned key ++ value

/-- An entry that is left out when there is no value. -/
def optionalMapEntry {α : Type} (key : Nat) (encode : α → List UInt8) : Option α → List UInt8
  | some value => mapEntry key (encode value)
  | none => []

def encodeKey (key : TailscaleTkaKey) : List UInt8 :=
  let labelled := !key.metadata.entries.isEmpty
  mapHead (3 + labelled.toNat) ++ mapEntry 1 (unsigned key.kind.toNat)
  ++ mapEntry 2 (unsigned key.votes.toNat) ++ mapEntry 3 (byteString key.publicKey)
  ++ if labelled then mapEntry 12 (encodeMetadata key.metadata) else []

def encodeState (state : TailscaleTkaAuthorityState) : List UInt8 :=
  let first := decide (state.stateId1 ≠ 0)
  let second := decide (state.stateId2 ≠ 0)
  mapHead (3 + first.toNat + second.toNat) ++ mapEntry 1 (encodeOptionalHash state.lastAumHash)
  ++ mapEntry 2 (arrayHead state.disablementValues.length
    ++ state.disablementValues.flatMap byteString)
  ++ mapEntry 3 (arrayHead state.keys.length ++ state.keys.flatMap encodeKey)
  ++ (if first then mapEntry 4 (unsigned state.stateId1.toNat) else [])
  ++ if second then mapEntry 5 (unsigned state.stateId2.toNat) else []

def encodeSignature (signature : TailscaleAumSignature) : List UInt8 :=
  mapHead 2 ++ mapEntry 1 (byteString signature.keyId)
    ++ mapEntry 2 (byteString signature.signature)

namespace TailscaleAum

def encode (aum : TailscaleAum) : List UInt8 :=
  let signed := !aum.signatures.isEmpty
  mapHead (2 + aum.key.isSome.toNat + aum.keyId.isSome.toNat + aum.state.isSome.toNat
    + aum.votes.isSome.toNat + aum.metadata.isSome.toNat + signed.toNat)
  ++ mapEntry 1 (unsigned aum.kind.toNat) ++ mapEntry 2 (encodeOptionalHash aum.previous)
  ++ optionalMapEntry 3 encodeKey aum.key ++ optionalMapEntry 4 byteString aum.keyId
  ++ optionalMapEntry 5 encodeState aum.state
  ++ optionalMapEntry 6 (fun votes => unsigned votes.toNat) aum.votes
  ++ optionalMapEntry 7 encodeMetadata aum.metadata
  ++ if signed then
      mapEntry 23 (arrayHead aum.signatures.length ++ aum.signatures.flatMap encodeSignature)
    else []

end TailscaleAum

abbrev AumReader (α : Type) := Reader TailscaleTkaAuthorityError α

def cborDecodeError (error : CborError) : TailscaleTkaAuthorityError := .cbor (.decoder error)

/-- A call of the decoder library. -/
def decoding {α : Type} (reader : Reader CborError α) : AumReader α :=
  reader.mapError cborDecodeError

def definiteMap : AumReader Nat := do
  match ← decoding readMap with
  | some count => return count
  | none => .fail (.cbor .indefiniteMap)

def definiteArray : AumReader Nat := do
  match ← decoding readArray with
  | some count => return count
  | none => .fail (.cbor .indefiniteArray)

def decodeOptionalHash : AumReader (Option TailscaleAumHash) := do
  match ← decoding (readNullable readBytes) with
  | none => return none
  | some bytes =>
    match TailscaleAumHash.ofBytes? bytes with
    | some hash => return some hash
    | none => .fail .invalidHash

def decodeMetadataEntry (metadata : KeyMetadata) : AumReader KeyMetadata := do
  let key ← decoding readText
  let value ← decoding readText
  return metadata.insert key value

def decodeMetadata : AumReader KeyMetadata := do
  let count ← definiteMap
  loop decodeMetadataEntry count OrderedMap.empty

section Decoder

variable (skip : Reader CborError Unit)

def decodeKeyEntry (key : TailscaleTkaKey) : AumReader TailscaleTkaKey := do
  match ← decoding readU8 with
  | 1 => return { key with kind := ← decoding readU8 }
  | 2 => return { key with votes := ← decoding readU64 }
  | 3 => return { key with publicKey := ← decoding readBytes }
  | 12 => return { key with metadata := ← decodeMetadata }
  | _ =>
    decoding skip
    return key

def decodeKey : AumReader TailscaleTkaKey := do
  let count ← definiteMap
  loop (decodeKeyEntry skip) count
    { kind := 0, votes := 0, publicKey := [], metadata := OrderedMap.empty }

def decodeByteArrays : AumReader (List (List UInt8)) := do
  let count ← definiteArray
  times (decoding readBytes) count

/-- A second list of keys is appended to the first one. -/
def decodeStateEntry (state : TailscaleTkaAuthorityState)
    : AumReader TailscaleTkaAuthorityState := do
  match ← decoding readU8 with
  | 1 => return { state with lastAumHash := ← decodeOptionalHash }
  | 2 => return { state with disablementValues := ← decodeByteArrays }
  | 3 =>
    let count ← definiteArray
    return { state with keys := state.keys ++ (← times (decodeKey skip) count) }
  | 4 => return { state with stateId1 := ← decoding readU64 }
  | 5 => return { state with stateId2 := ← decoding readU64 }
  | _ =>
    decoding skip
    return state

def emptyState : TailscaleTkaAuthorityState :=
  { lastAumHash := none, disablementValues := [], keys := [], stateId1 := 0, stateId2 := 0 }

def decodeState : AumReader TailscaleTkaAuthorityState := do
  let count ← definiteMap
  loop (decodeStateEntry skip) count emptyState

def decodeSignatureEntry (signature : TailscaleAumSignature)
    : AumReader TailscaleAumSignature := do
  match ← decoding readU8 with
  | 1 => return { signature with keyId := ← decoding readBytes }
  | 2 => return { signature with signature := ← decoding readBytes }
  | _ =>
    decoding skip
    return signature

def decodeSignature : AumReader TailscaleAumSignature := do
  let count ← definiteMap
  loop (decodeSignatureEntry skip) count { keyId := [], signature := [] }

def decodeSignatures : AumReader (List TailscaleAumSignature) := do
  let count ← definiteArray
  times (decodeSignature skip) count

def decodeAumEntry (aum : TailscaleAum) : AumReader TailscaleAum := do
  match ← decoding readU8 with
  | 1 => return { aum with kind := ← decoding readU8 }
  | 2 => return { aum with previous := ← decodeOptionalHash }
  | 3 => return { aum with key := some (← decodeKey skip) }
  | 4 => return { aum with keyId := some (← decoding readBytes) }
  | 5 => return { aum with state := some (← decodeState skip) }
  | 6 => return { aum with votes := some (← decoding readU64) }
  | 7 => return { aum with metadata := some (← decodeMetadata) }
  | 23 => return { aum with signatures := ← decodeSignatures skip }
  | _ =>
    decoding skip
    return aum

def emptyAum : TailscaleAum :=
  { kind := 0, previous := none, key := none, keyId := none, state := none, votes := none,
    metadata := none, signatures := [] }

def decodeAum : AumReader TailscaleAum := do
  let count ← definiteMap
  loop (decodeAumEntry skip) count emptyAum

/-- What an entry of signatures announces behind its key. -/
def announcedSignatures : AumReader (Option Nat) := do
  if (← decoding readU8) = 23 then return some (← definiteArray) else return none

/-- The capacity of `decode_signatures`, reserved before any signature is read. -/
def entryReservation (input : List UInt8) : Option Nat :=
  match announcedSignatures input with
  | .ok (announced, _) => announced
  | .error _ => none

/-- `Vec::with_capacity` panics above `isize::MAX` bytes; a signature is two vectors. -/
def capacityFits (count : Nat) : Bool := decide (48 * count < 2 ^ 63)

/-- The reservations of the loop over the entries, up to one that panics. -/
def entryReservations : (count : Nat) → TailscaleAum → List UInt8 → List Nat
  | 0, _, _ => []
  | count + 1, aum, input =>
    (entryReservation input).toList
    ++ if (entryReservation input).all capacityFits then
        match decodeAumEntry skip aum input with
        | .ok (next, rest) => entryReservations count next rest
        | .error _ => []
      else []

/-- No other part of the decoder reserves by a count: collecting fallible items starts empty. -/
def reservations (bytes : List UInt8) : List Nat :=
  match definiteMap bytes with
  | .ok (count, rest) => entryReservations skip count emptyAum rest
  | .error _ => []

end Decoder

namespace TailscaleAum

variable (primitives : TkaPrimitives)

def decode (bytes : List UInt8) : Except TailscaleTkaAuthorityError TailscaleAum := do
  let (aum, rest) ← decodeAum primitives.skip bytes
  if rest ≠ [] then .error (.cbor .trailingBytes)
  else
    aum.staticValidate
    if aum.encode ≠ bytes then .error .nonCanonicalCbor else .ok aum

/-- The call of `decode`, which does not return when a reservation panics. -/
def decodeCall (bytes : List UInt8) : Option (Except TailscaleTkaAuthorityError TailscaleAum) :=
  if (reservations primitives.skip bytes).all capacityFits then some (decode primitives bytes)
  else none

def hash (aum : TailscaleAum) : TailscaleAumHash := primitives.blake2s aum.encode

def signatureHash (aum : TailscaleAum) : TailscaleAumHash :=
  primitives.blake2s { aum with signatures := [] }.encode

/-- The checks of `decode` that later proofs rest on. -/
theorem decode_eq_ok {primitives bytes aum} (decoded : decode primitives bytes = .ok aum)
    : aum.encode = bytes ∧ aum.staticValidate = .ok () := by
  obtain ⟨⟨_, _⟩, -, checks⟩ := bind_eq_ok.mp decoded
  obtain ⟨-, checks⟩ := guard_eq_ok.mp checks
  obtain ⟨_, hv, checks⟩ := bind_eq_ok.mp checks
  obtain ⟨canonical, he⟩ := guard_eq_ok.mp checks
  cases he
  exact ⟨not_not.mp canonical, hv⟩

end TailscaleAum

end Zay.Tailscale
