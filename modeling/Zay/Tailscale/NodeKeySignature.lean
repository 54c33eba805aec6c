import Zay.Lib.Cbor

/-! Node-key signatures of a tailnet lock (`protocol/tailscale_tka.rs`): their CBOR form and
the re-signing of a rotated node key. The decoder library's `skip` for unknown entries, the
BLAKE2s digest and the Ed25519 signature of the lock key are parameters.
-/

namespace Zay.Tailscale

open Lib Lib.Cbor

/-- The two causes of the source's `Cbor` error are kept apart. -/
inductive TailscaleTkaError where
  | decoder (error : CborError)
  | nestingExceeds16Levels
  | invalidSignatureKind (kind : UInt8)
  | missingNestedSignature
  | missingNodeKey
  deriving Repr, DecidableEq

/-- The fields of a signature besides the nested one. -/
structure SignatureLayer where
  kind : UInt8
  nodeKey : Option (List UInt8)
  keyId : Option (List UInt8)
  signature : Option (List UInt8)
  wrappingPublicKey : Option (List UInt8)
  deriving Repr, DecidableEq

/-- The `nested` field is an optional signature again, so a signature is a chain of layers. -/
inductive TailscaleNodeKeySignature where
  | single (layer : SignatureLayer)
  | nesting (layer : SignatureLayer) (nested : TailscaleNodeKeySignature)
  deriving Repr, DecidableEq

def kindDirect : UInt8 := 1

def kindRotation : UInt8 := 2

def kindCredential : UInt8 := 3

namespace TailscaleNodeKeySignature

def layer : TailscaleNodeKeySignature → SignatureLayer
  | single layer => layer
  | nesting layer _ => layer

def ofParts (layer : SignatureLayer)
    : Option TailscaleNodeKeySignature → TailscaleNodeKeySignature
  | none => single layer
  | some nested => nesting layer nested

def encodeField (key : UInt8) : Option (List UInt8) → List UInt8
  | none => []
  | some value => unsigned key.toNat ++ byteString value

/-- The entries of the map besides its head. `nested` is the encoded nested signature. -/
def encodeEntries (layer : SignatureLayer) (nested : Option (List UInt8)) : List UInt8 :=
  unsigned 1 ++ unsigned layer.kind.toNat
  ++ encodeField 2 layer.nodeKey ++ encodeField 3 layer.keyId ++ encodeField 4 layer.signature
  ++ nested.elim [] (unsigned 5 ++ ·) ++ encodeField 6 layer.wrappingPublicKey

def fieldCount (layer : SignatureLayer) (nested : Bool) : Nat :=
  1 + layer.nodeKey.isSome.toNat + layer.keyId.isSome.toNat + layer.signature.isSome.toNat
  + nested.toNat + layer.wrappingPublicKey.isSome.toNat

def encode : TailscaleNodeKeySignature → List UInt8
  | single layer => mapHead (fieldCount layer false) ++ encodeEntries layer none
  | nesting layer nested =>
    mapHead (fieldCount layer true) ++ encodeEntries layer (some nested.encode)

/-- What the loop over the entries has found so far. -/
abbrev Parts := SignatureLayer × Option TailscaleNodeKeySignature

section Decoder

variable (skip : Reader CborError Unit)

/-- One entry of the map. `decodeNested` is the decoder itself. -/
def decodeEntry (decodeNested : Reader CborError TailscaleNodeKeySignature)
    (parts : Parts) : Reader CborError Parts := do
  match ← readU8 with
  | 1 => return ({ parts.1 with kind := ← readU8 }, parts.2)
  | 2 => return ({ parts.1 with nodeKey := some (← readBytes) }, parts.2)
  | 3 => return ({ parts.1 with keyId := some (← readBytes) }, parts.2)
  | 4 => return ({ parts.1 with signature := some (← readBytes) }, parts.2)
  | 5 => return (parts.1, some (← decodeNested))
  | 6 => return ({ parts.1 with wrappingPublicKey := some (← readBytes) }, parts.2)
  | _ =>
    skip
    return parts

/-- Whether a map of indefinite length ends here. -/
def atBreak (indefinite : Bool) : Reader CborError Bool :=
  if indefinite then do return (← Reader.peek .endOfInput) = breakByte else return false

def decodeEntries (decodeNested : Reader CborError TailscaleNodeKeySignature)
    (indefinite : Bool) : (remaining : Nat) → (parts : Parts) → Reader CborError Parts
  | 0, parts => pure parts
  | remaining + 1, parts => do
    if ← atBreak indefinite then
      let _ ← Reader.byte .endOfInput
      return parts
    else
      decodeEntries decodeNested indefinite remaining
        (← decodeEntry skip decodeNested parts)

def emptyParts : Parts :=
  ({ kind := 0, nodeKey := none, keyId := none, signature := none,
     wrappingPublicKey := none }, none)

/-- The `Decode` instance. Every nested signature takes a byte of the input, so the length of
the input bounds the depth of the recursion.
-/
def decodeSignature : (depth : Nat) → Reader CborError TailscaleNodeKeySignature
  | 0 => .fail .endOfInput
  | depth + 1 => do
    let length ← readMap
    let parts ←
      decodeEntries skip (decodeSignature depth) length.isNone (length.getD (2 ^ 64 - 1))
        emptyParts
    return ofParts parts.1 parts.2

def validateLayer (depth : Nat) (layer : SignatureLayer) (nested : Bool)
    : Except TailscaleTkaError Unit :=
  if depth ≥ 16 then .error .nestingExceeds16Levels
  else if layer.kind ≠ kindDirect ∧ layer.kind ≠ kindRotation ∧ layer.kind ≠ kindCredential then
    .error (.invalidSignatureKind layer.kind)
  else if layer.kind = kindRotation ∧ !nested then .error .missingNestedSignature
  else if layer.kind ≠ kindCredential ∧ layer.nodeKey.isNone then .error .missingNodeKey
  else .ok ()

def validate : (depth : Nat) → TailscaleNodeKeySignature → Except TailscaleTkaError Unit
  | depth, single layer => validateLayer depth layer false
  | depth, nesting layer nested => do
    validateLayer depth layer true
    validate (depth + 1) nested

/-- `minicbor::decode` ignores what follows the first item. -/
def decode (bytes : List UInt8) : Except TailscaleTkaError TailscaleNodeKeySignature :=
  match decodeSignature skip bytes.length bytes with
  | .error error => .error (.decoder error)
  | .ok (signature, _) => do
    validate 0 signature
    return signature

end Decoder

end TailscaleNodeKeySignature

open TailscaleNodeKeySignature

abbrev Digest := Vector UInt8 32

/-- A lock key, as the signatures it makes. -/
abbrev Signer := Digest → Vector UInt8 64

def maximumPreviousNodeKeys : Nat := 15

section Resign

variable (blake2s : List UInt8 → Digest) (sign : Signer)

def signatureHash : TailscaleNodeKeySignature → Digest
  | single layer => blake2s (single { layer with signature := none }).encode
  | nesting layer nested => blake2s (nesting { layer with signature := none } nested).encode

/-- A rotation of `old` to `nodeKey`, signed by the lock key. -/
def rotate (nodeKey : List UInt8) (old : TailscaleNodeKeySignature)
    : TailscaleNodeKeySignature :=
  let layer : SignatureLayer :=
    { kind := kindRotation, nodeKey := some nodeKey, keyId := none, signature := none,
      wrappingPublicKey := none }
  let signature := sign (signatureHash blake2s (nesting layer old))
  nesting { layer with signature := some signature.toList } old

/-- The loop of `trim_rotation_chain`: the node keys down to the first signature that is not
a rotation, and that signature.
-/
def previousKeys
    : TailscaleNodeKeySignature → List (List UInt8) × Option TailscaleNodeKeySignature
  | single layer =>
    (layer.nodeKey.toList, if layer.kind ≠ kindRotation then some (single layer) else none)
  | nesting layer nested =>
    if layer.kind ≠ kindRotation then (layer.nodeKey.toList, some (nesting layer nested))
    else
      let (previous, initial) := previousKeys nested
      (layer.nodeKey.toList ++ previous, initial)

def trimRotationChain (signature : TailscaleNodeKeySignature)
    : Except TailscaleTkaError TailscaleNodeKeySignature :=
  if signature.layer.kind ≠ kindRotation then .ok signature
  else
    let (previous, initial) := previousKeys signature
    if previous.length ≤ maximumPreviousNodeKeys then .ok signature
    else
      match initial with
      | none => .error .missingNestedSignature
      | some initial =>
        .ok ((previous.take (maximumPreviousNodeKeys - 1)).foldr (rotate blake2s sign) initial)

/-- The bytes `np` in front of the raw key. -/
def nodeKeyBinary (nodeKey : Vector UInt8 32) : List UInt8 :=
  [0x6e, 0x70] ++ nodeKey.toList

def resignTailscaleNodeKeySignature (skip : Reader CborError Unit)
    (nodeKey : Vector UInt8 32) (oldSignature : List UInt8)
    : Except TailscaleTkaError (List UInt8) := do
  let old ← decode skip oldSignature
  if old.layer.nodeKey = some (nodeKeyBinary nodeKey) then return oldSignature
  let old ← trimRotationChain blake2s sign old
  return (rotate blake2s sign (nodeKeyBinary nodeKey) old).encode

end Resign

end Zay.Tailscale
