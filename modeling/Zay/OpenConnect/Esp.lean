import Zay.Lib.MachineInt
import Zay.OpenConnect.EspWindow

/-! ESP packet protection of OpenConnect (`protocol/openconnect_esp.rs`): AES in CBC mode and
a truncated HMAC, with one outbound association and two inbound ones, of which the older
serves for a while after a rekey. The mutexes make each call atomic.
-/

namespace Zay.OpenConnect

open Lib

abbrev Bytes := List UInt8

def espFixedHeaderSize : Nat := 24

def espIpv4NextHeader : UInt8 := 4

def espLzoNextHeader : UInt8 := 5

def espIpv6NextHeader : UInt8 := 41

def aesBlockSize : Nat := 16

/-- `[u8; AES_BLOCK_SIZE]`. -/
abbrev Block := Vector UInt8 16

inductive EspEncryption where
  | aes128Cbc
  | aes256Cbc
  deriving Repr, DecidableEq

def EspEncryption.keyLength : EspEncryption → Nat
  | aes128Cbc => 16
  | aes256Cbc => 32

/-- How error texts name the cipher. -/
def EspEncryption.name : EspEncryption → String
  | aes128Cbc => "AES-128"
  | aes256Cbc => "AES-256"

inductive EspAuthentication where
  | hmacMd5_96
  | hmacSha1_96
  | hmacSha256_128
  deriving Repr, DecidableEq

namespace EspAuthentication

def keyLength : EspAuthentication → Nat
  | hmacMd5_96 => 16
  | hmacSha1_96 => 20
  | hmacSha256_128 => 32

def icvLength : EspAuthentication → Nat
  | hmacMd5_96 | hmacSha1_96 => 12
  | hmacSha256_128 => 16

end EspAuthentication

structure EspKeyMaterial where
  spi : UInt32
  encryptionKey : Bytes
  authenticationKey : Bytes
  deriving Repr, DecidableEq

structure EspKeySetConfig where
  encryption : EspEncryption
  authentication : EspAuthentication
  outbound : EspKeyMaterial
  inbound : EspKeyMaterial
  disableReplayProtection : Bool
  deriving Repr, DecidableEq

inductive EspError where
  | invalidConfiguration (message : String)
  | invalidDatagram (message : String)
  | authenticationFailed
  | replay
  | sequenceExhausted
  | keysDestroyed
  | random (message : String)
  deriving Repr, DecidableEq

abbrev EspResult := Except EspError

/-- The cryptographic functions of the libraries. -/
structure EspPrimitives where
  /-- Key, initialisation vector and whole blocks. -/
  cbcEncrypt : EspEncryption → Bytes → Bytes → Bytes → Bytes
  cbcDecrypt : EspEncryption → Bytes → Bytes → Bytes → Bytes
  aesBlock : EspEncryption → Bytes → Block → Block
  hmac : EspAuthentication → Bytes → Bytes → Bytes

variable (primitives : EspPrimitives)

def encryptCbc (encryption : EspEncryption) (key iv plaintext : Bytes) : EspResult Bytes :=
  if key.length = encryption.keyLength ∧ iv.length = aesBlockSize then
    .ok (primitives.cbcEncrypt encryption key iv plaintext)
  else .error (.invalidConfiguration s!"invalid {encryption.name} key/IV")

def decryptCbc (encryption : EspEncryption) (key iv ciphertext : Bytes) : EspResult Bytes :=
  if key.length = encryption.keyLength ∧ iv.length = aesBlockSize then
    if ciphertext.length % aesBlockSize = 0 then
      .ok (primitives.cbcDecrypt encryption key iv ciphertext)
    else .error (.invalidDatagram s!"{encryption.name} ciphertext is invalid")
  else .error (.invalidConfiguration s!"invalid {encryption.name} key/IV")

def encryptAesBlock (encryption : EspEncryption) (key : Bytes) (input : Block) : EspResult Block :=
  if key.length = encryption.keyLength then .ok (primitives.aesBlock encryption key input)
  else .error (.invalidConfiguration s!"invalid {encryption.name} key")

def constantTimeEqual (left right : Bytes) : Bool :=
  if left.length ≠ right.length then false
  else (List.zipWith (· ^^^ ·) left right).foldl (· ||| ·) 0 = 0

structure SecurityAssociation where
  encryption : EspEncryption
  authentication : EspAuthentication
  spi : UInt32
  encryptionKey : Bytes
  authenticationKey : Bytes
  sequence : Nat
  replay : EspReplayWindow
  iv : Block
  valid : Bool
  deriving Repr, DecidableEq

variable (association : SecurityAssociation)

namespace SecurityAssociation

/-- `random` is what the system gives for the first initialisation vector of an outbound
association.
-/
def new (encryption : EspEncryption) (authentication : EspAuthentication)
    (material : EspKeyMaterial) (random : EspResult Block)
    : EspResult SecurityAssociation :=
  if material.spi = 0 then .error (.invalidConfiguration "SPI is zero")
  else if material.encryptionKey.length ≠ encryption.keyLength then
    .error (.invalidConfiguration
      (s!"encryption key length is {material.encryptionKey.length}, "
        ++ s!"expected {encryption.keyLength}"))
  else if material.authenticationKey.length ≠ authentication.keyLength then
    .error (.invalidConfiguration
      (s!"authentication key length is {material.authenticationKey.length}, "
        ++ s!"expected {authentication.keyLength}"))
  else do
    return {
      encryption, authentication
      spi := material.spi
      encryptionKey := material.encryptionKey
      authenticationKey := material.authenticationKey
      sequence := 0
      replay := .empty
      iv := ← random
      valid := true }

def newInbound (config : EspKeySetConfig) : EspResult SecurityAssociation :=
  new config.encryption config.authentication config.inbound (.ok (Vector.replicate 16 0))

def newOutbound (config : EspKeySetConfig) (random : EspResult Block)
    : EspResult SecurityAssociation :=
  new config.encryption config.authentication config.outbound random

end SecurityAssociation

structure InboundAssociations where
  current : SecurityAssociation
  previous : Option SecurityAssociation
  previousLimit : Nat
  disableReplayProtection : Bool
  destroyed : Bool
  deriving Repr, DecidableEq

structure EspKeySet where
  outbound : SecurityAssociation
  inbound : InboundAssociations
  deriving Repr, DecidableEq

namespace EspKeySet

def new (config : EspKeySetConfig) (random : EspResult Block) : EspResult EspKeySet := do
  let outbound ← SecurityAssociation.newOutbound config random
  let inbound ← SecurityAssociation.newInbound config
  return {
    outbound
    inbound := {
      current := inbound
      previous := none
      previousLimit := 0
      disableReplayProtection := config.disableReplayProtection
      destroyed := false } }

def install (keys : EspKeySet) (config : EspKeySetConfig) (random : EspResult Block)
    : EspResult EspKeySet := do
  let outbound ← SecurityAssociation.newOutbound config random
  let inbound ← SecurityAssociation.newInbound config
  if keys.inbound.destroyed || !keys.outbound.valid then .error .keysDestroyed
  else
    return {
      outbound
      inbound := {
        current := inbound
        previous := some keys.inbound.current
        previousLimit := keys.inbound.current.replay.nextSequence + 32
        disableReplayProtection := config.disableReplayProtection
        destroyed := false } }

end EspKeySet

def validateNextHeader (nextHeader : UInt8) : EspResult Unit :=
  if nextHeader = espIpv4NextHeader ∨ nextHeader = espIpv6NextHeader
      ∨ nextHeader = espLzoNextHeader then .ok ()
  else .error (.invalidDatagram "next header is unknown")

/-- The header that is asked for, or that of the IP version of the payload. -/
def requestedNextHeader (payload : Bytes) : Option UInt8 → EspResult UInt8
  | some value => .ok value
  | none =>
    match payload with
    | [] => .error (.invalidDatagram "payload is empty")
    | first :: _ =>
      if first >>> 4 = 4 then .ok espIpv4NextHeader
      else if first >>> 4 = 6 then .ok espIpv6NextHeader
      else .error (.invalidDatagram "unknown inner IP version")

def selectNextHeader (payload : Bytes) (requested : Option UInt8) : EspResult UInt8 := do
  let nextHeader ← requestedNextHeader payload requested
  validateNextHeader nextHeader
  return nextHeader

def paddingLength (payload : Bytes) : Nat :=
  aesBlockSize - 1 - (payload.length + 1) % aesBlockSize

/-- The bytes 1, 2, and so on. -/
def paddingBytes (length : Nat) : Bytes :=
  (List.range length).map fun index => UInt8.ofNat (index + 1)

/-- The payload with its trailer. -/
def paddedPlaintext (payload : Bytes) (nextHeader : UInt8) : Bytes :=
  payload ++ paddingBytes (paddingLength payload)
  ++ [UInt8.ofNat (paddingLength payload), nextHeader]

/-- The last block of `bytes`. -/
def lastBlock (bytes : Bytes) : Block :=
  Vector.ofFn fun index => bytes[bytes.length - aesBlockSize + index]?.getD 0

def xorBlocks (left right : Block) : Block := Vector.zipWith (· ^^^ ·) left right

namespace SecurityAssociation

/-- The datagram up to the ciphertext. -/
def header : Bytes :=
  toBigEndian 4 association.spi.toNat ++ toBigEndian 4 association.sequence
  ++ association.iv.toList

/-- The first part of `seal`, up to the counting of the sequence number, can fail without a
trace; what fails after it leaves the sequence number used.
-/
def sealPayload (payload : Bytes) (requested : Option UInt8)
    : SecurityAssociation × EspResult Bytes :=
  if ¬association.valid then (association, .error .keysDestroyed)
  else
    match selectNextHeader payload requested with
    | .error error => (association, .error error)
    | .ok nextHeader =>
      if 4294967295 < association.sequence then (association, .error .sequenceExhausted)
      else
        let counted := { association with sequence := association.sequence + 1 }
        match encryptCbc primitives association.encryption association.encryptionKey
            association.iv.toList (paddedPlaintext payload nextHeader) with
        | .error error => (counted, .error error)
        | .ok ciphertext =>
          let authenticated := association.header ++ ciphertext
          let fullIcv := primitives.hmac association.authentication
            association.authenticationKey authenticated
          let nextIvInput := xorBlocks (lastBlock fullIcv) (lastBlock ciphertext)
          match encryptAesBlock primitives association.encryption association.encryptionKey
              nextIvInput with
          | .error error => (counted, .error error)
          | .ok iv =>
            ({ counted with iv },
              .ok (authenticated ++ fullIcv.take association.authentication.icvLength))

end SecurityAssociation

def EspKeySet.sealPayload (primitives : EspPrimitives) (keys : EspKeySet) (payload : Bytes)
    (requested : Option UInt8)
    : EspKeySet × EspResult Bytes :=
  ({ keys with outbound := (keys.outbound.sealPayload primitives payload requested).1 },
    (keys.outbound.sealPayload primitives payload requested).2)

/-- The payload and the next header of a decrypted plaintext. -/
def openPlaintext (plaintext : Bytes) : EspResult (Bytes × UInt8) :=
  if plaintext.length < 2 then .error (.invalidDatagram "plaintext trailer is truncated")
  else
    let paddingLength := (plaintext[plaintext.length - 2]?.getD 0).toNat
    if plaintext.length ≤ paddingLength + 2 then
      .error (.invalidDatagram "padding consumes payload")
    else
      let payloadLength := plaintext.length - paddingLength - 2
      if (plaintext.drop payloadLength).take paddingLength ≠ paddingBytes paddingLength then
        .error (.invalidDatagram "padding is invalid")
      else do
        let nextHeader := plaintext[plaintext.length - 1]?.getD 0
        validateNextHeader nextHeader
        return (plaintext.take payloadLength, nextHeader)

namespace SecurityAssociation

/-- The part of `open` after the association was chosen: lengths, the integrity check, the
replay window and, when that lets the datagram pass, the plaintext.
-/
def openDatagram (disableReplayProtection : Bool) (sequence : UInt32) (datagram : Bytes)
    : SecurityAssociation × EspResult (Bytes × UInt8) :=
  let icvLength := association.authentication.icvLength
  if datagram.length < espFixedHeaderSize + aesBlockSize + icvLength then
    (association, .error (.invalidDatagram "ciphertext is truncated"))
  else
    let authenticatedLength := datagram.length - icvLength
    if (authenticatedLength - espFixedHeaderSize) % aesBlockSize ≠ 0 then
      (association, .error (.invalidDatagram "ciphertext is not block aligned"))
    else
      let expected := primitives.hmac association.authentication association.authenticationKey
        (datagram.take authenticatedLength)
      if ¬constantTimeEqual (expected.take icvLength) (datagram.drop authenticatedLength) then
        (association, .error .authenticationFailed)
      else
        let accepted := association.replay.accept sequence
        let association := { association with replay := accepted.2 }
        if ¬accepted.1 ∧ ¬disableReplayProtection then (association, .error .replay)
        else
          (association, do
            let plaintext ← decryptCbc primitives association.encryption
              association.encryptionKey ((datagram.drop 8).take 16)
              ((datagram.take authenticatedLength).drop espFixedHeaderSize)
            openPlaintext plaintext)

end SecurityAssociation

namespace InboundAssociations

def unknownSpi : EspError := .invalidDatagram "SPI is unknown or expired"

/-- The older association serves while few enough datagrams of the newer one have come. -/
def openDatagram (primitives : EspPrimitives) (inbound : InboundAssociations)
    (spi sequence : UInt32) (datagram : Bytes)
    : InboundAssociations × EspResult (Bytes × UInt8) :=
  if inbound.destroyed || !inbound.current.valid then (inbound, .error .keysDestroyed)
  else if spi = inbound.current.spi then
    let opened := inbound.current.openDatagram primitives inbound.disableReplayProtection
      sequence datagram
    ({ inbound with current := opened.1 }, opened.2)
  else
    match inbound.previous with
    | none => (inbound, .error unknownSpi)
    | some previous =>
      if previous.valid && previous.spi = spi
          && sequence.toNat + inbound.current.replay.nextSequence < inbound.previousLimit then
        let opened := previous.openDatagram primitives inbound.disableReplayProtection
          sequence datagram
        ({ inbound with previous := some opened.1 }, opened.2)
      else (inbound, .error unknownSpi)

end InboundAssociations

def EspKeySet.openDatagram (primitives : EspPrimitives) (keys : EspKeySet) (datagram : Bytes)
    : EspKeySet × EspResult (Bytes × UInt8) :=
  if datagram.length < 8 then (keys, .error (.invalidDatagram "header is truncated"))
  else
    let spi := UInt32.ofNat (ofBigEndian (datagram.take 4))
    let sequence := UInt32.ofNat (ofBigEndian ((datagram.drop 4).take 4))
    let opened := keys.inbound.openDatagram primitives spi sequence datagram
    ({ keys with inbound := opened.1 }, opened.2)

end Zay.OpenConnect
