import Zay.Lib.Checks
import Zay.OpenConnect.Esp

/-! Sealed datagrams between two key sets: whatever the order, the duplication and the loss of
the datagrams and whenever either side installs new keys, each datagram is opened at most once
and to what was sealed.
-/

namespace Zay.OpenConnect

open Lib SecurityAssociation List

/-- What is assumed of the ciphers: CBC decryption inverts encryption, block by block, and the
digests have their lengths.
-/
structure EspPrimitives.Lawful (primitives : EspPrimitives) : Prop where
  length_cbcEncrypt
    : ∀ encryption key iv plaintext, plaintext.length % aesBlockSize = 0 →
      (primitives.cbcEncrypt encryption key iv plaintext).length = plaintext.length
  cbcDecrypt_cbcEncrypt
    : ∀ encryption key iv plaintext, plaintext.length % aesBlockSize = 0 →
      primitives.cbcDecrypt encryption key iv (primitives.cbcEncrypt encryption key iv plaintext)
      = plaintext
  icvLength_le
    : ∀ authentication key bytes,
      authentication.icvLength ≤ (primitives.hmac authentication key bytes).length

theorem constantTimeEqual_self (bytes : Bytes) : constantTimeEqual bytes bytes := by
  have folded : (zipWith (· ^^^ ·) bytes bytes).foldl (· ||| ·) 0 = 0 := by
    induction bytes with
    | nil => rfl
    | cons _ _ ih => simpa using ih
  rw [constantTimeEqual, if_neg (by simp), folded]
  rfl

theorem length_paddingBytes (length : Nat) : (paddingBytes length).length = length := by
  simp [paddingBytes]

theorem length_paddedPlaintext (payload : Bytes) (nextHeader : UInt8)
    : (paddedPlaintext payload nextHeader).length = payload.length + paddingLength payload + 2 := by
  simp [paddedPlaintext, length_paddingBytes, add_assoc]

variable {payload : Bytes} {nextHeader : UInt8}

/-- The trailer is taken off again, unless there is nothing in front of it. -/
theorem openPlaintext_padded (hnil : payload ≠ []) (hk : validateNextHeader nextHeader = .ok ())
    : openPlaintext (paddedPlaintext payload nextHeader) = .ok (payload, nextHeader) := by
  have size := length_paddedPlaintext payload nextHeader
  have hpos := length_pos_iff.mpr hnil
  have hs : paddingLength payload < 256 := by
    unfold paddingLength aesBlockSize
    omega
  have body : (payload ++ paddingBytes (paddingLength payload)).length
      = payload.length + paddingLength payload := by
    rw [length_append, length_paddingBytes]
  generalize form : paddedPlaintext payload nextHeader = plaintext at size
  rw [paddedPlaintext] at form
  have padding : plaintext[plaintext.length - 2]? = some (UInt8.ofNat (paddingLength payload)) := by
    rw [size, ← form, getElem?_append_right (by omega), body]
    simp
  have last : plaintext[plaintext.length - 1]? = some nextHeader := by
    rw [size, ← form, getElem?_append_right (by omega), body]
    simp
  have count : (UInt8.ofNat (paddingLength payload)).toNat = paddingLength payload := by
    rw [UInt8.toNat_ofNat']
    omega
  have front : plaintext.length - paddingLength payload - 2 = payload.length := by omega
  rw [openPlaintext, padding, last, if_neg (by omega)]
  simp only [Option.getD_some, count, front]
  rw [if_neg (by omega)]
  rw [append_assoc] at form
  have middle : (plaintext.drop payload.length).take (paddingLength payload)
      = paddingBytes (paddingLength payload) := by
    rw [← form, drop_left, take_left' (length_paddingBytes _)]
  have hw : plaintext.take payload.length = payload := by
    rw [← form, take_left]
  simp [middle, hw, hk, bind, Except.bind, pure, Except.pure]

/-- Which keys an association uses and under which SPI. -/
structure EspKeying where
  encryption : EspEncryption
  authentication : EspAuthentication
  material : EspKeyMaterial
  deriving Repr, DecidableEq

def SecurityAssociation.keying (association : SecurityAssociation) : EspKeying where
  encryption := association.encryption
  authentication := association.authentication
  material := {
    spi := association.spi
    encryptionKey := association.encryptionKey
    authenticationKey := association.authenticationKey }

/-- The part of a datagram that its integrity check covers. -/
def SecurityAssociation.authenticated (primitives : EspPrimitives)
    (association : SecurityAssociation) (payload : Bytes) (nextHeader : UInt8)
    : Bytes :=
  association.header
  ++ primitives.cbcEncrypt association.encryption association.encryptionKey
    association.iv.toList (paddedPlaintext payload nextHeader)

/-- What a success of `seal` says about its datagram. -/
structure SealedAs (primitives : EspPrimitives) (association : SecurityAssociation)
    (payload : Bytes) (nextHeader : UInt8) (datagram : Bytes)
    : Prop where
  known : validateNextHeader nextHeader = .ok ()
  sequence_le : association.sequence ≤ 4294967295
  keySize : association.encryptionKey.length = association.encryption.keyLength
  bytes
    : datagram = association.authenticated primitives payload nextHeader
      ++ (primitives.hmac association.authentication association.authenticationKey
        (association.authenticated primitives payload nextHeader)).take
        association.authentication.icvLength

/-- Sealing changes the sequence number and the initialisation vector only. -/
theorem sealPayload_cases (crypto association) (payload : Bytes) (requested)
    : (∃ error, association.sealPayload crypto payload requested = (association, .error error))
      ∨ (∃ error, association.sealPayload crypto payload requested
          = ({ association with sequence := association.sequence + 1 }, .error error))
      ∨ ∃ nextHeader iv datagram, selectNextHeader payload requested = .ok nextHeader
        ∧ SealedAs crypto association payload nextHeader datagram
        ∧ association.sealPayload crypto payload requested
          = ({ association with sequence := association.sequence + 1, iv }, .ok datagram) := by
  unfold sealPayload
  by_cases hv : association.valid
  · rw [if_neg (not_not_intro hv)]
    cases hs : selectNextHeader payload requested with
    | error error => exact .inl ⟨error, rfl⟩
    | ok nextHeader =>
      by_cases exhausted : 4294967295 < association.sequence
      · exact .inl ⟨.sequenceExhausted, if_pos exhausted⟩
      simp only [if_neg exhausted]
      by_cases size : association.encryptionKey.length = association.encryption.keyLength
      · have block : association.iv.toList.length = aesBlockSize := by simp [aesBlockSize]
        simp only [encryptCbc, size, block, true_and, if_true, encryptAesBlock]
        obtain ⟨_, -, rest⟩ := bind_eq_ok.mp hs
        obtain ⟨hk, ⟨⟩⟩ := check_eq_ok.mp rest
        exact .inr (.inr ⟨nextHeader, _, _, rfl, ⟨hk, Nat.le_of_not_lt exhausted, size, rfl⟩, rfl⟩)
      simp only [encryptCbc, size, false_and, if_false]
      exact .inr (.inl ⟨_, rfl⟩)
  · exact .inl ⟨.keysDestroyed, if_pos hv⟩

section Parsing

variable {crypto : EspPrimitives} {association own : SecurityAssociation} {datagram : Bytes}

theorem length_header (association : SecurityAssociation)
    : association.header.length = espFixedHeaderSize := by
  simp [header, espFixedHeaderSize]

variable (sealed : SealedAs crypto association payload nextHeader datagram)

include sealed

theorem SealedAs.spi_eq : UInt32.ofNat (ofBigEndian (datagram.take 4)) = association.spi := by
  have hs : association.spi.toNat < 256 ^ 4 := association.spi.toNat_lt
  rw [sealed.bytes, authenticated, header]
  simp only [append_assoc]
  rw [take_left' (length_toBigEndian 4 _), ofBigEndian_toBigEndian hs, UInt32.ofNat_toNat]

theorem SealedAs.sequence_eq
    : (UInt32.ofNat (ofBigEndian ((datagram.drop 4).take 4))).toNat = association.sequence := by
  have hb := sealed.sequence_le
  have hs : association.sequence < 256 ^ 4 := by omega
  rw [sealed.bytes, authenticated, header]
  simp only [append_assoc]
  rw [drop_left' (length_toBigEndian 4 _), take_left' (length_toBigEndian 4 _),
    ofBigEndian_toBigEndian hs, UInt32.toNat_ofNat']
  omega

theorem SealedAs.length_le : 8 ≤ datagram.length := by
  rw [sealed.bytes, authenticated, length_append, length_append, length_header, espFixedHeaderSize]
  omega

theorem SealedAs.iv_eq : (datagram.drop 8).take 16 = association.iv.toList := by
  have front : (toBigEndian 4 association.spi.toNat ++ toBigEndian 4 association.sequence).length
      = 8 := by simp
  rw [sealed.bytes, authenticated, header]
  simp only [append_assoc]
  rw [← append_assoc, drop_left' front, take_left' (by simp)]

/-- An association with the keys of the sender opens its datagram when the window lets the
sequence number pass.
-/
theorem SealedAs.openDatagram (hl : crypto.Lawful)
    (matching : own.keying = association.keying) (hnil : payload ≠ []) (sequence : UInt32)
    : own.openDatagram crypto false sequence datagram
      = ({ own with replay := (own.replay.accept sequence).2 },
        if (own.replay.accept sequence).1 then .ok (payload, nextHeader) else .error .replay) := by
  have length := length_paddedPlaintext payload nextHeader
  have unit : aesBlockSize = 16 := rfl
  rw [paddingLength, unit] at length
  have aligned : (paddedPlaintext payload nextHeader).length % aesBlockSize = 0 := by
    rw [unit]
    omega
  simp only [SecurityAssociation.keying, EspKeying.mk.injEq, EspKeyMaterial.mk.injEq] at matching
  obtain ⟨encryption, authentication, -, encryptionKey, authenticationKey⟩ := matching
  have cipherSize := hl.length_cbcEncrypt association.encryption association.encryptionKey
    association.iv.toList _ aligned
  have authenticatedSize : (association.authenticated crypto payload nextHeader).length
      = espFixedHeaderSize + (paddedPlaintext payload nextHeader).length := by
    rw [SecurityAssociation.authenticated, length_append, length_header, cipherSize]
  have cipher : (association.authenticated crypto payload nextHeader).drop espFixedHeaderSize
      = crypto.cbcEncrypt association.encryption association.encryptionKey
        association.iv.toList (paddedPlaintext payload nextHeader) :=
    drop_left' (length_header association)
  have hd := hl.cbcDecrypt_cbcEncrypt association.encryption association.encryptionKey
    association.iv.toList _ aligned
  generalize crypto.cbcEncrypt .. = encrypted at cipherSize cipher hd
  have bytes := sealed.bytes
  generalize mac : (crypto.hmac ..).take association.authentication.icvLength = icv at bytes
  have size : datagram.length
      = (association.authenticated crypto payload nextHeader).length
        + association.authentication.icvLength := by
    rw [bytes, length_append, ← mac, length_take, min_eq_left (hl.icvLength_le _ _ _)]
  have front : datagram.take (datagram.length - association.authentication.icvLength)
      = association.authenticated crypto payload nextHeader := by
    rw [size, Nat.add_sub_cancel, bytes, take_left]
  have back : datagram.drop (datagram.length - association.authentication.icvLength) = icv := by
    rw [size, Nat.add_sub_cancel, bytes, drop_left]
  have hw : (datagram.length - association.authentication.icvLength - espFixedHeaderSize)
      % aesBlockSize = 0 := by
    rw [size, authenticatedSize, Nat.add_sub_cancel, Nat.add_sub_cancel_left]
    exact aligned
  have ho := openPlaintext_padded hnil sealed.known
  simp only [SecurityAssociation.openDatagram, authentication, authenticationKey, encryption,
    encryptionKey, front, back, cipher, sealed.iv_eq, mac, decryptCbc, sealed.keySize,
    cipherSize, aligned, hd, constantTimeEqual_self]
  rw [if_neg (by omega), if_neg (not_not_intro hw), if_neg (by simp)]
  cases ha : (own.replay.accept sequence).1 with
  | true => simp [bind, Except.bind, ho, aesBlockSize]
  | false => simp

end Parsing

/-- A sealed datagram with the association that it was sealed under. -/
structure SealedDatagram where
  association : SecurityAssociation
  payload : Bytes
  requested : Option UInt8
  datagram : Bytes
  deriving Repr, DecidableEq

/-- The two key sets, the keys that either side has used for this direction, and what was
sealed and opened so far.
-/
structure EspPeers where
  sender : EspKeySet
  receiver : EspKeySet
  outbounds : List EspKeying
  inbounds : List EspKeying
  sealed : List SealedDatagram
  opened : List (Nat × Bytes × UInt8)
  deriving Repr, DecidableEq

inductive EspAction where
  | sealPayload (payload : Bytes) (requested : Option UInt8)
  | deliver (index : Nat)
  | installSender (config : EspKeySetConfig) (random : EspResult Block)
  | installReceiver (config : EspKeySetConfig) (random : EspResult Block)

def EspKeySetConfig.outboundKeying (config : EspKeySetConfig) : EspKeying where
  encryption := config.encryption
  authentication := config.authentication
  material := config.outbound

def EspKeySetConfig.inboundKeying (config : EspKeySetConfig) : EspKeying where
  encryption := config.encryption
  authentication := config.authentication
  material := config.inbound

namespace EspPeers

def start (sender receiver : EspKeySet) (senderConfig receiverConfig : EspKeySetConfig)
    : EspPeers where
  sender := sender
  receiver := receiver
  outbounds := [senderConfig.outboundKeying]
  inbounds := [receiverConfig.inboundKeying]
  sealed := []
  opened := []

/-- Any datagram that was sealed can be delivered, any number of times. -/
def step (primitives : EspPrimitives) (peers : EspPeers) : EspAction → EspPeers
  | .sealPayload payload requested =>
    let result := peers.sender.sealPayload primitives payload requested
    { peers with
      sender := result.1
      sealed :=
        match result.2 with
        | .ok datagram =>
          peers.sealed
          ++ [{ association := peers.sender.outbound, payload, requested, datagram }]
        | .error _ => peers.sealed }
  | .deliver index =>
    match peers.sealed[index]? with
    | none => peers
    | some sealed =>
      let result := peers.receiver.openDatagram primitives sealed.datagram
      { peers with
        receiver := result.1
        opened :=
          match result.2 with
          | .ok opened => peers.opened ++ [(index, opened)]
          | .error _ => peers.opened }
  | .installSender config random =>
    match peers.sender.install config random with
    | .error _ => peers
    | .ok sender =>
      { peers with sender, outbounds := config.outboundKeying :: peers.outbounds }
  | .installReceiver config random =>
    match peers.receiver.install config random with
    | .error _ => peers
    | .ok receiver =>
      { peers with receiver, inbounds := config.inboundKeying :: peers.inbounds }

/-- The keys of the two sides match where they share an SPI. -/
def Matching (outbounds inbounds : List EspKeying) : Prop :=
  ∀ outbound ∈ outbounds, ∀ inbound ∈ inbounds,
    outbound.material.spi = inbound.material.spi → outbound = inbound

/-- Two uses of keys have nothing in common. -/
structure Apart (first second : EspKeying) : Prop where
  spi : first.material.spi ≠ second.material.spi
  encryptionKey : first.material.encryptionKey ≠ second.material.encryptionKey
  authenticationKey : first.material.authenticationKey ≠ second.material.authenticationKey

/-- New keys are fresh and match those of the other side, replay protection stays on, and no
empty payload is sealed.
-/
def Admissible (peers : EspPeers) : EspAction → Prop
  | .sealPayload payload _ => payload ≠ []
  | .deliver _ => True
  | .installSender config _ =>
    (∀ used ∈ peers.outbounds, Apart config.outboundKeying used)
    ∧ Matching (config.outboundKeying :: peers.outbounds) peers.inbounds
  | .installReceiver config _ =>
    (∀ used ∈ peers.inbounds, Apart config.inboundKeying used)
    ∧ Matching peers.outbounds (config.inboundKeying :: peers.inbounds)
    ∧ config.disableReplayProtection = false

inductive Reachable (primitives : EspPrimitives) : EspPeers → Prop
  | start (senderConfig receiverConfig : EspKeySetConfig) (senderIv receiverIv : EspResult Block)
      (sender receiver : EspKeySet) (newSender : EspKeySet.new senderConfig senderIv = .ok sender)
      (newReceiver : EspKeySet.new receiverConfig receiverIv = .ok receiver)
      (matching : Matching [senderConfig.outboundKeying] [receiverConfig.inboundKeying])
      (checked : receiverConfig.disableReplayProtection = false)
      : Reachable primitives (start sender receiver senderConfig receiverConfig)
  | step (peers : EspPeers) (action : EspAction) (reachable : Reachable primitives peers)
      (admissible : peers.Admissible action)
      : Reachable primitives (peers.step primitives action)

end EspPeers

end Zay.OpenConnect
