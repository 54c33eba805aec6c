import Zay.Error
import Zay.Lib.MachineInt
import Zay.Lib.RecentSet
import Zay.Net.SocksAddr
import Zay.Text

/-! Packets of the legacy AEAD methods of Shadowsocks (`protocol/shadowsocks_aead192.rs`): a
salt, then an address and a payload sealed under a subkey that the salt selects. A server
refuses a salt that it has seen among its last 16384.
-/

namespace Zay.Shadowsocks

open Lib Net

abbrev Bytes := List UInt8

def tagLength : Nat := 16

def subkeyInfo : Bytes := "ss-subkey".toUTF8.data.toList

def invalidInput (message : String) : IoError where
  kind := .invalidInput
  message := message

def invalidData (message : String) : IoError where
  kind := .invalidData
  message := message

def hostBytes (host : String) : Bytes := host.toUTF8.data.toList

def encodeHost : SocksAddr → IoResult Bytes
  | .ip { ip := .v4 bits, .. } => .ok (0x01 :: toBigEndian 4 bits.toNat)
  | .ip { ip := .v6 bits, .. } => .ok (0x04 :: toBigEndian 16 bits.toNat)
  | .domain host _ =>
    if (hostBytes host).length < 256 then
      .ok (0x03 :: UInt8.ofNat (hostBytes host).length :: hostBytes host)
    else .error (invalidInput "Shadowsocks domain is longer than 255 bytes")

def encodeAddress (destination : SocksAddr) : IoResult Bytes := do
  return (← encodeHost destination) ++ toBigEndian 2 destination.port.toNat

def unsupportedType (kind : UInt8) : IoError :=
  invalidData s!"unsupported Shadowsocks address type: {kind}"

/-- The name behind the type byte 3 and where the port begins. -/
def decodeDomain : Bytes → IoResult (String × Nat)
  | [] => .error (unsupportedType 0x03)
  | length :: rest =>
    if rest.length < length.toNat + 2 then
      .error (invalidData "truncated Shadowsocks domain address")
    else
      match String.fromUTF8? ⟨(rest.take length.toNat).toArray⟩ with
      | none => .error (invalidData "invalid Shadowsocks domain UTF-8")
      | some host => .ok (host, 2 + length.toNat)

/-- The host of an address and where its port begins. -/
def decodeHost : Bytes → IoResult (String × Nat)
  | [] => .error (invalidData "missing Shadowsocks address")
  | kind :: rest =>
    if kind = 0x01 ∧ 6 ≤ rest.length then
      .ok (IpAddr.toString (.v4 (BitVec.ofNat 32 (ofBigEndian (rest.take 4)))), 5)
    else if kind = 0x04 ∧ 18 ≤ rest.length then
      .ok (IpAddr.toString (.v6 (BitVec.ofNat 128 (ofBigEndian (rest.take 16)))), 17)
    else if kind = 0x03 then decodeDomain rest
    else if kind = 0x01 ∨ kind = 0x04 then
      .error (invalidData "truncated Shadowsocks IP address")
    else .error (unsupportedType kind)

/-- The address in front of `data` and its length. -/
def decodeAddress (data : Bytes) : IoResult (SocksAddr × Nat) := do
  let (host, addressLength) ← decodeHost data
  if data.length < addressLength + 2 then
    .error (invalidData "truncated Shadowsocks address port")
  else
    let port := ofBigEndian ((data.drop addressLength).take 2)
    .ok (SocksAddr.new host (UInt16.ofNat port), addressLength + 2)

inductive LegacyAeadKind where
  | aes128Gcm
  | aes192Gcm
  | aes256Gcm
  | chaCha20Poly1305
  | xChaCha20Poly1305
  deriving Repr, DecidableEq

namespace LegacyAeadKind

def parse (value : String) : IoResult LegacyAeadKind :=
  match toAsciiLowercase value with
  | "aes-128-gcm" => .ok .aes128Gcm
  | "aes-192-gcm" => .ok .aes192Gcm
  | "aes-256-gcm" => .ok .aes256Gcm
  | "chacha20-ietf-poly1305" => .ok .chaCha20Poly1305
  | "xchacha20-ietf-poly1305" => .ok .xChaCha20Poly1305
  | _ => .error (invalidInput s!"unsupported legacy Shadowsocks AEAD method: {value}")

def keyLength : LegacyAeadKind → Nat
  | aes128Gcm => 16
  | aes192Gcm => 24
  | aes256Gcm | chaCha20Poly1305 | xChaCha20Poly1305 => 32

def nonceLength : LegacyAeadKind → Nat
  | xChaCha20Poly1305 => 24
  | _ => 12

/-- How the text of the error for a key of the wrong length names the method. -/
def name : LegacyAeadKind → String
  | aes128Gcm => "AES-128-GCM"
  | aes192Gcm => "AES-192-GCM"
  | aes256Gcm => "AES-256-GCM"
  | chaCha20Poly1305 => "ChaCha20-Poly1305"
  | xChaCha20Poly1305 => "XChaCha20-Poly1305"

end LegacyAeadKind

/-- The cryptographic functions of the libraries. -/
structure Primitives where
  md5 : Bytes → Bytes
  /-- HKDF over SHA-1: salt, key, info and the length that is asked for. -/
  hkdfExpand : Bytes → Bytes → Bytes → Nat → Option Bytes
  /-- Key, nonce and plaintext. -/
  encrypt : LegacyAeadKind → Bytes → Bytes → Bytes → Option Bytes
  /-- Key, nonce and ciphertext. -/
  decrypt : LegacyAeadKind → Bytes → Bytes → Bytes → Option Bytes

/-- The cipher of one packet, whose nonce is zero. -/
structure LegacyCipher where
  kind : LegacyAeadKind
  key : Bytes
  deriving Repr, DecidableEq

variable (primitives : Primitives)

namespace LegacyCipher

def new (kind : LegacyAeadKind) (key : Bytes) : IoResult LegacyCipher :=
  if key.length = kind.keyLength then .ok { kind, key }
  else .error (invalidInput s!"invalid {kind.name} key")

def nonce (cipher : LegacyCipher) : Bytes := List.replicate cipher.kind.nonceLength 0

def sealBytes (cipher : LegacyCipher) (plaintext : Bytes) : IoResult Bytes :=
  match primitives.encrypt cipher.kind cipher.key cipher.nonce plaintext with
  | some output => .ok output
  | none => .error (invalidData "Shadowsocks AEAD encryption failed")

def openBytes (cipher : LegacyCipher) (ciphertext : Bytes) : IoResult Bytes :=
  match primitives.decrypt cipher.kind cipher.key cipher.nonce ciphertext with
  | some output => .ok output
  | none => .error (invalidData "invalid Shadowsocks AEAD tag")

end LegacyCipher

/-- The digests of a password, each over the one before, until there are `length` bytes. A
digest has at least one byte, so `length` rounds are enough.
-/
def evpBytes (md5 : Bytes → Bytes) (password : Bytes) (length : Nat)
    : (fuel : Nat) → (key previous : Bytes) → Bytes
  | 0, key, _ => key
  | fuel + 1, key, previous =>
    if key.length < length then
      let digest := md5 (previous ++ password)
      evpBytes md5 password length fuel (key ++ digest.take (length - key.length)) digest
    else key

def evpBytesToKeyLen (password : Bytes) (length : Nat) : Bytes :=
  evpBytes primitives.md5 password length length [] []

/-- The cipher that a salt selects under a key. -/
def subkeyCipher (kind : LegacyAeadKind) (key salt : Bytes) : IoResult LegacyCipher :=
  match primitives.hkdfExpand salt key subkeyInfo kind.keyLength with
  | none => .error (invalidInput "invalid Shadowsocks HKDF length")
  | some subkey => LegacyCipher.new kind subkey

/-- What both kinds of sender put on the wire under a salt. -/
def sealUnder (kind : LegacyAeadKind) (key salt : Bytes) (destination : SocksAddr) (payload : Bytes)
    : IoResult Bytes := do
  let address ← encodeAddress destination
  let cipher ← subkeyCipher primitives kind key salt
  return salt ++ (← cipher.sealBytes primitives (address ++ payload))

/-- A plaintext is an address and the payload behind it. -/
def splitPlaintext (plaintext : Bytes) : IoResult (SocksAddr × Bytes) := do
  let (destination, addressLength) ← decodeAddress plaintext
  return (destination, plaintext.drop addressLength)

def replayCapacity : Nat := 16384

/-- `ReplayCache` and `VariableReplayCache`, which differ in the type of a salt only. -/
abbrev ReplayCache := RecentSet Bytes replayCapacity

def replayedSalt : IoError where
  kind := .permissionDenied
  message := "replayed Shadowsocks AEAD salt"

def ReplayCache.check (cache : ReplayCache) (salt : Bytes) : IoResult ReplayCache :=
  if seen : salt ∈ cache.members then .error replayedSalt else .ok (cache.enter salt seen)

/-- The frame of both `open_packet` functions: the salt of a packet of sufficient length is
checked and remembered, then the packet is opened.
-/
def openSalted {σ ρ : Type} (saltLength : Nat) (checkReplay : Bytes → IoResult σ) (state : σ)
    (openSealed : Bytes → Bytes → IoResult ρ) (packet : Bytes)
    : σ × IoResult ρ :=
  if packet.length < saltLength + tagLength + 1 then
    (state, .error (invalidData "truncated Shadowsocks AEAD packet"))
  else
    match checkReplay (packet.take saltLength) with
    | .error error => (state, .error error)
    | .ok state => (state, openSealed (packet.take saltLength) (packet.drop saltLength))

def saltLength : Nat := 24

structure Aes192GcmMethod where
  key : Bytes
  replay : Option ReplayCache

namespace Aes192GcmMethod

def new (password : String) : IoResult Aes192GcmMethod :=
  if password.isEmpty then .error (invalidInput "missing Shadowsocks password")
  else .ok { key := evpBytesToKeyLen primitives (hostBytes password) saltLength, replay := none }

def newServer (password : String) : IoResult Aes192GcmMethod := do
  return { ← new primitives password with replay := some RecentSet.empty }

variable (method : Aes192GcmMethod)

/-- A client keeps no cache. -/
def checkReplay (salt : Bytes) : IoResult Aes192GcmMethod :=
  match method.replay with
  | none => .ok method
  | some cache => do return { method with replay := some (← cache.check salt) }

def openSealed (key salt ciphertext : Bytes) : IoResult (SocksAddr × Bytes) := do
  let cipher ← subkeyCipher primitives .aes192Gcm key salt
  let plaintext ← cipher.openBytes primitives ciphertext
  splitPlaintext plaintext

def openPacket (packet : Bytes) : Aes192GcmMethod × IoResult (SocksAddr × Bytes) :=
  openSalted saltLength method.checkReplay method (openSealed primitives method.key) packet

end Aes192GcmMethod

structure LegacyAeadMethod where
  kind : LegacyAeadKind
  key : Bytes
  deriving Repr, DecidableEq

namespace LegacyAeadMethod

def new (kind : LegacyAeadKind) (password : String) : IoResult LegacyAeadMethod :=
  if password.isEmpty then .error (invalidInput "missing Shadowsocks user password")
  else .ok { kind, key := evpBytesToKeyLen primitives (hostBytes password) kind.keyLength }

variable (method : LegacyAeadMethod)

def cipher (salt : Bytes) : IoResult LegacyCipher :=
  subkeyCipher primitives method.kind method.key salt

/-- `seal_packet` with the salt that it draws at random as an argument. -/
def sealPacket (salt : Bytes) (destination : SocksAddr) (payload : Bytes) : IoResult Bytes :=
  sealUnder primitives method.kind method.key salt destination payload

end LegacyAeadMethod

structure MultiLegacyAeadServer where
  kind : LegacyAeadKind
  users : List (String × LegacyAeadMethod)
  replay : ReplayCache

/-- What a packet of one of the users holds, and the index and the name of that user. -/
structure UserPacket where
  index : Nat
  user : String
  destination : SocksAddr
  payload : Bytes
  deriving Repr, DecidableEq

namespace MultiLegacyAeadServer

def new (primitives : Primitives) (method : String) (users : List (String × String))
    : IoResult MultiLegacyAeadServer := do
  let kind ← LegacyAeadKind.parse method
  let users ← users.mapM fun user => do
    return (user.1, ← LegacyAeadMethod.new primitives kind user.2)
  return { kind, users, replay := RecentSet.empty }

def checkReplay (server : MultiLegacyAeadServer) (salt : Bytes)
    : IoResult MultiLegacyAeadServer := do
  return { server with replay := ← server.replay.check salt }

/-- The first user whose key opens the packet has sent it. -/
def openSealed (primitives : Primitives) (salt ciphertext : Bytes)
    : (index : Nat) → List (String × LegacyAeadMethod) → IoResult UserPacket
  | _, [] => .error { kind := .permissionDenied, message := "unknown Shadowsocks user" }
  | index, (user, method) :: rest => do
    let cipher ← method.cipher primitives salt
    match cipher.openBytes primitives ciphertext with
    | .error _ => openSealed primitives salt ciphertext (index + 1) rest
    | .ok plaintext =>
      let (destination, payload) ← splitPlaintext plaintext
      return { index, user, destination, payload }

def openPacket (server : MultiLegacyAeadServer) (packet : Bytes)
    : MultiLegacyAeadServer × IoResult UserPacket :=
  openSalted server.kind.keyLength server.checkReplay server
    (openSealed primitives · · 0 server.users) packet

end MultiLegacyAeadServer

end Zay.Shadowsocks
