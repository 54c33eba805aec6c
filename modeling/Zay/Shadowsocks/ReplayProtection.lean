import Zay.Lib.Checks
import Zay.Shadowsocks.LegacyAead

/-! What the replay cache of a Shadowsocks server is worth over a run of packets, most of
which may be forged. The cache takes a salt before the packet is authenticated: it protects
as long as forged packets neither bring the salt of a later packet nor fill the cache.
-/

namespace Zay.Shadowsocks

open Lib Net LegacyCipher RecentSet List SocksAddr

theorem fromUTF8_hostBytes (host) : String.fromUTF8? ⟨(hostBytes host).toArray⟩ = some host := by
  have bytes : (⟨(hostBytes host).toArray⟩ : ByteArray) = host.toUTF8 := by
    simp [hostBytes]
  rw [bytes, String.fromUTF8?, String.toUTF8_eq_toByteArray, dif_pos host.isValidUTF8]
  rfl

variable {destination : SocksAddr} {address : Bytes} {run : List Bytes}

theorem decodeHost_append {host port} (hc : encodeHost destination = .ok host)
    (two : 2 ≤ port.length)
    : decodeHost (host ++ port) = .ok (destination.host, host.length) := by
  rcases destination with ⟨⟨bits | bits, number⟩⟩ | ⟨name, number⟩
  · cases hc
    have hs : bits.toNat < 256 ^ 4 := bits.isLt
    have value := ofBigEndian_toBigEndian hs
    have size : 6 ≤ (toBigEndian 4 bits.toNat ++ port).length := by simp; omega
    rw [cons_append, decodeHost, if_pos ⟨rfl, size⟩,
      take_left' (length_toBigEndian 4 bits.toNat), value]
    simp [host]
  · cases hc
    have hs : bits.toNat < 256 ^ 16 := bits.isLt
    have value := ofBigEndian_toBigEndian hs
    have size : 18 ≤ (toBigEndian 16 bits.toNat ++ port).length := by simp; omega
    rw [cons_append, decodeHost, if_neg (by simp), if_pos ⟨rfl, size⟩,
      take_left' (length_toBigEndian 16 bits.toNat), value]
    simp [host]
  · rw [encodeHost] at hc
    split at hc
    next hlt =>
      cases hc
      have length : (UInt8.ofNat (hostBytes name).length).toNat = (hostBytes name).length := by
        simp; omega
      have he : ¬(hostBytes name ++ port).length < (hostBytes name).length + 2 := by
        simp; omega
      rw [cons_append, cons_append, decodeHost, if_neg (by simp), if_neg (by simp),
        if_pos rfl, decodeDomain, length, if_neg he, take_left, fromUTF8_hostBytes]
      simp [host]
      omega
    · cases hc

section

variable (hc : encodeAddress destination = .ok address)
include hc

theorem decodeAddress_append (payload : Bytes)
    : decodeAddress (address ++ payload)
      = .ok (new destination.host destination.port, address.length) := by
  obtain ⟨host, hostEncoded, hj⟩ := bind_eq_ok.mp hc
  cases hj
  have hs : destination.port.toNat < 256 ^ 2 := destination.port.toNat_lt
  have two : 2 ≤ (toBigEndian 2 destination.port.toNat ++ payload).length := by
    rw [length_append, length_toBigEndian]
    omega
  have hd := decodeHost_append hostEncoded two
  have he : ¬(host ++ (toBigEndian 2 destination.port.toNat ++ payload)).length
      < host.length + 2 := by
    rw [length_append]
    omega
  rw [append_assoc, decodeAddress, hd]
  simp only [bind, Except.bind, he, ↓reduceIte]
  simp [ofBigEndian_toBigEndian hs]

theorem splitPlaintext_append (payload : Bytes)
    : splitPlaintext (address ++ payload)
      = .ok (new destination.host destination.port, payload) := by
  simp [splitPlaintext, decodeAddress_append hc]

theorem encodeAddress_ne_nil : address ≠ [] := by
  obtain ⟨_, -, hj⟩ := bind_eq_ok.mp hc
  cases hj
  intro empty
  have size := congrArg length empty
  simp at size

end

/-- What is assumed of the ciphers: a packet opens under the key that sealed it, and under no
other key of the method.
-/
structure Primitives.Lawful (primitives : Primitives) : Prop where
  expands
    : ∀ kind salt key, ∃ subkey,
      primitives.hkdfExpand salt key subkeyInfo (LegacyAeadKind.keyLength kind) = some subkey
      ∧ subkey.length = kind.keyLength
  tagged
    : ∀ kind key nonce plaintext sealed, key.length = LegacyAeadKind.keyLength kind →
      primitives.encrypt kind key nonce plaintext = some sealed →
      plaintext.length + tagLength ≤ sealed.length
  opens
    : ∀ kind key nonce plaintext sealed, key.length = LegacyAeadKind.keyLength kind →
      primitives.encrypt kind key nonce plaintext = some sealed →
      primitives.decrypt kind key nonce sealed = some plaintext
  only
    : ∀ kind key other nonce plaintext sealed opened, key.length = LegacyAeadKind.keyLength kind →
      other.length = kind.keyLength → primitives.encrypt kind key nonce plaintext = some sealed →
      primitives.decrypt kind other nonce sealed = some opened → other = key

inductive PacketServer where
  | single (method : Aes192GcmMethod)
  | multi (server : MultiLegacyAeadServer)

namespace PacketServer

/-- A server as it is constructed. -/
inductive Started (primitives : Primitives) : PacketServer → Prop
  | single (password : String) (method : Aes192GcmMethod)
      (made : Aes192GcmMethod.newServer primitives password = .ok method)
      : Started primitives (.single method)
  | multi (name : String) (users : List (String × String)) (server : MultiLegacyAeadServer)
      (made : MultiLegacyAeadServer.new primitives name users = .ok server)
      : Started primitives (.multi server)

/-- `open_packet`, without the name of the user. -/
def openPacket (primitives : Primitives)
    : PacketServer → Bytes → PacketServer × IoResult (SocksAddr × Bytes)
  | .single method, packet =>
    (.single (method.openPacket primitives packet).1, (method.openPacket primitives packet).2)
  | .multi server, packet =>
    (.multi (server.openPacket primitives packet).1,
      (server.openPacket primitives packet).2.map fun opened =>
        (opened.destination, opened.payload))

/-- The server after a run of packets. -/
def serve (primitives : Primitives) (server : PacketServer) (packets : List Bytes)
    : PacketServer :=
  packets.foldl (fun server packet => (server.openPacket primitives packet).1) server

def Accepts (primitives : Primitives) (server : PacketServer) (packet : Bytes) : Prop :=
  ∃ opened, (server.openPacket primitives packet).2 = .ok opened

def saltLength : PacketServer → Nat
  | .single _ => Shadowsocks.saltLength
  | .multi server => server.kind.keyLength

/-- The keys of the legitimate senders. -/
def methods : PacketServer → List LegacyAeadMethod
  | .single method => [{ kind := .aes192Gcm, key := method.key }]
  | .multi server => server.users.map Prod.snd

/-- The salt of a packet that is long enough to be checked. -/
def saltOf (server : PacketServer) (packet : Bytes) : Option Bytes :=
  if packet.length < server.saltLength + tagLength + 1 then none
  else some (packet.take server.saltLength)

/-- The packet opens under the key of a legitimate sender. -/
def authenticates (primitives : Primitives) (server : PacketServer) (packet : Bytes) : Bool :=
  match server.saltOf packet with
  | none => false
  | some salt =>
    server.methods.any fun method =>
      (method.cipher primitives salt >>= fun cipher =>
        cipher.openBytes primitives (packet.drop server.saltLength)).isOk

/-- A legitimate sender makes `packet` of these data. -/
def Seals (primitives : Primitives) (server : PacketServer) (salt : Bytes)
    (destination : SocksAddr) (payload packet : Bytes)
    : Prop :=
  salt.length = server.saltLength
  ∧ ∃ method ∈ server.methods,
    method.sealPacket primitives salt destination payload = .ok packet

--------
-- The cache of a server
--------

def cache : PacketServer → Option ReplayCache
  | .single method => method.replay
  | .multi server => some server.replay

def withCache : PacketServer → ReplayCache → PacketServer
  | .single method, cache => .single { method with replay := some cache }
  | .multi server, cache => .multi { server with replay := cache }

/-- Opening without the check of the salt. -/
def openSealed (primitives : Primitives)
    : PacketServer → Bytes → Bytes → IoResult (SocksAddr × Bytes)
  | .single method, salt, sealed => Aes192GcmMethod.openSealed primitives method.key salt sealed
  | .multi server, salt, sealed =>
    (MultiLegacyAeadServer.openSealed primitives salt sealed 0 server.users).map fun opened =>
      (opened.destination, opened.payload)

section

variable (server : PacketServer)

@[simp] theorem openSealed_withCache (crypto cache)
    : (server.withCache cache).openSealed crypto = server.openSealed crypto := by
  cases server <;> rfl

section

variable (cache : ReplayCache)

@[simp] theorem cache_withCache : (server.withCache cache).cache = some cache := by
  cases server <;> rfl

@[simp] theorem saltOf_withCache : (server.withCache cache).saltOf = server.saltOf := by
  cases server <;> rfl

@[simp] theorem saltLength_withCache : (server.withCache cache).saltLength = server.saltLength := by
  cases server <;> rfl

end

@[simp] theorem withCache_withCache (first second)
    : (server.withCache first).withCache second = server.withCache second := by
  cases server <;> rfl

end

variable {server : PacketServer} {cache : ReplayCache} {crypto : Primitives}
  {salt packet payload : Bytes} {kind : LegacyAeadKind}

theorem withCache_self (hh : server.cache = some cache) : server.withCache cache = server := by
  cases server with
  | single method =>
    obtain ⟨_, replay⟩ := method
    cases hh
    rfl
  | multi server =>
    obtain ⟨_, _, replay⟩ := server
    cases hh
    rfl

theorem Started.cache_eq (hs : Started crypto server)
    : server.cache = some empty := by
  cases hs with
  | single _ _ made =>
    obtain ⟨_, -, hj⟩ := bind_eq_ok.mp made
    cases hj
    rfl
  | multi _ _ server made =>
    obtain ⟨_, -, rest⟩ := bind_eq_ok.mp made
    obtain ⟨_, -, hj⟩ := bind_eq_ok.mp rest
    cases hj
    rfl

section

variable (crypto) (hh : server.cache = some cache)

include hh

theorem openPacket_eq_openSalted (packet : Bytes)
    : server.openPacket crypto packet
      = openSalted server.saltLength (fun salt => (cache.check salt).map server.withCache) server
        (server.openSealed crypto) packet := by
  cases server with
  | single method =>
    obtain ⟨_, replay⟩ := method
    cases hh
    by_cases hs : packet.length < Shadowsocks.saltLength + tagLength + 1
    · simp [openPacket, Aes192GcmMethod.openPacket, openSalted, saltLength, hs]
    simp only [openPacket, Aes192GcmMethod.openPacket, openSalted, saltLength, hs, ↓reduceIte,
      Aes192GcmMethod.checkReplay]
    cases cache.check (packet.take Shadowsocks.saltLength) <;> rfl
  | multi server =>
    obtain ⟨kind, _, replay⟩ := server
    cases hh
    by_cases hs : packet.length < kind.keyLength + tagLength + 1
    · simp [openPacket, MultiLegacyAeadServer.openPacket, openSalted, saltLength, hs, Except.map]
    simp only [openPacket, MultiLegacyAeadServer.openPacket, openSalted, saltLength,
      hs, ↓reduceIte, MultiLegacyAeadServer.checkReplay]
    cases replay.check (packet.take kind.keyLength) <;> rfl

theorem openPacket_of_short (hs : server.saltOf packet = none)
    : server.openPacket crypto packet
      = (server, .error (invalidData "truncated Shadowsocks AEAD packet")) := by
  rw [openPacket_eq_openSalted crypto hh]
  exact if_pos (by simpa [saltOf] using hs)

/-- The cache is offered the salt of the packet, whether the packet opens or not. -/
theorem openPacket_of_long (hl : server.saltOf packet = some salt)
    : server.openPacket crypto packet
      = (server.withCache (cache.offer salt),
        if salt ∈ cache.members then .error replayedSalt
        else server.openSealed crypto salt (packet.drop server.saltLength)) := by
  unfold saltOf at hl
  split at hl
  · cases hl
  next he =>
    cases hl
    rw [openPacket_eq_openSalted crypto hh, openSalted, if_neg he, ReplayCache.check, offer]
    by_cases seen : packet.take server.saltLength ∈ cache.members
    · rw [dif_pos seen, dif_pos seen, if_pos seen, withCache_self hh]
      rfl
    rw [dif_neg seen, dif_neg seen, if_neg seen]
    rfl

theorem fst_openPacket (packet : Bytes)
    : (server.openPacket crypto packet).1
      = server.withCache (cache.offerAll (server.saltOf packet).toList) := by
  cases hl : server.saltOf packet with
  | none =>
    rw [openPacket_of_short crypto hh hl]
    exact (withCache_self hh).symm
  | some _ =>
    rw [openPacket_of_long crypto hh hl]
    rfl

theorem serve_eq (packets)
    : server.serve crypto packets
      = server.withCache (cache.offerAll (packets.filterMap server.saltOf)) := by
  induction packets generalizing server cache with
  | nil => exact (withCache_self hh).symm
  | cons packet _ ih =>
    have hr := ih (server.cache_withCache (cache.offerAll (server.saltOf packet).toList))
    rw [serve, foldl_cons, ← serve, fst_openPacket crypto hh, hr]
    rw [saltOf_withCache, withCache_withCache]
    cases salt : server.saltOf packet <;> simp [offerAll, salt]

theorem accepts_iff (packet : Bytes)
    : server.Accepts crypto packet
      ↔ ∃ salt, server.saltOf packet = some salt ∧ salt ∉ cache.members
        ∧ ∃ opened,
          server.openSealed crypto salt (packet.drop server.saltLength) = .ok opened := by
  unfold Accepts
  cases hl : server.saltOf packet with
  | none => simp [openPacket_of_short crypto hh hl]
  | some salt =>
    rw [openPacket_of_long crypto hh hl]
    by_cases seen : salt ∈ cache.members <;> simp [seen]

theorem accepts_serve_iff (run) (packet : Bytes)
    : (server.serve crypto run).Accepts crypto packet
      ↔ ∃ salt, server.saltOf packet = some salt
        ∧ salt ∉ (cache.offerAll (run.filterMap server.saltOf)).members
        ∧ ∃ opened,
          server.openSealed crypto salt (packet.drop server.saltLength) = .ok opened := by
  rw [serve_eq crypto hh, accepts_iff crypto (cache_withCache ..), saltOf_withCache,
    openSealed_withCache, saltLength_withCache]

end

--------
-- Which packets open
--------

variable {sealed key : Bytes} {users : List (String × LegacyAeadMethod)}

theorem openSealed_multi_opens {index opened}
    (result : MultiLegacyAeadServer.openSealed crypto salt sealed index users = .ok opened)
    : ∃ method ∈ users.map Prod.snd, ∃ cipher plaintext,
      method.cipher crypto salt = .ok cipher
      ∧ cipher.openBytes crypto sealed = .ok plaintext := by
  induction users generalizing index with
  | nil => cases result
  | cons user _ ih =>
    obtain ⟨cipher, derived, tried⟩ := bind_eq_ok.mp result
    cases opens : cipher.openBytes crypto sealed with
    | error error =>
      rw [opens] at tried
      obtain ⟨method, hm, hf⟩ := ih tried
      exact ⟨method, mem_cons_of_mem _ hm, hf⟩
    | ok plaintext =>
      exact ⟨user.2, mem_cons_self, cipher, plaintext, derived, opens⟩

/-- Only an authentic packet is accepted. -/
theorem authenticates_of_openSealed {ho} (hl : server.saltOf packet = some salt)
    (result : server.openSealed crypto salt (packet.drop server.saltLength) = .ok ho)
    : server.authenticates crypto packet := by
  have method : ∃ method ∈ server.methods, ∃ cipher plaintext,
      method.cipher crypto salt = .ok cipher
      ∧ cipher.openBytes crypto (packet.drop server.saltLength) = .ok plaintext := by
    cases server with
    | single method =>
      obtain ⟨cipher, derived, rest⟩ := bind_eq_ok.mp result
      obtain ⟨plaintext, opens, -⟩ := bind_eq_ok.mp rest
      exact ⟨_, mem_singleton_self _, cipher, plaintext, derived, opens⟩
    | multi server =>
      simp only [openSealed, Except.map] at result
      split at result
      · cases result
      next ho hf =>
        exact openSealed_multi_opens hf
  obtain ⟨method, hm, cipher, plaintext, derived, opens⟩ := method
  rw [authenticates, hl]
  refine any_eq_true.mpr ⟨method, hm, ?_⟩
  rw [derived]
  exact congrArg Except.isOk opens

theorem sealUnder_eq_ok (made : sealUnder crypto kind key salt destination payload = .ok packet)
    : ∃ address subkey sealed, encodeAddress destination = .ok address
      ∧ subkey.length = kind.keyLength
      ∧ subkeyCipher crypto kind key salt = .ok { kind, key := subkey }
      ∧ crypto.encrypt kind subkey (replicate kind.nonceLength 0) (address ++ payload)
        = some sealed
      ∧ packet = salt ++ sealed := by
  obtain ⟨address, hc, rest⟩ := bind_eq_ok.mp made
  obtain ⟨cipher, derived, rest⟩ := bind_eq_ok.mp rest
  obtain ⟨sealed, sealing, hj⟩ := bind_eq_ok.mp rest
  cases hj
  obtain ⟨subkey, size, rfl⟩
      : ∃ subkey, subkey.length = kind.keyLength ∧ cipher = { kind, key := subkey } := by
    unfold subkeyCipher LegacyCipher.new at derived
    split at derived
    · cases derived
    split at derived <;> cases derived
    exact ⟨_, ‹_›, rfl⟩
  cases encrypted : crypto.encrypt kind subkey (replicate kind.nonceLength 0)
      (address ++ payload) with
  | none => simp [sealBytes, nonce, encrypted] at sealing
  | some output =>
    have he : output = sealed := by
      simpa [sealBytes, nonce, encrypted] using sealing
    exact ⟨address, subkey, output, hc, size, derived, encrypted, by rw [he]⟩

/-- A packet of one of the users opens, and to the same data under each key that opens it. -/
theorem openSealed_multi_of_sealed (hl : crypto.Lawful) {subkey} (index : Nat) {method}
    (hu : ∀ user ∈ users, user.2.kind = kind) (hm : method ∈ users.map Prod.snd)
    (hc : encodeAddress destination = .ok address) (size : subkey.length = kind.keyLength)
    (derived : method.cipher crypto salt = .ok { kind, key := subkey }) (encrypted
      : crypto.encrypt kind subkey (replicate kind.nonceLength 0) (address ++ payload)
        = some sealed)
    : ∃ opened,
      MultiLegacyAeadServer.openSealed crypto salt sealed index users = .ok opened
      ∧ opened.destination = new destination.host destination.port
      ∧ opened.payload = payload := by
  induction users generalizing index with
  | nil => cases hm
  | cons user rest ih =>
    obtain ⟨name, own⟩ := user
    have kindEq : own.kind = kind := hu _ mem_cons_self
    obtain ⟨other, expanded, otherSize⟩ := hl.expands kind salt own.key
    have tried : own.cipher crypto salt = .ok { kind, key := other } := by
      rw [LegacyAeadMethod.cipher, kindEq, subkeyCipher, expanded]
      exact if_pos otherSize
    cases hd : crypto.decrypt kind other (replicate kind.nonceLength 0) sealed with
    | none =>
      have hr : method ∈ rest.map Prod.snd := by
        rcases mem_cons.mp hm with he | hr
        · have opens := hl.opens kind subkey _ _ _ size encrypted
          rw [he, tried] at derived
          cases derived
          rw [opens] at hd
          cases hd
        · exact hr
      obtain ⟨opened, result, fields⟩ :=
        ih (index + 1) (fun user hm => hu user (mem_cons_of_mem _ hm)) hr
      refine ⟨opened, ?_, fields⟩
      rw [← result]
      simp [MultiLegacyAeadServer.openSealed, tried, openBytes, nonce, hd, bind, Except.bind]
    | some _ =>
      have he := hl.only kind subkey other _ _ _ _ size otherSize encrypted hd
      subst he
      have plain := hl.opens kind other _ _ _ size encrypted
      rw [hd] at plain
      cases plain
      have split := splitPlaintext_append hc payload
      refine ⟨⟨index, name, new destination.host destination.port, payload⟩, ?_, rfl, rfl⟩
      simp [MultiLegacyAeadServer.openSealed, tried, openBytes, nonce, hd, bind,
        Except.bind, split, pure, Except.pure]

/-- All keys of a server are for one method, whose salts are as long as its keys. -/
def Uniform (server : PacketServer) : Prop :=
  ∃ kind, server.saltLength = kind.keyLength ∧ ∀ method ∈ server.methods, method.kind = kind

theorem Started.uniform (hs : Started crypto server) : server.Uniform := by
  cases hs with
  | single _ method made => exact ⟨.aes192Gcm, rfl, by simp [methods]⟩
  | multi _ _ server made =>
    obtain ⟨kind, -, rest⟩ := bind_eq_ok.mp made
    obtain ⟨methods, hl, hj⟩ := bind_eq_ok.mp rest
    cases hj
    refine ⟨kind, rfl, ?_⟩
    intro method hm
    obtain ⟨_, among, rfl⟩ := mem_map.mp hm
    obtain ⟨_, -, made⟩ := mem_of_mapM hl among
    obtain ⟨method, hn, paired⟩ := bind_eq_ok.mp made
    cases paired
    unfold LegacyAeadMethod.new at hn
    split at hn <;> cases hn
    rfl

section

variable (seals : server.Seals crypto salt destination payload packet)
include seals

/-- A packet of a legitimate sender opens to what was sealed. -/
theorem Seals.opens (lawful : crypto.Lawful) (hu : server.Uniform)
    : server.saltOf packet = some salt
      ∧ server.openSealed crypto salt (packet.drop server.saltLength)
        = .ok (new destination.host destination.port, payload) := by
  obtain ⟨length, method, hm, made⟩ := seals
  obtain ⟨kind, saltSize, kinds⟩ := hu
  obtain ⟨address, subkey, sealed, hc, size, derived, encrypted, rfl⟩ := sealUnder_eq_ok made
  have body : (salt ++ sealed).drop server.saltLength = sealed := drop_left' length
  constructor
  · have tagged := lawful.tagged _ _ _ _ _ size encrypted
    have hnil := length_pos_iff.mpr (encodeAddress_ne_nil hc)
    rw [length_append] at tagged
    rw [saltOf, if_neg (by rw [length_append]; omega), take_left' length]
  · rw [body]
    have kindEq := kinds method hm
    rw [kindEq] at size derived encrypted
    cases server with
    | single own =>
      obtain rfl := mem_singleton.mp hm
      cases kindEq
      have opens := lawful.opens _ _ _ _ _ size encrypted
      simp [openSealed, Aes192GcmMethod.openSealed, derived, openBytes, nonce, opens, bind,
        Except.bind, splitPlaintext_append hc]
    | multi own =>
      have he : ∀ user ∈ own.users, user.2.kind = kind := fun user hl =>
        kinds user.2 (mem_map_of_mem hl)
      have own : method.cipher crypto salt = .ok { kind, key := subkey } := by
        rw [LegacyAeadMethod.cipher, kindEq, derived]
      obtain ⟨_, result, target, content⟩ :=
        openSealed_multi_of_sealed lawful 0 he hm hc size own encrypted
      simp [openSealed, result, Except.map, target, content]

theorem Seals.authenticates (hl : crypto.Lawful) (hu : server.Uniform)
    : server.authenticates crypto packet :=
  have ho := seals.opens hl hu
  authenticates_of_openSealed ho.1 ho.2

end

--------
-- Runs
--------

section Runs

variable (primitives : Primitives) (server : PacketServer) (run : List Bytes)

/-- No packet is accepted twice in the run. -/
def NoReplay : Prop :=
  ∀ before packet between after, run = before ++ packet :: between ++ packet :: after →
    (server.serve primitives before).Accepts primitives packet →
    ¬(server.serve primitives (before ++ packet :: between)).Accepts primitives packet

/-- A packet whose salt no authentic packet has used before is accepted as it was sealed. -/
def FreshAccepted : Prop :=
  ∀ before packet after salt destination payload, run = before ++ packet :: after →
    server.Seals primitives salt destination payload packet →
    (∀ earlier ∈ before, server.authenticates primitives earlier →
      server.saltOf earlier ≠ some salt) →
    ((server.serve primitives before).openPacket primitives packet).2
      = .ok (new destination.host destination.port, payload)

/-- The first packet with a salt is not forged when a later one with that salt is authentic. -/
def Unspoiled : Prop :=
  ∀ before packet after, run = before ++ packet :: after →
    server.authenticates primitives packet →
    (∀ earlier ∈ before,
      server.authenticates primitives earlier → server.saltOf earlier ≠ server.saltOf packet) →
    ∀ earlier ∈ before, server.saltOf earlier ≠ server.saltOf packet

/-- Fewer than 16384 other salts, forged or not, come between two deliveries of an authentic
packet.
-/
def Unflooded : Prop :=
  ∀ before packet between after salt, run = before ++ packet :: between ++ packet :: after →
    server.authenticates primitives packet → server.saltOf packet = some salt →
    ((between.filterMap server.saltOf).toFinset.erase salt).card < replayCapacity

end Runs

theorem NoReplay.of_unflooded (hh : server.cache = some cache)
    (unflooded : Unflooded crypto server run)
    : NoReplay crypto server run := by
  intro hb packet between after split first second
  rw [accepts_serve_iff crypto hh] at first second
  obtain ⟨salt, hl, hn, _, result⟩ := first
  obtain ⟨_, longAgain, hno, -⟩ := second
  rw [hl] at longAgain
  cases longAgain
  have few := unflooded hb packet between after salt split
    (authenticates_of_openSealed hl result) hl
  have entered := holds_offer hn (between.filterMap server.saltOf).toFinset (by decide)
  have hk := entered.offerAll (between.filterMap server.saltOf) few fun _ hm => mem_toFinset.mpr hm
  apply hno
  rw [filterMap_append, filterMap_cons_some hl, offerAll, foldl_append]
  exact hk.mem

theorem FreshAccepted.of_unspoiled (lawful : crypto.Lawful)
    (hs : Started crypto server) (unspoiled : Unspoiled crypto server run)
    : FreshAccepted crypto server run := by
  intro hb packet after salt destination payload split seals hn
  have authentic := seals.authenticates lawful hs.uniform
  obtain ⟨hl, ho⟩ := seals.opens lawful hs.uniform
  have unseen := unspoiled hb packet after split authentic (hl ▸ hn)
  rw [serve_eq crypto hs.cache_eq]
  have hno : salt ∉ (empty.offerAll (hb.filterMap server.saltOf) : ReplayCache).members := by
    intro seen
    rcases mem_offerAll seen with old | offered
    · simp [empty] at old
    obtain ⟨earlier, hm, used⟩ := mem_filterMap.mp offered
    exact absurd (used.trans hl.symm) (unseen earlier hm)
  rw [openPacket_of_long crypto (cache_withCache ..) (by rwa [saltOf_withCache]),
    if_neg hno, openSealed_withCache, saltLength_withCache]
  exact ho

/-- Both kinds of server, as constructed, over every run of packets. -/
theorem replay_protection_of_unspoiled_unflooded (primitives : Primitives)
    (lawful : primitives.Lawful) (server : PacketServer) (started : Started primitives server)
    (run : List Bytes) (unspoiled : Unspoiled primitives server run)
    (unflooded : Unflooded primitives server run)
    : NoReplay primitives server run ∧ FreshAccepted primitives server run :=
  ⟨.of_unflooded started.cache_eq unflooded, .of_unspoiled lawful started unspoiled⟩

/-- As many packets with new salts as the cache holds open it to a replay, forged or not. -/
theorem accepts_after_flood (crypto) (hh : server.cache = some cache) {flood}
    (ha : server.Accepts crypto packet) (hl : server.saltOf packet = some salt)
    (hd : (flood.filterMap server.saltOf).Nodup)
    (many : (flood.filterMap server.saltOf).length = replayCapacity)
    (new : ∀ other ∈ flood.filterMap server.saltOf, other ∉ cache.members ∧ other ≠ salt)
    : (server.serve crypto (packet :: flood)).Accepts crypto packet := by
  obtain ⟨same, longAgain, hn, ho⟩ := (accepts_iff crypto hh packet).mp ha
  rw [hl] at longAgain
  cases longAgain
  have unseen : ∀ other ∈ flood.filterMap server.saltOf, other ∉ (cache.offer salt).members := by
    intro other hm offered
    rcases mem_offer offered with old | same
    · exact (new other hm).1 old
    · exact (new other hm).2 same
  have hf := forgets hd unseen many (holds_offer hn ∅ (by decide)).mem
  rw [accepts_serve_iff crypto hh, filterMap_cons_some hl]
  exact ⟨salt, hl, hf, ho⟩

end PacketServer

--------
-- Forged packets
--------

/-- A cipher that writes its key in front of the plaintext. -/
def keyInFront : Primitives where
  md5 _ := replicate 16 7
  hkdfExpand _ _ _ length := some (replicate length 1)
  encrypt _ key _ plaintext := some (key ++ plaintext)
  decrypt _ key _ ciphertext :=
    if key.isPrefixOf ciphertext then some (ciphertext.drop key.length) else none

theorem keyInFront_lawful : keyInFront.Lawful where
  expands kind salt key := ⟨_, rfl, length_replicate⟩
  tagged kind key nonce plaintext sealed size encrypted := by
    cases encrypted
    have tag : tagLength ≤ kind.keyLength := by cases kind <;> decide
    rw [length_append]
    omega
  opens kind key nonce plaintext sealed size encrypted := by
    cases encrypted
    simp [keyInFront]
  only kind key other nonce plaintext sealed opened size otherSize encrypted decrypted := by
    cases encrypted
    simp only [keyInFront] at decrypted
    split at decrypted
    next front =>
      have he := prefix_of_prefix_length_le ( isPrefixOf_iff_prefix.mp front)
        (prefix_append key plaintext) (by rw [size, otherSize])
      exact he.eq_of_length (by rw [size, otherSize])
    · cases decrypted

/-- A server with the password `password`. -/
def exampleServer : PacketServer :=
  .single { key := evpBytesToKeyLen keyInFront (hostBytes "password") saltLength
            replay := some empty }

theorem exampleServer_started : PacketServer.Started keyInFront exampleServer :=
  .single "password" _ rfl

def exampleSalt : Bytes := replicate 24 255

/-- A DNS query to 127.0.0.1. -/
def examplePacket : Bytes :=
  exampleSalt ++ replicate 24 1 ++ [0x01, 127, 0, 0, 1, 0, 53, 0x64, 0x6e, 0x73]

theorem exampleServer_seals
    : exampleServer.Seals keyInFront exampleSalt (.ip { ip := .v4 0x7f000001, port := 53 })
      [0x64, 0x6e, 0x73] examplePacket :=
  ⟨by decide, _, mem_singleton_self _, by decide +kernel⟩

/-- A packet under a salt that no key opens. -/
def forged (salt : Bytes) : Bytes := salt ++ replicate 17 0

variable {salt : Bytes}

theorem saltOf_forged (length : salt.length = 24)
    : exampleServer.saltOf (forged salt) = some salt := by
  have hl : ¬(forged salt).length < saltLength + tagLength + 1 := by
    simp [forged, length, saltLength, tagLength]
  rw [PacketServer.saltOf]
  exact (if_neg hl).trans (congrArg some (take_left' length))

theorem authenticates_forged (length : salt.length = 24)
    : exampleServer.authenticates keyInFront (forged salt) = false := by
  have body : (forged salt).drop exampleServer.saltLength = replicate 17 0 :=
    drop_left' length
  rw [PacketServer.authenticates, saltOf_forged length, body]
  rfl

/-- The same packet twice. -/
theorem replay_protection_query_twice
    : PacketServer.NoReplay keyInFront exampleServer [examplePacket, examplePacket]
      ∧ PacketServer.FreshAccepted keyInFront exampleServer [examplePacket, examplePacket] := by
  apply PacketServer.replay_protection_of_unspoiled_unflooded keyInFront keyInFront_lawful
    exampleServer exampleServer_started
  · rintro (_ | ⟨first, _ | ⟨second, before⟩⟩) packet after split authentic alone
    · simp
    · simp only [cons_append, nil_append, cons.injEq] at split
      obtain ⟨rfl, rfl, -⟩ := split
      exact absurd rfl (alone examplePacket (by simp) authentic)
    · simp at split
  · intro before packet between after salt split _ _
    have size := congrArg length split
    simp only [length_cons, length_append, length_nil] at size
    have nothing : between = [] := length_eq_zero_iff.mp (by omega)
    simp [nothing, replayCapacity]

def floodSalts : List Bytes := (range replayCapacity).map (toBigEndian 24)

theorem mem_floodSalts (hm : salt ∈ floodSalts)
    : ∃ value < replayCapacity, toBigEndian 24 value = salt := by
  obtain ⟨value, hw, he⟩ := mem_map.mp hm
  exact ⟨value, mem_range.mp hw, he⟩

theorem length_of_mem_floodSalts (hm : salt ∈ floodSalts) : salt.length = 24 := by
  obtain ⟨value, -, rfl⟩ := mem_floodSalts hm
  exact length_toBigEndian 24 value

theorem ofBigEndian_flood {value} (hw : value < replayCapacity)
    : ofBigEndian (toBigEndian 24 value) = value :=
  ofBigEndian_toBigEndian (Nat.lt_trans hw (by decide))

theorem nodup_floodSalts : floodSalts.Nodup := by
  refine List.Nodup.map_on ?_ nodup_range
  intro first firstWithin second secondWithin he
  rw [← ofBigEndian_flood (mem_range.mp firstWithin), he,
    ofBigEndian_flood (mem_range.mp secondWithin)]

theorem exampleSalt_notMem_floodSalts : exampleSalt ∉ floodSalts := by
  intro hm
  obtain ⟨_, hw, he⟩ := mem_floodSalts hm
  have large : ¬ofBigEndian exampleSalt < replayCapacity := by decide
  rw [← he, ofBigEndian_flood hw] at large
  exact large hw

theorem filterMap_saltOf_forged {salts : List Bytes} (hl : ∀ salt ∈ salts, salt.length = 24)
    : (salts.map forged).filterMap exampleServer.saltOf = salts := by
  induction salts with
  | nil => rfl
  | cons salt _ ih =>
    rw [map_cons, filterMap_cons_some (saltOf_forged (hl salt mem_cons_self)),
      ih fun other hm => hl other (mem_cons_of_mem _ hm)]

/-- A flood of forged packets makes the server accept a query twice, and a single forged packet
with the salt of a query makes it refuse the query.
-/
theorem forged_packets_break_protection
    : keyInFront.Lawful ∧ PacketServer.Started keyInFront exampleServer
      ∧ (∃ run : List Bytes,
          (run.filter (exampleServer.authenticates keyInFront)).length ≤ 16384
          ∧ ¬PacketServer.NoReplay keyInFront exampleServer run)
      ∧ ∃ run : List Bytes,
        (run.filter (exampleServer.authenticates keyInFront)).length ≤ 16384
        ∧ ¬PacketServer.FreshAccepted keyInFront exampleServer run := by
  refine ⟨keyInFront_lawful, exampleServer_started, ?_, ?_⟩
  · have holds := exampleServer_started.cache_eq
    have lengths : ∀ salt ∈ floodSalts, salt.length = 24 := fun _ => length_of_mem_floodSalts
    have salts := filterMap_saltOf_forged lengths
    have opened := exampleServer_seals.opens keyInFront_lawful exampleServer_started.uniform
    have first : exampleServer.Accepts keyInFront examplePacket :=
      (PacketServer.accepts_iff keyInFront holds examplePacket).mpr
        ⟨exampleSalt, opened.1, by simp [empty], _, opened.2⟩
    have second : (exampleServer.serve keyInFront
        (examplePacket :: floodSalts.map forged)).Accepts keyInFront examplePacket := by
      apply PacketServer.accepts_after_flood keyInFront holds first opened.1
      · rw [salts]
        exact nodup_floodSalts
      · rw [salts, floodSalts, length_map, length_range]
      · rw [salts]
        intro other member
        refine ⟨by simp [empty], ?_⟩
        rintro rfl
        exact exampleSalt_notMem_floodSalts member
    refine ⟨[] ++ examplePacket :: floodSalts.map forged ++ examplePacket :: [], ?_, ?_⟩
    · have refused : (floodSalts.map forged).filter (exampleServer.authenticates keyInFront)
          = [] := by
        rw [filter_eq_nil_iff, forall_mem_map]
        exact fun salt listed => by simp [authenticates_forged (lengths salt listed)]
      rw [nil_append, cons_append, filter_cons, filter_append, refused]
      decide +kernel
    · intro protects
      exact protects [] examplePacket (floodSalts.map forged) [] rfl first second
  · refine ⟨[forged exampleSalt, examplePacket], by decide +kernel, ?_⟩
    intro accepts
    have refused := accepts [forged exampleSalt] examplePacket [] _ _ _ rfl exampleServer_seals
      (by
        intro earlier member authentic
        obtain rfl := mem_singleton.mp member
        rw [authenticates_forged (by decide)] at authentic
        cases authentic)
    revert refused
    decide +kernel

end Zay.Shadowsocks
