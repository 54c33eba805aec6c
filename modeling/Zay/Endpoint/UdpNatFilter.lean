import Zay.Lib.Runs
import Zay.Net.SocksAddr

/-! The UDP sessions of a userspace endpoint: the filter of the datagrams that come back
(`common::udp_nat`) behind the translation of the destinations (`PacketDestinationNat`). The
filter knows the destinations that the client names, the peers those that the packets go to.
-/

namespace Zay.Endpoint

open Lib Net List Option Function

inductive UdpNatBehavior where
  | endpointIndependent
  | addressDependent
  | addressAndPortDependent
  deriving Repr, DecidableEq

def behaviorRank : UdpNatBehavior → Nat
  | .endpointIndependent => 0
  | .addressDependent => 1
  | .addressAndPortDependent => 2

structure FilterPeer where
  address : IpAddr
  port : UInt16
  deriving Repr, DecidableEq

def FilterPeer.fromDestination (filtering : UdpNatBehavior) : SocksAddr → Option FilterPeer
  | .domain _ _ => none
  | .ip destination =>
    let address :=
      match destination.ip with
      | .v6 bits => ((toIpv4Mapped bits).map IpAddr.v4).getD (.v6 bits)
      | address => address
    some { address, port := if filtering = .addressDependent then 0 else destination.port }

structure FilterKey where
  sessionId : UInt64
  peer : FilterPeer
  deriving Repr, DecidableEq

/-- The keys of all sessions, the oldest first. -/
structure FilterCache where
  maxSize : Nat
  peers : List FilterKey
  deriving Repr, DecidableEq

def FilterCache.toBack (cache : FilterCache) (key : FilterKey) : Option FilterCache :=
  if key ∈ cache.peers then some { cache with peers := cache.peers.erase key ++ [key] } else none

def FilterCache.enter (cache : FilterCache) (key : FilterKey) : FilterCache :=
  let moved := (cache.toBack key).getD { cache with peers := cache.peers ++ [key] }
  { moved with peers := moved.peers.drop (moved.peers.length - moved.maxSize) }

structure UdpNatFilter where
  filtering : UdpNatBehavior
  cache : Option FilterCache
  nextSessionId : UInt64 := 1

/-- The sessions of a mapping as fine as the filter need no cache: all their packets go to the
initial peer.
-/
def UdpNatFilter.new (mapping filtering : UdpNatBehavior) (maxSize : Nat) : UdpNatFilter where
  filtering
  cache := if behaviorRank mapping < behaviorRank filtering then some ⟨maxSize, []⟩ else none

structure UdpNatFilterSession where
  id : Option UInt64
  filtering : UdpNatBehavior
  initial : Option FilterPeer
  deriving Repr, DecidableEq

/-- `UdpNatFilter::open`. The counter passes over zero. -/
def UdpNatFilter.openSession (filter : UdpNatFilter) (initial : SocksAddr)
    : UdpNatFilterSession where
  id := filter.cache.map fun _ => if filter.nextSessionId = 0 then 1 else filter.nextSessionId
  filtering := filter.filtering
  initial := FilterPeer.fromDestination filter.filtering initial

namespace UdpNatFilterSession

variable (session : UdpNatFilterSession)

def record (destination : SocksAddr) (cache : Option FilterCache) : Option FilterCache := do
  let known ← cache
  match FilterPeer.fromDestination session.filtering destination, session.id with
  | some peer, some sessionId =>
    if session.initial = some peer then known else known.enter { sessionId, peer }
  | _, _ => known

/-- The answer for a source, and the cache in which its key is now the newest. -/
def allows (source : SocksAddr) (cache : Option FilterCache) : Bool × Option FilterCache :=
  if session.filtering = .endpointIndependent then (true, cache)
  else
    match FilterPeer.fromDestination session.filtering source with
    | none => (true, cache)
    | some peer =>
      if session.initial = some peer then (true, cache)
      else
        match cache, session.id with
        | some known, some sessionId =>
          match known.toBack { sessionId, peer } with
          | some moved => (true, some moved)
          | none => (false, some known)
        | _, _ => (false, cache)

def drop (cache : Option FilterCache) : Option FilterCache :=
  cache.map fun known =>
    { known with peers := known.peers.filter fun key => some key.sessionId ≠ session.id }

end UdpNatFilterSession

/-- The destination that selected the connection is rewritten as the route demands, and the
sources of the answers are written back.
-/
structure PacketDestinationNat where
  routeOriginal : SocksAddr
  routeDestination : SocksAddr
  clientRouteOriginal : Option SocksAddr := none
  responseSources : SocksAddr → Option SocksAddr := fun _ => none
  responseSourcesByPort : UInt16 → Option SocksAddr := fun _ => none
  directResponseHosts : List String := []

def isIp : SocksAddr → Bool
  | .ip _ => true
  | .domain _ _ => false

namespace PacketDestinationNat

variable (nat : PacketDestinationNat) (destination clientDestination : SocksAddr)

/-- The destination to route. That of a session for a fake address is the domain as long as
the client keeps to the address.
-/
def restored : SocksAddr :=
  match nat.routeOriginal, nat.clientRouteOriginal.getD clientDestination, clientDestination with
  | .domain host _, .ip routeOrigin, .ip current =>
    if routeOrigin.ip = current.ip then .new host current.port else clientDestination
  | .domain _ _, .ip _, .domain _ _ => clientDestination
  | _, _, _ => destination

def routed : SocksAddr :=
  let destination := nat.restored destination clientDestination
  if destination = nat.routeOriginal then nat.routeDestination else destination

/-- `translate_destination`, which returns `routed` and remembers where it sends the packet. -/
def translateDestination : PacketDestinationNat :=
  let routed := nat.routed destination clientDestination
  let nat := { nat with
    clientRouteOriginal := some (nat.clientRouteOriginal.getD clientDestination) }
  if routed ≠ clientDestination then
    { nat with
      responseSources := update nat.responseSources routed (some clientDestination)
      responseSourcesByPort :=
        update nat.responseSourcesByPort routed.port (some clientDestination) }
  else if isIp routed then
    { nat with directResponseHosts := routed.host :: nat.directResponseHosts }
  else nat

def translateSource (source : SocksAddr) : SocksAddr :=
  match nat.responseSources source with
  | some clientSource => clientSource
  | none =>
    if isIp source ∧ source.host ∈ nat.directResponseHosts then source
    else (nat.responseSourcesByPort source.port).getD source

end PacketDestinationNat

/-- A packet of the client: the address it names, and what a local or fake address among them
stands for.
-/
structure ClientPacket where
  destination : SocksAddr
  original : SocksAddr
  deriving Repr, DecidableEq

/-- A session with the cache that it shares with others. `recorded`, `sent` and `delivered` are
its history: the destinations of the client, each packet with the address that it was sent to,
and the sources of the datagrams that went to the client.
-/
structure NatSession where
  filter : UdpNatFilterSession
  cache : Option FilterCache
  destinationNat : PacketDestinationNat
  /-- The packets that are recorded and wait for the lock of `destinationNat`. -/
  pending : List ClientPacket := []
  /-- The packets that are translated and not sent yet. -/
  routed : List (ClientPacket × SocksAddr) := []
  /-- The source of the datagram that the relay holds, as it was and translated. -/
  held : Option (SocksAddr × SocksAddr) := none
  recorded : List SocksAddr
  sent : List (ClientPacket × SocksAddr) := []
  delivered : List SocksAddr := []

inductive FilterUse where
  | records (destination : SocksAddr)
  | asks (source : SocksAddr)
  | ends
  deriving Repr, DecidableEq

inductive NatEvent where
  | packet (packet : ClientPacket)
  | translates (packet : ClientPacket)
  | sends (packet : ClientPacket × SocksAddr)
  | arrives (source : SocksAddr)
  | filters
  /-- Another session of the endpoint uses the cache. -/
  | other (session : UdpNatFilterSession) (use : FilterUse)
  deriving Repr, DecidableEq

def UdpNatFilterSession.used (session : UdpNatFilterSession) (cache : Option FilterCache)
    : FilterUse → Option FilterCache
  | .records destination => session.record destination cache
  | .asks source => (session.allows source cache).2
  | .ends => session.drop cache

namespace NatSession

/-- The session that `route_udp` opens, for the packet that it then records. -/
def start (mapping filtering : UdpNatBehavior) (maxSize : Nat)
    (original routeOriginal routeDestination : SocksAddr) : NatSession :=
  let filter := UdpNatFilter.new mapping filtering maxSize
  { filter := filter.openSession original
    cache := filter.cache
    destinationNat := { routeOriginal, routeDestination }
    recorded := [original] }

variable (session : NatSession)

/-- What `route_udp` and `spawn_udp_response_relay` do under one lock at a time. -/
def step
    : NatEvent → NatSession
  | .packet packet =>
    { session with
      cache := session.filter.record packet.original session.cache
      pending := packet :: session.pending
      recorded := packet.original :: session.recorded }
  | .translates packet =>
    if packet ∈ session.pending then
      let nat := session.destinationNat
      { session with
        destinationNat := nat.translateDestination packet.destination packet.original
        pending := session.pending.erase packet
        routed := (packet, nat.routed packet.destination packet.original) :: session.routed }
    else session
  | .sends packet =>
    if packet ∈ session.routed then
      { session with routed := session.routed.erase packet, sent := packet :: session.sent }
    else session
  | .arrives source =>
    -- the relay is one task
    if session.held.isSome then session
    else { session with held := some (source, session.destinationNat.translateSource source) }
  | .filters =>
    match session.held with
    | none => session
    | some (source, translated) =>
      let (allowed, cache) := session.filter.allows translated session.cache
      { session with
        cache
        held := none
        delivered := if allowed then source :: session.delivered else session.delivered }
  | .other other use =>
    -- the ids come from one counter
    if other.id = session.filter.id then session
    else { session with cache := other.used session.cache use }

def peer : SocksAddr → Option FilterPeer :=
  FilterPeer.fromDestination session.filter.filtering

/-- Every datagram that went to the client came from a peer that a packet was sent to. -/
def Filtered : Prop :=
  ∀ source ∈ session.delivered, ∃ packet ∈ session.sent,
    session.peer source ≠ none ∧ session.peer packet.2 = session.peer source

/-- A source is written back from an address that a packet goes to, or not at all. When the filter
is asked, that packet has been sent, or every packet that the client has for the peer of the source
was sent there as it is.
-/
def Admissible
    : NatEvent → Prop
  | .arrives source =>
    isIp source ∧
      (session.destinationNat.responseSources source ≠ none
        ∨ source.host ∈ session.destinationNat.directResponseHosts
        ∨ session.destinationNat.responseSourcesByPort source.port = none)
  | .filters =>
    ∀ source translated, session.held = some (source, translated) →
      if translated = source then
        ∀ original ∈ session.recorded, session.peer original = session.peer source →
          ∃ packet ∈ session.sent, packet.1.original = original ∧ packet.2 = original
      else ∀ packet ∈ session.routed, packet.2 ≠ source
  | _ => True

end NatSession

/-- What holds of every key in the cache. -/
def Keys (holds : FilterKey → Prop) (cache : Option FilterCache) : Prop :=
  ∀ known, cache = some known → ∀ key ∈ known.peers, holds key

variable {holds : FilterKey → Prop} {cache : Option FilterCache} {session : UdpNatFilterSession}
  {known : FilterCache}

theorem FilterCache.mem_toBack {moved key other} (hf : known.toBack key = some moved)
    (hk : other ∈ moved.peers)
    : other ∈ known.peers := by
  obtain ⟨_, ⟨⟩⟩ := ite_none_right_eq_some.mp hf
  rcases mem_append.mp hk with hk | last
  · exact mem_of_mem_erase hk
  · rwa [mem_singleton.mp last]

theorem FilterCache.mem_of_enter {key other} (hm : other ∈ (known.enter key).peers)
    : other = key ∨ other ∈ known.peers := by
  have hk := mem_of_mem_drop hm
  cases moved : known.toBack key with
  | none => simpa [moved, or_comm] using hk
  | some _ =>
    rw [moved, getD_some] at hk
    exact .inr (mem_toBack moved hk)

theorem Keys.record {destination} (held : Keys holds cache)
    (entered : ∀ peer sessionId, session.id = some sessionId →
      FilterPeer.fromDestination session.filtering destination = some peer →
      holds { sessionId, peer })
    : Keys holds (session.record destination cache) := by
  cases cache with
  | none => exact held
  | some known =>
    intro after he key hm
    simp only [UdpNatFilterSession.record, bind_eq_bind, bind_some] at he
    split at he
    next peer sessionId hf identified =>
      split at he
      · exact held after he key hm
      cases he
      rcases FilterCache.mem_of_enter hm with rfl | earlier
      · exact entered peer sessionId identified hf
      · exact held known rfl key earlier
    · exact held after he key hm

theorem Keys.allows {source} (held : Keys holds cache)
    : Keys holds (session.allows source cache).2 := by
  unfold UdpNatFilterSession.allows
  split
  · exact held
  split
  · exact held
  split
  · exact held
  split
  · split
    next moved toBack =>
      rintro _ ⟨⟩ key hm
      exact held _ rfl key (FilterCache.mem_toBack toBack hm)
    · exact held
  · exact held

theorem Keys.used {use} (held : Keys holds cache)
    (entered : ∀ peer sessionId, session.id = some sessionId → holds { sessionId, peer })
    : Keys holds (session.used cache use) := by
  cases use with
  | records _ => exact held.record fun peer id he _ => entered peer id he
  | asks _ => exact held.allows
  | ends =>
    intro after he key hm
    obtain ⟨known, hf, rfl⟩ := map_eq_some_iff.mp he
    exact held known hf key (mem_of_mem_filter hm)

namespace NatSession

variable {session : NatSession}

/-- The peer was named by the client. -/
def Named (session : NatSession) (peer : FilterPeer) : Prop :=
  ∃ original ∈ session.recorded, session.peer original = some peer

/-- A packet was translated to the address, whether it was sent or not. -/
def Aimed (session : NatSession) (source : SocksAddr) : Prop :=
  ∃ packet ∈ session.routed ++ session.sent, packet.2 = source

structure Sound (session : NatSession) : Prop where
  filters : session.filter.filtering ≠ .endpointIndependent
  initial : ∀ peer, session.filter.initial = some peer → session.Named peer
  keys
    : Keys (fun key => session.filter.id = some key.sessionId → session.Named key.peer)
        session.cache
  sources
    : ∀ source, session.destinationNat.responseSources source ≠ none → session.Aimed source
  held
    : ∀ source translated, session.held = some (source, translated) →
      isIp source ∧ (translated = source ∨ session.Aimed source)
  filtered : session.Filtered

variable {source : SocksAddr}

namespace Sound

variable (hs : session.Sound)

include hs

theorem packet (packet) : (session.step (.packet packet)).Sound := by
  have hr {peer : FilterPeer} (named : session.Named peer)
      : (session.step (.packet packet)).Named peer := by
    obtain ⟨original, hm, he⟩ := named
    exact ⟨original, mem_cons_of_mem _ hm, he⟩
  refine ⟨hs.filters, fun peer he => hr (hs.initial peer he), ?_, hs.sources, hs.held, hs.filtered⟩
  have held : Keys (fun key => session.filter.id = some key.sessionId →
      (session.step (.packet packet)).Named key.peer) session.cache :=
    fun known he key hm own => hr (hs.keys known he key hm own)
  exact held.record fun peer _ _ hf _ => ⟨packet.original, mem_cons_self, hf⟩

/-- A packet that is translated aims at its destination. -/
theorem translates (packet) : (session.step (.translates packet)).Sound := by
  rw [step]
  split
  next =>
    have grows {source} : session.Aimed source → ∃ other ∈ (packet, session.destinationNat.routed
        packet.destination packet.original) :: (session.routed ++ session.sent), other.2 = source :=
      fun ⟨other, hm, he⟩ => ⟨other, mem_cons_of_mem _ hm, he⟩
    refine { hs with
      sources := fun source hf => ?_
      held := fun source _ he => (hs.held source _ he).imp_right (.imp_right grows) }
    by_cases own : source = session.destinationNat.routed packet.destination packet.original
    · exact ⟨_, mem_cons_self, own.symm⟩
    refine grows (hs.sources source ?_)
    simp only [PacketDestinationNat.translateDestination] at hf
    split at hf
    · simpa [update_of_ne own] using hf
    · split at hf <;> exact hf
  · exact hs

theorem sends (packet) : (session.step (.sends packet)).Sound := by
  rw [step]
  split
  next waiting =>
    have moved : (session.routed.erase packet ++ packet :: session.sent).Perm
        (session.routed ++ session.sent) :=
      perm_middle.trans ((perm_cons_erase waiting).symm.append_right _)
    refine { hs with
      sources := fun source hf => ?_
      held := fun source translated he => ?_
      filtered := fun source hm => ?_ }
    · simpa only [Aimed, moved.mem_iff] using hs.sources source hf
    · simpa only [Aimed, moved.mem_iff] using hs.held source translated he
    · obtain ⟨other, hm, peers⟩ := hs.filtered source hm
      exact ⟨other, mem_cons_of_mem _ hm, peers⟩
  · exact hs

/-- A source that no packet goes to is not rewritten. -/
theorem arrives (ha : session.Admissible (.arrives source))
    : (session.step (.arrives source)).Sound := by
  rw [step]
  split
  · exact hs
  refine { hs with held := ?_ }
  rintro _ _ ⟨⟩
  refine ⟨ha.1, or_iff_not_imp_right.mpr fun unaimed => ?_⟩
  have unwritten : session.destinationNat.responseSources source = none :=
    Classical.not_not.mp (mt (hs.sources source) unaimed)
  rw [PacketDestinationNat.translateSource, unwritten]
  rcases ha.2.resolve_left (absurd unwritten) with host | port
  · exact if_pos ⟨ha.1, host⟩
  · simp [port]

/-- The filter lets in what comes from a peer that the client has named. -/
theorem named_of_allows {peer} (hf : session.peer source = some peer)
    (allowed : (session.filter.allows source session.cache).1 = true)
    : session.Named peer := by
  unfold NatSession.peer at hf
  simp only [UdpNatFilterSession.allows, if_neg hs.filters, hf] at allowed
  split at allowed
  next initial => exact hs.initial peer initial
  split at allowed
  next known sessionId he own =>
    split at allowed
    next hm toBack =>
      exact hs.keys known he _ (ite_none_right_eq_some.mp toBack).1 own
    · cases allowed
  · cases allowed

/-- What is let in comes from where a packet was sent. -/
theorem sent_to_source {translated} (ha : session.Admissible .filters)
    (held : session.held = some (source, translated))
    (allowed : (session.filter.allows translated session.cache).1 = true)
    : ∃ packet ∈ session.sent,
        session.peer source ≠ none ∧ session.peer packet.2 = session.peer source := by
  obtain ⟨address, aimed⟩ := hs.held source translated held
  obtain ⟨peer, hf⟩ : ∃ peer, session.peer source = some peer := by
    cases source with
    | ip address => exact ⟨_, rfl⟩
    | domain host port => cases address
  have ha := ha source translated held
  rw [hf]
  split at ha
  next direct =>
    rw [direct] at allowed
    obtain ⟨original, hm, named⟩ := hs.named_of_allows hf allowed
    obtain ⟨packet, sent, -, hu⟩ := ha original hm (named.trans hf.symm)
    exact ⟨packet, sent, nofun, hu ▸ named⟩
  next written =>
    obtain ⟨packet, hm, rfl⟩ := aimed.resolve_left written
    exact ⟨packet, (mem_append.mp hm).resolve_left (ha packet · rfl), nofun, hf⟩

theorem step (event) (ha : session.Admissible event) : (session.step event).Sound := by
  cases event with
  | packet packet => exact hs.packet packet
  | translates packet => exact hs.translates packet
  | sends packet => exact hs.sends packet
  | arrives _ => exact hs.arrives ha
  | filters =>
    rw [NatSession.step]
    split
    · exact hs
    next held =>
      refine { hs with keys := hs.keys.allows, held := nofun, filtered := fun other hm => ?_ }
      simp only at hm
      split at hm
      next allowed =>
        rcases mem_cons.mp hm with rfl | earlier
        · exact hs.sent_to_source ha held allowed
        · exact hs.filtered other earlier
      · exact hs.filtered other hm
  | other other _ =>
    rw [NatSession.step]
    split
    · exact hs
    next foreign =>
      exact { hs with
        keys := hs.keys.used fun _ _ he own => absurd (he.trans own.symm) foreign }

end Sound

theorem sound_start {mapping filtering maxSize original routeOriginal routeDestination}
    (filters : filtering ≠ .endpointIndependent)
    : (start mapping filtering maxSize original routeOriginal routeDestination).Sound where
  filters := filters
  initial peer he := ⟨original, mem_cons_self, he⟩
  keys known he key member := by
    obtain ⟨-, ⟨⟩⟩ := ite_none_right_eq_some.mp he
    cases member
  sources _ found := absurd rfl found
  held := nofun
  filtered := nofun

end NatSession

/-- As long as no source is written back by its port alone, and no packet that was rewritten
or is still to be sent has opened the filter for the source, every datagram that the client gets
comes from a peer that a packet of the session was sent to.
-/
theorem udp_nat_filtered (mapping filtering : UdpNatBehavior) (maxSize : Nat)
    (original routeOriginal routeDestination : SocksAddr) (events : List NatEvent)
    (filters : filtering ≠ .endpointIndependent)
    (admitted : AllAdmitted NatSession.step NatSession.Admissible
      (.start mapping filtering maxSize original routeOriginal routeDestination) events)
    : (events.foldl NatSession.step
        (.start mapping filtering maxSize original routeOriginal routeDestination)).Filtered :=
  (admitted.run (fun session _ => session.Sound)
    (fun _ event _ sound admitted => sound.step event admitted)
    (NatSession.sound_start filters)).filtered

def exampleAddr (bits : BitVec 32) (port : UInt16) : SocksAddr := .ip ⟨.v4 bits, port⟩

/-- A route overrides 1.1.1.1:53, which the client names, with 8.8.8.8:53; then datagrams come. -/
def overridden (sources : List SocksAddr) : NatSession :=
  let packet : ClientPacket := ⟨exampleAddr 0x01010101 53, exampleAddr 0x01010101 53⟩
  (.packet packet :: .translates packet :: .sends (packet, exampleAddr 0x08080808 53)
    :: sources.flatMap fun source => [.arrives source, .filters]).foldl NatSession.step
    (.start .endpointIndependent .addressDependent 16 packet.original packet.original
      (exampleAddr 0x08080808 53))

theorem udp_nat_filtered_override
    : (overridden [exampleAddr 0x08080808 53]).delivered = [exampleAddr 0x08080808 53]
      ∧ (overridden [exampleAddr 0x08080808 53]).Filtered := by
  refine ⟨by decide +kernel, udp_nat_filtered _ _ _ _ _ _ _ (by decide)
    ⟨trivial, trivial, trivial, ⟨by decide, .inl (by decide +kernel)⟩, ?_, trivial⟩⟩
  rintro _ _ ⟨⟩
  decide +kernel

/-- The answers are written back by the port of the route alone, and the filter is open for the
address that was overridden: a stranger and an address that no packet went to get through.
-/
theorem udp_nat_passes_strangers
    : (overridden [exampleAddr 0x09090909 53, exampleAddr 0x01010101 99]).delivered
        = [exampleAddr 0x01010101 99, exampleAddr 0x09090909 53]
      ∧ ¬ (overridden [exampleAddr 0x09090909 53]).Filtered
      ∧ ¬ (overridden [exampleAddr 0x01010101 99]).Filtered := by
  unfold NatSession.Filtered
  decide +kernel

--------
-- The sources of the answers
--------

namespace PacketDestinationNat

/-- What the client named when a packet was last rewritten to such an address. The history has
the last packet first, each as the address that it was sent to and the one that the client named.
-/
def rewritten (such : SocksAddr → Bool) (history : List (SocksAddr × SocksAddr))
    : Option SocksAddr :=
  (history.find? fun sent => sent.1 ≠ sent.2 ∧ such sent.1).map (·.2)

/-- A session and its history after a packet. -/
def send (session : PacketDestinationNat × List (SocksAddr × SocksAddr)) (packet : ClientPacket)
    : PacketDestinationNat × List (SocksAddr × SocksAddr) :=
  (session.1.translateDestination packet.destination packet.original,
    (session.1.routed packet.destination packet.original, packet.original) :: session.2)

def sendAll (routeOriginal routeDestination : SocksAddr) (packets : List ClientPacket)
    : PacketDestinationNat × List (SocksAddr × SocksAddr) :=
  packets.foldl send ({ routeOriginal, routeDestination }, [])

theorem rewritten_cons (such routed client history)
    : rewritten such ((routed, client) :: history)
      = if routed ≠ client ∧ such routed then some client else rewritten such history := by
  rw [rewritten, find?_cons]
  split
  next last => rw [if_pos (of_decide_eq_true last), map_some]
  next other => rw [if_neg (of_decide_eq_false other), rewritten]

/-- The tables hold what the history tells. -/
structure Remembers (session : PacketDestinationNat × List (SocksAddr × SocksAddr)) : Prop where
  sources : ∀ source, session.1.responseSources source = rewritten (· = source) session.2
  ports : ∀ port, session.1.responseSourcesByPort port = rewritten (·.port = port) session.2

/-- A packet that is rewritten is entered in both tables. -/
theorem Remembers.send {session} (remembers : Remembers session) (packet)
    : Remembers (send session packet) := by
  unfold PacketDestinationNat.send translateDestination
  generalize session.1.routed packet.destination packet.original = routed
  refine ⟨fun source => ?_, fun port => ?_⟩
  on_goal 1 => rw [rewritten_cons, ← remembers.sources]
  on_goal 2 => rw [rewritten_cons, ← remembers.ports]
  all_goals
    by_cases direct : routed = packet.original
    · simp only [direct, ne_eq, not_true_eq_false, if_false, false_and]
      split <;> rfl
    · simp [direct, update_apply, eq_comm]

theorem remembers_sendAll (routeOriginal routeDestination packets)
    : Remembers (sendAll routeOriginal routeDestination packets) := by
  have start : Remembers (({ routeOriginal, routeDestination } : PacketDestinationNat), []) :=
    ⟨fun _ => rfl, fun _ => rfl⟩
  unfold sendAll
  generalize (({ routeOriginal, routeDestination } : PacketDestinationNat), []) = session at start
  induction packets generalizing session with
  | nil => exact start
  | cons packet packets ih => exact ih _ (start.send packet)

theorem ne_of_rewritten {source client history} (hf : rewritten (· = source) history = some client)
    : client ≠ source := by
  obtain ⟨_, last, rfl⟩ := map_eq_some_iff.mp hf
  have hm := find?_some last
  obtain ⟨changed, he⟩ := of_decide_eq_true hm
  exact of_decide_eq_true he ▸ changed.symm

end PacketDestinationNat

open PacketDestinationNat

/-- An answer from where the last packet was sent seems to come from the address that the client
named exactly when the packet was rewritten, or none before it was rewritten to that address and,
if it is a domain, the last one that was rewritten to its port was for the domain as well.
-/
theorem reply_source_iff (routeOriginal routeDestination : SocksAddr)
    (packets : List ClientPacket) (packet : ClientPacket)
    : let session := sendAll routeOriginal routeDestination packets
      let routed := session.1.routed packet.destination packet.original
      (send session packet).1.translateSource routed = packet.original
      ↔ routed ≠ packet.original
        ∨ rewritten (· = packet.original) session.2 = none
          ∧ (isIp packet.original
            ∨ (rewritten (·.port = packet.original.port) session.2).getD packet.original
              = packet.original) := by
  have after := (remembers_sendAll routeOriginal routeDestination packets).send packet
  dsimp only
  generalize sendAll routeOriginal routeDestination packets = session at after
  have told := after.sources (session.1.routed packet.destination packet.original)
  have port := after.ports packet.original.port
  simp only [send, rewritten_cons] at told port
  by_cases changed : session.1.routed packet.destination packet.original ≠ packet.original
  · simp [send, translateSource, told, changed]
  have same := not_not.mp changed
  simp only [same] at told port
  simp only [send, translateSource, same, told, port]
  cases earlier : rewritten (· = packet.original) session.2 with
  | some _ => simpa [changed] using ne_of_rewritten earlier
  | none =>
    by_cases address : isIp packet.original
    · simp [translateDestination, same, address]
    · simp [address]

def resolver : SocksAddr := .ip ⟨.v4 0xc0000201, 53⟩

def localResolver : SocksAddr := .ip ⟨.v4 0x7f000001, 5353⟩

/-- A route overrides the resolver with a local one, to which the client then sends a packet. -/
theorem reply_source_shadowed
    : (sendAll resolver localResolver [⟨resolver, resolver⟩]).1.routed localResolver localResolver
        = localResolver
      ∧ (sendAll resolver localResolver [⟨resolver, resolver⟩,
          ⟨localResolver, localResolver⟩]).1.translateSource localResolver = resolver := by
  decide +kernel

end Zay.Endpoint
