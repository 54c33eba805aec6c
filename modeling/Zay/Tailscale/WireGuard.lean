import Mathlib.Data.List.MinMax
import Mathlib.Data.Prod.Lex
import Zay.Error
import Zay.Lib.Checks
import Zay.Lib.OrderedMap
import Zay.Net.Address

/-! The WireGuard engine of a tailnet: which peer a packet is sent to, and from which peer a
decrypted packet is accepted. The tunnels and the socket are outside, and answer each turn.
-/

namespace Zay.Tailscale.WireGuard

open Lib Net List Option OrderedMap

/-- A key of 32 bytes, as the number they write: keys are ordered as their bytes. -/
abbrev NodeKey := Nat

inductive TailscaleWireGuardError where
  | invalidConfiguration (message : String)
  | unknownPeer
  | closed
  | transport (message : String)
  | io (error : IoError)
  deriving Repr, DecidableEq

abbrev Result := Except TailscaleWireGuardError

structure TailscaleWireGuardPeer where
  nodeKey : NodeKey
  discoKey : Nat
  endpoints : List (IpAddr × UInt16)
  allowedIps : List IpNet
  deriving Repr, DecidableEq

/-- A tunnel is known by its receiver index. -/
structure PeerRuntime where
  tunnel : Nat
  config : TailscaleWireGuardPeer
  deriving Repr, DecidableEq

abbrev Peers := OrderedMap NodeKey PeerRuntime

inductive WireGuardAction where
  | writeToNetwork (packet : List UInt8)
  | writeToTunnelV4 (packet : List UInt8) (source : IpAddr)
  | writeToTunnelV6 (packet : List UInt8) (source : IpAddr)
  | done
  deriving Repr, DecidableEq

inductive TailscalePacketPath where
  | direct (address : IpAddr) (port : UInt16)
  | derp (region : Nat)
  deriving Repr, DecidableEq

/-- `TailscaleWireGuardEvent::IpPacket`. -/
structure IpPacket where
  peer : NodeKey
  source : IpAddr
  packet : List UInt8
  path : TailscalePacketPath
  deriving Repr, DecidableEq

def validateConfiguredPeer (peer : TailscaleWireGuardPeer) : Result Unit :=
  if peer.nodeKey = 0 then .error (.invalidConfiguration "peer node key is zero")
  else if peer.discoKey = 0 ∧ peer.endpoints = [] then
    .error (.invalidConfiguration "WireGuard-only peer has no direct endpoint")
  else if peer.allowedIps = [] then
    .error (.invalidConfiguration "peer allowed IP list is empty")
  else .ok ()

def validatePeers : (seen : List NodeKey) → List TailscaleWireGuardPeer → Result Unit
  | _, [] => .ok ()
  | seen, peer :: rest => do
    validateConfiguredPeer peer
    if peer.nodeKey ∈ seen then .error (.invalidConfiguration "duplicate peer node key")
    else validatePeers (peer.nodeKey :: seen) rest

structure Engine where
  peers : Peers
  nextIndex : Nat

/-- The last loop of `replace_peers`. A known peer keeps its tunnel. -/
def Engine.install (previous : Peers) : Engine → List TailscaleWireGuardPeer → Engine × Result Unit
  | engine, [] => (engine, .ok ())
  | engine, config :: rest =>
    match previous.get? config.nodeKey with
    | some runtime =>
      install (previous.erase config.nodeKey)
        { engine with peers := engine.peers.insert config.nodeKey { runtime with config } } rest
    | none =>
      if engine.nextIndex + 1 < 4294967296 then
        install previous
          { peers := engine.peers.insert config.nodeKey { tunnel := engine.nextIndex, config }
            nextIndex := engine.nextIndex + 1 }
          rest
      else
        (engine, .error (.invalidConfiguration "peer receiver index space exhausted"))

/-- `registered` is the first refusal of the socket to change its peers, if there is one. -/
def Engine.replacePeers (engine : Engine) (configured : List TailscaleWireGuardPeer)
    (registered : Result Unit)
    : Engine × Result Unit :=
  match (do validatePeers [] configured; registered : Result Unit) with
  | .error error => (engine, .error error)
  | .ok () => { engine with peers := empty }.install engine.peers configured

/-- The longest allowed prefix that has the address. -/
def PeerRuntime.longestMatch (runtime : PeerRuntime) (address : IpAddr) : Option Nat :=
  ((runtime.config.allowedIps.filter (·.contains address)).map IpNet.prefixLen).max?

def candidates (peers : Peers) (destination : IpAddr) : List (Nat × NodeKey × PeerRuntime) :=
  peers.entries.filterMap fun entry =>
    (entry.2.longestMatch destination).map fun length => (length, entry.1, entry.2)

/-- No two candidates have the same key, so there is one greatest. -/
def peerForDestination (peers : Peers) (destination : IpAddr) : Option (NodeKey × PeerRuntime) :=
  ((candidates peers destination).argmax fun found => toLex (found.1, found.2.1)).map (·.2)

/-- What the outside answers in one turn: to the packet or event written, and to the next
`decapsulate`.
-/
structure Turn where
  written : Result Unit
  next : Result WireGuardAction

section

variable (peer : NodeKey) (runtime : PeerRuntime) (path : Option TailscalePacketPath)

/-- A decrypted packet: one with a foreign source is dropped. -/
def deliverPacket (written : Result Unit) (packet : List UInt8) (source : IpAddr)
    : Result (List IpPacket) :=
  if runtime.config.allowedIps.any (·.contains source) then
    match path with
    | none => .error (.io ⟨.other, "unexpected WireGuard tunnel packet from local action"⟩)
    | some path => written.map fun _ => [{ peer, source, packet, path }]
  else .ok []

/-- The body of the loop of `deliver_action`. -/
def perform (written : Result Unit) : WireGuardAction → Result (List IpPacket)
  | .writeToTunnelV4 packet source => deliverPacket peer runtime path written packet source
  | .writeToTunnelV6 packet source => deliverPacket peer runtime path written packet source
  | .writeToNetwork _ => written.map fun _ => []
  | .done => .ok []

/-- The events emitted, and the result unless the turns end before the loop does. -/
def deliverAction (drainQueued : Bool)
    : WireGuardAction → List Turn → List IpPacket × Option (Result Unit)
  | .done, _ => ([], some (.ok ()))
  | _, [] => ([], none)
  | action, turn :: turns =>
    match perform peer runtime path turn.written action with
    | .error error => ([], some (.error error))
    | .ok events =>
      if drainQueued then
        match turn.next with
        | .error error => (events, some (.error error))
        | .ok next =>
          let later := deliverAction drainQueued next turns
          (events ++ later.1, later.2)
      else (events, some (.ok ()))

end

/-- A WireGuard packet of `peer`, with what its tunnel makes of it. -/
def handleTransportEvent (peers : Peers) (peer : NodeKey) (path : TailscalePacketPath)
    (decapsulated : Result WireGuardAction) (turns : List Turn)
    : List IpPacket × Option (Result Unit) :=
  match peers.get? peer with
  | none => ([], some (.error .unknownPeer))
  | some runtime =>
    match decapsulated with
    | .error error => ([], some (.error error))
    | .ok action => deliverAction peer runtime (some path) true action turns

variable {peers : Peers} {peer : NodeKey} {runtime : PeerRuntime} {source : IpAddr}
  {event : IpPacket} {engine after : Engine} {configured : List TailscaleWireGuardPeer}
  {length : Nat} {written : Result Unit} {events : List IpPacket}

theorem Engine.get?_install {previous} (hd : (configured.map (·.nodeKey)).Nodup)
    (installed : engine.install previous configured = (after, .ok ())) (key)
    : (after.peers.get? key).map (·.config)
      = (configured.find? (·.nodeKey = key)).or ((engine.peers.get? key).map (·.config)) := by
  induction configured generalizing previous engine with
  | nil =>
    cases installed
    rfl
  | cons config rest ih =>
    obtain ⟨hn, hd⟩ := nodup_cons.mp hd
    have hno (he : config.nodeKey = key) : rest.find? (·.nodeKey = key) = none := by
      simpa [← he] using hn
    unfold install at installed
    split at installed
    on_goal 2 => split at installed
    on_goal 3 => cases installed
    all_goals
      rw [ih hd installed, get?_insert]
      by_cases he : config.nodeKey = key
      · simp [he, hno he]
      · simp [he, Ne.symm he]

theorem nodup_of_validatePeers {seen} (hv : validatePeers seen configured = .ok ())
    : (configured.map (·.nodeKey)).Nodup ∧ ∀ peer ∈ configured, peer.nodeKey ∉ seen := by
  induction configured generalizing seen with
  | nil => simp
  | cons first rest ih =>
    rw [validatePeers, check_eq_ok, guard_eq_ok] at hv
    obtain ⟨-, hn, others⟩ := hv
    obtain ⟨hd, ha⟩ := ih others
    have clear : ∀ peer ∈ rest, peer.nodeKey ≠ first.nodeKey ∧ peer.nodeKey ∉ seen := by
      intro peer hm
      simpa using ha peer hm
    refine ⟨nodup_cons.mpr ⟨?_, hd⟩, forall_mem_cons.mpr ⟨hn, ?_⟩⟩
    · intro again
      obtain ⟨peer, hm, he⟩ := mem_map.mp again
      exact (clear peer hm).1 he
    · exact fun peer hm => (clear peer hm).2

/-- An accepted configuration is what the engine goes by, whatever it had before. -/
theorem Engine.replacePeers_config {registered}
    (replaced : engine.replacePeers configured registered = (after, .ok ())) (key)
    : (after.peers.get? key).map (·.config) = configured.find? (·.nodeKey = key) := by
  unfold replacePeers at replaced
  split at replaced
  · cases replaced
  next ha =>
    have hv := (check_eq_ok.mp ha).1
    rw [get?_install (nodup_of_validatePeers hv).1 replaced]
    simp

theorem PeerRuntime.longestMatch_eq_some_iff
    : runtime.longestMatch source = some length
      ↔ (∃ range ∈ runtime.config.allowedIps, range.contains source ∧ range.prefixLen = length)
        ∧ ∀ range ∈ runtime.config.allowedIps, range.contains source →
          range.prefixLen ≤ length := by
  rw [longestMatch, max?_eq_some_iff, List.forall_mem_map]
  simp [and_assoc]

theorem PeerRuntime.exists_longestMatch (ha : runtime.config.allowedIps.any (·.contains source))
    : ∃ length, runtime.longestMatch source = some length := by
  obtain ⟨range, allowed, covers⟩ := any_eq_true.mp ha
  refine ne_none_iff_exists'.mp fun none => ?_
  rw [longestMatch, max?_eq_none_iff, map_eq_nil_iff, filter_eq_nil_iff] at none
  exact none range allowed covers

theorem mem_candidates_iff
    : (length, peer, runtime) ∈ candidates peers source
      ↔ peers.get? peer = some runtime ∧ runtime.longestMatch source = some length := by
  simp [candidates, get?_eq_some_iff]

/-- The peer of the greatest candidate is selected. -/
theorem peerForDestination_eq_some_iff {own}
    (candidate : (own, peer, runtime) ∈ candidates peers source)
    : (peerForDestination peers source).map (·.1) = some peer
      ↔ ∀ other ∈ candidates peers source, toLex (other.1, other.2.1) ≤ toLex (own, peer) := by
  have some : ((candidates peers source).argmax fun found => toLex (found.1, found.2.1)) ≠ none :=
    fun none => ne_nil_of_mem candidate (argmax_eq_none.mp none)
  obtain ⟨⟨_, _, _⟩, hs⟩ := ne_none_iff_exists'.mp some
  obtain ⟨hm, greatest, -⟩ := mem_argmax_iff.mp hs
  rw [peerForDestination, hs]
  constructor
  · rintro ⟨⟩
    obtain ⟨hp, reaches⟩ := mem_candidates_iff.mp candidate
    obtain ⟨found, longest⟩ := mem_candidates_iff.mp hm
    cases hp.symm.trans found
    cases reaches.symm.trans longest
    exact greatest
  · intro all
    have he := le_antisymm (all _ hm) (greatest _ candidate)
    exact congrArg Option.some (congrArg (fun pair => (ofLex pair).2) he)

/-- A peer reaches the address by a longer prefix than every other one, or by one as long and
with a greater key.
-/
def Unrivalled (peers : Peers) (peer : NodeKey) (runtime : PeerRuntime) (source : IpAddr) : Prop :=
  ∀ other rival, peers.get? other = some rival → other ≠ peer →
    ∀ range ∈ rival.config.allowedIps, range.contains source →
      ∃ own ∈ runtime.config.allowedIps, own.contains source
        ∧ (range.prefixLen < own.prefixLen ∨ range.prefixLen = own.prefixLen ∧ other < peer)

theorem selected_iff_unrivalled (hp : peers.get? peer = some runtime)
    (ha : runtime.config.allowedIps.any (·.contains source))
    : (peerForDestination peers source).map (·.1) = some peer
      ↔ Unrivalled peers peer runtime source := by
  obtain ⟨_, reaches⟩ := PeerRuntime.exists_longestMatch ha
  obtain ⟨⟨longest, allowed, covers, rfl⟩, hle⟩ := PeerRuntime.longestMatch_eq_some_iff.mp reaches
  rw [peerForDestination_eq_some_iff (mem_candidates_iff.mpr ⟨hp, reaches⟩)]
  constructor
  · intro greatest other rival hf hne range hm hi
    obtain ⟨length, reached⟩ :=
      PeerRuntime.exists_longestMatch (any_eq_true.mpr ⟨range, hm, hi⟩)
    have hs := (PeerRuntime.longestMatch_eq_some_iff.mp reached).2 range hm hi
    refine ⟨longest, allowed, covers, ?_⟩
    rcases Prod.Lex.toLex_le_toLex.mp (greatest _ (mem_candidates_iff.mpr ⟨hf, reached⟩))
      with less | ⟨he, hb⟩
    · exact .inl (hs.trans_lt less)
    rcases hs.lt_or_eq with less | heq
    · exact .inl (less.trans_eq he)
    · exact .inr ⟨heq.trans he, lt_of_le_of_ne hb hne⟩
  · rintro unrivalled ⟨length, other, rival⟩ candidate
    obtain ⟨hf, reached⟩ := mem_candidates_iff.mp candidate
    rw [Prod.Lex.toLex_le_toLex]
    by_cases self : other = peer
    · subst self
      cases hp.symm.trans hf
      cases reaches.symm.trans reached
      exact .inr ⟨rfl, le_rfl⟩
    obtain ⟨⟨range, hm, hi, rfl⟩, -⟩ := PeerRuntime.longestMatch_eq_some_iff.mp reached
    obtain ⟨mine, allowed, covers, longer⟩ :=
      unrivalled other rival hf self range hm hi
    have most := hle mine allowed covers
    rcases longer with less | ⟨he, hb⟩
    · exact .inl (less.trans_le most)
    rcases most.lt_or_eq with less | heq
    · exact .inl (he.trans_lt less)
    · exact .inr ⟨he.trans heq, hb.le⟩

variable {path : Option TailscalePacketPath} {action : WireGuardAction}

theorem of_mem_deliverPacket {packet}
    (hp : deliverPacket peer runtime path written packet source = .ok events) (hm : event ∈ events)
    : event.peer = peer ∧ runtime.config.allowedIps.any (·.contains event.source) := by
  unfold deliverPacket at hp
  split at hp
  next ha =>
    cases path <;> cases written <;> cases hp
    obtain rfl := mem_singleton.mp hm
    exact ⟨rfl, ha⟩
  cases hp
  cases hm

theorem of_mem_perform (hp : perform peer runtime path written action = .ok events)
    (hm : event ∈ events)
    : event.peer = peer ∧ runtime.config.allowedIps.any (·.contains event.source) := by
  cases action with
  | writeToNetwork packet =>
    cases written <;> cases hp
    cases hm
  | writeToTunnelV4 packet source => exact of_mem_deliverPacket hp hm
  | writeToTunnelV6 packet source => exact of_mem_deliverPacket hp hm
  | done =>
    cases hp
    cases hm

/-- Whatever the tunnel yields while it is drained, only allowed sources are delivered. -/
theorem of_mem_deliverAction {drainQueued turns}
    (delivered : event ∈ (deliverAction peer runtime path drainQueued action turns).1)
    : event.peer = peer ∧ runtime.config.allowedIps.any (·.contains event.source) := by
  fun_induction deliverAction peer runtime path drainQueued action turns with
  | case1 => cases delivered
  | case2 => cases delivered
  | case3 => cases delivered
  | case4 action turn turns unfinished events performed draining _ _ =>
    exact of_mem_perform performed delivered
  | case5 action turn turns unfinished events performed draining _ _ _ ih =>
    rcases mem_append.mp delivered with now | afterwards
    · exact of_mem_perform performed now
    · exact ih afterwards
  | case6 action turn turns unfinished events performed _ =>
    exact of_mem_perform performed delivered

/-- Packets with a source are delivered only from the peer selected for it, exactly when that
peer, as far as it may use the source, is unrivalled there.
-/
theorem delivered_from_selected_peer_iff (peers : Peers) (peer : NodeKey) (source : IpAddr)
    : (∀ path decapsulated turns,
        ∀ event ∈ (handleTransportEvent peers peer path decapsulated turns).1,
          event.source = source →
            (peerForDestination peers source).map (·.1) = some event.peer)
      ↔ ∀ runtime, peers.get? peer = some runtime →
        runtime.config.allowedIps.any (·.contains source) →
          Unrivalled peers peer runtime source := by
  constructor
  · intro all runtime present accepted
    rw [← selected_iff_unrivalled present accepted]
    refine all (.derp 0) (.ok (.writeToTunnelV4 [] source)) [⟨.ok (), .ok .done⟩]
      ⟨peer, source, [], .derp 0⟩ ?_ rfl
    simp [handleTransportEvent, present, deliverAction, perform, deliverPacket, accepted,
      Except.map]
  · rintro unrivalled path decapsulated turns event delivered rfl
    unfold handleTransportEvent at delivered
    split at delivered
    · cases delivered
    next runtime present =>
      split at delivered
      · cases delivered
      obtain ⟨rfl, accepted⟩ := of_mem_deliverAction delivered
      exact (selected_iff_unrivalled present accepted).mpr (unrivalled runtime present accepted)

/-- An exit node, and a node with an address of its own. -/
def exampleConfigured : List TailscaleWireGuardPeer :=
  [{ nodeKey := 1, discoKey := 1, endpoints := [], allowedIps := [.v4 ⟨0, ⟨0, Nat.succ_pos 32⟩⟩] },
    { nodeKey := 2, discoKey := 2, endpoints := [], allowedIps := [.v4 ⟨0x64400002, Fin.last 32⟩] }]

def exampleEngine : Engine :=
  (Engine.replacePeers ⟨empty, 1⟩ exampleConfigured (.ok ())).1

/-- The exit node sends as the other node, and its packet is delivered. -/
theorem exit_node_impersonates
    : (Engine.replacePeers ⟨empty, 1⟩ exampleConfigured (.ok ())).2 = .ok ()
      ∧ (handleTransportEvent exampleEngine.peers 1 (.derp 1)
          (.ok (.writeToTunnelV4 [0x45] (.v4 0x64400002))) [⟨.ok (), .ok .done⟩]).1
        = [⟨1, .v4 0x64400002, [0x45], .derp 1⟩]
      ∧ (peerForDestination exampleEngine.peers (.v4 0x64400002)).map (·.1) = some 2 := by
  decide +kernel

/-- The second node with another address. -/
def movedPeer : TailscaleWireGuardPeer :=
  { nodeKey := 2, discoKey := 2, endpoints := [], allowedIps := [.v4 ⟨0x64400003, Fin.last 32⟩] }

/-- The first node is gone, and the second one has moved. -/
theorem replacePeers_exampleConfigured
    : (exampleEngine.peers.get? 1).isSome ∧ (exampleEngine.peers.get? 2).isSome
      ∧ ∃ engine, exampleEngine.replacePeers [movedPeer] (.ok ()) = (engine, .ok ())
        ∧ (engine.peers.get? 1).map (·.config) = none
        ∧ (engine.peers.get? 2).map (·.config) = some movedPeer := by
  have replaced : exampleEngine.replacePeers [movedPeer] (.ok ()) = (_, .ok ()) :=
    Prod.ext rfl (by decide +kernel)
  exact ⟨by decide +kernel, by decide +kernel, _, replaced,
    Engine.replacePeers_config replaced 1, Engine.replacePeers_config replaced 2⟩

end Zay.Tailscale.WireGuard
