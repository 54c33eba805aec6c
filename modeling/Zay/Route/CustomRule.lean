import Zay.Route.Target

/-! The source and destination lists of a custom rule (`custom_rule_route`). The addresses of
the entries go to one list of the route rule and their ports to another, and the router
matches the two on their own.
-/

namespace Zay.Route

open Net DefaultItems

/-- An entry of a list, by how it parses. -/
inductive Endpoint where
  | socket (address : SocketAddr)
  | ip (address : IpAddr)
  | cidr (text : String) (range : IpNet)
  deriving Repr, DecidableEq

namespace Endpoint

/-- The text that goes to `ip_cidr` or `source_ip_cidr`. -/
def text : Endpoint → String
  | .socket ⟨address, _⟩ | .ip address =>
    address.toString ++ (if address.isIpv4 then "/32" else "/128")
  | .cidr text _ => text

/-- What the router reads there. -/
def range : Endpoint → IpNet
  | .socket ⟨address, _⟩ | .ip address => singleAddress address
  | .cidr _ range => range

def port? : Endpoint → Option UInt16
  | .socket address => some address.port
  | _ => none

/-- The entry denotes one of the addresses and, if it has a port, the port. -/
def Denotes (addresses : List IpAddr) (port : Option UInt16) : Endpoint → Prop
  | .socket address => address.ip ∈ addresses ∧ port = some address.port
  | .ip address => address ∈ addresses
  | .cidr _ range => ∃ address ∈ addresses, range.contains address

theorem denotes_iff (entry : Endpoint) {addresses port}
    : entry.Denotes addresses port
      ↔ (∃ address ∈ addresses, entry.range.contains address)
        ∧ (entry.port? = none ∨ entry.port? = port) := by
  cases entry with
  | socket address => simp [Denotes, range, port?, contains_singleAddress, eq_comm (a := port)]
  | ip address => simp [Denotes, range, port?, contains_singleAddress]
  | cidr _ range => simp [Denotes, Endpoint.range, port?]

instance (entry : Endpoint) (addresses port) : Decidable (entry.Denotes addresses port) :=
  decidable_of_iff' _ entry.denotes_iff

end Endpoint

/-- What `insert_endpoint_matches` adds for the two lists. -/
def endpointItems (source destination : List Endpoint) : DefaultItems :=
  { plain with
    raw := { RawDefaultRule.default with
      sourceIpCidr := source.map (·.text)
      sourcePort := source.filterMap (·.port?)
      ipCidr := destination.map (·.text)
      port := destination.filterMap (·.port?) }
    sourcePrefixes := source.map (·.range)
    destinationPrefixes := destination.map (·.range) }

/-- `custom_rule_route` for a policy with no other matchers. -/
def customRuleRoute (source destination : List Endpoint) (outbound : String) : Rule :=
  .default {
    items := endpointItems source destination
    ruleSets := []
    action := .route outbound .default }

/-- How the router reads one list. -/
def Read (entries : List Endpoint) (addresses : List IpAddr) (port : Option UInt16) : Prop :=
  (entries = [] ∨ ∃ address ∈ addresses, ∃ entry ∈ entries, entry.range.contains address)
  ∧ ((∀ entry ∈ entries, entry.port? = none)
    ∨ ∃ value, port = some value ∧ ∃ entry ∈ entries, entry.port? = some value)

theorem matches_customRuleRoute (source destination outbound) (metadata : Metadata) (target)
    : (customRuleRoute source destination outbound).matchesMetadata (metadata.aimed target)
      ↔ Read source metadata.sourceIp.toList (metadata.source.map SocksAddr.port)
        ∧ Read destination target.reach target.port := by
  have ordinary : (endpointItems source destination).matchesOrdinary (metadata.aimed target)
      = true := rfl
  have ip : (metadata.aimed target).sourceIp = metadata.sourceIp := rfl
  have sender : (metadata.aimed target).source = metadata.source := rfl
  have port : (metadata.aimed target).destination.map SocksAddr.port = target.port := rfl
  simp only [customRuleRoute, Rule.matchesMetadata, DefaultRule.matchesMetadata,
    List.isEmpty_nil, if_true, DefaultItems.evaluate, done_groups, ordinary]
  simp [endpointItems, requiresSourceAddress, requiresSourcePort, requiresDestinationAddress,
    requiresDestinationPort, satisfiesSourceAddress, satisfiesSourcePort,
    satisfiesDestinationAddress, satisfiesDestinationPort, matchesSourceAddress, hasSourceAddress,
    hasDestinationIp, hasDomainCondition, matchesDestinationIpAddress_aimed, matchesIpAddress,
    matchesPort, plain, RawDefaultRule.default, ip, sender, port, Read, Option.any_eq_true]
  by_cases source = [] <;> by_cases destination = [] <;> simp [*, and_assoc]

/-- Some entry denotes the addresses and the port, or there is none to do so. -/
def Listed (entries : List Endpoint) (addresses : List IpAddr) (port : Option UInt16) : Prop :=
  entries = [] ∨ ∃ entry ∈ entries, entry.Denotes addresses port

/-- No entry has a port; or all have one, unless all ports are listed, and each address that is
listed with a port is listed with the port of every other entry.
-/
def Combines (entries : List Endpoint) : Prop :=
  (∀ entry ∈ entries, entry.port? = none)
  ∨ ((∀ entry ∈ entries, entry.port? ≠ none)
      ∨ ∀ port, ∃ entry ∈ entries, entry.port? = some port)
    ∧ ∀ first second, .socket first ∈ entries → .socket second ∈ entries →
      ∃ entry ∈ entries, entry.Denotes [first.ip] (some second.port)

variable {entries : List Endpoint}

/-- The two readings agree on lists that combine. Where they could differ, at an address of one
entry and the port of another, the list itself has an entry for the two.
-/
theorem Combines.read_iff (combines : Combines entries) {addresses port}
    (known : addresses = [] ∨ port ≠ none)
    : Read entries addresses port ↔ Listed entries addresses port := by
  simp only [Listed, Endpoint.denotes_iff, Read]
  rcases combines with bare | ⟨bare, paired⟩
  · grind
  constructor
  · rintro ⟨rfl | ⟨address, reached, entry, hl, covers⟩, ports⟩
    · exact .inl rfl
    rcases ports with none | ⟨value, rfl, second, also, hf⟩
    · exact .inr ⟨entry, hl, ⟨address, reached, covers⟩, .inl (none entry hl)⟩
    cases second with
    | ip | cidr => cases hf
    | socket second =>
      cases entry with
      | ip | cidr => exact .inr ⟨_, hl, ⟨address, reached, covers⟩, .inl rfl⟩
      | socket first =>
        have own : address = first.ip := by
          simpa [Endpoint.range, contains_singleAddress] using covers
        subst own
        obtain ⟨other, there, denotes⟩ := paired first second hl also
        obtain ⟨⟨_, he, covers⟩, port⟩ := other.denotes_iff.mp denotes
        obtain rfl := List.mem_singleton.mp he
        exact .inr ⟨other, there, ⟨_, reached, covers⟩, by rwa [← hf]⟩
  · rintro (rfl | ⟨entry, hl, ⟨address, reached, covers⟩, port⟩)
    · simp
    refine ⟨.inr ⟨address, reached, entry, hl, covers⟩, .inr ?_⟩
    obtain ⟨value, rfl⟩ := Option.ne_none_iff_exists'.mp (known.resolve_left (by grind))
    refine ⟨value, rfl, ?_⟩
    rcases port with none | port
    · exact (bare.resolve_left fun all => all entry hl none) value
    · exact ⟨entry, hl, port⟩

/-- Lists on which the readings agree combine: at a bare entry they differ on every port that is
not listed.
-/
theorem combines_of_read
    (all : ∀ address port,
      Read entries [address] (some port) ↔ Listed entries [address] (some port))
    : Combines entries := by
  refine or_iff_not_imp_left.mpr fun ported => ⟨?_, fun first second hf hs => ?_⟩
  · by_contra! ⟨⟨entry, hl, bare⟩, port, unlisted⟩
    have denotes : entry.Denotes [entry.range.addr] (some port) :=
      entry.denotes_iff.mpr ⟨⟨_, .head _, IpNet.contains_addr _⟩, .inl bare⟩
    obtain ⟨-, none | ⟨_, he, other, there, port⟩⟩ := (all _ _).mpr (.inr ⟨entry, hl, denotes⟩)
    · exact ported none
    · exact unlisted other there (port.trans he.symm)
  · have read : Read entries [first.ip] (some second.port) :=
      ⟨.inr ⟨_, .head _, _, hf, by simp [Endpoint.range, contains_singleAddress]⟩,
        .inr ⟨_, rfl, _, hs, rfl⟩⟩
    exact ((all _ _).mp read).resolve_left (List.ne_nil_of_mem hf)

/-- Every list is met by some address and port in both readings, such as those of an entry. -/
theorem exists_met (entries)
    : ∃ address port,
      Read entries [address] (some port) ∧ Listed entries [address] (some port) := by
  have met (entry) (hl : entry ∈ entries) (port)
      (own : entry.port? = none ∨ entry.port? = some port)
      (ports : (∀ entry ∈ entries, entry.port? = none) ∨ entry.port? = some port)
      : Read entries [entry.range.addr] (some port)
        ∧ Listed entries [entry.range.addr] (some port) := by
    have covers := IpNet.contains_addr entry.range
    refine ⟨⟨.inr ⟨_, .head _, entry, hl, covers⟩, ports.imp_right fun hp => ?_⟩,
      .inr ⟨entry, hl, ?_⟩⟩
    · exact ⟨port, rfl, entry, hl, hp⟩
    · exact entry.denotes_iff.mpr ⟨⟨_, .head _, covers⟩, own⟩
  by_cases bare : ∀ entry ∈ entries, entry.port? = none
  · cases entries with
    | nil => exact ⟨.v4 0, 0, by simp [Read], .inl rfl⟩
    | cons entry rest =>
      exact ⟨_, 0, met entry (.head _) 0 (.inl (bare entry (.head _))) (.inl bare)⟩
  · push Not at bare
    obtain ⟨entry, hl, ported⟩ := bare
    obtain ⟨port, hp⟩ := Option.ne_none_iff_exists'.mp ported
    exact ⟨_, port, met entry hl port (.inr hp) (.inr hp)⟩

/-- The rule of a policy matches exactly the connections that its lists denote, whatever the
connection, if and only if the two lists combine.
-/
theorem customRuleRoute_denotes_iff (source destination : List Endpoint) (outbound : String)
    : (∀ (metadata : Metadata) (target : Target), target.destination ≠ none →
        ((customRuleRoute source destination outbound).matchesMetadata (metadata.aimed target)
          ↔ Listed source metadata.sourceIp.toList (metadata.source.map SocksAddr.port)
            ∧ Listed destination target.reach target.port))
      ↔ Combines source ∧ Combines destination := by
  simp only [matches_customRuleRoute]
  constructor
  · intro all
    -- One side is varied while the other one is met.
    have both (address port address' port')
        : Read source [address] (some port) ∧ Read destination [address'] (some port')
          ↔ Listed source [address] (some port) ∧ Listed destination [address'] (some port') :=
      all { Metadata.default with source := some (.ip ⟨address, port⟩) }
        ⟨some (.ip ⟨address', port'⟩), [], none⟩ (by simp)
    obtain ⟨here, port, read, listed⟩ := exists_met source
    obtain ⟨there, port', read', listed'⟩ := exists_met destination
    constructor
    · refine combines_of_read fun address value => ?_
      simpa [read', listed'] using both address value there port'
    · refine combines_of_read fun address value => ?_
      simpa [read, listed] using both here port address value
  · rintro ⟨sourceCombines, destinationCombines⟩ metadata target known
    rw [sourceCombines.read_iff, destinationCombines.read_iff]
    · exact .inr (by simpa [Target.port] using known)
    · cases hs : metadata.source with
      | none => simp [Metadata.sourceIp, hs]
      | some _ => simp

/-- A service and a host. -/
def mixedEndpoints : List Endpoint :=
  [.socket ⟨.v4 0x01020304#32, 80⟩, .ip (.v4 0x05060708#32)]

def onHttps : Target where
  destination := some (.ip ⟨.v4 0x05060708#32, 443⟩)
  addresses := []
  ipVersion := none

/-- The host on another port is listed but not matched. -/
theorem customRuleRoute_mixed
    : (∃ entry ∈ mixedEndpoints, entry.Denotes onHttps.reach onHttps.port)
      ∧ ¬ (customRuleRoute [] mixedEndpoints "proxy").matchesMetadata
        (Metadata.default.aimed onHttps) := by
  decide

end Zay.Route
