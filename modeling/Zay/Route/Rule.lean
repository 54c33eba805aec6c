import Zay.Clock
import Zay.Route.RuleSet

/-! Route rules: actions, the overrides that a connection collects on its way through the
rules, and matching.
-/

namespace Zay.Route

open Net

inductive TlsSpoofMethod where
  | wrongSequence
  | wrongChecksum
  | wrongAcknowledgment
  | wrongMd5
  | wrongTimestamp
  deriving Repr, DecidableEq

inductive NetworkStrategy where
  | default
  | fallback
  | hybrid
  deriving Repr, DecidableEq

inductive InterfaceType where
  | wifi
  | cellular
  | ethernet
  | other
  deriving Repr, DecidableEq

structure NetworkDialOptions where
  strategy : Option NetworkStrategy
  networkType : List InterfaceType
  fallbackNetworkType : List InterfaceType
  fallbackDelay : Option Duration
  udpDisableDomainUnmapping : Bool
  udpConnect : Bool
  externalConnection : Bool
  deriving Repr, DecidableEq

structure ConnectionOverride where
  address : String
  port : UInt16
  tlsFragment : Bool
  tlsFragmentFallbackDelay : Option Duration
  tlsRecordFragment : Bool
  tlsSpoof : String
  tlsSpoofMethod : TlsSpoofMethod
  network : NetworkDialOptions
  udpTimeout : Option Duration
  deriving Repr, DecidableEq

namespace ConnectionOverride

def default : ConnectionOverride where
  address := ""
  port := 0
  tlsFragment := false
  tlsFragmentFallbackDelay := none
  tlsRecordFragment := false
  tlsSpoof := ""
  tlsSpoofMethod := .wrongSequence
  network := {
    strategy := none
    networkType := []
    fallbackNetworkType := []
    fallbackDelay := none
    udpDisableDomainUnmapping := false
    udpConnect := false
    externalConnection := false }
  udpTimeout := none

def apply (options : ConnectionOverride) (destination : SocksAddr) : SocksAddr :=
  SocksAddr.new (if options.address = "" then destination.host else options.address)
    (if options.port = 0 then destination.port else options.port)

def update (options next : ConnectionOverride) : ConnectionOverride where
  address := if next.address ≠ "" then next.address else options.address
  port := if next.port ≠ 0 then next.port else options.port
  tlsFragment := options.tlsFragment || next.tlsFragment
  tlsFragmentFallbackDelay :=
    if next.tlsFragment then next.tlsFragmentFallbackDelay
    else options.tlsFragmentFallbackDelay
  tlsRecordFragment := options.tlsRecordFragment || next.tlsRecordFragment
  tlsSpoof := if next.tlsSpoof ≠ "" then next.tlsSpoof else options.tlsSpoof
  tlsSpoofMethod := if next.tlsSpoof ≠ "" then next.tlsSpoofMethod else options.tlsSpoofMethod
  network := {
    strategy :=
      if next.network.strategy.isSome then next.network.strategy
      else options.network.strategy
    networkType :=
      if next.network.networkType.isEmpty then options.network.networkType
      else next.network.networkType
    fallbackNetworkType :=
      if next.network.fallbackNetworkType.isEmpty then options.network.fallbackNetworkType
      else next.network.fallbackNetworkType
    fallbackDelay :=
      if next.network.fallbackDelay.any (· ≠ 0) then next.network.fallbackDelay
      else options.network.fallbackDelay
    udpDisableDomainUnmapping :=
      options.network.udpDisableDomainUnmapping || next.network.udpDisableDomainUnmapping
    udpConnect := options.network.udpConnect || next.network.udpConnect
    externalConnection := options.network.externalConnection }
  udpTimeout :=
    if next.udpTimeout.any (· ≠ 0) then next.udpTimeout else options.udpTimeout

end ConnectionOverride

inductive DomainStrategy where
  | asIs
  | preferIpv4
  | preferIpv6
  | ipv4Only
  | ipv6Only
  deriving Repr, DecidableEq

/-- The sniffers that the names select are left out. -/
structure SniffOptions where
  names : List String
  timeout : Duration
  deriving Repr, DecidableEq

structure ResolveOptions where
  server : String
  timeout : Option Duration
  strategy : DomainStrategy
  disableCache : Bool
  disableOptimisticCache : Bool
  rewriteTtl : Option UInt32
  clientSubnet : Option IpNet
  deriving Repr, DecidableEq

/-- The dialer options of a direct action are left out. -/
inductive Action where
  | route (outbound : String) (options : ConnectionOverride)
  | routeOptions (options : ConnectionOverride)
  | direct
  | directOptions (outbound : String)
  | bypass (outbound : String) (options : ConnectionOverride)
  | reject (method : String) (noDrop : Bool)
  | hijackDns
  | sniff (options : SniffOptions)
  | resolve (options : ResolveOptions)
  deriving Repr, DecidableEq

/-- `DefaultRule`: its conditions, the rule-sets it refers to and its action. -/
structure DefaultRule where
  items : DefaultItems
  ruleSets : List RuleSet
  action : Action

def DefaultRule.matchesMetadata (rule : DefaultRule) (metadata : Metadata) : Bool :=
  let outer := rule.items.evaluate metadata false false
  let matched :=
    if rule.ruleSets.isEmpty then outer.done
    else
      rule.ruleSets.any fun set =>
        set.matchesWithOuter metadata outer rule.items.raw.ruleSetIpCidrMatchSource false
  matched != rule.items.raw.invert

inductive Rule where
  | default (rule : DefaultRule)
  | logical (mode : LogicalMode) (rules : List Rule) (invert : Bool) (action : Action)

namespace Rule

def action : Rule → Action
  | .default rule => rule.action
  | .logical _ _ _ action => action

mutual

def matchesMetadata (metadata : Metadata) : Rule → Bool
  | .default rule => rule.matchesMetadata metadata
  | .logical .and rules invert _ => matchesAll metadata rules != invert
  | .logical .or rules invert _ => matchesAny metadata rules != invert

def matchesAll (metadata : Metadata) : List Rule → Bool
  | [] => true
  | rule :: rules => matchesMetadata metadata rule && matchesAll metadata rules

def matchesAny (metadata : Metadata) : List Rule → Bool
  | [] => false
  | rule :: rules => matchesMetadata metadata rule || matchesAny metadata rules

end

end Rule

end Zay.Route
