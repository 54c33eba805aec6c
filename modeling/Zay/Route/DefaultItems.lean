import Zay.Route.Matchers

/-! The conditions of a default rule (`RawDefaultRule`, and `DefaultRule` without its
rule-sets and its action) and how they are evaluated into the four address and port groups.
-/

namespace Zay.Route

open Net

def matchSourceAddress : BitVec 8 := 1 <<< 0
def matchSourcePort : BitVec 8 := 1 <<< 1
def matchDestinationAddress : BitVec 8 := 1 <<< 2
def matchDestinationPort : BitVec 8 := 1 <<< 3

/-- The ordinary conditions, and for each group whether a condition asks for it and whether
one of its conditions holds.
-/
structure RuleMatch where
  ordinary : Bool
  required : BitVec 8
  satisfied : BitVec 8
  deriving Repr, DecidableEq

namespace RuleMatch

def done (result : RuleMatch) : Bool :=
  result.ordinary && result.required &&& ~~~result.satisfied = 0

def merge (self other : RuleMatch) : RuleMatch where
  ordinary := self.ordinary && other.ordinary
  required := self.required ||| other.required
  satisfied := self.satisfied ||| other.satisfied

/-- A group that is asked for when `required`, and met when `satisfied`. -/
def group (result : RuleMatch) (mask : BitVec 8) (required satisfied : Bool) : RuleMatch :=
  if required then
    { result with
      required := result.required ||| mask
      satisfied := if satisfied then result.satisfied ||| mask else result.satisfied }
  else result

end RuleMatch

/-- `RawDefaultRule`. A list of the configuration is the list of its values, a map the list
of its entries.
-/
structure RawDefaultRule where
  inbound : List String
  ipVersion : Int
  network : List String
  authUser : List String
  protocol : List String
  client : List String
  domain : List String
  domainSuffix : List String
  domainKeyword : List String
  domainRegex : List String
  sourceIpCidr : List String
  sourceIpIsPrivate : Bool
  ipCidr : List String
  ipIsPrivate : Bool
  sourcePort : List UInt16
  sourcePortRange : List String
  port : List UInt16
  portRange : List String
  processName : List String
  processPath : List String
  processPathRegex : List String
  packageName : List String
  packageNameRegex : List String
  user : List String
  userId : List Int
  clashMode : String
  networkType : List String
  networkIsExpensive : Bool
  networkIsConstrained : Bool
  wifiSsid : List String
  wifiBssid : List String
  interfaceAddress : List (String × List String)
  networkInterfaceAddress : List (String × List String)
  defaultInterfaceAddress : List String
  sourceMacAddress : List String
  sourceHostname : List String
  preferredBy : List String
  ruleSetIpCidrMatchSource : Bool
  invert : Bool
  deriving Repr, DecidableEq

def RawDefaultRule.default : RawDefaultRule where
  inbound := []
  ipVersion := 0
  network := []
  authUser := []
  protocol := []
  client := []
  domain := []
  domainSuffix := []
  domainKeyword := []
  domainRegex := []
  sourceIpCidr := []
  sourceIpIsPrivate := false
  ipCidr := []
  ipIsPrivate := false
  sourcePort := []
  sourcePortRange := []
  port := []
  portRange := []
  processName := []
  processPath := []
  processPathRegex := []
  packageName := []
  packageNameRegex := []
  user := []
  userId := []
  clashMode := ""
  networkType := []
  networkIsExpensive := false
  networkIsConstrained := false
  wifiSsid := []
  wifiBssid := []
  interfaceAddress := []
  networkInterfaceAddress := []
  defaultInterfaceAddress := []
  sourceMacAddress := []
  sourceHostname := []
  preferredBy := []
  ruleSetIpCidrMatchSource := false
  invert := false

/-- What `DefaultRule::from_raw` makes of the conditions. -/
structure DefaultItems where
  raw : RawDefaultRule
  domainRegex : List Regex
  processPathRegex : List Regex
  packageNameRegex : List Regex
  sourcePrefixes : List IpNet
  destinationPrefixes : List IpNet
  sourcePortRanges : List PortRange
  portRanges : List PortRange
  interfacePrefixes : List (String × List IpNet)
  networkInterfacePrefixes : List (String × List IpNet)
  defaultInterfacePrefixes : List IpNet

namespace DefaultItems

/-- No condition at all. -/
def plain : DefaultItems where
  raw := .default
  domainRegex := []
  processPathRegex := []
  packageNameRegex := []
  sourcePrefixes := []
  destinationPrefixes := []
  sourcePortRanges := []
  portRanges := []
  interfacePrefixes := []
  networkInterfacePrefixes := []
  defaultInterfacePrefixes := []

theorem ipIsPrivate_plain : plain.raw.ipIsPrivate = false := rfl

variable (items : DefaultItems)

def hasDomainCondition : Bool :=
  !items.raw.domain.isEmpty || !items.raw.domainSuffix.isEmpty
    || !items.raw.domainKeyword.isEmpty || !items.domainRegex.isEmpty

def matchesDomain (domain : Option String) : Bool :=
  domain.any fun domain =>
    let domain := toAsciiLowercase (trimEndMatches domain '.')
    (items.raw.domain.any fun value => eqIgnoreAsciiCase (trimEndMatches value '.') domain)
      || items.raw.domainSuffix.any (domainMatchesSuffix domain)
      || (items.raw.domainKeyword.any fun keyword =>
        containsText domain (toAsciiLowercase keyword))
      || items.domainRegex.any (· domain)

def matchesSourceAddress (address : Option IpAddr) : Bool :=
  let hasCidr := !items.raw.sourceIpCidr.isEmpty
  (!hasCidr && !items.raw.sourceIpIsPrivate)
    || (hasCidr && address.any fun address => items.sourcePrefixes.any (·.contains address))
    || (items.raw.sourceIpIsPrivate && address.any isPrivateAddress)

def matchesIpAddress (address : Option IpAddr) : Bool :=
  let hasCidr := !items.raw.ipCidr.isEmpty
  (hasCidr && address.any fun address => items.destinationPrefixes.any (·.contains address))
    || (items.raw.ipIsPrivate && address.any isPrivateAddress)

variable (metadata : Metadata)

def matchesDestinationIpAddress : Bool :=
  match metadata.destinationIp with
  | some address => items.matchesIpAddress (some address)
  | none =>
    metadata.destinationAddresses.any fun address => items.matchesIpAddress (some address)

/-- The conditions that all have to hold by themselves. -/
def matchesOrdinary : Bool :=
  let raw := items.raw
  matchesList raw.inbound metadata.inbound
    && matchesOptional raw.network (metadata.network.map Network.asStr)
    && matchesList raw.authUser metadata.authUser
    && matchesList raw.protocol metadata.protocol
    && matchesList raw.client metadata.client
    && matchesIpVersion raw.ipVersion metadata.ipVersion metadata.destinationIp
    && matchesList raw.processName metadata.processName
    && matchesList raw.processPath metadata.processPath
    && matchesRegex items.processPathRegex metadata.processPath
    && matchesList raw.packageName metadata.packageName
    && matchesRegex items.packageNameRegex metadata.packageName
    && matchesList raw.user metadata.user
    && matchesOptional raw.userId metadata.userId
    && (raw.clashMode = "" || eqIgnoreAsciiCase raw.clashMode metadata.clashMode)
    && matchesList raw.networkType metadata.networkType
    && (!raw.networkIsExpensive || metadata.networkIsExpensive)
    && (!raw.networkIsConstrained || metadata.networkIsConstrained)
    && matchesList raw.wifiSsid metadata.wifiSsid
    && matchesHardwareAddresses raw.wifiBssid metadata.wifiBssid true
    && matchesInterfacePrefixes items.interfacePrefixes metadata.interfaceAddress
    && matchesInterfacePrefixes items.networkInterfacePrefixes
      metadata.networkInterfaceAddress
    && matchesAnyPrefix items.defaultInterfacePrefixes metadata.defaultInterfaceAddress
    && matchesHardwareAddresses raw.sourceMacAddress metadata.sourceMacAddress false
    && matchesList raw.sourceHostname metadata.sourceHostname
    && (raw.preferredBy.isEmpty || raw.preferredBy.any metadata.preferredBy.contains)

def hasSourceAddress : Bool :=
  !items.raw.sourceIpCidr.isEmpty || items.raw.sourceIpIsPrivate

def hasDestinationIp : Bool :=
  !items.raw.ipCidr.isEmpty || items.raw.ipIsPrivate

def requiresSourceAddress (ipCidrMatchSource : Bool) : Bool :=
  items.hasSourceAddress || (ipCidrMatchSource && items.hasDestinationIp)

def satisfiesSourceAddress (ipCidrMatchSource : Bool) : Bool :=
  (items.hasSourceAddress && items.matchesSourceAddress metadata.sourceIp)
    || (ipCidrMatchSource && items.hasDestinationIp
      && items.matchesIpAddress metadata.sourceIp)

def requiresSourcePort : Bool :=
  !items.raw.sourcePort.isEmpty || !items.sourcePortRanges.isEmpty

def satisfiesSourcePort : Bool :=
  matchesPort items.raw.sourcePort items.sourcePortRanges
    (metadata.source.map SocksAddr.port)

def requiresDestinationAddress (ipCidrMatchSource : Bool) : Bool :=
  items.hasDomainCondition || (!ipCidrMatchSource && items.hasDestinationIp)

def satisfiesDestinationAddress (ipCidrMatchSource ipCidrAcceptEmpty : Bool) : Bool :=
  (items.hasDomainCondition && items.matchesDomain metadata.domainName)
    || (!ipCidrMatchSource && items.hasDestinationIp
      && (items.matchesDestinationIpAddress metadata
        || (ipCidrAcceptEmpty && metadata.destinationIp.isNone
          && metadata.destinationAddresses.isEmpty)))

def requiresDestinationPort : Bool :=
  !items.raw.port.isEmpty || !items.portRanges.isEmpty

def satisfiesDestinationPort : Bool :=
  matchesPort items.raw.port items.portRanges (metadata.destination.map SocksAddr.port)

/-- `evaluate_with_ip_source_and_empty`. -/
def evaluate (ipCidrMatchSource ipCidrAcceptEmpty : Bool) : RuleMatch :=
  let result : RuleMatch :=
    { ordinary := items.matchesOrdinary metadata, required := 0, satisfied := 0 }
  let result := result.group matchSourceAddress
    (items.requiresSourceAddress ipCidrMatchSource)
    (items.satisfiesSourceAddress metadata ipCidrMatchSource)
  let result := result.group matchSourcePort items.requiresSourcePort
    (items.satisfiesSourcePort metadata)
  let result := result.group matchDestinationAddress
    (items.requiresDestinationAddress ipCidrMatchSource)
    (items.satisfiesDestinationAddress metadata ipCidrMatchSource ipCidrAcceptEmpty)
  result.group matchDestinationPort items.requiresDestinationPort
    (items.satisfiesDestinationPort metadata)

theorem done_groups : ∀ ordinary sourceAddress source sourcePort port
    destinationAddress destination destinationPort service : Bool,
    (((((RuleMatch.mk ordinary 0 0).group matchSourceAddress sourceAddress source).group
      matchSourcePort sourcePort port).group
        matchDestinationAddress destinationAddress destination).group
          matchDestinationPort destinationPort service).done
    = (ordinary && (!sourceAddress || source) && (!sourcePort || port)
      && (!destinationAddress || destination) && (!destinationPort || service)) := by
  decide

end DefaultItems

end Zay.Route
