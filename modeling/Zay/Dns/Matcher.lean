import Zay.Dns.Message
import Zay.Route.Router

/-! The conditions of a DNS rule (`dns/rule.rs`): what is known about a query, and the
matchers for its domain, its context and the response that a server gave.
-/

namespace Zay.Dns

open Net
open Route

def canonical (domain : String) : String :=
  toAsciiLowercase (trimEndMatches domain '.')

structure QueryMetadata where
  queryType : Option RecordType
  clientSubnet : Option ClientSubnet
  dnssec : Bool
  clashMode : Option String
  route : Metadata

namespace QueryMetadata

def forDomain (domain : String) (queryType : Option RecordType) (context : Option Metadata)
    (clashMode : Option String)
    : QueryMetadata where
  queryType
  clientSubnet := none
  dnssec := false
  clashMode
  route :=
    { context.getD .default with
      domain := canonical domain
      queryType
      clashMode := clashMode.getD "" }

def withMessage (metadata : QueryMetadata) (request : Message) : QueryMetadata :=
  { metadata with clientSubnet := request.clientSubnet, dnssec := request.dnssecOk }

def fromRequest (request : Message) (context : Option Metadata) (clashMode : Option String)
    : QueryMetadata :=
  let domain := (request.queries.head?.map (·.name)).getD ""
  (forDomain domain (request.queries.head?.map (·.queryType)) context clashMode).withMessage
    request

end QueryMetadata

/-- A suffix comes with whether it stands for subdomains only. -/
structure DomainMatcher where
  exact : List String
  suffix : List (String × Bool)
  keyword : List String
  regex : List Regex

namespace DomainMatcher

def isEmpty (matcher : DomainMatcher) : Bool :=
  matcher.exact.isEmpty && matcher.suffix.isEmpty && matcher.keyword.isEmpty
    && matcher.regex.isEmpty

def matchesDomain (matcher : DomainMatcher) (domain : String) : Bool :=
  matcher.isEmpty ||
    let domain := canonical domain
    matcher.exact.contains domain
      || (matcher.suffix.any fun entry =>
        (!entry.2 && domain = entry.1)
          || (stripSuffix domain entry.1).any (endsWithChar · '.'))
      || (matcher.keyword.any fun keyword => containsText domain keyword)
      || matcher.regex.any (· domain)

end DomainMatcher

structure AddressMatcher where
  ipCidrs : List IpNet
  ipIsPrivate : Bool
  ipAcceptAny : Bool
  deriving Repr, DecidableEq

namespace AddressMatcher

def isEmpty (matcher : AddressMatcher) : Bool :=
  !matcher.ipAcceptAny && !matcher.ipIsPrivate && matcher.ipCidrs.isEmpty

def matchesAddresses (matcher : AddressMatcher) (addresses : List IpAddr) (acceptEmpty : Bool)
    : Bool :=
  matcher.isEmpty || (addresses.isEmpty && acceptEmpty)
    || (matcher.ipAcceptAny && !addresses.isEmpty)
    || (matcher.ipIsPrivate && addresses.any isPrivateAddress)
    || (!matcher.ipCidrs.isEmpty
      && addresses.any fun address => matcher.ipCidrs.any (·.contains address))

def matchesResponse (matcher : AddressMatcher) (response : Message) (acceptEmpty : Bool)
    : Bool :=
  matcher.matchesAddresses (dnsResponseAddresses response) acceptEmpty

end AddressMatcher

inductive ResponseSelector where
  | anonymous
  | tagged (tag : String)
  deriving Repr, DecidableEq

structure ResponseMatcher where
  selector : ResponseSelector
  address : AddressMatcher
  responseCode : Option ResponseCode
  answers : List Record
  authorities : List Record
  additionals : List Record
  deriving Repr, DecidableEq

/-- Two names are equal without regard to letter case. -/
def recordsMatch (expected actual : List Record) : Bool :=
  expected.isEmpty || expected.any fun expected =>
    actual.any fun actual =>
      eqIgnoreAsciiCase expected.name actual.name && expected.dnsClass = actual.dnsClass
        && expected.data = actual.data

namespace ResponseMatcher

variable (matcher : ResponseMatcher)

def matchesMetadata (response : Message) : Bool :=
  (matcher.responseCode.all fun code => response.responseCode = code)
    && recordsMatch matcher.answers response.answers
    && recordsMatch matcher.authorities response.authorities
    && recordsMatch matcher.additionals response.additionals

def hasAddressCondition : Bool :=
  !matcher.address.isEmpty

def matchesAddress (response : Message) : Bool :=
  matcher.address.matchesResponse response false

end ResponseMatcher

/-- What is known about a match before the response is: whether it may come about and
whether it may fail to.
-/
structure MatchPossibility where
  canMatch : Bool
  canMiss : Bool
  deriving Repr, DecidableEq

namespace MatchPossibility

def fixed (value : Bool) : MatchPossibility := ⟨value, !value⟩

def unknown : MatchPossibility := ⟨true, true⟩

def and (self other : MatchPossibility) : MatchPossibility :=
  ⟨self.canMatch && other.canMatch, self.canMiss || other.canMiss⟩

def or (self other : MatchPossibility) : MatchPossibility :=
  ⟨self.canMatch || other.canMatch, self.canMiss && other.canMiss⟩

def invertedIf (self : MatchPossibility) (invert : Bool) : MatchPossibility :=
  if invert then ⟨self.canMiss, self.canMatch⟩ else self

end MatchPossibility

/-- `DnsContextMatcher`: the conditions of a DNS rule on the connection that asks. -/
structure DnsContextMatcher where
  items : DefaultItems

/-- The rule that `DnsContextMatcher::compile` builds has no rule-sets. -/
def DnsContextMatcher.matchesMetadata (matcher : DnsContextMatcher) (metadata : Metadata)
    : Bool :=
  DefaultRule.matchesMetadata
    { items := matcher.items, ruleSets := [], action := .route "" .default } metadata

/-- `QueryMatcher`. Of a resolver that the rule names as preferred, only the domains it
claims are read; the router behind the rule-sets is the argument of the functions that read
its shared cell.
-/
structure QueryMatcher where
  domain : DomainMatcher
  context : DnsContextMatcher
  outbounds : List String
  outboundAny : Bool
  ruleSets : List String
  ruleSetIpCidrMatchSource : Bool
  ipVersion : Option UInt8
  queryTypes : List RecordType
  clientSubnets : List IpNet
  queryDnssec : Bool
  clashMode : String
  preferredBy : List (String → Option Bool)
  response : Option ResponseMatcher
  legacyAddress : Option AddressMatcher
  ruleSetIpCidrAcceptEmpty : Bool

namespace QueryMatcher

/-- No condition at all. -/
def plain : QueryMatcher where
  domain := { exact := [], suffix := [], keyword := [], regex := [] }
  context := { items := .plain }
  outbounds := []
  outboundAny := false
  ruleSets := []
  ruleSetIpCidrMatchSource := false
  ipVersion := none
  queryTypes := []
  clientSubnets := []
  queryDnssec := false
  clashMode := ""
  preferredBy := []
  response := none
  legacyAddress := none
  ruleSetIpCidrAcceptEmpty := false

variable (matcher : QueryMatcher)

def matchesIpVersion (queryType : Option RecordType) : Bool :=
  matcher.ipVersion.all fun version =>
    (version = 4 && queryType = some .a) || (version = 6 && queryType = some .aaaa)

def matchesClientSubnet (clientSubnet : Option ClientSubnet) : Bool :=
  matcher.clientSubnets.isEmpty || clientSubnet.any fun subnet =>
    (IpNet.new subnet.address subnet.sourcePrefix).any fun query =>
      matcher.clientSubnets.any fun range =>
        range.prefixLen ≤ query.prefixLen && range.contains query.addr

variable (router : Option Router) (domain : String) (metadata : QueryMetadata)

def matchesQueryContext : Bool :=
  matcher.context.matchesMetadata metadata.route
    && (matcher.outbounds.isEmpty || matcher.outbounds.contains metadata.route.outbound
      || (matcher.outboundAny && metadata.route.outbound != ""))
    && matcher.matchesIpVersion metadata.queryType
    && (matcher.queryTypes.isEmpty || metadata.queryType.any matcher.queryTypes.contains)
    && matcher.matchesClientSubnet metadata.clientSubnet
    && (!matcher.queryDnssec || metadata.dnssec)
    && (matcher.clashMode = ""
      || metadata.clashMode.any (eqIgnoreAsciiCase · matcher.clashMode))
    && (matcher.preferredBy.isEmpty
      || matcher.preferredBy.any fun preferredDomain => preferredDomain domain = some true)

/-- `QueryMatcher::matches`. -/
def matchesQuery (response : Option Message) : Bool :=
  let domainConfigured := !matcher.domain.isEmpty
  let domainMatches := matcher.domain.matchesDomain domain
  let decide (route : Metadata) (addressConfigured addressMatches : Bool) : Bool :=
    let destinationRequired := domainConfigured || addressConfigured
    let destinationSatisfied := domainConfigured && domainMatches || addressMatches
    if matcher.ruleSets.isEmpty then !destinationRequired || destinationSatisfied
    else
      router.any fun router =>
        router.matchesRuleSets matcher.ruleSets route matcher.ruleSetIpCidrMatchSource
          destinationRequired destinationSatisfied false
  matcher.matchesQueryContext domain metadata &&
    match matcher.response with
    | none => decide metadata.route false false
    | some responseMatcher =>
      response.any fun response =>
        responseMatcher.matchesMetadata response &&
          decide (metadata.route.withAddresses (dnsResponseAddresses response))
            responseMatcher.hasAddressCondition
            (responseMatcher.hasAddressCondition && responseMatcher.matchesAddress response)

/-- `matches_query`: all that can be told without the response. -/
def matchesQueryPart : Bool :=
  matcher.matchesQueryContext domain metadata
    && (matcher.domain.matchesDomain domain
      || matcher.response.any ResponseMatcher.hasAddressCondition)

def responseSelector : Option ResponseSelector :=
  matcher.response.map (·.selector)

def requiresMessageLookup : Bool :=
  matcher.ipVersion.isSome || !matcher.queryTypes.isEmpty || !matcher.clientSubnets.isEmpty
    || matcher.queryDnssec || matcher.clashMode ≠ "" || matcher.response.isSome

def hasLegacyAddressLimit : Bool :=
  matcher.legacyAddress.isSome
    || (!matcher.ruleSetIpCidrMatchSource && !matcher.ruleSets.isEmpty
      && router.any (·.ruleSetsContainDestinationIp matcher.ruleSets))

/-- The `destination` of `legacy_match_possibility`: the condition on the domain or, once the
response is there, on its addresses.
-/
def destinationPossibility : MatchPossibility :=
  let domainConfigured := !matcher.domain.isEmpty
  if domainConfigured && matcher.domain.matchesDomain domain then .fixed true
  else if matcher.legacyAddress.isSome then .unknown
  else .fixed (!domainConfigured)

def legacyMatchPossibility : MatchPossibility :=
  if !matcher.matchesQueryContext domain metadata then .fixed false
  else
    let domainConfigured := !matcher.domain.isEmpty
    let destination := matcher.destinationPossibility domain
    if matcher.ruleSets.isEmpty then destination
    else
      match router with
      | none => .fixed false
      | some router =>
        let sets := router.ruleSetsLegacyMatchPossibility matcher.ruleSets metadata.route
          matcher.ruleSetIpCidrMatchSource
          (domainConfigured || matcher.legacyAddress.isSome)
          destination.canMatch destination.canMiss
        { canMatch := sets.1, canMiss := sets.2 }

def legacyMatchesResponse (response : Message) : Bool :=
  let domainConfigured := !matcher.domain.isEmpty
  let addressMatches := matcher.legacyAddress.any (·.matchesResponse response false)
  let destinationRequired := domainConfigured || matcher.legacyAddress.isSome
  let destinationSatisfied :=
    domainConfigured && matcher.domain.matchesDomain domain || addressMatches
  matcher.matchesQueryContext domain metadata &&
    if matcher.ruleSets.isEmpty then !destinationRequired || destinationSatisfied
    else
      router.any fun router =>
        router.matchesRuleSets matcher.ruleSets
          (metadata.route.withAddresses (dnsResponseAddresses response))
          matcher.ruleSetIpCidrMatchSource destinationRequired destinationSatisfied
          matcher.ruleSetIpCidrAcceptEmpty

end QueryMatcher

end Zay.Dns
