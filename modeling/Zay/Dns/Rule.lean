import Zay.Dns.Matcher

/-! DNS rules: the tree of conditions, what each kind of traversal makes of it, and the
action of a rule.
-/

namespace Zay.Dns

open Net
open Route

structure LookupOptions where
  strategy : DomainStrategy
  timeout : Option Duration
  disableCache : Bool
  disableOptimisticCache : Bool
  rewriteTtl : Option UInt32
  clientSubnet : Option IpNet
  removeClientSubnet : Bool
  deriving Repr, DecidableEq

structure DnsLookupOverride where
  timeout : Option Duration
  strategy : DomainStrategy
  disableCache : Bool
  disableOptimisticCache : Bool
  rewriteTtl : Option UInt32
  clientSubnet : Option IpNet
  removeClientSubnet : Bool
  deriving Repr, DecidableEq

namespace DnsLookupOverride

def default : DnsLookupOverride where
  timeout := none
  strategy := .asIs
  disableCache := false
  disableOptimisticCache := false
  rewriteTtl := none
  clientSubnet := none
  removeClientSubnet := false

def apply (overrides : DnsLookupOverride) (options : LookupOptions) : LookupOptions where
  timeout := if overrides.timeout.isSome then overrides.timeout else options.timeout
  strategy := if overrides.strategy ≠ .asIs then overrides.strategy else options.strategy
  disableCache := options.disableCache || overrides.disableCache
  disableOptimisticCache :=
    options.disableOptimisticCache || overrides.disableOptimisticCache
  rewriteTtl :=
    if overrides.rewriteTtl.isSome then overrides.rewriteTtl else options.rewriteTtl
  clientSubnet :=
    if overrides.removeClientSubnet then none
    else if overrides.clientSubnet.isSome then overrides.clientSubnet
    else options.clientSubnet
  removeClientSubnet :=
    if overrides.removeClientSubnet then true
    else if overrides.clientSubnet.isSome then false
    else options.removeClientSubnet

end DnsLookupOverride

/-- `DnsRejectAction` without the times of its recent requests. -/
structure DnsRejectAction where
  method : String
  noDrop : Bool
  deriving Repr, DecidableEq

structure PredefinedAction where
  responseCode : ResponseCode
  answers : List Record
  authorities : List Record
  additionals : List Record
  deriving Repr, DecidableEq

inductive DnsAction where
  | route (server : String) (speculative : Bool) (options : DnsLookupOverride)
  | routeOptions (options : DnsLookupOverride)
  | evaluate (server : String) (tag : Option String) (speculative : Bool)
      (options : DnsLookupOverride)
  | respond
  | reject (action : DnsRejectAction)
  | predefined (action : PredefinedAction)
  deriving Repr, DecidableEq

namespace DnsAction

def server : DnsAction → Option String
  | .route server _ _ => some server
  | .evaluate server _ _ _ => some server
  | _ => none

def isTerminal : DnsAction → Bool
  | .routeOptions _ => false
  | .evaluate _ _ _ _ => false
  | _ => true

def speculative : DnsAction → Bool
  | .route _ speculative _ => speculative
  | .evaluate _ _ speculative _ => speculative
  | _ => false

end DnsAction

inductive DnsRule where
  | default (matcher : QueryMatcher) (invert race : Bool) (action : DnsAction)
  | logical (mode : LogicalMode) (rules : List DnsRule) (invert race : Bool)
      (action : DnsAction)

namespace DnsRule

def action : DnsRule → DnsAction
  | .default _ _ _ action => action
  | .logical _ _ _ _ action => action

def race : DnsRule → Bool
  | .default _ _ race _ => race
  | .logical _ _ _ race _ => race

def responseSelector : DnsRule → Option ResponseSelector
  | .default matcher _ _ _ => matcher.responseSelector
  | .logical _ _ _ _ _ => none

mutual

/-- The verdict of a rule, given the verdict of each of its matchers. -/
def verdict (leaf : QueryMatcher → Bool) : DnsRule → Bool
  | .default matcher invert _ _ => leaf matcher != invert
  | .logical .and rules invert _ _ => verdictAll leaf rules != invert
  | .logical .or rules invert _ _ => verdictAny leaf rules != invert

def verdictAll (leaf : QueryMatcher → Bool) : List DnsRule → Bool
  | [] => true
  | rule :: rules => verdict leaf rule && verdictAll leaf rules

def verdictAny (leaf : QueryMatcher → Bool) : List DnsRule → Bool
  | [] => false
  | rule :: rules => verdict leaf rule || verdictAny leaf rules

end

mutual

/-- The possibility of a rule, given the possibility of each of its matchers. -/
def possibility (leaf : QueryMatcher → MatchPossibility) : DnsRule → MatchPossibility
  | .default matcher invert _ _ => (leaf matcher).invertedIf invert
  | .logical .and rules invert _ _ =>
    (possibilityAll leaf (.fixed true) rules).invertedIf invert
  | .logical .or rules invert _ _ =>
    (possibilityAny leaf (.fixed false) rules).invertedIf invert

def possibilityAll (leaf : QueryMatcher → MatchPossibility) (state : MatchPossibility)
    : List DnsRule → MatchPossibility
  | [] => state
  | rule :: rules => possibilityAll leaf (state.and (possibility leaf rule)) rules

def possibilityAny (leaf : QueryMatcher → MatchPossibility) (state : MatchPossibility)
    : List DnsRule → MatchPossibility
  | [] => state
  | rule :: rules => possibilityAny leaf (state.or (possibility leaf rule)) rules

end

mutual

/-- The matchers of a rule from left to right, each with its own inversion. -/
def leaves : DnsRule → List (QueryMatcher × Bool)
  | .default matcher invert _ _ => [(matcher, invert)]
  | .logical _ rules _ _ _ => allLeaves rules

def allLeaves : List DnsRule → List (QueryMatcher × Bool)
  | [] => []
  | rule :: rules => leaves rule ++ allLeaves rules

end

variable (rule : DnsRule) (router : Option Router) (domain : String) (metadata : QueryMetadata)

def hasLegacyAddressLimit : Bool :=
  rule.leaves.any fun leaf => leaf.1.hasLegacyAddressLimit router

def requiresMessageLookup : Bool :=
  rule.leaves.any fun leaf => leaf.1.requiresMessageLookup

def responseSelectors : List ResponseSelector :=
  rule.leaves.filterMap fun leaf => leaf.1.responseSelector

/-- `DnsRule::matches`, where `responses` are those that have been evaluated. -/
def matchesQuery (responses : ResponseSelector → Option Message) : Bool :=
  rule.verdict fun matcher =>
    matcher.matchesQuery router domain metadata (matcher.responseSelector.bind responses)

/-- The responses that a condition of the rule turned down, although the query met it. -/
def rejectedResponseSelectors (responses : ResponseSelector → Option Message)
    : List ResponseSelector :=
  rule.leaves.filterMap fun leaf =>
    if leaf.2 then none
    else
      leaf.1.response.bind fun responseMatcher =>
        let selector := responseMatcher.selector
        if leaf.1.matchesQueryPart domain metadata
            && (responses selector).any fun response =>
              !leaf.1.matchesQuery router domain metadata (some response)
        then some selector
        else none

/-- `legacy_match_possibility`. -/
def legacyMatchPossibility : MatchPossibility :=
  rule.possibility fun matcher => matcher.legacyMatchPossibility router domain metadata

/-- `legacy_matches_response`. -/
def legacyMatchesResponse (response : Message) : Bool :=
  rule.verdict fun matcher => matcher.legacyMatchesResponse router domain metadata response

end DnsRule

end Zay.Dns
