import Zay.Route.Rule

/-! The router and its two evaluators: the single pass over the rules (`route_internal`) and
the one that stops at every action it cannot carry out itself and is called again
(`route_next_internal`).
-/

namespace Zay.Route

open Net

/-- A router without neighbour, process and preferred-outbound resolvers. -/
structure Router where
  rules : List Rule
  ruleSets : String → Option RuleSet
  finalOutbound : String
  clashMode : Option String

/-- `RouteDecision` without the verdict of the reject flood counter. -/
@[ext]
structure RouteDecision where
  action : Option Action
  options : ConnectionOverride
  finalOutbound : String
  deriving Repr, DecidableEq

structure RouteState where
  nextRule : Nat
  options : ConnectionOverride
  deriving Repr, DecidableEq

def RouteState.default : RouteState where
  nextRule := 0
  options := .default

variable (router : Router) (metadata : Metadata)

/-- `apply_runtime_metadata`. -/
def Router.applyRuntimeMetadata : Metadata :=
  { metadata with
    ipVersion :=
      match metadata.destinationIp with
      | some address => some (if address.isIpv4 then 4 else 6)
      | none => metadata.ipVersion
    clashMode := router.clashMode.getD metadata.clashMode }

/-- What a route-options action does to the metadata of the rules after it. -/
def overrideDestination (next : ConnectionOverride) (keepAddresses : Bool) : Metadata :=
  { metadata with
    destination := metadata.destination.map next.apply
    destinationAddresses :=
      if !keepAddresses ∧ next.address ≠ "" then [] else metadata.destinationAddresses }

/-- A rule that has a destination condition or none, seen from the rule-sets it refers to. -/
def destinationOuter (required satisfied : Bool) : RuleMatch where
  ordinary := true
  required := if required then matchDestinationAddress else 0
  satisfied := if required && satisfied then matchDestinationAddress else 0

/-- `matches_rule_sets_with_destination_outer`. -/
def Router.matchesRuleSets (tags : List String) (metadata : Metadata)
    (ipCidrMatchSource destinationRequired destinationSatisfied ipCidrAcceptEmpty : Bool)
    : Bool :=
  tags.any fun tag =>
    (router.ruleSets tag).any fun set =>
      set.matchesWithOuter metadata (destinationOuter destinationRequired destinationSatisfied)
        ipCidrMatchSource ipCidrAcceptEmpty

/-- `rule_sets_contain_destination_ip`. -/
def Router.ruleSetsContainDestinationIp (tags : List String) : Bool :=
  tags.any fun tag =>
    (router.ruleSets tag).any fun set => HeadlessRule.containsIpCidrRule set.rules

/-- `rule_sets_legacy_match_possibility`: whether the sets can match, and whether they can
miss, once the response is known.
-/
def Router.ruleSetsLegacyMatchPossibility (tags : List String) (metadata : Metadata)
    (ipCidrMatchSource destinationRequired destinationCanMatch destinationCanMiss : Bool)
    : Bool × Bool :=
  let matchedWithoutUnknown := router.matchesRuleSets tags metadata ipCidrMatchSource
    destinationRequired (!destinationCanMiss) false
  if matchedWithoutUnknown || ipCidrMatchSource then
    (matchedWithoutUnknown, !matchedWithoutUnknown)
  else
    let matchedIfDestinationMatches := destinationCanMatch
      && router.matchesRuleSets tags metadata ipCidrMatchSource destinationRequired true false
    (matchedIfDestinationMatches || router.ruleSetsContainDestinationIp tags, true)

/-- The loop of `route_internal`, where `protocol` is the one of the original metadata. -/
def routePass (finalOutbound protocol : String) (skipSniff skipResolve : Bool)
    : List Rule → Metadata → ConnectionOverride → RouteDecision
  | [], _, options => { action := none, options, finalOutbound }
  | rule :: rules, current, options =>
    let skip := routePass finalOutbound protocol skipSniff skipResolve rules current options
    let decide : RouteDecision := { action := some rule.action, options, finalOutbound }
    if !rule.matchesMetadata current then skip
    else
      match rule.action with
      | .routeOptions next =>
        routePass finalOutbound protocol skipSniff skipResolve rules
          (overrideDestination current next false) (options.update next)
      | .bypass outbound _ => if outbound = "" then skip else decide
      | .sniff _ => if skipSniff ∨ protocol ≠ "" then skip else decide
      | .resolve _ => if skipResolve then skip else decide
      | _ => decide

/-- `route_internal`. -/
def Router.routeAfterActions (skipSniff skipResolve : Bool) : RouteDecision :=
  routePass router.finalOutbound metadata.protocol skipSniff skipResolve router.rules
    (router.applyRuntimeMetadata metadata) .default

/-- The loop of `route_next_internal`, where `protocol` is the one of the original
metadata.
-/
def routeWalk (finalOutbound protocol : String) (preserveEmptyBypass : Bool)
    : List Rule → (index : Nat) → Metadata → RouteState → RouteDecision × RouteState
  | [], _, _, state => ({ action := none, options := state.options, finalOutbound }, state)
  | rule :: rules, index, current, state =>
    if !rule.matchesMetadata current then
      routeWalk finalOutbound protocol preserveEmptyBypass rules (index + 1) current state
    else
      let state := { state with nextRule := index + 1 }
      let skip :=
        routeWalk finalOutbound protocol preserveEmptyBypass rules (index + 1) current state
      let decide : RouteDecision × RouteState :=
        ({ action := some rule.action, options := state.options, finalOutbound }, state)
      match rule.action with
      | .routeOptions next =>
        routeWalk finalOutbound protocol preserveEmptyBypass rules (index + 1)
          (overrideDestination current next preserveEmptyBypass)
          { state with options := state.options.update next }
      | .bypass outbound _ =>
        if outbound = "" ∧ !preserveEmptyBypass then skip else decide
      | .sniff _ => if protocol ≠ "" then skip else decide
      | _ => decide

/-- The metadata with which an evaluation starts or goes on: the original with the
destination that the options collected so far give it.
-/
def Router.rebuild (options : ConnectionOverride) (preserveEmptyBypass : Bool) : Metadata :=
  router.applyRuntimeMetadata { metadata with
    destination := metadata.destination.map options.apply
    destinationAddresses :=
      if metadata.destination.isSome ∧ !preserveEmptyBypass ∧ options.address ≠ "" then []
      else metadata.destinationAddresses }

def Router.routeNextInternal (state : RouteState) (preserveEmptyBypass : Bool)
    : RouteDecision × RouteState :=
  routeWalk router.finalOutbound metadata.protocol preserveEmptyBypass
    (router.rules.drop state.nextRule) state.nextRule
    (router.rebuild metadata state.options preserveEmptyBypass) state

def Router.routeNext (state : RouteState) : RouteDecision × RouteState :=
  router.routeNextInternal metadata state false

def Action.isPreprocessing : Action → Bool
  | .sniff _ | .resolve _ => true
  | _ => false

/-- Calling `route_next` until it decides on something else than to sniff or to resolve. -/
def Router.routeDiscarding (router : Router) (metadata : Metadata)
    : (fuel : Nat) → RouteState → Option RouteDecision
  | 0, _ => none
  | fuel + 1, state =>
    let next := router.routeNext metadata state
    if next.1.action.any Action.isPreprocessing then
      router.routeDiscarding metadata fuel next.2
    else some next.1

end Zay.Route
