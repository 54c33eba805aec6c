import Zay.Net.Prefix

/-! Routes of a TUN interface (`inbound/tun_route.rs`): what the options include, or the
default routes, less what they exclude. `IpNet::aggregate` is a parameter.
-/

namespace Zay.Inbound

open Net

inductive TunRoutePlatform where
  | darwin
  | linux
  | windows
  | other
  deriving Repr, DecidableEq

/-- What a route plan reads of the options. -/
structure TunInboundOptions where
  address : List IpNet
  routeAddress : List IpNet
  routeExcludeAddress : List IpNet
  autoRoute : Bool
  deriving Repr, DecidableEq

structure TunRoutePlan where
  routes : List IpNet
  deriving Repr, DecidableEq

def TunRoutePlan.contains (plan : TunRoutePlan) (address : IpAddr) : Bool :=
  plan.routes.any (·.contains address)

/-- A route that contains the excluded range and more is split in halves; it has more than one
address, so there is a longer prefix.
-/
def subtractCidr {width : Nat} (route excluded : Cidr width) : List (Cidr width) :=
  if apart : !route.containsNet excluded && !excluded.containsNet route then [route]
  else if inside : excluded.containsNet route then []
  else
    have short : route.prefixLen.val < width := by
      refine Cidr.prefixLen_lt_of_strict ?_ inside
      by_contra notOver
      simp [notOver, inside] at apart
    subtractCidr (route.lowerHalf short) excluded ++ subtractCidr (route.upperHalf short) excluded
termination_by width - route.prefixLen.val
decreasing_by
  · show width - (route.prefixLen.val + 1) < width - route.prefixLen.val
    omega
  · show width - (route.prefixLen.val + 1) < width - route.prefixLen.val
    omega

def subtract : IpNet → IpNet → List IpNet
  | .v4 route, .v4 excluded => (subtractCidr route excluded).map .v4
  | .v6 route, .v6 excluded => (subtractCidr route excluded).map .v6
  | route, _ => [route]

def subtractAll (routes excludes : List IpNet) : List IpNet :=
  excludes.foldl (fun routes excluded => routes.flatMap (subtract · excluded)) routes

/-- The ranges of one family. -/
def ofFamily (ipv6 : Bool) (ranges : List IpNet) : List IpNet :=
  ranges.filter (·.addr.isIpv6 == ipv6)

/-- The range whose first byte is `1 << index` and whose prefix ends with that bit. -/
def darwinRoute (ipv6 : Bool) (index : Fin 8) : IpNet :=
  if ipv6 then .v6 { addr := (1 <<< index.val) <<< 120, prefixLen := ⟨8 - index.val, by omega⟩ }
  else .v4 { addr := (1 <<< index.val) <<< 24, prefixLen := ⟨8 - index.val, by omega⟩ }

def defaultRoutes (ipv6 : Bool) (platform : TunRoutePlatform) (underNetworkExtension : Bool)
    : List IpNet :=
  if platform ≠ .darwin ∨ underNetworkExtension then
    [if ipv6 then .v6 { addr := 0, prefixLen := ⟨0, by decide⟩ }
      else .v4 { addr := 0, prefixLen := ⟨0, by decide⟩ }]
  else (List.finRange 8).map (darwinRoute ipv6)

/-- The routes of a family before anything is excluded. -/
def familyRoutes (ipv6 : Bool) (assigned includes : List IpNet) (autoRoute : Bool)
    (platform : TunRoutePlatform) (underNetworkExtension : Bool)
    : List IpNet :=
  let explicit := ofFamily ipv6 includes
  let hasExplicit := !explicit.isEmpty
  let base :=
    if hasExplicit then explicit
    else if autoRoute then defaultRoutes ipv6 platform underNetworkExtension
    else []
  if platform = .darwin ∧ (hasExplicit ∨ ¬autoRoute) then
    -- The threshold is 32 for both families.
    base ++ (assigned.filter (·.prefixLen < 32)).map IpNet.trunc
  else base

section Plans

variable (aggregate : List IpNet → List IpNet)

def buildFamily (ipv6 : Bool) (addresses includes excludes : List IpNet) (autoRoute : Bool)
    (platform : TunRoutePlatform) (underNetworkExtension : Bool)
    : List IpNet :=
  let assigned := ofFamily ipv6 addresses
  if assigned.isEmpty then []
  else
    let routes := familyRoutes ipv6 assigned includes autoRoute platform underNetworkExtension
    let familyExcludes := ofFamily ipv6 excludes
    let remaining := subtractAll routes familyExcludes
    if familyExcludes.isEmpty then remaining else aggregate remaining

/-- The smaller one of two nested ranges. -/
def intersect? (left right : IpNet) : Option IpNet :=
  if left.containsNet right then some right
  else if right.containsNet left then some left
  else none

def buildAutoRedirectFamily (ipv6 : Bool)
    (addresses explicitIncludes ruleSetIncludes excludes : List IpNet)
    : List IpNet :=
  if !addresses.any (·.addr.isIpv6 == ipv6) then []
  else
    let explicit := ofFamily ipv6 explicitIncludes
    let dynamic := ofFamily ipv6 ruleSetIncludes
    let routes :=
      match explicit.isEmpty, dynamic.isEmpty with
      | true, true => defaultRoutes ipv6 .linux false
      | false, true => explicit
      | true, false => dynamic
      | false, false => explicit.flatMap fun left => dynamic.filterMap (intersect? left)
    aggregate (subtractAll routes (ofFamily ipv6 excludes))

namespace TunRoutePlan

variable (options : TunInboundOptions)

def fromOptionsWithResolvedRuleSets (platform : TunRoutePlatform) (underNetworkExtension : Bool)
    (routeSetIncludes routeSetExcludes : List IpNet)
    : TunRoutePlan :=
  let includes := options.routeAddress ++ routeSetIncludes
  let excludes := options.routeExcludeAddress ++ routeSetExcludes
  let family (ipv6 : Bool) :=
    buildFamily aggregate ipv6 options.address includes excludes options.autoRoute platform
      underNetworkExtension
  { routes := family false ++ family true }

def fromAutoRedirectOptionsWithResolvedRuleSets (routeSetIncludes routeSetExcludes : List IpNet)
    : TunRoutePlan :=
  let excludes := options.routeExcludeAddress ++ routeSetExcludes
  let family (ipv6 : Bool) :=
    buildAutoRedirectFamily aggregate ipv6 options.address options.routeAddress routeSetIncludes
      excludes
  { routes := family false ++ family true }

end TunRoutePlan

end Plans

end Zay.Inbound
