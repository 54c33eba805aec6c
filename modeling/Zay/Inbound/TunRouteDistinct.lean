import Zay.Inbound.TunRouteCoverage

/-! Whether a plan repeats a route: only a family with exclusions is aggregated, so that every
other family keeps the duplicates of its include lists.
-/

namespace Zay.Inbound

open Net TunRoutePlan List

/-- No two routes are the same network, whatever their host bits. -/
def Distinct (routes : List IpNet) : Prop := routes.Pairwise fun left right =>
  left.trunc ≠ right.trunc

variable {aggregate : List IpNet → List IpNet} {ipv6 : Bool} {routes : List IpNet}

/-- What `IpNet::aggregate` makes of a list: disjoint networks that cover the same addresses. -/
def Aggregates (aggregate : List IpNet → List IpNet) (routes : List IpNet) : Prop :=
  (∀ address, Covers (aggregate routes) address ↔ Covers routes address)
  ∧ (aggregate routes).Pairwise fun left right =>
    ∀ address, left.contains address → ¬right.contains address

theorem Aggregates.not_nested (aggregated : Aggregates aggregate routes)
    : (aggregate routes).Pairwise fun left right =>
      ¬left.containsNet right ∧ ¬right.containsNet left := by
  refine aggregated.2.imp fun {left right} ha => ⟨fun nested => ?_, fun nested => ?_⟩
  · exact ha _ (IpNet.contains_of_containsNet nested right.contains_addr) right.contains_addr
  · exact ha _ left.contains_addr (IpNet.contains_of_containsNet nested left.contains_addr)

/-- Disjoint networks are different, since each has an address. -/
theorem Aggregates.distinct (aggregated : Aggregates aggregate routes)
    : Distinct (aggregate routes) := by
  refine aggregated.2.imp fun {left right} ha he => ha _ left.contains_addr ?_
  rw [← right.contains_trunc, ← he, left.contains_trunc]
  exact left.contains_addr

theorem Aggregates.family {excludes}
    (ha : Aggregates aggregate (subtractAll routes excludes)) (family : Family ipv6 routes)
    : Family ipv6 (aggregate (subtractAll routes excludes)) := by
  intro range hm
  by_contra other
  have remains := (ha.1 _).mp ⟨range, hm, range.contains_addr⟩
  exact family.not_covers other ((covers_subtractAll routes excludes _).mp remains).1

/-- Whatever the platform, the default routes of a family are different networks. -/
theorem distinct_defaultRoutes (ipv6 platform underNetworkExtension)
    : Distinct (defaultRoutes ipv6 platform underNetworkExtension) := by
  unfold defaultRoutes Distinct
  split
  · exact pairwise_singleton _ _
  · cases ipv6 <;> decide +kernel

/-- No network of the family is included twice. On darwin the assigned subnets, where they are
routes too, are different from one another and from the included ones.
-/
def Unrepeated (ipv6 : Bool) (addresses includes : List IpNet) (autoRoute : Bool)
    (platform : TunRoutePlatform) : Prop :=
  let subnets := (ofFamily ipv6 addresses).filter (·.prefixLen < 32)
  Distinct (ofFamily ipv6 includes)
  ∧ (platform = .darwin → ofFamily ipv6 includes ≠ [] ∨ ¬autoRoute →
    Distinct subnets
    ∧ ∀ range ∈ ofFamily ipv6 includes, ∀ subnet ∈ subnets, range.trunc ≠ subnet.trunc)

theorem trunc_trunc (range : IpNet) : range.trunc.trunc = range.trunc := by
  cases range <;> simp [IpNet.trunc, Cidr.trunc, Cidr.network, Cidr.netmask, BitVec.and_assoc]

/-- The routes a family starts from repeat a network exactly when the inputs do: default routes
stand in for an empty include list only, and alone.
-/
theorem distinct_familyRoutes_iff (addresses includes autoRoute platform underNetworkExtension)
    : Distinct (familyRoutes ipv6 (ofFamily ipv6 addresses) includes autoRoute platform
        underNetworkExtension)
      ↔ Unrepeated ipv6 addresses includes autoRoute platform := by
  unfold familyRoutes Unrepeated
  by_cases explicit : ofFamily ipv6 includes = []
  · cases autoRoute with
    | true => simpa [explicit, Distinct] using distinct_defaultRoutes ..
    | false =>
      by_cases darwin : platform = .darwin <;>
        simp [explicit, darwin, Distinct, pairwise_map, trunc_trunc]
  · by_cases darwin : platform = .darwin
    · simp [explicit, darwin, Distinct, pairwise_append, pairwise_map, trunc_trunc,
        -mem_map, forall_mem_map]
    · simp [explicit, darwin]

/-- A family with exclusions is aggregated, one without keeps the repetitions of its inputs. -/
theorem buildFamily_distinct (addresses includes excludes autoRoute platform underNetworkExtension)
    : let included := familyRoutes ipv6 (ofFamily ipv6 addresses) includes autoRoute platform
        underNetworkExtension
      let excluded := ofFamily ipv6 excludes
      let planned := buildFamily aggregate ipv6 addresses includes excludes autoRoute platform
        underNetworkExtension
      Aggregates aggregate (subtractAll included excluded) →
      Family ipv6 planned
      ∧ (Distinct planned ↔ (ofFamily ipv6 addresses ≠ [] → excluded = [] →
        Unrepeated ipv6 addresses includes autoRoute platform))
      ∧ (excluded ≠ [] → planned.Pairwise fun left right =>
        ¬left.containsNet right ∧ ¬right.containsNet left) := by
  intro included excluded planned ha
  have family : Family ipv6 included := family_familyRoutes _ _ _ _ _ _
  rw [← distinct_familyRoutes_iff addresses includes autoRoute platform underNetworkExtension]
  simp only [planned, buildFamily, List.isEmpty_iff]
  split
  next unassigned =>
    exact ⟨forall_mem_nil _, ⟨fun _ assigned => absurd unassigned assigned, fun _ => .nil⟩,
      fun _ => .nil⟩
  next assigned =>
    split
    next none =>
      rw [none]
      exact ⟨family, ⟨fun hd _ _ => hd, fun hd => hd assigned none⟩, absurd none⟩
    next some =>
      exact ⟨ha.family family, ⟨fun _ _ none => absurd none some, fun _ => ha.distinct⟩,
        fun _ => ha.not_nested⟩

/-- Routes of different families are never compared. -/
theorem pairwise_families {relation : IpNet → IpNet → Prop} {routes : Bool → List IpNet}
    (family : ∀ ipv6, Family ipv6 (routes ipv6))
    (ha : ∀ left right, left.addr.isIpv6 ≠ right.addr.isIpv6 → relation left right)
    : (routes false ++ routes true).Pairwise relation
      ↔ ∀ ipv6, (routes ipv6).Pairwise relation := by
  rw [pairwise_append, Bool.forall_bool, ← and_assoc, and_iff_left]
  intro left first right second
  apply ha
  rw [family false left first, family true right second]
  decide

/-- A plan repeats a network exactly when the inputs of a family without exclusions do, and a
family with exclusions has no nested routes.
-/
theorem tun_route_plan_distinct (options : TunInboundOptions) (platform : TunRoutePlatform)
    (underNetworkExtension : Bool) (routeSetIncludes routeSetExcludes : List IpNet)
    : let included := fun ipv6 => familyRoutes ipv6 (ofFamily ipv6 options.address)
        (options.routeAddress ++ routeSetIncludes) options.autoRoute platform underNetworkExtension
      let excluded := fun ipv6 => ofFamily ipv6 (options.routeExcludeAddress ++ routeSetExcludes)
      let plan := fromOptionsWithResolvedRuleSets aggregate options platform underNetworkExtension
        routeSetIncludes routeSetExcludes
      (∀ ipv6, Aggregates aggregate (subtractAll (included ipv6) (excluded ipv6))) →
      (Distinct plan.routes
        ↔ ∀ ipv6, ofFamily ipv6 options.address ≠ [] → excluded ipv6 = [] →
          Unrepeated ipv6 options.address (options.routeAddress ++ routeSetIncludes)
            options.autoRoute platform)
      ∧ plan.routes.Pairwise fun left right => excluded left.addr.isIpv6 ≠ [] →
        ¬left.containsNet right ∧ ¬right.containsNet left := by
  intro included excluded plan aggregated
  have planned := fun ipv6 => buildFamily_distinct _ _ _ _ _ _ (aggregated ipv6)
  refine ⟨(pairwise_families (fun ipv6 => (planned ipv6).1) ?_).trans
      (forall_congr' fun ipv6 => (planned ipv6).2.1),
    (pairwise_families (fun ipv6 => (planned ipv6).1) ?_).mpr fun ipv6 => ?_⟩
  · intro left right other same
    cases left <;> cases right <;> simp_all [IpNet.trunc, IpNet.addr, IpAddr.isIpv6]
  · intro left right other _
    cases left <;> cases right <;> simp_all [IpNet.containsNet, IpNet.addr, IpAddr.isIpv6]
  obtain ⟨family, -, apart⟩ := planned ipv6
  by_cases none : excluded ipv6 = []
  · refine pairwise_of_forall_mem_list fun left member _ _ some => ?_
    rw [family left member] at some
    exact absurd none some
  · refine (apart none).imp ?_
    exact fun apart _ => apart

def otherNetwork : IpNet := .v4 { addr := 0xc0a80000, prefixLen := ⟨16, by decide⟩ }

theorem tun_route_plan_distinct_example
    : Distinct (fromOptionsWithResolvedRuleSets id exampleOptions .linux false [otherNetwork]
        []).routes := by
  have single : ∀ route, Aggregates id [route] := fun _ =>
    ⟨fun _ => Iff.rfl, pairwise_singleton _ _⟩
  have remaining : subtractAll [otherNetwork] exampleOptions.routeExcludeAddress
      = [otherNetwork] := by
    simp only [subtractAll, exampleOptions, otherNetwork, subtract, foldl, flatMap_cons,
      flatMap_nil]
    rw [subtractCidr, dif_pos (by decide)]
    rfl
  refine (tun_route_plan_distinct exampleOptions .linux false [otherNetwork] [] ?_).1.mpr ?_
  · rintro (_ | _)
    · exact Eq.mpr (congrArg (Aggregates id) remaining) (single _)
    · exact single _
  · rintro (_ | _) assigned none
    · cases none
    · exact absurd rfl assigned

/-- The excluded network of the other options, included. -/
def includingOptions : TunInboundOptions :=
  { exampleOptions with
    routeAddress := exampleOptions.routeExcludeAddress
    routeExcludeAddress := [] }

/-- A network that the options and a rule set include is asked for twice. -/
theorem tun_route_plan_repeats
    : ¬∃ aggregate, Distinct (fromOptionsWithResolvedRuleSets aggregate includingOptions .linux
        false includingOptions.routeAddress []).routes := by
  rintro ⟨aggregate, distinct⟩
  exact (pairwise_cons.mp distinct).1 _ (mem_singleton_self _) rfl

end Zay.Inbound
