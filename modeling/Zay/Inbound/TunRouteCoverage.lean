import Zay.Inbound.TunRoute

/-! The routes of a plan contain exactly the addresses that the options include and do not
exclude, whatever the overlaps of the configured ranges.
-/

namespace Zay.Inbound

open Net TunRoutePlan List IpNet

/-- The addresses that some range of a list contains. -/
def Covers (ranges : List IpNet) (address : IpAddr) : Prop :=
  ∃ range ∈ ranges, range.contains address

theorem exists_mem_subtractCidr {width} (route excluded) (address : BitVec width)
    : (∃ range ∈ subtractCidr route excluded, range.contains address)
      ↔ route.contains address ∧ ¬excluded.contains address := by
  fun_induction subtractCidr route excluded with
  | case1 route apart =>
    have disjoint : route.contains address → ¬excluded.contains address := by
      intro inRoute inExcluded
      rcases Cidr.containsNet_or_containsNet inRoute inExcluded with outer | under
      · simp [outer] at apart
      · simp [under] at apart
    simpa using disjoint
  | case2 route apart inside =>
    have hidden : route.contains address → excluded.contains address :=
      Cidr.contains_of_containsNet inside
    simpa using hidden
  | case3 route apart inside short lower upper =>
    rw [route.contains_iff_halves short, or_and_right, ← lower, ← upper]
    simp [or_and_right, exists_or]

variable (ranges left right routes excludes : List IpNet) (address : IpAddr)

theorem covers_subtract (route excluded : IpNet)
    : Covers (subtract route excluded) address
      ↔ route.contains address ∧ ¬excluded.contains address := by
  unfold Covers
  cases route with
  | v4 route =>
    cases excluded with
    | v4 excluded =>
      cases address with
      | v4 bits =>
        simpa [subtract, IpNet.contains] using exists_mem_subtractCidr route excluded bits
      | v6 bits => simp [subtract, IpNet.contains]
    | v6 excluded => cases address <;> simp [subtract, IpNet.contains]
  | v6 route =>
    cases excluded with
    | v4 excluded => cases address <;> simp [subtract, IpNet.contains]
    | v6 excluded =>
      cases address with
      | v4 bits => simp [subtract, IpNet.contains]
      | v6 bits =>
        simpa [subtract, IpNet.contains] using exists_mem_subtractCidr route excluded bits

theorem covers_subtractAll
    : Covers (subtractAll routes excludes) address
      ↔ Covers routes address ∧ ¬Covers excludes address := by
  induction excludes generalizing routes with
  | nil => simp [subtractAll, Covers]
  | cons excluded _ ih =>
    have first : Covers (routes.flatMap (subtract · excluded)) address
        ↔ Covers routes address ∧ ¬excluded.contains address := by
      have each := fun route => covers_subtract address route excluded
      constructor
      · rintro ⟨range, hm, hi⟩
        obtain ⟨route, hl, part⟩ := List.mem_flatMap.mp hm
        have hk := (each route).mp ⟨range, part, hi⟩
        exact ⟨⟨route, hl, hk.1⟩, hk.2⟩
      · rintro ⟨⟨route, hl, hi⟩, ho⟩
        obtain ⟨range, part, hw⟩ := (each route).mpr ⟨hi, ho⟩
        exact ⟨range, List.mem_flatMap.mpr ⟨route, hl, part⟩, hw⟩
    rw [subtractAll, List.foldl_cons, ← subtractAll, ih, first]
    simp [Covers, and_assoc]

theorem mem_ofFamily {ipv6 ranges range}
    : range ∈ ofFamily ipv6 ranges ↔ range ∈ ranges ∧ range.addr.isIpv6 = ipv6 := by
  simp [ofFamily]

/-- Only the ranges of the family of an address can contain it. -/
theorem covers_ofFamily
    : Covers (ofFamily address.isIpv6 ranges) address ↔ Covers ranges address := by
  constructor
  · rintro ⟨range, hm, hi⟩
    exact ⟨range, (mem_ofFamily.mp hm).1, hi⟩
  · rintro ⟨range, hm, hi⟩
    exact ⟨range, mem_ofFamily.mpr ⟨hm, (isIpv6_of_contains hi).symm⟩, hi⟩

theorem not_covers_nil : ¬Covers [] address := by
  rintro ⟨range, hm, -⟩
  cases hm

theorem covers_append
    : Covers (left ++ right) address ↔ Covers left address ∨ Covers right address := by
  simp [Covers, or_and_right, exists_or]

theorem contains_iff_covers (plan : TunRoutePlan)
    : plan.contains address ↔ Covers plan.routes address := by
  simp [TunRoutePlan.contains, Covers]

/-- What is assumed of `IpNet::aggregate`. -/
def Preserves (aggregate : List IpNet → List IpNet) : Prop :=
  ∀ routes address, Covers (aggregate routes) address ↔ Covers routes address

/-- Some range of the list is of the family of `address`. -/
def Mentions (ranges : List IpNet) (address : IpAddr) : Prop :=
  ∃ range ∈ ranges, range.addr.isIpv6 = address.isIpv6

theorem ofFamily_isEmpty_iff
    : (ofFamily address.isIpv6 ranges).isEmpty = true ↔ ¬Mentions ranges address := by
  rw [List.isEmpty_iff]
  constructor
  · rintro none ⟨range, hm, family⟩
    have hl := mem_ofFamily.mpr ⟨hm, family⟩
    rw [none] at hl
    cases hl
  · intro unmentioned
    apply eq_nil_iff_forall_not_mem.mpr
    intro range hl
    exact unmentioned ⟨range, mem_ofFamily.mp hl⟩

theorem isEmpty_of_mentions {ranges address} (mentioned : Mentions ranges address)
    : (ofFamily address.isIpv6 ranges).isEmpty = false := by
  rw [← Bool.not_eq_true, ofFamily_isEmpty_iff]
  exact not_not_intro mentioned

/-- The routes that the options include, before anything is excluded. -/
def Included (addresses includes : List IpNet) (autoRoute : Bool) (platform : TunRoutePlatform)
    (underNetworkExtension : Bool) (address : IpAddr)
    : Prop :=
  Covers includes address
  ∨ (¬Mentions includes address ∧ autoRoute
    ∧ Covers (defaultRoutes address.isIpv6 platform underNetworkExtension) address)
  ∨ platform = .darwin ∧ (Mentions includes address ∨ ¬autoRoute)
    ∧ ∃ range ∈ addresses, range.prefixLen < 32 ∧ range.contains address

theorem covers_assigned (addresses)
    : Covers (((ofFamily address.isIpv6 addresses).filter (·.prefixLen < 32)).map trunc)
      address
      ↔ ∃ range ∈ addresses, range.prefixLen < 32 ∧ range.contains address := by
  constructor
  · rintro ⟨range, hm, hi⟩
    obtain ⟨own, hl, rfl⟩ := mem_map.mp hm
    obtain ⟨ofOwn, hs⟩ := mem_filter.mp hl
    rw [contains_trunc] at hi
    exact ⟨own, (mem_ofFamily.mp ofOwn).1, of_decide_eq_true hs, hi⟩
  · rintro ⟨range, hm, hs, hi⟩
    have family := (isIpv6_of_contains hi).symm
    refine ⟨range.trunc, mem_map_of_mem (mem_filter.mpr
      ⟨mem_ofFamily.mpr ⟨hm, family⟩, decide_eq_true hs⟩), ?_⟩
    rwa [contains_trunc]

theorem covers_familyRoutes (addresses includes autoRoute platform underNetworkExtension)
    : Covers (familyRoutes address.isIpv6 (ofFamily address.isIpv6 addresses) includes autoRoute
        platform underNetworkExtension) address
      ↔ Included addresses includes autoRoute platform underNetworkExtension address := by
  unfold familyRoutes Included
  by_cases explicit : Mentions includes address
  · simp only [isEmpty_of_mentions explicit, Bool.not_false, if_true, true_or, and_true, explicit,
      not_true, false_and, false_or, true_and]
    split
    next darwin =>
      rw [covers_append, covers_ofFamily, covers_assigned]
      simp [darwin]
    next darwin =>
      rw [covers_ofFamily]
      simp [darwin]
  · have none := (ofFamily_isEmpty_iff includes address).mpr explicit
    have uncovered : ¬Covers includes address := fun ⟨range, hm, hi⟩ =>
      explicit ⟨range, hm, (isIpv6_of_contains hi).symm⟩
    simp only [none, Bool.not_true, Bool.false_eq_true, if_false, false_or, explicit,
      not_false_eq_true, true_and, uncovered]
    cases autoRoute with
    | true => simp
    | false =>
      simp only [Bool.false_eq_true, not_false_eq_true, and_true, if_false, false_and, false_or,
        true_and]
      split
      next darwin =>
        rw [List.nil_append, covers_assigned]
        simp [darwin]
      next darwin =>
        simp only [darwin, false_and, iff_false]
        exact not_covers_nil address

section Coverage

variable {aggregate : List IpNet → List IpNet}

/-- What the exclusions of a family leave, aggregated or not. -/
theorem covers_remaining (preserves : Preserves aggregate)
    : Covers (if excludes.isEmpty then subtractAll routes excludes
        else aggregate (subtractAll routes excludes)) address
      ↔ Covers routes address ∧ ¬Covers excludes address := by
  split
  · rw [covers_subtractAll]
  · rw [preserves, covers_subtractAll]

variable {addresses : List IpNet} {address} {ipv6 : Bool}

/-- All ranges of the list are of one family. -/
def Family (ipv6 : Bool) (ranges : List IpNet) : Prop :=
  ∀ range ∈ ranges, range.addr.isIpv6 = ipv6

theorem Family.not_covers {ranges} (family : Family ipv6 ranges) (other : address.isIpv6 ≠ ipv6)
    : ¬Covers ranges address := by
  rintro ⟨range, hm, hi⟩
  exact other ((isIpv6_of_contains hi).trans (family range hm))

theorem Family.append {left right} (first : Family ipv6 left) (second : Family ipv6 right)
    : Family ipv6 (left ++ right) := fun range hm =>
  (mem_append.mp hm).elim (first range) (second range)

section

variable (ipv6 : Bool)

theorem family_ofFamily (ranges) : Family ipv6 (ofFamily ipv6 ranges) :=
  fun _ hm => (mem_ofFamily.mp hm).2

theorem family_assigned (addresses)
    : Family ipv6 (((ofFamily ipv6 addresses).filter (·.prefixLen < 32)).map trunc) := by
  intro range hm
  obtain ⟨own, hl, rfl⟩ := mem_map.mp hm
  have family := family_ofFamily ipv6 addresses own (mem_filter.mp hl).1
  cases own <;> exact family

theorem family_defaultRoutes (platform underNetworkExtension)
    : Family ipv6 (defaultRoutes ipv6 platform underNetworkExtension) := by
  intro range hm
  unfold defaultRoutes at hm
  split at hm
  · rw [mem_singleton.mp hm]
    cases ipv6 <;> rfl
  obtain ⟨_, -, rfl⟩ := mem_map.mp hm
  cases ipv6 <;> rfl

theorem family_familyRoutes (addresses includes autoRoute platform underNetworkExtension)
    : Family ipv6 (familyRoutes ipv6 (ofFamily ipv6 addresses) includes autoRoute platform
        underNetworkExtension) := by
  have base : Family ipv6 (if (!(ofFamily ipv6 includes).isEmpty) = true then ofFamily ipv6 includes
        else if autoRoute then defaultRoutes ipv6 platform underNetworkExtension else []) := by
    split
    · exact family_ofFamily ipv6 includes
    split
    · exact family_defaultRoutes ipv6 platform underNetworkExtension
    · exact fun _ hm => absurd hm not_mem_nil
  simp only [familyRoutes]
  split
  · exact base.append (family_assigned ipv6 addresses)
  · exact base

end

theorem covers_defaultRoutes_linux (address)
    : Covers (defaultRoutes address.isIpv6 .linux false) address := by
  cases address with
  | v4 bits => exact ⟨_, mem_singleton_self _, Cidr.contains_of_prefixLen_eq_zero rfl bits⟩
  | v6 bits => exact ⟨_, mem_singleton_self _, Cidr.contains_of_prefixLen_eq_zero rfl bits⟩

/-- The pairwise intersections of two lists cover what both lists cover. -/
theorem covers_intersections (address)
    : Covers (left.flatMap fun range => right.filterMap (intersect? range)) address
      ↔ Covers left address ∧ Covers right address := by
  constructor
  · rintro ⟨range, hm, hi⟩
    obtain ⟨first, firstListed, part⟩ := mem_flatMap.mp hm
    obtain ⟨second, secondListed, common⟩ := mem_filterMap.mp part
    unfold intersect? at common
    split at common
    next outer =>
      cases common
      exact ⟨⟨first, firstListed, contains_of_containsNet outer hi⟩, _, secondListed, hi⟩
    split at common
    next under =>
      cases common
      exact ⟨⟨_, firstListed, hi⟩, second, secondListed, contains_of_containsNet under hi⟩
    · cases common
  · rintro ⟨⟨first, firstListed, inFirst⟩, second, secondListed, inSecond⟩
    obtain ⟨range, hf, hi⟩ : ∃ range,
        intersect? first second = some range ∧ range.contains address := by
      unfold intersect?
      split
      · exact ⟨second, rfl, inSecond⟩
      next notOver =>
        rcases containsNet_or_containsNet inFirst inSecond with outer | under
        · exact absurd outer notOver
        · exact ⟨first, if_pos under, inFirst⟩
    exact ⟨range, mem_flatMap.mpr ⟨first, firstListed,
      mem_filterMap.mpr ⟨second, secondListed, hf⟩⟩, hi⟩

/-- An address is redirected when each include list that mentions its family covers it. -/
theorem covers_buildAutoRedirectFamily (preserves : Preserves aggregate)
    (assigned : Mentions addresses address) (explicit dynamic excludes)
    : Covers (buildAutoRedirectFamily aggregate address.isIpv6 addresses explicit dynamic excludes)
        address
      ↔ ((Mentions explicit address → Covers explicit address)
          ∧ (Mentions dynamic address → Covers dynamic address))
        ∧ ¬Covers excludes address := by
  have hp : ¬(!addresses.any (·.addr.isIpv6 == address.isIpv6)) = true := by
    obtain ⟨range, hm, family⟩ := assigned
    have hf : addresses.any (·.addr.isIpv6 == address.isIpv6) = true :=
      any_eq_true.mpr ⟨range, hm, beq_iff_eq.mpr family⟩
    simp [hf]
  simp only [buildAutoRedirectFamily, if_neg hp]
  rw [preserves, covers_subtractAll, covers_ofFamily]
  apply and_congr_left
  by_cases left : Mentions explicit address
  · rw [isEmpty_of_mentions left]
    by_cases right : Mentions dynamic address
    · simp [isEmpty_of_mentions right, left, right, covers_intersections, covers_ofFamily]
    · simp [(ofFamily_isEmpty_iff ..).mpr right, left, right, covers_ofFamily]
  rw [(ofFamily_isEmpty_iff ..).mpr left]
  by_cases right : Mentions dynamic address
  · simp [isEmpty_of_mentions right, left, right, covers_ofFamily]
  · simp [(ofFamily_isEmpty_iff ..).mpr right, left, right, covers_defaultRoutes_linux]

theorem not_covers_buildAutoRedirectFamily (preserves : Preserves aggregate)
    (other : address.isIpv6 ≠ ipv6) (addresses explicit dynamic excludes)
    : ¬Covers (buildAutoRedirectFamily aggregate ipv6 addresses explicit dynamic excludes)
        address := by
  have first := (family_ofFamily ipv6 explicit).not_covers other
  simp only [buildAutoRedirectFamily]
  split
  · exact not_covers_nil address
  rw [preserves, covers_subtractAll]
  refine mt And.left ?_
  cases (ofFamily ipv6 explicit).isEmpty <;> cases (ofFamily ipv6 dynamic).isEmpty
  · exact fun hc => first ((covers_intersections _ _ _).mp hc).1
  · exact first
  · exact (family_ofFamily ipv6 dynamic).not_covers other
  · exact (family_defaultRoutes ipv6 .linux false).not_covers other

/-- Of the routes for both families only those of the family of an address matter. -/
theorem covers_families (family : Bool → List IpNet) (address)
    (ha : ∀ ipv6, address.isIpv6 ≠ ipv6 → ¬Covers (family ipv6) address)
    : Covers (family false ++ family true) address ↔ Covers (family address.isIpv6) address := by
  rw [covers_append]
  cases kind : address.isIpv6 with
  | false => simp [ha true (by simp [kind])]
  | true => simp [ha false (by simp [kind])]

/-- Both plans, for every address. -/
theorem tun_route_plans_cover_exactly (preserves : Preserves aggregate)
    (options : TunInboundOptions) (platform : TunRoutePlatform) (underNetworkExtension : Bool)
    (routeSetIncludes routeSetExcludes : List IpNet) (address : IpAddr)
    : (Mentions options.address address →
        ((fromOptionsWithResolvedRuleSets aggregate options platform
            underNetworkExtension routeSetIncludes routeSetExcludes).contains address
          ↔ Included options.address (options.routeAddress ++ routeSetIncludes) options.autoRoute
              platform underNetworkExtension address
            ∧ ¬Covers (options.routeExcludeAddress ++ routeSetExcludes) address)
        ∧ ((fromAutoRedirectOptionsWithResolvedRuleSets aggregate options
            routeSetIncludes routeSetExcludes).contains address
          ↔ ((Mentions options.routeAddress address → Covers options.routeAddress address)
              ∧ (Mentions routeSetIncludes address → Covers routeSetIncludes address))
            ∧ ¬Covers (options.routeExcludeAddress ++ routeSetExcludes) address))
      ∧ (¬Mentions options.address address →
        ¬(fromOptionsWithResolvedRuleSets aggregate options platform
            underNetworkExtension routeSetIncludes routeSetExcludes).contains address
        ∧ ¬(fromAutoRedirectOptionsWithResolvedRuleSets aggregate options
            routeSetIncludes routeSetExcludes).contains address) := by
  have plan := covers_families (fun ipv6 => buildFamily aggregate ipv6 options.address
      (options.routeAddress ++ routeSetIncludes) (options.routeExcludeAddress ++ routeSetExcludes)
      options.autoRoute platform underNetworkExtension)
    address fun ipv6 other => by
      simp only [buildFamily]
      split
      · exact not_covers_nil address
      rw [covers_remaining _ _ _ preserves]
      exact fun both => (family_familyRoutes _ _ _ _ _ _).not_covers other both.1
  have redirect := covers_families
    (fun ipv6 => buildAutoRedirectFamily aggregate ipv6 options.address options.routeAddress
      routeSetIncludes (options.routeExcludeAddress ++ routeSetExcludes))
    address fun ipv6 other => not_covers_buildAutoRedirectFamily preserves other _ _ _ _
  rw [contains_iff_covers, contains_iff_covers]
  simp only [fromOptionsWithResolvedRuleSets, fromAutoRedirectOptionsWithResolvedRuleSets]
  rw [plan, redirect]
  constructor
  · intro assigned
    refine ⟨?_, covers_buildAutoRedirectFamily preserves assigned _ _ _⟩
    simp only [buildFamily, isEmpty_of_mentions assigned, Bool.false_eq_true, if_false]
    rw [covers_remaining _ _ _ preserves, covers_familyRoutes, covers_ofFamily]
  · intro unassigned
    have none : options.address.any (·.addr.isIpv6 == address.isIpv6) = false := by
      rw [any_eq_false]
      intro range member
      simpa using fun family => unassigned ⟨range, member, family⟩
    simp only [buildFamily, if_pos ((ofFamily_isEmpty_iff _ _).mpr unassigned),
      buildAutoRedirectFamily, none, Bool.not_false, if_true]
    exact ⟨not_covers_nil address, not_covers_nil address⟩

end Coverage

/-- The plan of a Linux interface that excludes a private network. -/
def exampleOptions : TunInboundOptions where
  address := [.v4 { addr := 0x0a0e0001, prefixLen := ⟨30, by decide⟩ }]
  routeAddress := []
  routeExcludeAddress := [.v4 { addr := 0x0a000000, prefixLen := ⟨8, by decide⟩ }]
  autoRoute := true

/-- 8.8.8.8 is routed, 10.1.2.3 is excluded, and no IPv6 address is assigned. -/
theorem tun_route_plan_excludes_private
    : (fromOptionsWithResolvedRuleSets id exampleOptions .linux false [] []).contains
        (.v4 0x08080808)
      ∧ ¬(fromOptionsWithResolvedRuleSets id exampleOptions .linux false [] []).contains
        (.v4 0x0a010203)
      ∧ ¬(fromOptionsWithResolvedRuleSets id exampleOptions .linux false [] []).contains
        (.v6 1) := by
  have preserves : Preserves id := fun _ _ => Iff.rfl
  have covered := tun_route_plans_cover_exactly preserves exampleOptions .linux false [] []
  have assigned : ∀ bits, Mentions exampleOptions.address (.v4 bits) := fun bits =>
    ⟨_, mem_singleton_self _, rfl⟩
  refine ⟨((covered (.v4 0x08080808)).1 (assigned _)).1.mpr ⟨?_, ?_⟩, ?_, ?_⟩
  · exact .inr (.inl ⟨by simp [Mentions, exampleOptions], rfl, covers_defaultRoutes_linux _⟩)
  · rintro ⟨range, member, inside⟩
    obtain rfl := mem_singleton.mp member
    revert inside
    decide
  · intro routed
    refine (((covered (.v4 0x0a010203)).1 (assigned _)).1.mp routed).2 ?_
    exact ⟨_, mem_singleton_self _, by decide⟩
  · refine ((covered (.v6 1)).2 ?_).1
    rintro ⟨range, member, family⟩
    obtain rfl := mem_singleton.mp member
    cases family

end Zay.Inbound
