import Zay.Dns.FakeIp

/-! Soundness of fake-IP allocation over whole runs. The three maps stay mutually inverse
whatever the ranges are; that addresses stay inside their range depends on where the
rotation restarts.
-/

namespace Zay.Dns

open Net FakeIpResolver FakeIpState Option Function Except

variable {state : FakeIpState} {resolver : FakeIpResolver} {inet4Range inet6Range : Option IpNet}
  {domain : String} {ipv6 : Bool} {address : IpAddr}

namespace FakeIpState

section

variable (state)

include state

@[simp] theorem byDomain_setByDomain (ipv6 other map)
    : (state.setByDomain ipv6 map).byDomain other
      = if other = ipv6 then map else state.byDomain other := by
  cases ipv6 <;> cases other <;> simp [byDomain, setByDomain]

variable (ipv6) (map : IpAddr → Option String) (address) (domain) (previousAddress : Option IpAddr)

@[simp] theorem byAddress_setByDomain (map)
    : (state.setByDomain ipv6 map).byAddress = state.byAddress := by
  cases ipv6 <;> rfl

@[simp] theorem byDomain_setByAddress
    : (state.setByAddress map).byDomain ipv6 = state.byDomain ipv6 :=
  rfl

@[simp] theorem byAddress_setByAddress : (state.setByAddress map).byAddress = map :=
  rfl

@[simp] theorem byDomain_dropDomain (ipv6 other oldDomain key)
    : (state.dropDomain ipv6 oldDomain).byDomain other key
      = if other = ipv6 ∧ oldDomain = some key then none else state.byDomain other key := by
  cases oldDomain with
  | none => simp [dropDomain]
  | some _ =>
    by_cases he : other = ipv6
    · subst he
      simp [dropDomain, update_apply, eq_comm]
    · simp [dropDomain, he]

@[simp] theorem byAddress_dropDomain (oldDomain)
    : (state.dropDomain ipv6 oldDomain).byAddress = state.byAddress := by
  cases oldDomain <;> simp [dropDomain]

@[simp] theorem byDomain_dropAddress (ipv6 : Bool)
    : (state.dropAddress address domain previousAddress).byDomain ipv6
      = state.byDomain ipv6 := by
  cases previousAddress with
  | none => rfl
  | some _ => simp only [dropAddress]; split <;> rfl

@[simp] theorem byAddress_dropAddress (key)
    : (state.dropAddress address domain previousAddress).byAddress key
      = if previousAddress = some key ∧ key ≠ address ∧ state.byAddress key = some domain
        then none
        else state.byAddress key := by
  cases previousAddress with
  | none => simp [dropAddress]
  | some previous =>
    by_cases he : previous = key
    · simp only [dropAddress]
      split <;> simp_all
    simp only [dropAddress]
    split <;> simp [he, Ne.symm he]

@[simp] theorem byDomain_setCurrent (ipv6 other address)
    : (state.setCurrent ipv6 address).byDomain other = state.byDomain other := by
  cases ipv6 <;> rfl

@[simp] theorem byAddress_setCurrent
    : (state.setCurrent ipv6 address).byAddress = state.byAddress := by
  cases ipv6 <;> rfl

end

/-- The address map and the domain map of each family are mutually inverse. -/
structure MutuallyInverse (state : FakeIpState) : Prop where
  family
    : ∀ {ipv6 : Bool} {domain : String} {address : IpAddr},
      state.byDomain ipv6 domain = some address → address.isIpv6 = ipv6
  inverse
    : ∀ (address : IpAddr) (domain : String),
      state.byAddress address = some domain
        ↔ state.byDomain address.isIpv6 domain = some address

/-- The states differ in the allocation position only. -/
structure SameMaps (state earlier : FakeIpState) : Prop where
  byAddress : state.byAddress = earlier.byAddress
  byDomain : ∀ ipv6, state.byDomain ipv6 = earlier.byDomain ipv6

theorem MutuallyInverse.of_sameMaps {earlier} (h : earlier.MutuallyInverse)
    (he : state.SameMaps earlier)
    : state.MutuallyInverse where
  family := fun _ => h.family (by rwa [← he.byDomain])
  inverse := by simpa only [he.byAddress, he.byDomain] using h.inverse

theorem MutuallyInverse.empty (address : state.byAddress = fun _ => none)
    (domain4 : state.byDomain4 = fun _ => none) (domain6 : state.byDomain6 = fun _ => none)
    : state.MutuallyInverse where
  family := by intro ipv6; cases ipv6 <;> simp [byDomain, domain4, domain6]
  inverse := by
    intro key value
    cases key <;> simp [byDomain, address, domain4, domain6]

end FakeIpState

/-- After an insertion, the family's domain map holds the new pair, forgets the domain that
owned the address before, and keeps the rest. The other family is unchanged.
-/
theorem byDomain_insertMapping (state address domain key ipv6)
    : (insertMapping state address domain).byDomain ipv6 key
      = if ipv6 = address.isIpv6 ∧ key = domain then some address
        else if ipv6 = address.isIpv6 ∧ state.byAddress address = some key then none
        else state.byDomain ipv6 key := by
  by_cases he : ipv6 = address.isIpv6
  · subst he
    simp [insertMapping, update_apply]
  · simp [insertMapping, he]

/-- After an insertion, the address map holds the new pair and forgets the address that the
domain owned before in the same family.
-/
theorem byAddress_insertMapping (h : state.MutuallyInverse) (address key domain)
    : (insertMapping state address domain).byAddress key
      = if key = address then some domain
        else if key.isIpv6 = address.isIpv6 ∧ state.byAddress key = some domain then none
        else state.byAddress key := by
  by_cases he : key = address
  · simp [insertMapping, he]
  have owner : state.byDomain address.isIpv6 domain = some key
      ↔ key.isIpv6 = address.isIpv6 ∧ state.byAddress key = some domain := by
    constructor
    · intro live
      have family := h.family live
      exact ⟨family, (h.inverse key domain).mpr (family ▸ live)⟩
    · rintro ⟨family, live⟩
      exact family ▸ (h.inverse key domain).mp live
  have hk : ¬ (state.byAddress address = some domain
      ∧ key.isIpv6 = address.isIpv6 ∧ state.byAddress key = some domain) := by
    rintro ⟨owned, live⟩
    have shared := (h.inverse address domain).mp owned
    rw [owner.mpr live] at shared
    exact he (some.inj shared)
  simp only [insertMapping, byAddress_dropAddress,
    byDomain_dropDomain, byDomain_setByAddress, true_and,
    byAddress_setByDomain, byAddress_dropDomain,
    byAddress_setByAddress, update_of_ne he, ne_eq, he,
    not_false_eq_true, if_false]
  grind

theorem FakeIpState.MutuallyInverse.insertMapping (h : state.MutuallyInverse) (address domain)
    : (insertMapping state address domain).MutuallyInverse where
  family := by
    intro ipv6 key value live
    rw [byDomain_insertMapping] at live
    have family := @h.family ipv6 key value
    grind
  inverse := by
    intro key value
    have forward := h.inverse key value
    have owned := h.inverse address value
    rw [byAddress_insertMapping h, byDomain_insertMapping]
    grind

theorem isIpv6_of_next {successor} (h : next address = some successor)
    : successor.isIpv6 = address.isIpv6 := by
  cases address <;> simp only [next, map_eq_some_iff] at h <;>
    obtain ⟨_, _, rfl⟩ := h <;> rfl

inductive FakeIpCall where
  | create (domain : String) (ipv6 : Bool)
  | lookupDomain (address : IpAddr)
  | reset
  deriving Repr, DecidableEq

/-- A range whose rotation restarts inside it, if there is an address to restart from. -/
def restartsInside (range : Option IpNet) : Bool :=
  range.all fun range => ((next range.addr).bind next).all range.contains

namespace FakeIpResolver

/-- Each configured range holds addresses of its own family, as the constructor checks. -/
def Families (resolver : FakeIpResolver) : Prop :=
  ∀ ipv6, ∀ range ∈ resolver.range ipv6, range.addr.isIpv6 = ipv6

/-- The rotation stays inside the range or restarts two addresses after the range's own. -/
theorem rotate_cases (h : resolver.rotate ipv6 = .ok address)
    : ∃ range ∈ resolver.range ipv6,
      range.contains address ∨ (next range.addr).bind next = some address := by
  unfold rotate at h
  split at h
  · simp at h
  next range hc =>
    refine ⟨range, hc, ?_⟩
    split at h
    · simp at h
    split at h
    · split at h
      · simp at h
      next restart =>
        exact .inr (by simpa [restart] using h)
    next hi =>
      rw [not_or] at hi
      obtain rfl := ok.inj h
      exact .inl (by simpa using hi.2)

/-- An address that `create` may hand out. -/
def Offers (resolver : FakeIpResolver) (ipv6 : Bool) (address : IpAddr) : Prop :=
  (resolver.range ipv6).any (·.contains address) ∨ resolver.rotate ipv6 = .ok address

theorem Families.of_offers (h : resolver.Families) (offers : resolver.Offers ipv6 address)
    : address.isIpv6 = ipv6 := by
  have of_contains {range : IpNet} (hc : range ∈ resolver.range ipv6)
      (hi : range.contains address) : address.isIpv6 = ipv6 :=
    (IpNet.isIpv6_of_contains hi).trans (h ipv6 range hc)
  rcases offers with hi | rotated
  · obtain ⟨range, hc, hi⟩ := (any_eq_true _ _).mp hi
    exact of_contains hc hi
  obtain ⟨range, hc, hi | restart⟩ := rotate_cases rotated
  · exact of_contains hc hi
  · obtain ⟨_, step, again⟩ := bind_eq_some_iff.mp restart
    rw [isIpv6_of_next again, isIpv6_of_next step, h ipv6 range hc]

/-- What one `create` can do: return the live address, record one that it may hand out, or
fail and change nothing.
-/
theorem create_cases (resolver : FakeIpResolver) (domain ipv6)
    : (∃ address, resolver.state.byDomain ipv6 (canonicalDomain domain) = some address
        ∧ resolver.create domain ipv6 = (.ok address, resolver))
      ∨ (∃ address state persistentCache, resolver.Offers ipv6 address
        ∧ state.SameMaps resolver.state
        ∧ resolver.create domain ipv6 = (.ok address, { resolver with
            state := insertMapping state address (canonicalDomain domain), persistentCache }))
      ∨ ∃ error, resolver.create domain ipv6 = (.error error, resolver) := by
  cases live : resolver.state.byDomain ipv6 (canonicalDomain domain) with
  | some address => exact .inl ⟨address, rfl, by simp [create, live]⟩
  | none =>
    cases stored : resolver.storedAddress (canonicalDomain domain) ipv6 with
    | some address =>
      have hi := (filter_eq_some_iff.mp stored).2
      exact .inr (.inl ⟨address, _, resolver.persistentCache, .inl hi,
        ⟨rfl, fun _ => rfl⟩, by simp [create, live, stored]⟩)
    | none =>
      cases rotated : resolver.rotate ipv6 with
      | ok address =>
        exact .inr (.inl ⟨address, resolver.state.setCurrent ipv6 address,
          (resolver.allocate (canonicalDomain domain) ipv6 address).persistentCache, .inr rotated,
          ⟨by simp, by simp⟩, by simp [create, live, stored, rotated, allocate]⟩)
      | error error => exact .inr (.inr ⟨error, by simp [create, live, stored, rotated]⟩)

/-- The two ways in which `lookup_domain` leaves the resolver. -/
theorem lookupDomain_cases (resolver : FakeIpResolver) (address)
    : (resolver.lookupDomain address).2 = resolver
      ∨ ∃ domain ipv6, resolver.Offers ipv6 address
        ∧ (resolver.lookupDomain address).2
          = { resolver with state := insertMapping resolver.state address domain } := by
  unfold lookupDomain
  split
  · exact .inl rfl
  split
  · exact .inl rfl
  split
  next hi =>
    rcases Bool.or_eq_true _ _ ▸ hi with hi | hi
    · exact .inr ⟨_, false, .inl hi, rfl⟩
    · exact .inr ⟨_, true, .inl hi, rfl⟩
  · exact .inl rfl

def call (resolver : FakeIpResolver) : FakeIpCall → FakeIpResolver
  | .create domain ipv6 => (resolver.create domain ipv6).2
  | .lookupDomain address => (resolver.lookupDomain address).2
  | .reset => resolver.reset

def run (resolver : FakeIpResolver) (calls : List FakeIpCall)
    : FakeIpResolver :=
  calls.foldl call resolver

/-- What holds in every reachable state, for every accepted pair of ranges. -/
structure Valid (inet4Range inet6Range : Option IpNet)
    (resolver : FakeIpResolver) : Prop where
  inet4 : resolver.inet4Range = inet4Range
  inet6 : resolver.inet6Range = inet6Range
  families : resolver.Families
  maps : resolver.state.MutuallyInverse

theorem Valid.withState (h : resolver.Valid inet4Range inet6Range) (maps : state.MutuallyInverse)
    (cache)
    : Valid inet4Range inet6Range
        { resolver with state, persistentCache := cache } where
  inet4 := h.inet4
  inet6 := h.inet6
  families := h.families
  maps := maps

/-- A resolver that the constructor returns is valid, with no live mapping; without a cache
it starts at the address after the range's own.
-/
theorem newWithCache_valid {cache} (h : newWithCache inet4Range inet6Range cache = .ok resolver)
    : resolver.Valid inet4Range inet6Range
      ∧ (∀ ipv6 domain, resolver.state.byDomain ipv6 domain = none)
      ∧ (cache = none → resolver.persistentCache = none
        ∧ ∀ ipv6, resolver.state.current ipv6 = (resolver.range ipv6).bind (next ·.addr)) := by
  unfold newWithCache at h
  split at h
  · simp at h
  split at h
  · simp at h
  split at h
  · simp at h
  rename_i inet6
  obtain rfl := ok.inj h
  refine ⟨⟨rfl, rfl, ?_, .empty rfl rfl rfl⟩, ?_, ?_⟩
  · intro ipv6 range hc
    cases ipv6 with
    | false =>
      subst hc
      cases range <;> simp_all [IpNet.addr, IpAddr.isIpv4, IpAddr.isIpv6]
    | true =>
      subst hc
      simpa using inet6
  · intro ipv6 domain
    cases ipv6 <;> rfl
  · rintro rfl
    exact ⟨rfl, fun ipv6 => by cases ipv6 <;> rfl⟩

/-- After a `create` that returns an address, that address belongs to the domain. -/
theorem Valid.byAddress_create (h : resolver.Valid inet4Range inet6Range)
    (made : (resolver.create domain ipv6).1 = .ok address)
    : address.isIpv6 = ipv6
      ∧ (resolver.create domain ipv6).2.state.byAddress address
        = some (canonicalDomain domain) := by
  rcases resolver.create_cases domain ipv6 with
    ⟨_, live, result⟩ | ⟨_, _, _, offers, same, result⟩ | ⟨_, result⟩
  · obtain rfl := ok.inj (result ▸ made)
    obtain rfl := h.maps.family live
    exact ⟨rfl, by simpa [result] using (h.maps.inverse _ _).mpr live⟩
  · obtain rfl := ok.inj (result ▸ made)
    refine ⟨h.families.of_offers offers, ?_⟩
    simp [result, byAddress_insertMapping (h.maps.of_sameMaps same)]
  · simp [result] at made

/-- Every live mapping of a family points into the family's range. -/
def InRange (resolver : FakeIpResolver) : Prop :=
  ∀ {ipv6 domain address}, resolver.state.byDomain ipv6 domain = some address →
    (resolver.range ipv6).any (·.contains address)

/-- What every call keeps. -/
structure Kept (inet4Range inet6Range : Option IpNet) (resolver : FakeIpResolver)
    : Prop extends Valid inet4Range inet6Range resolver where
  inRange : restartsInside inet4Range → restartsInside inet6Range → resolver.InRange

theorem Offers.inside (offers : resolver.Offers ipv6 address)
    (hv : resolver.Valid inet4Range inet6Range) (usable4 : restartsInside inet4Range)
    (usable6 : restartsInside inet6Range)
    : (resolver.range ipv6).any (·.contains address) := by
  have usable : restartsInside (resolver.range ipv6) := by
    cases ipv6 with
    | false => exact (congrArg restartsInside hv.inet4).trans usable4
    | true => exact (congrArg restartsInside hv.inet6).trans usable6
  rcases offers with hi | rotated
  · exact hi
  obtain ⟨range, hc, hi | restart⟩ := rotate_cases rotated
  · exact (any_eq_true _ _).mpr ⟨range, hc, hi⟩
  · have usable := (all_eq_true _ _).mp usable range hc
    have hi := (all_eq_true _ _).mp usable address restart
    exact (any_eq_true _ _).mpr ⟨range, hc, hi⟩

section

variable (h : resolver.Kept inet4Range inet6Range)
include h

theorem Kept.insertMapping (offers : resolver.Offers ipv6 address)
    (he : state.SameMaps resolver.state) (domain cache)
    : Kept inet4Range inet6Range
        { resolver with
          state := Zay.Dns.insertMapping state address domain
          persistentCache := cache } where
  toValid := h.withState ((h.maps.of_sameMaps he).insertMapping ..) _
  inRange usable4 usable6 := by
    intro other key value live
    rw [byDomain_insertMapping, he.byDomain] at live
    have hk : resolver.state.byDomain other key = some value → _ := h.inRange usable4 usable6
    have hi := offers.inside h.toValid usable4 usable6
    have family := h.families.of_offers offers
    change (resolver.range other).any _
    grind

theorem Kept.call (call) : (resolver.call call).Kept inet4Range inet6Range := by
  cases call with
  | create domain ipv6 =>
    rcases resolver.create_cases domain ipv6 with
      ⟨_, _, made⟩ | ⟨_, _, _, offers, he, made⟩ | ⟨_, made⟩ <;>
      simp only [FakeIpResolver.call, made]
    · exact h
    · exact h.insertMapping offers he ..
    · exact h
  | lookupDomain address =>
    rcases resolver.lookupDomain_cases address with he | ⟨_, _, offers, hf⟩
    · rwa [FakeIpResolver.call, he]
    rw [FakeIpResolver.call, hf]
    exact h.insertMapping offers ⟨rfl, fun _ => rfl⟩ ..
  | reset =>
    refine ⟨h.withState (.empty rfl rfl rfl) _, fun _ _ ipv6 domain address live => ?_⟩
    cases ipv6 <;> simp [FakeIpResolver.call, reset, byDomain] at live

theorem Kept.run (calls) : (resolver.run calls).Kept inet4Range inet6Range :=
  List.foldlRecOn calls _ h fun _ hk call _ => hk.call call

end

/-- What every call from this state on may rely on. -/
structure Sound (resolver : FakeIpResolver) : Prop where
  maps : resolver.state.MutuallyInverse
  distinct
    : ∀ {ipv6 : Bool} {left right : String} {address : IpAddr},
      resolver.state.byDomain ipv6 left = some address →
      resolver.state.byDomain ipv6 right = some address → left = right
  inside
    : ∀ {domain : String} {ipv6 : Bool} {address : IpAddr},
      (resolver.create domain ipv6).1 = .ok address →
      address.isIpv6 = ipv6 ∧ (resolver.range ipv6).any (·.contains address)
  found
    : ∀ {domain : String} {ipv6 : Bool} {address : IpAddr},
      (resolver.create domain ipv6).1 = .ok address →
      ((resolver.create domain ipv6).2.lookupDomain address).1
        = some (canonicalDomain domain)

theorem Valid.sound (h : resolver.Valid inet4Range inet6Range) (inside
      : ∀ {domain ipv6 address}, (resolver.create domain ipv6).1 = .ok address →
        (resolver.range ipv6).any (·.contains address))
    : resolver.Sound where
  maps := h.maps
  distinct hl hr := by
    obtain rfl := h.maps.family hl
    rw [← h.maps.inverse] at hl hr
    exact some.inj (hl.symm.trans hr)
  inside := fun made => ⟨(h.byAddress_create made).1, inside made⟩
  found := fun made => by simp [lookupDomain, (h.byAddress_create made).2]

variable (accepted : new inet4Range inet6Range = .ok resolver)
include accepted

/-- The first address a new resolver hands out is two after the range's own, inside the
range or not.
-/
theorem new_create {range} (hc : resolver.range ipv6 = some range)
    (restart : (next range.addr).bind next = some address) (domain)
    : (resolver.create domain ipv6).1 = .ok address := by
  obtain ⟨-, hn, start⟩ := newWithCache_valid accepted
  have live := hn ipv6 (canonicalDomain domain)
  obtain ⟨cacheless, start⟩ := start rfl
  have stored : resolver.storedAddress (canonicalDomain domain) ipv6 = none := by
    simp [storedAddress, cacheless]
  have current : (resolver.state.current ipv6).bind next = some address := by
    rw [start, hc]
    exact restart
  have rotated : resolver.rotate ipv6 = .ok address := by
    simp [rotate, hc, current, restart]
  simp [create, live, stored, rotated]

theorem restartsInside_of_sound (hs : resolver.Sound) (ipv6 : Bool)
    : restartsInside (resolver.range ipv6) := by
  refine (all_eq_true _ _).mpr fun _ hc => ?_
  refine (all_eq_true _ _).mpr fun _ restart => ?_
  by_contra outside
  have made := new_create accepted hc restart ""
  have hi := (hs.inside made).2
  rw [hc] at hi
  exact outside hi

end FakeIpResolver

/-- For every pair of ranges that `new` accepts, allocation is sound in every run, with any
persistent cache or none, exactly when the second address after each range's own address
lies in the range or does not exist.
-/
theorem fakeIp_sound_iff_restartsInside {inet4Range inet6Range : Option IpNet}
    {initial : FakeIpResolver} (accepted : new inet4Range inet6Range = .ok initial)
    : (∀ cache resolver calls,
        newWithCache inet4Range inet6Range cache = .ok resolver →
        (resolver.run calls).Sound)
      ↔ restartsInside inet4Range ∧ restartsInside inet6Range := by
  constructor
  · intro sound
    have valid := (newWithCache_valid accepted).1
    have usable := restartsInside_of_sound accepted (sound none initial [] accepted)
    exact ⟨valid.inet4 ▸ usable false, valid.inet6 ▸ usable true⟩
  · rintro ⟨usable4, usable6⟩ cache resolver calls made
    obtain ⟨valid, fresh, -⟩ := newWithCache_valid made
    have begun : resolver.Kept inet4Range inet6Range :=
      ⟨valid, fun _ _ _ _ _ live => by simp [fresh] at live⟩
    have reached := begun.run calls
    refine reached.sound fun {domain ipv6 address} made => ?_
    rcases (resolver.run calls).create_cases domain ipv6 with
      ⟨_, live, result⟩ | ⟨_, _, _, offers, -, result⟩ | ⟨_, result⟩
    · exact ok.inj (result ▸ made) ▸ reached.inRange usable4 usable6 live
    · exact ok.inj (result ▸ made) ▸ offers.inside reached.toValid usable4 usable6
    · simp [result] at made

/-- `198.18.0.0/15` is accepted and sound in every run. -/
theorem fakeIp_sound_benchmarkRange
    : (new (some (.v4 ⟨0xC6120000, 15⟩)) none).isOk
      ∧ ∀ cache resolver calls,
        newWithCache (some (.v4 ⟨0xC6120000, 15⟩)) none cache = .ok resolver →
        (resolver.run calls).Sound :=
  ⟨rfl, (@fakeIp_sound_iff_restartsInside _ _ _ rfl).mpr ⟨by decide, by decide⟩⟩

/-- The range `198.18.0.0/31` is accepted, and the first address handed out is
`198.18.0.2`, which lies outside it.
-/
theorem fakeIp_create_outside_range
    : ∃ resolver : FakeIpResolver,
      new (some (.v4 ⟨0xC6120000, 31⟩)) none = .ok resolver
      ∧ (resolver.create "example.com" false).1 = .ok (.v4 0xC6120002)
      ∧ IpNet.contains (.v4 ⟨0xC6120000, 31⟩) (.v4 0xC6120002) = false :=
  ⟨_, rfl, rfl, rfl⟩

end Zay.Dns
