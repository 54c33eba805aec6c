import Zay.Lib.Runs
import Zay.Lib.Checks
import Zay.OpenVpn.IpPoolLeases

/-! When the address pool never hands out a taken address. An address in use is not handed
out again; the server address is what the calls do not always respect.
-/

namespace Zay.OpenVpn

open Lib Net IpPool List Option IpAddr

/-- A pool together with the client addresses that are handed out. -/
structure PoolWorld where
  pool : IpPool
  leases4 : List (BitVec 32)
  leases6 : List (BitVec 128)

inductive PoolStep where
  | allocateIpv4 (identity : String)
  | allocateIpv6 (identity : String)
  | release (address : IpAddr) (now : Instant)
  | setServerIpv4 (address : Option (BitVec 32))
  | setServerIpv6 (address : Option (BitVec 128))

namespace PoolWorld

/-- A call that fails leaves the pool as it was. -/
def step (world : PoolWorld) : PoolStep → PoolWorld
  | .allocateIpv4 identity =>
    match world.pool.allocateIpv4ForIdentity identity with
    | .ok (lease, pool) => { world with pool, leases4 := lease.client :: world.leases4 }
    | .error _ => world
  | .allocateIpv6 identity =>
    match world.pool.allocateIpv6ForIdentity identity with
    | .ok (address, pool) => { world with pool, leases6 := address :: world.leases6 }
    | .error _ => world
  | .release address now =>
    { pool := world.pool.release address now
      leases4 := world.leases4.filter (v4 · ≠ address)
      leases6 := world.leases6.filter (v6 · ≠ address) }
  | .setServerIpv4 address =>
    match world.pool.setServerIpv4 address with
    | .ok pool => { world with pool }
    | .error _ => world
  | .setServerIpv6 address =>
    match world.pool.setServerIpv6 address with
    | .ok pool => { world with pool }
    | .error _ => world

structure Sound (world : PoolWorld) : Prop where
  distinct4 : world.leases4.Nodup
  distinct6 : world.leases6.Nodup
  notServer4 : ∀ client ∈ world.leases4, some client ≠ world.pool.ipv4Server
  notServer6 : ∀ client ∈ world.leases6, some client ≠ world.pool.ipv6Server
  inside4 : ∀ client ∈ world.leases4, world.pool.ipv4Contains client
  inside6 : ∀ client ∈ world.leases6, world.pool.ipv6Contains client
  inverse4
    : ∀ identity client,
      world.pool.ipv4.address.get? identity = some client
      ↔ world.pool.ipv4.identity client = some identity
  inverse6
    : ∀ identity client,
      world.pool.ipv6.address.get? identity = some client
      ↔ world.pool.ipv6.identity client = some identity

/-- The address that an identity gets back is not the IPv4 server address by now, and the
IPv6 server address is not moved onto one in use.
-/
def SparesServer (world : PoolWorld) : PoolStep → Prop
  | .allocateIpv4 identity => world.pool.reclaimIpv4 identity = none
      ∨ world.pool.reclaimIpv4 identity ≠ world.pool.ipv4Server
  | .setServerIpv6 (some address) =>
    world.pool.ipv6Contains address → address ∈ world.pool.ipv6.used →
      some address = world.pool.ipv6Server
  | _ => True

/-- The invariant behind `Sound`. -/
structure Valid (world : PoolWorld) : Prop extends world.Sound where
  used4 : ∀ client, client ∈ world.pool.ipv4.used ↔ client ∈ world.leases4
  used6 : ∀ client ∈ world.leases6, client ∈ world.pool.ipv6.used
  free6
    : ∀ client ∈ world.pool.ipv6.used,
      client ∈ world.leases6 ∨ some client = world.pool.ipv6Server
  tables4 : world.pool.ipv4.MutuallyInverse
  tables6 : world.pool.ipv6.MutuallyInverse
  remembered4
    : ∀ identity client, world.pool.ipv4.address.get? identity = some client →
      world.pool.ipv4Contains client
  bounded : world.pool.Bounded

/-- A pool from which nothing was allocated yet. -/
structure Fresh (pool : IpPool) : Prop where
  ipv4 : pool.ipv4 = .empty
  used6 : ∀ client ∈ pool.ipv6.used, some client = pool.ipv6Server
  tables6 : pool.ipv6.MutuallyInverse
  bounded : pool.Bounded

variable {pool : IpPool} {world : PoolWorld} {identity : String}

theorem Fresh.configureIpv6 (hn : Fresh pool) (range) : Fresh (pool.configureIpv6 range) := by
  unfold IpPool.configureIpv6
  split
  · exact { hn with
      used6 := fun _ mem => (mem_toList.mp mem).symm
      tables6 := ⟨hn.tables6.inverse, hn.tables6.named⟩ }
  · exact hn

theorem Fresh.configureIpv4 {next} (hn : Fresh pool) {range : OpenVpnIpPrefix}
    (hc : pool.configureIpv4 range.masked = .ok next)
    : Fresh next := by
  have hb := hn.bounded.configureIpv4 hc
  rcases configureIpv4_eq hc with rfl | ⟨_, _, _, _, _, _, _, _, _, rfl⟩
  · exact hn
  · exact ⟨hn.ipv4, hn.used6, hn.tables6, hb⟩

theorem fresh_new {addressPools topology} (created : new addressPools topology = .ok pool)
    : Fresh pool := by
  have start (topology : Ipv4Topology)
      : Fresh { ipv4Prefix := none, ipv4Topology := topology, ipv4Server := none,
                ipv4Start := none, ipv4End := none, ipv6Prefix := none, ipv4 := .empty,
                ipv6 := .empty, ipv6Server := none } :=
    { ipv4 := rfl
      used6 := by simp [FamilyState.empty]
      tables6 := FamilyState.mutuallyInverse_empty
      bounded := by rintro _ _ ⟨⟩ }
  simp only [new, bind, Except.bind] at created
  split at created
  · cases created
  split at created
  · split at created
    · cases created
    next hc =>
      have hn := (start _).configureIpv4 hc
      split at created
      · cases created
        exact hn.configureIpv6 _
      cases created
      exact hn
  · split at created
    · cases created
      exact (start _).configureIpv6 _
    cases created
    exact start _

theorem Fresh.valid (hn : Fresh pool) : Valid ⟨pool, [], []⟩ :=
  have empty4 : pool.ipv4.MutuallyInverse := hn.ipv4 ▸ FamilyState.mutuallyInverse_empty
  { distinct4 := .nil
    distinct6 := .nil
    notServer4 := by simp
    notServer6 := by simp
    inside4 := by simp
    inside6 := by simp
    inverse4 := empty4.inverse
    inverse6 := hn.tables6.inverse
    used4 := by simp [hn.ipv4, FamilyState.empty]
    used6 := by simp
    free6 := fun client mem => .inr (hn.used6 client mem)
    tables4 := empty4
    tables6 := hn.tables6
    remembered4 := by simp [hn.ipv4, FamilyState.empty]
    bounded := hn.bounded }

theorem Valid.step_release (hv : world.Valid) (address now)
    : (world.step (.release address now)).Valid := by
  cases address with
  | v4 address =>
    have all6 : world.leases6.filter (v6 · ≠ v4 address) = world.leases6 := by
      simp
    simp only [step, release, all6]
    exact { hv with
      distinct4 := hv.distinct4.filter _
      notServer4 := fun client mem => hv.notServer4 client (mem_of_mem_filter mem)
      inside4 := fun client mem => hv.inside4 client (mem_of_mem_filter mem)
      used4 := fun client => by simp [FamilyState.release, hv.used4]
      tables4 := hv.tables4.release address now }
  | v6 address =>
    have all4 : world.leases4.filter (v4 · ≠ v6 address) = world.leases4 := by
      simp
    simp only [step, release, all4]
    exact { hv with
      distinct6 := hv.distinct6.filter _
      notServer6 := fun client mem => hv.notServer6 client (mem_of_mem_filter mem)
      inside6 := fun client mem => hv.inside6 client (mem_of_mem_filter mem)
      used6 := fun client mem => by
        have hl := mem_filter.mp mem
        exact mem_filter.mpr ⟨hv.used6 client hl.1, by simpa using hl.2⟩
      free6 := fun client mem => by
        have hl := mem_filter.mp mem
        refine (hv.free6 client hl.1).imp_left fun leased => ?_
        exact mem_filter.mpr ⟨leased, by simpa using hl.2⟩
      tables6 := hv.tables6.release address now }

/-- The server address of IPv4 only moves while no address is handed out. -/
theorem Valid.step_setServerIpv4 (hv : world.Valid) (address)
    : (world.step (.setServerIpv4 address)).Valid := by
  simp only [step]
  split
  next pool hm =>
    unfold setServerIpv4 at hm
    split at hm
    · cases hm
      exact hv
    split at hm
    · cases hm
    simp only [guard_eq_ok, not_not, Except.ok.injEq] at hm
    obtain ⟨-, -, idle, rfl⟩ := hm
    have unused : world.leases4 = [] := by
      refine eq_nil_iff_forall_not_mem.mpr fun client mem => ?_
      have ht := (hv.used4 client).mpr mem
      simp [idle] at ht
    exact { hv with
      notServer4 := by simp [unused]
      bounded := hv.bounded }
  · exact hv

theorem step_setServerIpv6 (world : PoolWorld) (address : BitVec 128)
    : world.step (.setServerIpv6 (some address))
      = if world.pool.ipv6Contains address then
          { world with
            pool := { world.pool with
              ipv6Server := some address
              ipv6 := { world.pool.ipv6 with
                used := (world.pool.ipv6.used.filter fun other =>
                  some other ≠ world.pool.ipv6Server).insert address } } }
        else world := by
  simp only [step, setServerIpv6]
  split
  next hm =>
    split at hm
    · cases hm
    next hi =>
      cases hm
      rw [if_pos (by simpa using hi)]
  next hm =>
    split at hm
    next ho =>
      rw [if_neg (by simpa using ho)]
    · cases hm

variable {address : Option (BitVec 128)}

/-- What an IPv4 allocation can do. -/
theorem step_allocateIpv4 (world : PoolWorld) (identity)
    : world.step (.allocateIpv4 identity) = world
      ∨ ∃ lease,
        world.step (.allocateIpv4 identity)
          = { world with
              pool := { world.pool with
                ipv4 := world.pool.ipv4.commit lease.client identity }
              leases4 := lease.client :: world.leases4 }
        ∧ (world.pool.reclaimIpv4 identity = some lease.client
          ∨ world.pool.reclaimIpv4 identity = none
            ∧ world.pool.findAvailableIpv4Lease identity = some lease) := by
  simp only [step]
  split
  next lease pool allocated =>
    obtain ⟨-, allocated⟩ := guard_eq_ok.mp allocated
    split at allocated
    · cases allocated
    next chosen =>
      cases allocated
      refine .inr ⟨lease, rfl, ?_⟩
      cases hb : world.pool.reclaimIpv4 identity with
      | none =>
        rw [hb] at chosen
        exact .inr ⟨rfl, chosen⟩
      | some _ =>
        rw [hb] at chosen
        cases chosen
        exact .inl rfl
  · exact .inl rfl

theorem reclaimIpv4_eq_some {client} (hr : pool.reclaimIpv4 identity = some client)
    : pool.ipv4.address.get? identity = some client ∧ client ∉ pool.ipv4.used := by
  unfold reclaimIpv4 at hr
  split at hr
  · cases hr
  obtain ⟨remembered, free⟩ := filter_eq_some_iff.mp hr
  exact ⟨remembered, by simpa using free⟩

section

variable (hv : world.Valid)
include hv

theorem Valid.step_setServerIpv6 (spares : world.SparesServer (.setServerIpv6 address))
    : (world.step (.setServerIpv6 address)).Valid := by
  cases address with
  | none => exact hv
  | some address =>
    rw [PoolWorld.step_setServerIpv6]
    split
    next hi =>
      exact { hv with
        notServer6 := fun client leased => by
          rintro ⟨⟩
          exact hv.notServer6 _ leased (spares hi (hv.used6 _ leased))
        used6 := fun client leased => by
          refine mem_insert_iff.mpr (.inr (mem_filter.mpr ⟨hv.used6 _ leased, ?_⟩))
          simpa using hv.notServer6 client leased
        free6 := fun client mem => by
          rcases mem_insert_iff.mp mem with rfl | hk
          · exact .inr rfl
          obtain ⟨ht, hne⟩ := mem_filter.mp hk
          exact .inl ((hv.free6 client ht).resolve_right (by simpa using hne))
        tables6 := ⟨hv.tables6.inverse, hv.tables6.named⟩ }
    · exact hv

theorem Valid.step_allocateIpv4 (spares : world.SparesServer (.allocateIpv4 identity))
    : (world.step (.allocateIpv4 identity)).Valid := by
  rcases PoolWorld.step_allocateIpv4 world identity with he | ⟨lease, next, chosen⟩
  · rw [he]
    exact hv
  obtain ⟨free, hi, hne⟩ : lease.client ∉ world.pool.ipv4.used
      ∧ world.pool.ipv4Contains lease.client ∧ some lease.client ≠ world.pool.ipv4Server := by
    rcases chosen with hr | ⟨-, hf⟩
    · obtain ⟨remembered, free⟩ := reclaimIpv4_eq_some hr
      refine ⟨free, hv.remembered4 identity _ remembered, ?_⟩
      rw [SparesServer, hr] at spares
      exact spares.resolve_left (by simp)
    obtain ⟨hl, free⟩ := FamilyState.selectAvailable_spec
      (fun lease => lease ∈ world.pool.ipv4Leases ∧ lease.client ∉ world.pool.ipv4.used)
      (fun _ mem free => ⟨mem, free⟩) (by simp) hf
    obtain ⟨start, stop, first, last, ha, hb, hne⟩ :=
      mem_ipv4Leases hl
    exact ⟨free, hv.bounded start stop first last _ ha hb, hne⟩
  rw [next]
  have tables := hv.tables4.commit lease.client identity
  exact { hv with
    distinct4 := nodup_cons.mpr ⟨(hv.used4 _).not.mp free, hv.distinct4⟩
    notServer4 := forall_mem_cons.mpr ⟨hne, hv.notServer4⟩
    inside4 := forall_mem_cons.mpr ⟨hi, hv.inside4⟩
    inverse4 := tables.inverse
    used4 := fun client => by
      rw [FamilyState.mem_used_commit, mem_cons, hv.used4]
    tables4 := tables
    remembered4 := fun name client remembered => by
      rw [hv.tables4.get?_commit] at remembered
      split at remembered
      · split at remembered
        · cases remembered
        cases remembered
        exact hi
      split at remembered
      · cases remembered
      · exact hv.remembered4 name client remembered }

/-- An identity that gets the server address back makes the pool unsound. -/
theorem sparesServer_of_sound_allocateIpv4 (hs : (world.step (.allocateIpv4 identity)).Sound)
    : world.SparesServer (.allocateIpv4 identity) := by
  cases hr : world.pool.reclaimIpv4 identity with
  | none => exact .inl hr
  | some previous =>
    refine .inr fun server => ?_
    obtain ⟨remembered, _⟩ := reclaimIpv4_eq_some hr
    have hc : world.pool.ipv4Prefix.isNone = false := by
      have hi := hv.remembered4 identity previous remembered
      unfold ipv4Contains at hi
      cases range : world.pool.ipv4Prefix with
      | none => simp [range] at hi
      | some => rfl
    have next : world.step (.allocateIpv4 identity)
        = { world with
            pool := { world.pool with ipv4 := world.pool.ipv4.commit previous identity }
            leases4 := previous :: world.leases4 } := by
      simp [step, allocateIpv4ForIdentity, hc, hr, map_some, some_or, ipv4Lease]
    rw [next] at hs
    exact hs.notServer4 previous mem_cons_self (hr.symm.trans server)

theorem Valid.step_allocateIpv6 (identity) : (world.step (.allocateIpv6 identity)).Valid := by
  simp only [step]
  split
  next client pool allocated =>
    obtain ⟨-, allocated⟩ := guard_eq_ok.mp allocated
    split at allocated
    · cases allocated
    next chosen =>
      cases allocated
      obtain ⟨hi, hne, free⟩ : world.pool.ipv6Contains client
          ∧ some client ≠ world.pool.ipv6Server ∧ client ∉ world.pool.ipv6.used := by
        rcases or_eq_some_iff.mp chosen with hr | ⟨-, hf⟩
        · unfold reclaimIpv6 at hr
          split at hr
          · cases hr
          · simpa using (filter_eq_some_iff.mp hr).2
        · exact findAvailableIpv6Address_spec hf
      have tables := hv.tables6.commit client identity
      exact { hv with
        distinct6 := nodup_cons.mpr ⟨fun leased => free (hv.used6 client leased), hv.distinct6⟩
        notServer6 := forall_mem_cons.mpr ⟨hne, hv.notServer6⟩
        inside6 := forall_mem_cons.mpr ⟨hi, hv.inside6⟩
        inverse6 := tables.inverse
        used6 := fun other mem => by
          rw [FamilyState.mem_used_commit]
          exact (mem_cons.mp mem).imp_right (hv.used6 other)
        free6 := fun other mem => by
          rw [FamilyState.mem_used_commit] at mem
          rcases mem with rfl | ht
          · exact .inl mem_cons_self
          · exact (hv.free6 other ht).imp_left (mem_cons_of_mem _)
        tables6 := tables }
  · exact hv

end

theorem exact_sparesServer
    : Exact step (fun world (_ : List PoolStep) => world.Valid) Sound SparesServer where
  sound_of_valid _ _ hv := hv.toSound
  valid_step world next _ hv spares := by
    cases next with
    | allocateIpv4 identity => exact hv.step_allocateIpv4 spares
    | allocateIpv6 identity => exact hv.step_allocateIpv6 identity
    | release address now => exact hv.step_release address now
    | setServerIpv4 address => exact hv.step_setServerIpv4 address
    | setServerIpv6 address => exact hv.step_setServerIpv6 spares
  admits_of_sound world next _ hv hs := by
    cases next with
    | allocateIpv4 identity => exact sparesServer_of_sound_allocateIpv4 hv hs
    | allocateIpv6 identity => exact trivial
    | release address now => exact trivial
    | setServerIpv4 address => exact trivial
    | setServerIpv6 address =>
      cases address with
      | none => exact trivial
      | some address =>
        intro hi ht
        by_contra moved
        have leased := (hv.free6 address ht).resolve_right moved
        rw [PoolWorld.step_setServerIpv6, if_pos hi] at hs
        exact hs.notServer6 address leased rfl

end PoolWorld

/-- The pool stays sound along a run exactly when no identity gets the server address back
and the IPv6 server address is never moved onto a leased one.
-/
theorem ipPool_sound_iff {addressPools : List OpenVpnIpPrefix} {topology : String} {pool : IpPool}
    (created : new addressPools topology = .ok pool) (steps : List PoolStep)
    : (∀ done, done <+: steps → (done.foldl PoolWorld.step ⟨pool, [], []⟩).Sound)
      ↔ ∀ done next, done ++ [next] <+: steps →
        (done.foldl PoolWorld.step ⟨pool, [], []⟩).SparesServer next :=
  PoolWorld.exact_sparesServer.forall_sound_iff (PoolWorld.fresh_new created).valid

/-- The pool of `10.0.0.0/29`. -/
def sixAddresses : IpPool where
  ipv4Prefix := some ⟨.v4 0x0a000000#32, 29⟩
  ipv4Topology := .subnet
  ipv4Server := some 0x0a000001#32
  ipv4Start := some 0x0a000002#32
  ipv4End := some 0x0a000006#32
  ipv6Prefix := none
  ipv4 := .empty
  ipv6 := .empty
  ipv6Server := none

theorem new_sixAddresses : new [⟨.v4 0x0a000000#32, 29⟩] "subnet" = .ok sixAddresses :=
  rfl

/-- An identity asks for its address again after the server has moved onto it. -/
def reclaimAfterMove : List PoolStep :=
  [.allocateIpv4 "alice", .release (.v4 0x0a000002#32) 0, .setServerIpv4 (some 0x0a000002#32),
    .allocateIpv4 "alice"]

theorem ipPool_sound_untilMove
    : new [⟨.v4 0x0a000000#32, 29⟩] "subnet" = .ok sixAddresses
      ∧ ∀ done, done <+: reclaimAfterMove.take 3 →
        (done.foldl PoolWorld.step ⟨sixAddresses, [], []⟩).Sound := by
  refine ⟨new_sixAddresses, (ipPool_sound_iff new_sixAddresses (reclaimAfterMove.take 3)).mpr ?_⟩
  intro done next early
  rcases done with _ | ⟨first, _ | ⟨second, _ | ⟨third, more⟩⟩⟩
  · obtain ⟨rfl, -⟩ := cons_prefix_cons.mp early
    exact .inl (by decide +kernel)
  · obtain ⟨rfl, later⟩ := cons_prefix_cons.mp early
    obtain ⟨rfl, -⟩ := cons_prefix_cons.mp later
    trivial
  · obtain ⟨rfl, later⟩ := cons_prefix_cons.mp early
    obtain ⟨rfl, last⟩ := cons_prefix_cons.mp later
    obtain ⟨rfl, -⟩ := cons_prefix_cons.mp last
    trivial
  have short : _ ≤ 3 := early.length_le
  simp only [length_append, length_cons] at short
  omega

/-- The last step of the run leases the server address. -/
theorem ipPool_leases_server_address
    : new [⟨.v4 0x0a000000#32, 29⟩] "subnet" = .ok sixAddresses
      ∧ ¬ (reclaimAfterMove.foldl PoolWorld.step ⟨sixAddresses, [], []⟩).Sound := by
  refine ⟨new_sixAddresses, fun sound => ?_⟩
  exact sound.notServer4 0x0a000002#32 (by decide +kernel) (by decide +kernel)

end Zay.OpenVpn
