import Zay.Lib.WordBits
import Zay.OpenVpn.IpPool

/-! What the address pool may hand out. The tables of a family stay mutually inverse, and
every candidate for a lease is free, lies in its prefix and is not the server address.
-/

namespace Zay.OpenVpn

open Lib Net List

variable {identity : String} {offset : Int}

namespace FamilyState

variable {A : Type} [DecidableEq A]

/-- The table of identities and the table of addresses are mutually inverse. No address
belongs to the empty identity.
-/
structure MutuallyInverse (state : FamilyState A) : Prop where
  inverse
    : ∀ identity client,
      state.address.get? identity = some client ↔ state.identity client = some identity
  named : ∀ client, state.identity client ≠ some ""

omit [DecidableEq A] in
theorem mutuallyInverse_empty : (empty : FamilyState A).MutuallyInverse where
  inverse := by simp [empty]
  named := by simp [empty]

theorem mem_used_commit (state : FamilyState A) (client other : A) (identity)
    : other ∈ (state.commit client identity).used ↔ other = client ∨ other ∈ state.used := by
  simp only [commit]
  split <;> simp

variable {state : FamilyState A} (client : A)

theorem get?_takeOver_self (state : FamilyState A) (identity)
    : (state.takeOver client identity).get? identity = state.address.get? identity := by
  unfold takeOver
  split
  · split
    next other =>
      simp [Ne.symm other.1]
    · rfl
  · rfl

namespace MutuallyInverse

variable (h : state.MutuallyInverse)

include h

omit [DecidableEq A] in
/-- Two addresses of one identity are the same. -/
theorem client_unique {left right} (hl : state.identity left = some identity)
    (hr : state.identity right = some identity)
    : left = right := by
  rw [← h.inverse] at hl hr
  exact Option.some.inj (hl.symm.trans hr)

theorem release (address : A) (now) : (state.release address now).MutuallyInverse :=
  ⟨h.inverse, h.named⟩

theorem get?_takeOver {name} (hne : name ≠ identity)
    : (state.takeOver client identity).get? name
      = if state.identity client = some name then none else state.address.get? name := by
  unfold takeOver
  cases owner : state.identity client with
  | none => simp
  | some previous =>
    have hl := (h.inverse previous client).mpr owner
    by_cases he : previous = identity
    · subst he
      simp [Ne.symm hne]
    by_cases named : name = previous
    · simp [named, he, hl]
    · simp [named, he, hl, Ne.symm named]

/-- After a commit the client belongs to the identity and to no other, and the identity has
no other client.
-/
theorem identity_commit (client other : A) (identity)
    : (state.commit client identity).identity other
      = if other = client then (if identity = "" then none else some identity)
        else if state.identity other = some identity then none
        else state.identity other := by
  simp only [FamilyState.commit]
  split
  next anonymous =>
    obtain rfl := String.isEmpty_iff.mp anonymous
    simp [Function.update_apply, h.named]
  next hk =>
    have hnil : identity ≠ "" := fun he => hk (String.isEmpty_iff.mpr he)
    rw [get?_takeOver_self]
    by_cases here : other = client
    · simp [here, hnil]
    cases hb : state.address.get? identity with
    | none =>
      have free : state.identity other ≠ some identity := fun owner =>
        absurd ((h.inverse identity other).mpr owner) (by simp [hb])
      simp [here, free]
    | some previous =>
      have owner := (h.inverse identity previous).mp hb
      by_cases elsewhere : previous = client
      · have free : state.identity other ≠ some identity := fun mine =>
          here ((h.client_unique mine owner).trans elsewhere)
        simp [here, elsewhere, free, Option.filter]
      by_cases mine : other = previous
      · subst mine
        simp [here, owner, Option.filter]
      have free : state.identity other ≠ some identity := fun owned =>
        mine (h.client_unique owned owner)
      simp [here, elsewhere, mine, free, Option.filter]

theorem get?_commit (identity name)
    : (state.commit client identity).address.get? name
      = if name = identity then (if identity = "" then none else some client)
        else if state.identity client = some name then none
        else state.address.get? name := by
  simp only [FamilyState.commit]
  split
  next anonymous =>
    obtain rfl := String.isEmpty_iff.mp anonymous
    by_cases he : name = ""
    · have hno : state.address.get? "" = none := by
        cases hf : state.address.get? "" with
        | none => rfl
        | some client => exact absurd ((h.inverse "" client).mp hf) (h.named client)
      simp [he, get?_takeOver_self, hno]
    · simp [he, h.get?_takeOver client he]
  next hk =>
    have hnil : identity ≠ "" := fun he => hk (String.isEmpty_iff.mpr he)
    by_cases he : name = identity
    · simp [he, hnil]
    · simp [he, h.get?_takeOver client he]

end MutuallyInverse

theorem MutuallyInverse.commit (h : state.MutuallyInverse) (identity)
    : (state.commit client identity).MutuallyInverse where
  inverse name other := by
    rw [h.get?_commit, h.identity_commit]
    by_cases named : name = identity
    · subst named
      by_cases here : other = client
      · simp [here]
      by_cases mine : state.identity other = some name
      · simp [here, Ne.symm here]
      · simp [here, Ne.symm here]
    by_cases here : other = client
    · subst here
      by_cases mine : state.identity other = some name
      · simp [named, mine, Ne.symm named]
      · simp [named, Ne.symm named, h.inverse]
    -- Neither the client nor the identity of the commit.
    have lost : state.identity client = some name → state.identity other ≠ some name :=
      fun owner mine => here (h.client_unique mine owner)
    by_cases owner : state.identity client = some name
    · by_cases mine : state.identity other = some identity
      · simp [named, here, owner, mine]
      · simp [named, here, owner, lost owner]
    by_cases mine : state.identity other = some identity
    · simp [named, here, mine, h.inverse, Ne.symm named]
    · simp [named, here, owner, mine, h.inverse]
  named other := by
    rw [h.identity_commit]
    split
    · split
      · simp
      next hnil =>
        simpa using hnil
    split
    · simp
    · exact h.named other

end FamilyState

/-- What is selected is a free candidate, or was selected before. -/
theorem FamilyState.selectAvailable_spec {A L : Type} [DecidableEq A] {state : FamilyState A}
    {client skip} (property : L → Prop) {candidates selected found}
    (free : ∀ candidate ∈ candidates, client candidate ∉ state.used → property candidate)
    (hb : ∀ current ∈ selected, property current.1)
    (result : state.selectAvailable client skip identity candidates selected = some found)
    : property found := by
  induction candidates generalizing selected with
  | nil =>
    obtain ⟨current, mem, rfl⟩ := Option.map_eq_some_iff.mp result
    exact hb current mem
  | cons candidate candidates ih =>
    obtain ⟨first, others⟩ := forall_mem_cons.mp free
    simp only [selectAvailable] at result
    split at result
    · exact ih others hb result
    next unused =>
      have here := first unused
      split at result
      · cases result
        exact here
      split at result
      · exact ih others hb result
      have next : ∀ current ∈ (if selected.all fun current =>
          releaseIsBefore (state.released (client candidate)) current.2
          then some (candidate, state.released (client candidate)) else selected),
          property current.1 := by
        intro current mem
        split at mem
        · cases mem
          exact here
        · exact hb current mem
      split at result
      · exact ih others next result
      obtain ⟨current, mem, rfl⟩ := Option.map_eq_some_iff.mp result
      exact next current mem

theorem toNat_addIpv4 {address next} (added : addIpv4 address offset = some next)
    : (next.toNat : Int) = address.toNat + offset := by
  obtain ⟨_, hpos, hb⟩ := Option.bind_eq_some_iff.mp added
  split at hb
  next hs =>
    cases hb
    rw [BitVec.toNat_ofNat, Nat.mod_eq_of_lt hs]
    exact (Int.mem_toNat?.mp hpos).symm
  · cases hb

namespace IpPool

variable {pool : IpPool} {fuel : Nat} {lease : Ipv4PoolLease}

/-- The lease lies between the bounds and does not use the server address. -/
def Visits (pool : IpPool) (start stop : BitVec 32) (lease : Ipv4PoolLease) : Prop :=
  start ≤ lease.client ∧ lease.client ≤ stop ∧ some lease.client ≠ pool.ipv4Server

variable {start stop : BitVec 32} {current : Option (BitVec 32)}

theorem Visits.of_next (forward : 0 ≤ offset)
    (hr : ∃ next ∈ addIpv4 start offset, pool.Visits next stop lease)
    : pool.Visits start stop lease := by
  obtain ⟨next, added, ha, rest⟩ := hr
  have step := toNat_addIpv4 added
  rw [BitVec.le_def] at ha
  exact ⟨BitVec.le_def.mpr (by omega), rest⟩

theorem mem_hostLeases (mem : lease ∈ pool.hostLeases stop fuel current)
    : ∃ start ∈ current, pool.Visits start stop lease := by
  induction fuel generalizing current with
  | zero => simp [hostLeases] at mem
  | succ fuel ih =>
    cases current with
    | none => simp [hostLeases] at mem
    | some start =>
      refine ⟨start, rfl, ?_⟩
      simp only [hostLeases] at mem
      split at mem
      next hb =>
        split at mem
        · exact .of_next (by decide) (ih mem)
        next hne =>
          rcases mem_cons.mp mem with rfl | mem
          · exact ⟨BitVec.le_refl _, hb, hne⟩
          · exact .of_next (by decide) (ih mem)
      · simp at mem

theorem mem_blockLeases (mem : lease ∈ pool.blockLeases stop fuel current)
    : ∃ start ∈ current, pool.Visits start stop lease := by
  induction fuel generalizing current with
  | zero => simp [blockLeases] at mem
  | succ fuel ih =>
    cases current with
    | none => simp [blockLeases] at mem
    | some start =>
      refine ⟨start, rfl, ?_⟩
      simp only [blockLeases] at mem
      split at mem
      · split at mem
        next peer client _ added =>
          split at mem
          · simp at mem
          next hb =>
            split at mem
            · exact .of_next (by decide) (ih mem)
            next hne =>
              rcases mem_cons.mp mem with rfl | mem
              · have step := toNat_addIpv4 added
                exact ⟨BitVec.le_def.mpr (by dsimp only; omega), BitVec.not_lt.mp hb,
                  (not_or.mp hne).2⟩
              · exact .of_next (by decide) (ih mem)
        · simp at mem
      · simp at mem

theorem mem_ipv4Leases (mem : lease ∈ pool.ipv4Leases)
    : ∃ start stop, pool.ipv4Start = some start ∧ pool.ipv4End = some stop
      ∧ pool.Visits start stop lease := by
  unfold ipv4Leases at mem
  split at mem
  next start stop first last =>
    refine ⟨start, stop, first, last, ?_⟩
    dsimp only at mem
    split at mem
    · obtain ⟨_, ⟨⟩, visits⟩ := mem_hostLeases mem
      exact visits
    · obtain ⟨_, ⟨⟩, visits⟩ := mem_hostLeases mem
      exact visits
    obtain ⟨_, ⟨⟩, visits⟩ := mem_blockLeases mem
    exact visits
  · simp at mem

variable {address : BitVec 128}

theorem mem_ipv6Addresses {visited current}
    (mem : address ∈ pool.ipv6Addresses fuel visited current)
    : pool.ipv6Contains address ∧ some address ≠ pool.ipv6Server := by
  induction fuel generalizing visited current with
  | zero => simp [ipv6Addresses] at mem
  | succ fuel ih =>
    cases current with
    | none => simp [ipv6Addresses] at mem
    | some _ =>
      simp only [ipv6Addresses] at mem
      split at mem
      next hi =>
        split at mem
        · exact ih mem
        next hne =>
          rcases mem_cons.mp mem with rfl | mem
          · exact ⟨hi.1, hne⟩
          · exact ih mem
      · simp at mem

theorem findAvailableIpv6Address_spec (hf : pool.findAvailableIpv6Address identity = some address)
    : pool.ipv6Contains address ∧ some address ≠ pool.ipv6Server
      ∧ address ∉ pool.ipv6.used := by
  unfold findAvailableIpv6Address at hf
  split at hf
  · refine FamilyState.selectAvailable_spec (fun address => pool.ipv6Contains address
      ∧ some address ≠ pool.ipv6Server ∧ address ∉ pool.ipv6.used)
      (fun _ mem free => ?_) (by simp) hf
    obtain ⟨hi, hne⟩ := mem_ipv6Addresses mem
    exact ⟨hi, hne, free⟩
  · cases hf

end IpPool

theorem toNat_and_networkMask {width prefixLen} (hpos : prefixLen ≠ 0) (bits : BitVec width)
    : (bits &&& networkMask width prefixLen).toNat
      = bits.toNat / 2 ^ (width - prefixLen.toNat) * 2 ^ (width - prefixLen.toNat) := by
  rw [networkMask, if_neg hpos, toNat_and_allOnes_shiftLeft]

variable {range : OpenVpnIpPrefix}

/-- The addresses from the network address to the last one lie in the prefix. -/
theorem prefixContains_of_bounds {network last address}
    (hs : 16 ≤ range.prefixLen ∧ range.prefixLen ≤ 29)
    (masked : range.masked.address = .v4 network) (broadcast : lastIpv4InPrefix range = some last)
    (ha : network ≤ address) (hb : address ≤ last)
    : prefixContains range (.v4 address) := by
  have hpos : range.prefixLen ≠ 0 := by
    rintro zero
    rw [zero] at hs
    exact absurd hs.1 (by decide)
  have length : range.prefixLen.toNat ≤ 29 := UInt8.le_iff_toNat_le.mp hs.2
  have lower : 16 ≤ range.prefixLen.toNat := UInt8.le_iff_toNat_le.mp hs.1
  obtain ⟨bits, he⟩ : ∃ bits, range.address = .v4 bits := by
    cases form : range.address with
    | v4 bits => exact ⟨bits, rfl⟩
    | v6 bits => simp [OpenVpnIpPrefix.masked, form] at masked
  simp only [OpenVpnIpPrefix.masked, he, IpAddr.v4.injEq] at masked
  simp only [lastIpv4InPrefix, OpenVpnIpPrefix.masked, he, masked, Option.some.injEq] at broadcast
  simp only [prefixContains, OpenVpnIpPrefix.masked, he, masked, decide_eq_true_eq]
  rw [if_neg (by omega)] at broadcast
  generalize hosts : 32 - range.prefixLen.toNat = host at *
  have start : network.toNat = bits.toNat / 2 ^ host * 2 ^ host := by
    rw [← masked, toNat_and_networkMask hpos, hosts]
  have stop : last.toNat < bits.toNat / 2 ^ host * 2 ^ host + 2 ^ host := by
    have := Nat.one_le_two_pow (n := host)
    rw [← broadcast, BitVec.toNat_or, toNat_one_shiftLeft_sub_one (by omega), start, Nat.mul_comm,
      ← Nat.two_pow_add_eq_or_of_lt (by omega)]
    omega
  apply BitVec.eq_of_toNat_eq
  rw [toNat_and_networkMask hpos, hosts, start]
  rw [BitVec.le_def] at ha hb
  congr 1
  exact Nat.div_eq_of_lt_le (by omega) (by rw [Nat.succ_mul]; omega)

namespace IpPool

def ipv4Contains (pool : IpPool) (address : BitVec 32) : Bool :=
  pool.ipv4Prefix.any fun range => prefixContains range (.v4 address)

/-- The candidates for a lease lie in the prefix. -/
def Bounded (pool : IpPool) : Prop :=
  ∀ start stop, pool.ipv4Start = some start → pool.ipv4End = some stop →
    ∀ address, start ≤ address → address ≤ stop → pool.ipv4Contains address

theorem masked_masked (range : OpenVpnIpPrefix) : range.masked.masked = range.masked := by
  obtain ⟨address, _⟩ := range
  cases address <;> simp [OpenVpnIpPrefix.masked, BitVec.and_assoc]

/-- Configuring IPv4 changes nothing but the four fields of the prefix. -/
theorem configureIpv4_eq {pool next : IpPool} (hc : pool.configureIpv4 range.masked = .ok next)
    : next = pool ∨ ∃ network last start stop,
      (16 ≤ range.masked.prefixLen ∧ range.masked.prefixLen ≤ 29)
      ∧ range.masked.address = .v4 network ∧ lastIpv4InPrefix range.masked = some last
      ∧ network ≤ start ∧ stop ≤ last
      ∧ next = { pool with
          ipv4Prefix := some range.masked
          ipv4Server := addIpv4 network 1
          ipv4Start := some start
          ipv4End := some stop } := by
  unfold configureIpv4 at hc
  split at hc
  · cases hc
  next hs =>
    split at hc
    next network last form hb =>
      dsimp only at hc
      split at hc
      next start stop bounds =>
        split at hc
        · cases hc
        cases hc
        rw [not_or, UInt8.not_lt, UInt8.not_lt] at hs
        refine .inr ⟨network, last, start, stop, hs, form, hb, ?_, ?_, rfl⟩
        all_goals
          rw [BitVec.le_def]
          split at bounds
          all_goals
            obtain ⟨first, final⟩ := Prod.mk.inj bounds
            have lower := toNat_addIpv4 first
            have upper := toNat_addIpv4 final
            try split at upper
            all_goals omega
      · cases hc
    · cases hc
      exact .inl rfl

theorem Bounded.configureIpv4 {pool next : IpPool} (hb : pool.Bounded)
    (hc : pool.configureIpv4 range.masked = .ok next)
    : next.Bounded := by
  rcases configureIpv4_eq hc with rfl | ⟨_, _, _, _, hs, form, broadcast, lower, upper, rfl⟩
  · exact hb
  rintro start stop ⟨⟩ ⟨⟩ address ha below
  refine prefixContains_of_bounds hs ?_ broadcast
    (BitVec.le_trans lower ha) (BitVec.le_trans below upper)
  rw [masked_masked, form]

end IpPool

end Zay.OpenVpn
