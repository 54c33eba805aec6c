import Zay.Tailscale.AuthorityState

/-! The tree of updates that an authority stores: the state at each update, the walk to the
active head, and what absorbing another update preserves.
-/

namespace Zay.Tailscale

open Lib TailscaleTkaAuthority OrderedMap TailscaleAum

abbrev AumStore := OrderedMap TailscaleAumHash TailscaleAum

variable {crypto : TkaPrimitives} {aums other : AumStore}

/-- The state after an update, however far away its checkpoint is. -/
def HasState (primitives : TkaPrimitives) (aums : AumStore) (hash : TailscaleAumHash)
    (state : TailscaleTkaAuthorityState) : Prop :=
  ∃ fuel, stateAtWithin primitives aums fuel hash = .ok state

variable {fuel : Nat} {hash : TailscaleAumHash} {state : TailscaleTkaAuthorityState}

theorem stateAtWithin_succ_eq_ok
    : stateAtWithin crypto aums (fuel + 1) hash = .ok state
      ↔ ∃ aum, aums.get? hash = some aum
        ∧ (aum.kind = kindCheckpoint
            ∧ (∃ held, aum.state = some held
              ∧ state = { held with lastAumHash := some (aum.hash crypto) })
          ∨ aum.kind ≠ kindCheckpoint
            ∧ ∃ parent before, aum.previous = some parent
              ∧ stateAtWithin crypto aums fuel parent = .ok before
              ∧ applyAum crypto before aum = .ok state) := by
  rw [stateAtWithin]
  cases hs : aums.get? hash with
  | none => simp
  | some aum =>
    by_cases checkpoint : aum.kind = kindCheckpoint
    · cases held : aum.state with
      | none => simp [checkpoint, held, invalid]
      | some held => simp [checkpoint, held, eq_comm]
    cases hpr : aum.previous with
    | none => simp [checkpoint, hpr]
    | some parent => simp [checkpoint, hpr, bind_eq_ok]

def Extends (other aums : AumStore) : Prop :=
  ∀ {hash aum}, aums.get? hash = some aum → other.get? hash = some aum

/-- Growing a store leaves the states of its updates as they are. -/
theorem stateAtWithin_mono {more} (hl : Extends other aums) (he : fuel ≤ more)
    (hk : stateAtWithin crypto aums fuel hash = .ok state)
    : stateAtWithin crypto other more hash = .ok state := by
  induction fuel generalizing more hash state with
  | zero => cases hk
  | succ fuel ih =>
    obtain ⟨_, rfl⟩ := Nat.exists_eq_add_one.mpr (Nat.zero_lt_of_lt he)
    obtain ⟨aum, hs, here | ⟨hr, parent, before, hpr, hk, ha⟩⟩ :=
      stateAtWithin_succ_eq_ok.mp hk
    · exact stateAtWithin_succ_eq_ok.mpr ⟨aum, hl hs, .inl here⟩
    · have before := ih (Nat.le_of_succ_le_succ he) hk
      exact stateAtWithin_succ_eq_ok.mpr ⟨aum, hl hs, .inr ⟨hr, parent, _, hpr, before, ha⟩⟩

theorem HasState.unique {one two} (first : HasState crypto aums hash one)
    (second : HasState crypto aums hash two)
    : one = two := by
  obtain ⟨fuel, first⟩ := first
  obtain ⟨more, second⟩ := second
  have hj := stateAtWithin_mono id (Nat.le_max_left fuel more) first
  rw [stateAtWithin_mono id (Nat.le_max_right fuel more) second] at hj
  cases hj
  rfl

/-- Two stores that agree on a set of updates, with every update its way to a checkpoint. -/
theorem stateAtWithin_congr (hw : TailscaleAumHash → Prop)
    (ha : ∀ hash, hw hash → other.get? hash = aums.get? hash)
    (hc : ∀ hash aum parent, hw hash → aums.get? hash = some aum →
      aum.kind ≠ kindCheckpoint → aum.previous = some parent → hw parent)
    (hi : hw hash) (fuel : Nat)
    : stateAtWithin crypto other fuel hash = stateAtWithin crypto aums fuel hash := by
  induction fuel generalizing hash with
  | zero => rfl
  | succ fuel ih =>
    unfold stateAtWithin
    rw [ha hash hi]
    cases hs : aums.get? hash with
    | none => rfl
    | some aum =>
      by_cases checkpoint : aum.kind = kindCheckpoint
      · simp [checkpoint]
      simp only [checkpoint, if_false]
      cases hpr : aum.previous with
      | none => rfl
      | some parent =>
        simp [ih (hc hash aum parent hi hs checkpoint hpr)]

variable {aum : TailscaleAum}

/-- A checkpoint has the state it holds. -/
theorem stateAtWithin_checkpoint (hs : aums.get? hash = some aum)
    (checkpoint : aum.kind = kindCheckpoint) (held : aum.state = some state) (fuel : Nat)
    : stateAtWithin crypto aums (fuel + 1) hash
      = .ok { state with lastAumHash := some (aum.hash crypto) } :=
  stateAtWithin_succ_eq_ok.mpr ⟨aum, hs, .inl ⟨checkpoint, state, held, rfl⟩⟩

variable {before : TailscaleTkaAuthorityState}

/-- The state after an update is its parent's state with the update applied. -/
theorem HasState.step {parent} (hk : HasState crypto aums parent before)
    (hs : aums.get? hash = some aum) (hpr : aum.previous = some parent)
    (ha : applyAum crypto before aum = .ok state)
    : HasState crypto aums hash state := by
  obtain ⟨fuel, hk⟩ := hk
  refine ⟨fuel + 1, ?_⟩
  by_cases checkpoint : aum.kind = kindCheckpoint
  · obtain ⟨-, _, kind, rfl⟩ := applyAum_eq_ok.mp ha
    simp only [applyKind, checkpoint, if_true, restoreCheckpoint] at kind
    cases held : aum.state with
    | none => simp [held, invalid] at kind
    | some state =>
      simp only [held, invalid, guard_eq_ok, Except.ok.injEq] at kind
      obtain ⟨-, rfl⟩ := kind
      exact stateAtWithin_checkpoint hs checkpoint held fuel
  · exact stateAtWithin_succ_eq_ok.mpr
      ⟨aum, hs, .inr ⟨checkpoint, parent, before, hpr, hk, ha⟩⟩

theorem stored_of_stateAtWithin (hk : stateAtWithin crypto aums fuel hash = .ok state)
    : ∃ aum, aums.get? hash = some aum := by
  cases fuel with
  | zero => cases hk
  | succ fuel =>
    obtain ⟨aum, hs, -⟩ := stateAtWithin_succ_eq_ok.mp hk
    exact ⟨aum, hs⟩

theorem HasState.of_extends (hl : Extends other aums) (hk : HasState crypto aums hash state)
    : HasState crypto other hash state := by
  obtain ⟨fuel, hk⟩ := hk
  exact ⟨fuel, stateAtWithin_mono hl le_rfl hk⟩

/-- An update was verified against the state of its parent, and applies to it. -/
structure VerifiedAgainst (primitives : TkaPrimitives) (aums : AumStore) (aum : TailscaleAum)
    (parent : TailscaleAumHash) (before next : TailscaleTkaAuthorityState) : Prop where
  previous : aum.previous = some parent
  known : stateAtWithin primitives aums maxSyncIterations parent = .ok before
  signed : verifyAumSignatures primitives aum before = .ok ()
  applies : applyAum primitives before aum = .ok next

def Verified (primitives : TkaPrimitives) (aums : AumStore) (aum : TailscaleAum) : Prop :=
  ∃ parent before next, VerifiedAgainst primitives aums aum parent before next

structure StoreValid (primitives : TkaPrimitives) (aums : AumStore) (oldest : TailscaleAumHash)
    : Prop where
  keyed : ∀ {hash aum}, aums.get? hash = some aum → aum.hash primitives = hash
  decodes : ∀ {hash aum}, aums.get? hash = some aum →
    decode primitives aum.encode = .ok aum
  root : ∃ aum, aums.get? oldest = some aum ∧ aum.kind = kindCheckpoint
    ∧ ∀ parent ∈ aum.previous, aums.get? parent = none
  verified : ∀ {hash aum}, aums.get? hash = some aum → hash ≠ oldest →
    Verified primitives aums aum

namespace StoreValid

variable {oldest : TailscaleAumHash} {parent : TailscaleAumHash}

variable (hsv : StoreValid crypto aums oldest)

include hsv

theorem static (hs : aums.get? hash = some aum)
    : StaticallyValid aum :=
  staticallyValid_of_eq_ok (decode_eq_ok (hsv.decodes hs)).2

theorem root_state
    : ∃ root state, aums.get? oldest = some root ∧ root.state = some state
      ∧ ∀ fuel, stateAtWithin crypto aums (fuel + 1) oldest
        = .ok { state with lastAumHash := some oldest } := by
  obtain ⟨root, hs, checkpoint, -⟩ := hsv.root
  obtain ⟨state, held⟩ :=
    Option.ne_none_iff_exists'.mp ((hsv.static hs).checkpoint checkpoint)
  refine ⟨root, state, hs, held, fun fuel => ?_⟩
  rw [stateAtWithin_checkpoint hs checkpoint held, hsv.keyed hs]

variable (hs : aums.get? hash = some aum)
include hs

/-- The parent of an update is stored, except for the oldest update. -/
theorem parent_stored (hr : hash ≠ oldest)
    : ∃ parent, aum.previous = some parent ∧ ∃ before, aums.get? parent = some before := by
  obtain ⟨parent, before, _, hv⟩ := hsv.verified hs hr
  exact ⟨parent, hv.previous, stored_of_stateAtWithin hv.known⟩

/-- Only a checkpoint can lack its parent. -/
theorem parent_stored_of_ne_checkpoint (kind : aum.kind ≠ kindCheckpoint)
    (hpr : aum.previous = some parent)
    : ∃ before, aums.get? parent = some before := by
  have hr : hash ≠ oldest := by
    rintro rfl
    obtain ⟨_, he, checkpoint, -⟩ := hsv.root
    rw [hs] at he
    cases he
    exact kind checkpoint
  obtain ⟨_, link, before⟩ := hsv.parent_stored hs hr
  cases link.symm.trans hpr
  exact before

variable (hpr : aum.previous = some parent)
include hpr

/-- The child of a stored update is not the oldest update. -/
theorem ne_oldest {before} (hp : aums.get? parent = some before) : hash ≠ oldest := by
  rintro rfl
  obtain ⟨_, he, -, detached⟩ := hsv.root
  rw [hs] at he
  cases he
  rw [detached parent hpr] at hp
  cases hp

/-- The state that an update was verified against, whichever way it is known. -/
theorem verifiedAgainst_of_hasState (hk : HasState crypto aums parent before)
    : ∃ next, VerifiedAgainst crypto aums aum parent before next := by
  obtain ⟨fuel, hf⟩ := hk
  obtain ⟨_, hp⟩ := stored_of_stateAtWithin hf
  obtain ⟨_, state, next, hv⟩ :=
    hsv.verified hs (hsv.ne_oldest hs hpr hp)
  cases hv.previous.symm.trans hpr
  obtain rfl : state = before :=
    HasState.unique ⟨maxSyncIterations, hv.known⟩ ⟨fuel, hf⟩
  exact ⟨next, hv⟩

end StoreValid

section Insertion

theorem extends_insert (hn : aums.get? hash = none) : Extends (aums.insert hash aum) aums := by
  intro hs value hk
  rw [get?_insert, if_neg, hk]
  rintro rfl
  rw [hn] at hk
  cases hk

theorem Verified.mono (hl : Extends other aums) {value} (hv : Verified crypto aums value)
    : Verified crypto other value := by
  obtain ⟨parent, before, next, hpr, hk, signed, applies⟩ := hv
  exact ⟨parent, before, next, hpr, stateAtWithin_mono hl le_rfl hk, signed, applies⟩

theorem StoreValid.insert {oldest} (hsv : StoreValid crypto aums oldest)
    (hn : aums.get? hash = none) (keyed : aum.hash crypto = hash)
    (decodes : decode crypto aum.encode = .ok aum) (hv : Verified crypto aums aum)
    (hne : ∀ root, aums.get? oldest = some root → root.previous ≠ some hash)
    : StoreValid crypto (aums.insert hash aum) oldest := by
  obtain ⟨root, rootStored, checkpoint, detached⟩ := hsv.root
  constructor
  · intro stored value hf
    rw [get?_insert] at hf
    split at hf
    next he =>
      cases hf
      rw [he]
      exact keyed
    · exact hsv.keyed hf
  · intro stored value hf
    rw [get?_insert] at hf
    split at hf
    · cases hf
      exact decodes
    · exact hsv.decodes hf
  · refine ⟨root, extends_insert hn rootStored, checkpoint, fun parent ha => ?_⟩
    rw [get?_insert, if_neg, detached parent ha]
    rintro rfl
    exact hne root rootStored ha
  · intro stored value hf hr
    rw [get?_insert] at hf
    split at hf
    · cases hf
      exact hv.mono (extends_insert hn)
    · exact (hsv.verified hf hr).mono (extends_insert hn)

end Insertion

/-- The updates that the walk passes below `cursor`, and where it ends. -/
inductive Active (primitives : TkaPrimitives) (aums : AumStore)
    : (cursor : TailscaleAumHash) → (state : TailscaleTkaAuthorityState)
      → (passed : List TailscaleAumHash)
      → (head : TailscaleAumHash) → (final : TailscaleTkaAuthorityState) → Prop
  | leaf {cursor state} (childless : preferredChild aums state cursor = none)
    : Active primitives aums cursor state [] cursor state
  | step {cursor state hash aum next passed head final}
    (preferred : preferredChild aums state cursor = some (hash, aum))
    (applied : applyAum primitives state aum = .ok next)
    (rest : Active primitives aums hash next passed head final)
    : Active primitives aums cursor state (hash :: passed) head final

variable {cursor head : TailscaleAumHash} {checkpoint : TailscaleTkaAuthorityState}

theorem activeHeadWithin_eq_ok {final}
    : activeHeadWithin crypto aums fuel cursor state = .ok (head, final)
      ↔ ∃ passed, Active crypto aums cursor state passed head final
        ∧ passed.length < fuel := by
  induction fuel generalizing cursor state with
  | zero => simp [activeHeadWithin]
  | succ fuel ih =>
    unfold activeHeadWithin
    cases hp : preferredChild aums state cursor with
    | none =>
      constructor
      · intro reached
        cases reached
        exact ⟨[], .leaf hp, Nat.succ_pos _⟩
      · rintro ⟨passed, active, -⟩
        cases active with
        | leaf => rfl
        | step chosen => rw [hp] at chosen; cases chosen
    | some child =>
      obtain ⟨hash, _⟩ := child
      simp only [bind_eq_ok, ih]
      constructor
      · rintro ⟨next, ha, passed, active, hs⟩
        exact ⟨hash :: passed, .step hp ha active, Nat.succ_lt_succ hs⟩
      · rintro ⟨passed, active, hs⟩
        cases active with
        | leaf childless => rw [hp] at childless; cases childless
        | step chosen ha rest =>
          rw [hp] at chosen
          cases chosen
          exact ⟨_, ha, _, rest, Nat.lt_of_succ_lt_succ hs⟩

theorem mem_childrenOf
    : (hash, aum) ∈ childrenOf aums cursor
      ↔ aums.get? hash = some aum ∧ aum.previous = some cursor := by
  rw [childrenOf, List.mem_filter, decide_eq_true_eq, get?_eq_some_iff]

/-- The preferred child is a stored child. -/
theorem preferredChild_stored (hp : preferredChild aums state cursor = some (hash, aum))
    : aums.get? hash = some aum ∧ aum.previous = some cursor := by
  have hm := List.mem_of_mem_head? (Option.mem_def.mpr hp)
  rw [List.mem_insertionSort] at hm
  exact mem_childrenOf.mp hm

theorem preferredChild_eq_none_iff
    : preferredChild aums state cursor = none
      ↔ ∀ hash aum, aums.get? hash = some aum → aum.previous ≠ some cursor := by
  rw [preferredChild, List.head?_eq_none_iff, ← List.length_eq_zero_iff,
    List.length_insertionSort, List.length_eq_zero_iff, List.eq_nil_iff_forall_not_mem]
  constructor
  · intro hc hash aum hs hpr
    exact hc (hash, aum) (mem_childrenOf.mpr ⟨hs, hpr⟩)
  · rintro hc ⟨hash, aum⟩ hm
    obtain ⟨hs, hpr⟩ := mem_childrenOf.mp hm
    exact hc hash aum hs hpr

section Absorbing

variable {committedAt : SystemTime} {candidate next : TailscaleTkaAuthority} {bytes : List UInt8}

/-- The candidate with one more update. -/
def TailscaleTkaAuthority.extend (candidate : TailscaleTkaAuthority)
    (hash : TailscaleAumHash) (aum : TailscaleAum) (committedAt : SystemTime)
    : TailscaleTkaAuthority :=
  { candidate with
    aums := candidate.aums.insert hash aum
    commitTimes := candidate.commitTimes.insert hash committedAt }

theorem attach_eq_ok
    : attach crypto committedAt candidate aum = .ok next
      ↔ Verified crypto candidate.aums aum
        ∧ next = candidate.extend (aum.hash crypto) aum committedAt := by
  unfold attach
  cases hpr : aum.previous with
  | none =>
    constructor
    · rintro ⟨⟩
    · rintro ⟨⟨parent, before, after, hv⟩, -⟩
      rw [hv.previous] at hpr
      cases hpr
  | some parent =>
    simp only [guard_eq_ok, bind_eq_ok]
    constructor
    · rintro ⟨-, before, hk, ⟨⟩, signed, after, applies, he⟩
      cases he
      exact ⟨⟨parent, before, after, hpr, hk, signed, applies⟩, rfl⟩
    · rintro ⟨⟨actual, before, after, hv⟩, rfl⟩
      cases hv.previous.symm.trans hpr
      have hs := containsKey_iff.mpr (stored_of_stateAtWithin hv.known)
      exact ⟨by simp [hs], before, hv.known, (), hv.signed, after, hv.applies, rfl⟩

theorem absorb_eq_ok
    : absorb crypto committedAt candidate bytes = .ok next
      ↔ ∃ aum, decode crypto bytes = .ok aum
        ∧ ((∃ known, candidate.aums.get? (aum.hash crypto) = some known) ∧ next = candidate
          ∨ candidate.aums.get? (aum.hash crypto) = none
            ∧ Verified crypto candidate.aums aum
            ∧ next = candidate.extend (aum.hash crypto) aum committedAt) := by
  rw [absorb, bind_eq_ok]
  refine exists_congr fun aum => and_congr_right fun _ => ?_
  cases hs : candidate.aums.get? (aum.hash crypto) with
  | some known => simp [containsKey, hs, eq_comm]
  | none => simp [containsKey, hs, attach_eq_ok]

theorem extend_valid (hsv : StoreValid crypto candidate.aums candidate.oldest)
    (hd : decode crypto bytes = .ok aum) (hn : candidate.aums.get? (aum.hash crypto) = none)
    (hv : Verified crypto candidate.aums aum)
    (ha : ∀ root, candidate.aums.get? candidate.oldest = some root →
      root.previous ≠ some (aum.hash crypto))
    : StoreValid crypto (candidate.extend (aum.hash crypto) aum committedAt).aums
      candidate.oldest := by
  refine hsv.insert hn rfl ?_ hv ha
  rw [(decode_eq_ok hd).1]
  exact hd

end Absorbing

section Batches

variable {tka next : TailscaleTkaAuthority} {encoded : List (List UInt8)}
  {committedAt : SystemTime}

theorem computeActiveHead_eq_ok
    : tka.computeActiveHead crypto = .ok (head, state)
      ↔ ∃ rootState,
        stateAtWithin crypto tka.aums maxSyncIterations tka.oldest = .ok rootState
        ∧ ∃ passed,
          Active crypto tka.aums tka.oldest rootState passed head state
          ∧ passed.length < maxSyncIterations := by
  simp [computeActiveHead, stateAt, bind_eq_ok, activeHeadWithin_eq_ok]

theorem informed_eq_ok
    : tka.informed crypto encoded committedAt = .ok next
      ↔ ∃ candidate, absorbAll crypto committedAt tka encoded = .ok candidate
        ∧ ∃ head state, candidate.computeActiveHead crypto = .ok (head, state)
          ∧ next = { candidate with head := head, state := state } := by
  simp only [informed, bind_eq_ok, Prod.exists]
  refine exists_congr fun candidate => and_congr_right fun _ => exists_congr fun head =>
    exists_congr fun state => and_congr_right fun _ => ?_
  exact ⟨fun he => by cases he; rfl, fun he => by rw [he]; rfl⟩

/-- A well-formed store, and a head and a state that the walk over it ends with. -/
structure AuthorityValid (primitives : TkaPrimitives) (authority : TailscaleTkaAuthority)
    : Prop where
  store : StoreValid primitives authority.aums authority.oldest
  active : ∃ rootState passed, HasState primitives authority.aums authority.oldest rootState
    ∧ Active primitives authority.aums authority.oldest rootState passed authority.head
      authority.state
    ∧ passed.length < maxSyncIterations

/-- The oldest update is a genesis. -/
def FromGenesis (aums : AumStore) (oldest : TailscaleAumHash) : Prop :=
  ∃ root, aums.get? oldest = some root ∧ root.previous = none

variable {candidate : TailscaleTkaAuthority} {bytes : List UInt8} {now : SystemTime}

/-- What absorbing one update preserves holds after a batch. -/
theorem absorbAll_induction {motive : TailscaleTkaAuthority → Prop}
    (ha : absorbAll crypto committedAt candidate encoded = .ok next) (start : motive candidate)
    (step : ∀ {before bytes after}, motive before →
      absorb crypto committedAt before bytes = .ok after → motive after)
    : motive next := by
  induction encoded generalizing candidate with
  | nil =>
    cases ha
    exact start
  | cons bytes _ ih =>
    obtain ⟨_, first, others⟩ := bind_eq_ok.mp ha
    exact ih others (step start first)

section

variable (hsv : StoreValid crypto candidate.aums candidate.oldest)
include hsv

variable (hgen : FromGenesis candidate.aums candidate.oldest)
include hgen

theorem absorb_valid (ha : absorb crypto committedAt candidate bytes = .ok next)
    : StoreValid crypto next.aums next.oldest ∧ FromGenesis next.aums next.oldest := by
  obtain ⟨_, hd, ⟨-, rfl⟩ | ⟨hn, hv, rfl⟩⟩ := absorb_eq_ok.mp ha
  · exact ⟨hsv, hgen⟩
  · obtain ⟨root, hs, first⟩ := hgen
    refine ⟨extend_valid hsv hd hn hv ?_, root, extends_insert hn hs, first⟩
    intro actual he
    rw [hs] at he
    cases he
    simp [first]

theorem absorbAll_valid (ha : absorbAll crypto committedAt candidate encoded = .ok next)
    : StoreValid crypto next.aums next.oldest ∧ FromGenesis next.aums next.oldest :=
  absorbAll_induction ha ⟨hsv, hgen⟩ fun before => absorb_valid before.1 before.2

end

/-- The authority that starts with one checkpoint. -/
def TailscaleTkaAuthority.single (hash : TailscaleAumHash) (aum : TailscaleAum)
    (checkpoint : TailscaleTkaAuthorityState) (committedAt : SystemTime)
    : TailscaleTkaAuthority where
  aums := empty.insert hash aum
  commitTimes := empty.insert hash committedAt
  oldest := hash
  head := hash
  state := { checkpoint with lastAumHash := some hash }

theorem get?_single {root rootHash}
    : (single rootHash root checkpoint committedAt).aums.get? hash = some aum
      ↔ hash = rootHash ∧ aum = root := by
  rw [single, get?_insert]
  split
  · simp [*, eq_comm]
  · simp [*]

theorem bootstrap_eq_ok
    : bootstrap crypto bytes now = .ok tka
      ↔ ∃ aum checkpoint, decode crypto bytes = .ok aum
        ∧ aum.kind = kindCheckpoint ∧ aum.previous = none ∧ aum.state = some checkpoint
        ∧ verifyAumSignatures crypto aum checkpoint = .ok ()
        ∧ tka = .single (aum.hash crypto) aum checkpoint now := by
  simp only [bootstrap, bind_eq_ok, invalid, guard_eq_ok, not_or, not_not,
    Option.not_isSome_iff_eq_none]
  refine exists_congr fun aum => ?_
  cases held : aum.state with
  | none => simp
  | some checkpoint =>
    constructor
    · rintro ⟨hd, ⟨kind, first⟩, result⟩
      obtain ⟨signed, he⟩ := check_eq_ok.mp result
      cases he
      exact ⟨checkpoint, hd, kind, first, rfl, signed, rfl⟩
    · rintro ⟨_, hd, kind, first, ⟨⟩, signed, rfl⟩
      exact ⟨hd, ⟨kind, first⟩, check_eq_ok.mpr ⟨signed, rfl⟩⟩

theorem single_valid (decodes : decode crypto aum.encode = .ok aum)
    (kind : aum.kind = kindCheckpoint) (held : aum.state = some checkpoint)
    (ho : aum.previous ≠ some (aum.hash crypto)) (now)
    : AuthorityValid crypto (.single (aum.hash crypto) aum checkpoint now) := by
  have root : (single (aum.hash crypto) aum checkpoint now).aums.get? (aum.hash crypto)
      = some aum :=
    get?_single.mpr ⟨rfl, rfl⟩
  refine ⟨⟨?_, ?_, ⟨aum, root, kind, ?_⟩, ?_⟩, _, [],
    ⟨1, stateAtWithin_checkpoint root kind held 0⟩, .leaf ?_, by decide⟩
  · intro hash value hs
    obtain ⟨rfl, rfl⟩ := get?_single.mp hs
    rfl
  · intro hash value hs
    obtain ⟨rfl, rfl⟩ := get?_single.mp hs
    exact decodes
  · intro parent ha
    refine Option.eq_none_iff_forall_not_mem.mpr fun value hs => ?_
    obtain ⟨rfl, -⟩ := get?_single.mp hs
    exact ho ha
  · intro hash value hs hr
    exact absurd (get?_single.mp hs).1 hr
  · refine preferredChild_eq_none_iff.mpr fun hash value hs hpr => ?_
    obtain ⟨rfl, rfl⟩ := get?_single.mp hs
    exact ho hpr

theorem bootstrap_valid (hs : bootstrap crypto bytes now = .ok tka)
    : AuthorityValid crypto tka ∧ FromGenesis tka.aums tka.oldest := by
  obtain ⟨aum, _, hd, kind, first, held, -, rfl⟩ := bootstrap_eq_ok.mp hs
  have decodes : decode crypto aum.encode = .ok aum := by
    rw [(decode_eq_ok hd).1]
    exact hd
  exact ⟨single_valid decodes kind held (by simp [first]) now, aum,
    get?_single.mpr ⟨rfl, rfl⟩, first⟩

/-- Any sequence of batches, whether they are accepted or not. -/
def TailscaleTkaAuthority.informs (primitives : TkaPrimitives) (authority : TailscaleTkaAuthority)
    (batches : List (List (List UInt8) × SystemTime)) : TailscaleTkaAuthority :=
  batches.foldl (fun authority batch => (authority.informAt primitives batch.1 batch.2).2) authority

theorem informs_valid (hsv : AuthorityValid crypto tka)
    (hgen : FromGenesis tka.aums tka.oldest) (batches)
    : AuthorityValid crypto (tka.informs crypto batches)
      ∧ FromGenesis (tka.informs crypto batches).aums
        (tka.informs crypto batches).oldest := by
  induction batches generalizing tka with
  | nil => exact ⟨hsv, hgen⟩
  | cons batch _ ih =>
    simp only [informs, List.foldl_cons, informAt]
    cases outcome : tka.informed crypto batch.1 batch.2 with
    | ok _ =>
      obtain ⟨_, ha, _, _, hc, rfl⟩ := informed_eq_ok.mp outcome
      obtain ⟨store, hgen⟩ := absorbAll_valid hsv.store hgen ha
      obtain ⟨rootState, hk, passed, active⟩ := computeActiveHead_eq_ok.mp hc
      exact ih ⟨store, rootState, passed, ⟨_, hk⟩, active⟩ hgen
    | error error => exact ih hsv hgen

theorem absorbAll_oldest (ha : absorbAll crypto committedAt candidate encoded = .ok next)
    : next.oldest = candidate.oldest := by
  refine absorbAll_induction (motive := (·.oldest = candidate.oldest)) ha rfl fun he first => ?_
  obtain ⟨_, -, ⟨-, rfl⟩ | ⟨-, -, rfl⟩⟩ := absorb_eq_ok.mp first
  · exact he
  · exact he

theorem informAt_oldest
    : (tka.informAt crypto encoded committedAt).2.oldest = tka.oldest := by
  unfold informAt
  cases outcome : tka.informed crypto encoded committedAt with
  | error error => rfl
  | ok _ =>
    obtain ⟨_, ha, _, _, -, rfl⟩ := informed_eq_ok.mp outcome
    exact (absorbAll_oldest ha :)

theorem informs_oldest (batches)
    : (tka.informs crypto batches).oldest = tka.oldest := by
  induction batches generalizing tka with
  | nil => rfl
  | cons _ _ ih => exact ih.trans informAt_oldest

end Batches

/-- An authority that a genesis grows into by any batches. -/
def GrownFrom (primitives : TkaPrimitives) (genesis : List UInt8)
    (authority : TailscaleTkaAuthority) : Prop :=
  ∃ now start batches, bootstrap primitives genesis now = .ok start
    ∧ authority = start.informs primitives batches

theorem GrownFrom.valid {hgen tka} (hg : GrownFrom crypto hgen tka)
    : AuthorityValid crypto tka ∧ FromGenesis tka.aums tka.oldest := by
  obtain ⟨_, _, batches, hs, rfl⟩ := hg
  obtain ⟨hsv, first⟩ := bootstrap_valid hs
  exact informs_valid hsv first batches

end Zay.Tailscale
