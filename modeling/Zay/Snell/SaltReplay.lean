import Mathlib.Logic.Function.Basic

/-! The filter against replayed salts. Two Bloom filters take turns: the one in use is filled
by a generation of salts, and the other is cleared when its turn comes again. The hash is left
open.
-/

namespace Zay.Snell

open List Option Function

abbrev Salt := List UInt8

/-- A hash of a salt for a seed, in the place of `murmur_hash`. -/
abbrev SaltHash := Salt → UInt32 → UInt32

def saltReplayGenerationSize : Nat := 500000

def murmurDefaultSeed : UInt32 := 0x9747b28c

structure SaltReplayBloom where
  bits : List UInt8 := []
  bitCount : UInt32 := 0
  hashCount : Nat := 0

def marked (bits : List UInt8) (index : UInt32) : Bool :=
  bits.getD (index >>> 3).toNat 0 &&& (1 <<< (index &&& 7).toUInt8) ≠ 0

def mark (bits : List UInt8) (index : UInt32) : List UInt8 :=
  bits.modify (index >>> 3).toNat (· ||| (1 <<< (index &&& 7).toUInt8))

/-- The values that the loops go through. -/
def probes (step : UInt32) : (rounds : Nat) → (value : UInt32) → List UInt32
  | 0, _ => []
  | rounds + 1, value => value :: probes step rounds (value + step)

namespace SaltReplayBloom

/-- The counts are those for 500000 entries and a rate of false positives of 1e-10. -/
def initial : SaltReplayBloom where
  bits := List.replicate 2995331 0
  bitCount := 23962645
  hashCount := 34

variable (hash : SaltHash) (bloom : SaltReplayBloom)

def indices (data : Salt) : List UInt32 :=
  let first := hash data murmurDefaultSeed
  (probes (hash data first) bloom.hashCount first).map (· % bloom.bitCount)

def contains (data : Salt) : Bool := (bloom.indices hash data).all (marked bloom.bits)

def add (data : Salt) : SaltReplayBloom :=
  { bloom with bits := (bloom.indices hash data).foldl mark bloom.bits }

def clear : SaltReplayBloom :=
  { bloom with bits := bloom.bits.map fun _ => 0 }

end SaltReplayBloom

/-- The two filters are numbered by `false` and `true`. -/
structure SaltReplayState where
  current : Bool := false
  counts : Bool → Nat := fun _ => 0
  filters : Bool → SaltReplayBloom := fun _ => {}

namespace SaltReplayState

variable (hash : SaltHash) (state : SaltReplayState)

def initialized : SaltReplayState :=
  if (state.filters false).bits.isEmpty then { state with filters := fun _ => .initial }
  else state

/-- The part of `check_and_add` for a salt that neither filter contains. -/
def enter (salt : Salt) : SaltReplayState :=
  let filters := update state.filters state.current
    ((state.filters state.current).add hash salt)
  let count := state.counts state.current + 1
  if count ≥ saltReplayGenerationSize then
    { current := !state.current
      counts := update state.counts state.current 0
      filters := update filters (!state.current) (filters !state.current).clear }
  else { state with counts := update state.counts state.current count, filters }

def checkAndAdd (salt : Salt) : Bool × SaltReplayState :=
  let state := state.initialized
  if (state.filters false).contains hash salt || (state.filters true).contains hash salt then
    (true, state)
  else (false, state.enter hash salt)

def run (salts : List Salt) : SaltReplayState :=
  salts.foldl (fun state salt => (state.checkAndAdd hash salt).2) state

/-- The number of the salts that are newly added. -/
def added : SaltReplayState → List Salt → Nat
  | _, [] => 0
  | state, salt :: rest =>
    (if (state.checkAndAdd hash salt).1 then 0 else 1)
      + added (state.checkAndAdd hash salt).2 rest

end SaltReplayState

--------
-- The filters
--------

theorem mask_ne_zero (bit : UInt8) : (1 : UInt8) <<< bit ≠ 0 := by
  have hs : ∀ bit < 8, 1 <<< bit % 256 ≠ 0 := by decide
  intro zero
  exact hs (bit.toNat % 8) (Nat.mod_lt _ (by decide))
    (by simpa using congrArg UInt8.toNat zero)

theorem or_and_eq_zero {byte other mask : UInt8}
    : (byte ||| other) &&& mask = 0 ↔ byte &&& mask = 0 ∧ other &&& mask = 0 := by
  simp [← UInt8.toNat_inj, Nat.and_or_distrib_right]

variable {bits : List UInt8} {index : UInt32}

theorem marked_mark_self (hi : (index >>> 3).toNat < bits.length)
    : marked (mark bits index) index := by
  simp only [marked, mark, decide_eq_true_iff, getD_eq_getElem?_getD, getElem?_modify,
    getElem?_eq_getElem hi, Option.map_eq_map, map_some, getD_some, if_true,
    ne_eq, or_and_eq_zero, UInt8.and_self]
  exact fun zero => mask_ne_zero _ zero.2

theorem marked_mark (other : UInt32) (hk : marked bits index)
    : marked (mark bits other) index := by
  simp only [marked, mark, decide_eq_true_iff, getD_eq_getElem?_getD, getElem?_modify] at hk ⊢
  generalize bits[(index >>> 3).toNat]? = found at hk ⊢
  cases found with
  | none => exact hk
  | some _ =>
    rw [Option.map_eq_map, map_some, getD_some]
    split
    · exact fun zero => hk (or_and_eq_zero.mp zero).1
    · exact hk

variable (indices : List UInt32)

theorem length_foldl_mark (bits) : (indices.foldl mark bits).length = bits.length := by
  induction indices generalizing bits with
  | nil => rfl
  | cons _ indices ih => rw [foldl_cons, ih, mark, length_modify]

theorem marked_foldl (hk : marked bits index) : marked (indices.foldl mark bits) index :=
  foldlRecOn (motive := (marked · index)) indices _ hk fun _ hk other _ =>
    marked_mark other hk

theorem all_marked_foldl {indices : List UInt32}
    (hi : ∀ index ∈ indices, (index >>> 3).toNat < bits.length)
    : ∀ index ∈ indices, marked (indices.foldl mark bits) index := by
  induction indices generalizing bits with
  | nil => simp
  | cons _ indices ih =>
    rw [forall_mem_cons] at hi ⊢
    refine ⟨marked_foldl indices (marked_mark_self hi.1), ih ?_⟩
    rw [mark, length_modify]
    exact hi.2

namespace SaltReplayBloom

variable {hash : SaltHash} {bloom : SaltReplayBloom} {data : Salt}

/-- There is a bit for every index. -/
def Sized (bloom : SaltReplayBloom) : Prop :=
  0 < bloom.bitCount.toNat ∧ bloom.bitCount.toNat ≤ 8 * bloom.bits.length

theorem sized_initial : initial.Sized := by
  have length : initial.bits.length = 2995331 := length_replicate
  rw [Sized, length]
  decide

theorem Sized.add (sized : bloom.Sized) : (bloom.add hash data).Sized :=
  ⟨sized.1, by rw [SaltReplayBloom.add, length_foldl_mark]; exact sized.2⟩

theorem Sized.clear (sized : bloom.Sized) : bloom.clear.Sized :=
  ⟨sized.1, by rw [SaltReplayBloom.clear, length_map]; exact sized.2⟩

theorem contains_add_self (sized : bloom.Sized) : (bloom.add hash data).contains hash data := by
  refine all_eq_true.mpr (all_marked_foldl fun _ hm => ?_)
  obtain ⟨value, -, rfl⟩ := mem_map.mp hm
  have hs : (value % bloom.bitCount).toNat < 8 * bloom.bits.length :=
    Nat.lt_of_lt_of_le (Nat.mod_lt _ sized.1) sized.2
  change ((value % bloom.bitCount) >>> 3).toNat < _
  rw [UInt32.toNat_shiftRight, Nat.shiftRight_eq_div_pow]
  exact Nat.div_lt_of_lt_mul hs

theorem contains_add (other : Salt) (hk : bloom.contains hash data)
    : (bloom.add hash other).contains hash data := by
  rw [contains, List.all_eq_true] at hk ⊢
  exact fun index hm => marked_foldl _ (hk index hm)

end SaltReplayBloom

--------
-- Generations
--------

namespace SaltReplayState

variable {hash : SaltHash} {state : SaltReplayState} {salt : Salt} {since : Nat}

/-- Both filters have their size, and the one that is not in use has no count. -/
structure Valid (state : SaltReplayState) : Prop where
  sized : ∀ filter, (state.filters filter).Sized
  idle : state.counts (!state.current) = 0

/-- A filter holds the salt. If its turn is over, what the other has taken up was added since. -/
def Holds (hash : SaltHash) (salt : Salt) (since : Nat) (state : SaltReplayState) : Prop :=
  ∃ filter, (state.filters filter).contains hash salt
    ∧ (filter = state.current ∨ state.counts state.current ≤ since)

theorem Valid.initialized_eq (hv : state.Valid) : state.initialized = state := by
  have sized := hv.sized false
  rw [initialized, if_neg]
  intro empty
  rw [SaltReplayBloom.Sized, isEmpty_iff.mp empty] at sized
  exact absurd sized.1 (Nat.not_lt.mpr sized.2)

theorem filters_enter_own (hash) (state : SaltReplayState) (salt : Salt)
    : (state.enter hash salt).filters state.current
      = (state.filters state.current).add hash salt := by
  unfold enter
  dsimp only
  split <;> simp

/-- The generation goes on, or the other filter is cleared and used from now on. -/
theorem enter_cases (hash) (state : SaltReplayState) (salt : Salt)
    : (state.enter hash salt).current = state.current
        ∧ (state.enter hash salt).counts state.current = state.counts state.current + 1
        ∧ (state.enter hash salt).counts (!state.current) = state.counts (!state.current)
        ∧ (state.enter hash salt).filters (!state.current) = state.filters (!state.current)
      ∨ saltReplayGenerationSize ≤ state.counts state.current + 1
        ∧ (state.enter hash salt).current = (!state.current)
        ∧ (state.enter hash salt).counts state.current = 0
        ∧ (state.enter hash salt).counts (!state.current) = state.counts (!state.current)
        ∧ (state.enter hash salt).filters (!state.current)
          = (state.filters (!state.current)).clear := by
  unfold enter
  dsimp only
  split
  next full => exact .inr ⟨full, by simp⟩
  · exact .inl (by simp)

theorem forall_filter {P : Bool → Prop} (state : SaltReplayState) (own : P state.current)
    (other : P (!state.current)) (filter : Bool)
    : P filter := by
  cases current : state.current <;> cases filter <;> simp_all

theorem Valid.enter (hv : state.Valid) : (state.enter hash salt).Valid := by
  have own := filters_enter_own hash state salt ▸ (hv.sized state.current).add
  rcases enter_cases hash state salt with
    ⟨current, -, idle, other⟩ | ⟨-, current, idle, -, other⟩
  · refine ⟨state.forall_filter own (other ▸ hv.sized _), ?_⟩
    rw [current, idle]
    exact hv.idle
  refine ⟨state.forall_filter own (other ▸ (hv.sized _).clear), ?_⟩
  rw [current, Bool.not_not]
  exact idle

theorem Valid.holds_enter (hash) (salt : Salt) (hv : state.Valid)
    : Holds hash salt 0 (state.enter hash salt) := by
  refine ⟨state.current, ?_, ?_⟩
  · rw [filters_enter_own]
    exact SaltReplayBloom.contains_add_self (hv.sized _)
  · rcases enter_cases hash state salt with ⟨current, -⟩ | ⟨-, current, -, idle, -⟩
    · exact .inl current.symm
    refine .inr (Nat.le_of_eq ?_)
    rw [current, idle, hv.idle]

theorem Holds.enter (hh : Holds hash salt since state) (hv : state.Valid) (other : Salt)
    (few : since + 1 < saltReplayGenerationSize)
    : Holds hash salt (since + 1) (state.enter hash other) := by
  obtain ⟨filter, contains, turn⟩ := hh
  refine ⟨filter, ?_⟩
  by_cases own : filter = state.current
  · subst own
    rw [filters_enter_own]
    refine ⟨SaltReplayBloom.contains_add other contains, ?_⟩
    rcases enter_cases hash state other with ⟨current, -⟩ | ⟨-, current, -, idle, -⟩
    · exact .inl current.symm
    rw [current, idle, hv.idle]
    exact .inr (Nat.zero_le _)
  · have count := turn.resolve_left own
    obtain rfl : filter = !state.current := Bool.eq_not.mpr own
    rcases enter_cases hash state other with ⟨current, hc, -, he⟩ | ⟨full, -⟩
    · rw [he, current, hc]
      exact ⟨contains, .inr (Nat.succ_le_succ count)⟩
    · omega

theorem Holds.known (hh : Holds hash salt since state) (hv : state.Valid)
    : (state.checkAndAdd hash salt).1 := by
  obtain ⟨filter, contains, -⟩ := hh
  rw [checkAndAdd, hv.initialized_eq]
  cases filter <;> simp [contains]

/-- A known salt changes nothing, a new one is entered. -/
theorem checkAndAdd_cases (hash) (state : SaltReplayState) (salt : Salt)
    : state.checkAndAdd hash salt = (true, state.initialized)
      ∨ state.checkAndAdd hash salt = (false, state.initialized.enter hash salt) := by
  unfold checkAndAdd
  dsimp only
  split
  · exact .inl rfl
  · exact .inr rfl

/-- The salt stays in a filter while fewer than a generation of others are added. -/
theorem Holds.run (hh : Holds hash salt since state) (hv : state.Valid) {salts}
    (few : since + added hash state salts < saltReplayGenerationSize)
    : ((state.run hash salts).checkAndAdd hash salt).1 := by
  induction salts generalizing state since with
  | nil => exact hh.known hv
  | cons other salts ih =>
    rw [added] at few
    rw [SaltReplayState.run, foldl_cons]
    have cases := checkAndAdd_cases hash state other
    rw [hv.initialized_eq] at cases
    rcases cases with hc | hc
    · rw [hc] at few ⊢
      exact ih hh hv (by simpa using few)
    rw [hc, if_neg Bool.false_ne_true] at few
    rw [hc]
    exact ih (hh.enter hv other (by omega)) hv.enter (by omega)

theorem valid_initialized : (initialized {}).Valid :=
  ⟨fun _ => SaltReplayBloom.sized_initial, rfl⟩

theorem Valid.run (hash salts) (hv : state.initialized.Valid)
    : (state.run hash salts).initialized.Valid := by
  induction salts generalizing state with
  | nil => exact hv
  | cons salt salts ih =>
    rw [SaltReplayState.run, foldl_cons]
    rcases checkAndAdd_cases hash state salt with hc | hc
    · rw [hc]
      exact ih (hv.initialized_eq.symm ▸ hv)
    rw [hc]
    exact ih (hv.enter.initialized_eq.symm ▸ hv.enter)

end SaltReplayState

open SaltReplayState in
/-- A new salt is found again while fewer than a generation of others are added after it. -/
theorem salt_replay_remembered (hash : SaltHash) (before later : List Salt) (salt : Salt)
    (fresh : ((run hash {} before).checkAndAdd hash salt).1 = false)
    (few : added hash (run hash {} (before ++ [salt])) later < saltReplayGenerationSize)
    : ((run hash {} (before ++ salt :: later)).checkAndAdd hash salt).1 := by
  have valid := valid_initialized.run hash before
  rcases checkAndAdd_cases hash (run hash {} before) salt with checked | checked
  · rw [checked] at fresh
    contradiction
  have entered : run hash {} (before ++ [salt])
      = (run hash {} before).initialized.enter hash salt := by
    rw [run, foldl_append]
    exact congrArg Prod.snd checked
  rw [entered, ← Nat.zero_add (added ..)] at few
  have held := (valid.holds_enter hash salt).run valid.enter few
  rw [← entered, run, run, ← foldl_append, append_assoc] at held
  exact held

open SaltReplayState in
theorem salt_replay_remembered_once
    : ((run (fun data _ => data.length.toUInt32) {} [[], [1], [1, 2]]).checkAndAdd
      (fun data _ => data.length.toUInt32) [1]).1 :=
  salt_replay_remembered _ [[]] [[1, 2]] [1] (by decide +kernel) (by decide +kernel)

end Zay.Snell
