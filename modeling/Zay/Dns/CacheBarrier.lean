import Mathlib.Algebra.Ring.Nat
import Zay.Dns.ClientRun

/-! Clearing the DNS cache as a barrier: which interleavings keep responses of earlier
transport exchanges away from the calls that start after a clear.
-/

namespace Zay.Dns

open ClientWorld List Option Except

/-- The response of a completed exchange is not stored in the caches. -/
def unstored (result : IoResult Sourced) : Bool :=
  match result with
  | .error _ => true
  | .ok response => computeTimeToLive response.message = 0

namespace ClientWorld

/-- No call has returned a cached response whose transport exchange started before a clear
that the call itself started after.
-/
def Barrier (world : ClientWorld) : Prop :=
  ∀ item ∈ world.returned, item.fromCache = true → ∀ response, item.result = .ok response →
    item.started ≤ response.origin

/-- Before the step: a call that brings a persistent row into the cache, or a flight's owner
that stores its response, has seen no clear since it read the row or started its exchange;
a refresh has seen fewer clears than its epoch counter tells apart; and a clear reaches the
persistent cache.
-/
def unraced (world : ClientWorld) : ClientStep → Bool
  | .enter index _ =>
    match world.calls[index]? with
    | some call =>
      match call.phase with
      | .loaded key _ (some _) =>
        (world.state.cache.lookup key).isSome || call.started = world.clears
      | _ => true
    | none => true
  | .complete index result _ _ =>
    match world.calls[index]? with
    | some call =>
      match call.phase with
      | .owner _ _ origin =>
        unstored (uncachedResult call.overrides origin result)
          || origin = world.clears
      | _ => true
    | none => true
  | .finishRefresh index _ _ _ =>
    match world.refreshes[index]? with
    | some task => world.clears - task.spawned < 2 ^ 64
    | none => true
  | .clearCache cleared => !world.options.persistentCache || cleared
  | _ => true

/-- Every step of the run is free of races when it is taken. -/
def Unraced (world : ClientWorld) : List ClientStep → Prop
  | [] => True
  | step :: steps => world.unraced step = true ∧ (world.step step).Unraced steps

instance decidableUnraced
    : (world : ClientWorld) → (steps : List ClientStep) → Decidable (world.Unraced steps)
  | _, [] => isTrue trivial
  | world, step :: steps =>
    have := decidableUnraced (world.step step) steps
    inferInstanceAs (Decidable (_ ∧ _))

end ClientWorld

--------
-- Cached responses of one origin
--------

/-- All cached responses come from exchanges that started after `origin` clears. -/
def ClientState.Stamped (state : ClientState) (origin : Nat) : Prop :=
  ∀ key entry, state.cache.lookup key = some entry → entry.response.origin = origin

variable (cache : AList fun _ : CacheKey => CacheEntry) {entry : CacheEntry}

theorem lookup_insert_eq (key other entry)
    : (cache.insert key entry).lookup other
      = if other = key then some entry else cache.lookup other := by
  split
  next he =>
    rw [he, AList.lookup_insert]
  next hne =>
    exact AList.lookup_insert_ne hne

theorem lookup_erase_eq (key other)
    : (cache.erase key).lookup other
      = if other = key then none else cache.lookup other := by
  split
  next he =>
    rw [he, AList.lookup_erase]
  next hne =>
    exact AList.lookup_erase_ne hne

theorem lookup_of_erase {cache : AList fun _ : CacheKey => CacheEntry} {key other}
    (hk : (cache.erase key).lookup other = some entry)
    : cache.lookup other = some entry := by
  rw [lookup_erase_eq] at hk
  split at hk
  · cases hk
  · exact hk

variable {origin : Nat} {world : ClientWorld} {clock : Clock} {result : IoResult Message}
  {saved : Bool} {state : ClientState} (key : CacheKey) (options : ClientOptions)

namespace ClientState

variable (h : state.Stamped origin)
include h

theorem Stamped.insert (entry) (stamp : entry.response.origin = origin) {next : ClientState}
    (cache : next.cache = state.cache.insert key entry)
    : next.Stamped origin := by
  intro other hf hp
  rw [cache, lookup_insert_eq] at hp
  split at hp
  · exact some.inj hp ▸ stamp
  · exact h other hf hp

theorem Stamped.touch : (touch state key).Stamped origin := by
  unfold Zay.Dns.touch
  cases hp : state.cache.lookup key with
  | none =>
    simp only [hp]
    exact h
  | some entry =>
    simp only [hp]
    refine h.insert key { entry with generation := state.generation + 1 } ?_ rfl
    exact h key entry hp

theorem Stamped.admitPersistent {key entry}
    (stamp : ∀ found, entry = some found → state.cache.lookup key = none →
      found.response.origin = origin) (clock : Clock)
    : (admitPersistent state key entry clock).Stamped origin := by
  cases entry with
  | none => exact h
  | some found =>
    simp only [Zay.Dns.admitPersistent]
    split
    next hno =>
      exact h.insert _ _ (stamp found rfl hno) rfl
    · exact h

end ClientState

theorem loadCache_cacheEpoch (state key options allowOptimistic now)
    : (loadCache state key options allowOptimistic now).2.cacheEpoch = state.cacheEpoch := by
  unfold loadCache
  split
  · rfl
  simp only [touch]
  repeat' split
  all_goals rfl

/-- What `load_cache` finds carries the stamp, and so does what it leaves behind. -/
theorem ClientState.Stamped.loadCache (h : state.Stamped origin) (allowOptimistic now)
    : (loadCache state key options allowOptimistic now).2.Stamped origin
      ∧ ∀ response,
        (loadCache state key options allowOptimistic now).1 = .fresh response
          ∨ (loadCache state key options allowOptimistic now).1 = .stale response →
        response.origin = origin := by
  unfold Zay.Dns.loadCache
  cases hp : state.cache.lookup key with
  | none => exact ⟨h, by simp⟩
  | some entry =>
    have stamp := h key entry hp
    simp only
    repeat' split
    on_goal 4 =>
      refine ⟨fun other hf hk => h other hf ?_, by simp⟩
      exact lookup_of_erase hk
    all_goals
      refine ⟨h.touch key, ?_⟩
      rintro response (hf | hf) <;> cases hf
      exact stamp

theorem lookup_evict {capacity cache order key}
    (h : (evict capacity cache order).1.lookup key = some entry)
    : cache.lookup key = some entry := by
  fun_induction evict capacity cache order with
  | case1 => exact h
  | case2 => exact h
  | case3 cache candidate generation order full _ ih => exact lookup_of_erase (ih h)
  | case4 cache candidate generation order full _ ih => exact ih h

theorem ClientState.Stamped.insertCache (h : state.Stamped origin) {response}
    (stamp : response.origin = origin) (key ttl capacity now)
    : (insertCache state key response ttl capacity now).Stamped origin := by
  intro other hf hp
  have hk := lookup_evict hp
  rw [lookup_insert_eq] at hk
  split at hk
  · exact some.inj hk ▸ stamp
  · exact h other hf hk

namespace ClientWorld

structure Current (world : ClientWorld) : Prop where
  cache : world.state.Stamped world.clears
  rows
    : world.options.persistentCache = true → ∀ row entry, world.rows row = some entry →
      entry.response.origin = world.clears
  epoch : world.state.cacheEpoch.toNat = world.clears % 2 ^ 64
  started : ∀ call ∈ world.calls, call.started ≤ world.clears
  loaded
    : ∀ call ∈ world.calls, ∀ key row entry, call.phase = .loaded key row (some entry) →
      entry.response.origin = call.started
  spawned
    : ∀ task ∈ world.refreshes,
      task.spawned ≤ world.clears ∧ task.epoch.toNat = task.spawned % 2 ^ 64
  exchanging
    : ∀ task ∈ world.refreshes, ∀ origin, task.phase = .exchanging origin →
      task.spawned ≤ origin ∧ origin ≤ world.clears
  barrier : world.Barrier

theorem forall_mem_set {α : Type} {p : α → Prop} {items : List α} {index} {new : α}
    (all : ∀ item ∈ items, p item) (hh : p new)
    : ∀ item ∈ items.set index new, p item := by
  intro other hm
  rcases mem_or_eq_of_mem_set hm with he | rfl
  · exact all other he
  · exact hh

theorem clears_store (world : ClientWorld) (row result) (clock : Clock) (saved)
    : (world.store key row result clock saved).clears = world.clears := by
  cases result with
  | error error => rfl
  | ok _ =>
    simp only [store, savePersistent]
    repeat' split
    all_goals rfl

theorem clears_land (world : ClientWorld) (result)
    : (world.land key result).clears = world.clears := by
  refine foldlRecOn (motive := fun next : ClientWorld => next.clears = world.clears) _ _ rfl
    fun next he _ _ => ?_
  repeat' split
  all_goals exact he

/-- The response of an uncached exchange keeps the origin of its exchange. -/
theorem uncachedResult_origin {overrides response}
    (h : uncachedResult overrides origin result = .ok response)
    : response.origin = origin := by
  cases result with
  | error error => simp [uncachedResult, Except.map] at h
  | ok _ =>
    simp only [uncachedResult, Except.map, ok.injEq] at h
    rw [← h]

theorem current_start (rows) : (start options rows).Current where
  cache := by
    intro key entry hp
    simp [start, ClientState.default] at hp
  rows := by
    intro _ row entry hp
    obtain ⟨_, _, rfl⟩ := map_eq_some_iff.mp hp
    rfl
  epoch := rfl
  started := by simp [start]
  loaded := by simp [start]
  spawned := by simp [start]
  exchanging := by simp [start]
  barrier := by simp [start, ClientWorld.Barrier]

variable (h : world.Current)

include h

namespace Current

/-- A new state of the cache keeps the world current if its entries are. -/
theorem withState (state) (stamped : state.Stamped world.clears)
    (epoch : state.cacheEpoch = world.state.cacheEpoch)
    : Current { world with state } :=
  { h with cache := stamped, epoch := epoch ▸ h.epoch }

/-- A call may move to any phase that holds no persistent row. -/
theorem setCall (index call) (started : call.started ≤ world.clears)
    (unloaded : ∀ key row entry, call.phase ≠ .loaded key row (some entry))
    : Current { world with calls := world.calls.set index call } :=
  { h with
    started := forall_mem_set h.started started
    loaded := forall_mem_set h.loaded fun key row entry phase =>
      absurd phase (unloaded key row entry) }

variable (call : ExchangeCall) (key : CacheKey) (row : PersistentKey) (index : Nat)

theorem finish {call} (hs : call.started ≤ world.clears) {result fromCache}
    (hn : fromCache = true → ∀ response, result = .ok response →
      call.started ≤ response.origin)
    : (world.finish index call result fromCache).Current := by
  have hm := h.setCall index { call with phase := .done } hs (by simp)
  exact { hm with
    barrier := forall_mem_append.mpr ⟨h.barrier, forall_mem_singleton.mpr hn⟩ }

theorem notify (result waiters) : (world.notify result waiters).Current := by
  refine foldlRecOn waiters _ h fun world h waiter _ => ?_
  cases hf : world.calls[waiter]? with
  | none => exact h
  | some call =>
    simp only
    split
    · exact h.finish waiter (h.started call (mem_of_getElem? hf)) (by simp)
    · exact h

theorem land (result) : (world.land key result).Current := by
  have he := h.withState { world.state with flights := world.state.flights.erase key } h.cache rfl
  exact he.notify _ _

/-- Storing a response of the current origin keeps both caches current. -/
theorem store {result} (current : unstored result = false → ∀ response, result = .ok response →
      response.origin = world.clears) (clock : Clock) (saved : Bool)
    : (world.store key row result clock saved).Current := by
  cases result with
  | error error => exact h
  | ok response =>
    unfold ClientWorld.store
    simp only
    split
    next hpos =>
      have stored : unstored (.ok response) = false := by
        refine decide_eq_false fun zero => ?_
        rw [zero] at hpos
        exact absurd hpos (by decide)
      have stamp := current stored response rfl
      have inserted := h.withState _
        (h.cache.insertCache stamp key (computeTimeToLive response.message)
          world.options.cacheCapacity clock.now) rfl
      unfold savePersistent
      split
      · refine { inserted with rows := fun enabled other entry hp => ?_ }
        simp only [Function.update_apply] at hp
        split at hp
        · exact some.inj hp ▸ stamp
        · exact h.rows enabled other entry hp
      · exact inserted
    · exact h

--------
-- Steps
--------

theorem begin (transport request overrides owned loads)
    : (world.begin transport request overrides owned loads).Current := by
  refine { h with
    started := forall_mem_append.mpr ⟨h.started, forall_mem_singleton.mpr le_rfl⟩
    loaded := forall_mem_append.mpr ⟨h.loaded, forall_mem_singleton.mpr ?_⟩ }
  intro key row entry phase
  split at phase
  · simp at phase
  split at phase
  · simp at phase
  split at phase
  next reads =>
    obtain ⟨-, rfl, hp⟩ := CallPhase.loaded.inj phase
    exact h.rows reads.1 _ entry hp
  · simp at phase

theorem spawnRefresh : (world.spawnRefresh call key row).Current := by
  unfold ClientWorld.spawnRefresh
  split
  · have new : ∀ origin, RefreshPhase.spawned = .exchanging origin →
        world.clears ≤ origin ∧ origin ≤ world.clears := by simp
    exact { h with
      spawned :=
        forall_mem_append.mpr ⟨h.spawned, forall_mem_singleton.mpr ⟨le_rfl, h.epoch⟩⟩
      exchanging := forall_mem_append.mpr ⟨h.exchanging, forall_mem_singleton.mpr new⟩ }
  · exact h

theorem fly {call} (hs : call.started ≤ world.clears) (key row)
    : (world.fly index call key row).Current := by
  unfold ClientWorld.fly
  split
  next waiters _ =>
    have hj := h.withState { world.state with
      flights := world.state.flights.insert key (waiters ++ [index]) } h.cache rfl
    exact hj.setCall index { call with phase := .waiting } hs (by simp)
  have owned := h.withState { world.state with
    flights := world.state.flights.insert key [] } h.cache rfl
  exact owned.setCall index { call with phase := .owner key row world.clears } hs (by simp)

theorem enter {index} (unraced : world.unraced (.enter index clock) = true)
    : (world.enter index clock).Current := by
  unfold ClientWorld.enter
  cases hf : world.calls[index]? with
  | none => exact h
  | some call =>
    have hm := mem_of_getElem? hf
    have hs := h.started call hm
    simp only [ClientWorld.unraced, hf] at unraced
    cases phase : call.phase with
    | loaded key row entry =>
      simp only [phase]
      have ha : (admitPersistent world.state key entry clock).Stamped world.clears := by
        refine h.cache.admitPersistent (fun row' hp hno => ?_) clock
        subst hp
        rw [h.loaded call hm key row row' phase]
        simpa [phase, hno] using unraced
      obtain ⟨stamped, origin⟩ := ha.loadCache key world.options
        (!call.overrides.disableOptimisticCache) clock.now
      have epoch : (loadCache (admitPersistent world.state key entry clock) key
          world.options (!call.overrides.disableOptimisticCache) clock.now).2.cacheEpoch
          = world.state.cacheEpoch := by
        rw [loadCache_cacheEpoch]
        unfold admitPersistent
        split
        · split <;> rfl
        · rfl
      have read := h.withState _ stamped epoch
      split
      next response hit =>
        refine read.finish index hs fun _ hr he => ?_
        rw [← ok.inj he]
        exact hs.trans_eq (origin response (.inl hit)).symm
      next response hit =>
        have spawned := read.spawnRefresh call key row
        refine spawned.finish index ?_ fun _ hr he => ?_
        · unfold ClientWorld.spawnRefresh
          split <;> exact hs
        · rw [← ok.inj he]
          exact hs.trans_eq (origin response (.inr hit)).symm
      · exact read.fly index hs key row
    | _ => simpa only [phase] using h

theorem complete {index} (unraced : world.unraced (.complete index result clock saved) = true)
    : (world.complete index result clock saved).Current := by
  unfold ClientWorld.complete
  cases hf : world.calls[index]? with
  | none => exact h
  | some call =>
    have hs := h.started call (mem_of_getElem? hf)
    simp only [ClientWorld.unraced, hf] at unraced
    cases phase : call.phase with
    | owner key row origin =>
      simp only [phase, Bool.or_eq_true, decide_eq_true_eq] at unraced ⊢
      have current : unstored (uncachedResult call.overrides origin result) = false →
          ∀ response, uncachedResult call.overrides origin result = .ok response →
          response.origin = world.clears := by
        intro stored response he
        rcases unraced with idle | current
        · rw [stored] at idle
          simp at idle
        · rw [uncachedResult_origin he, current]
      have stored := h.store key row current clock saved
      refine (stored.land key _).finish index ?_ (by simp)
      rw [ClientWorld.clears_land, ClientWorld.clears_store]
      exact hs
    | uncached origin =>
      simp only [phase]
      exact h.finish index hs (by simp)
    | _ => simpa only [phase] using h

theorem cancel : (world.cancel index).Current := by
  unfold ClientWorld.cancel
  cases hf : world.calls[index]? with
  | none => exact h
  | some call =>
    have hs := h.started call (mem_of_getElem? hf)
    have hd := h.setCall index { call with phase := .done } hs (by simp)
    cases phase : call.phase with
    | owner key _ origin => simpa only [phase] using hd.land key _
    | uncached origin => simpa only [phase] using hd
    | waiting => simpa only [phase] using hd
    | _ => simpa only [phase] using h

/-- A refresh may move to any phase that keeps its exchange between its spawn and now. -/
theorem setRefresh {index task} (hf : world.refreshes[index]? = some task) (phase)
    (exchanging : ∀ origin, phase = .exchanging origin →
      task.spawned ≤ origin ∧ origin ≤ world.clears)
    : Current { world with
        refreshes := world.refreshes.set index { task with phase } } :=
  { h with
    spawned := forall_mem_set h.spawned (h.spawned task (mem_of_getElem? hf))
    exchanging := forall_mem_set h.exchanging exchanging }

theorem startRefresh : (world.startRefresh index).Current := by
  unfold ClientWorld.startRefresh
  cases hf : world.refreshes[index]? with
  | none => exact h
  | some task =>
    have spawned := (h.spawned task (mem_of_getElem? hf)).1
    simp only
    split
    · refine h.setRefresh hf _ fun _ he => ?_
      rw [← RefreshPhase.exchanging.inj he]
      exact ⟨spawned, le_refl _⟩
    · exact h

theorem finishRefresh {index}
    (unraced : world.unraced (.finishRefresh index result clock saved) = true)
    : (world.finishRefresh index result clock saved).Current := by
  unfold ClientWorld.finishRefresh
  cases hf : world.refreshes[index]? with
  | none => exact h
  | some task =>
    have hm := mem_of_getElem? hf
    simp only [ClientWorld.unraced, hf, decide_eq_true_eq] at unraced
    cases phase : task.phase with
    | exchanging origin =>
      have finished := h.setRefresh hf .done (by simp)
      have ended := finished.withState { world.state with
        backgroundRefresh := world.state.backgroundRefresh.erase task.key } h.cache rfl
      simp only [phase]
      split
      · exact ended
      next epoch =>
        refine ended.store task.key task.row (fun _ response he => ?_) clock saved
        -- With fewer clears than the epoch counter tells apart, equal epochs mean that there
        -- was no clear since the refresh was spawned.
        obtain ⟨spawned, stamp⟩ := h.spawned task hm
        have current := h.epoch
        obtain ⟨after, hb⟩ := h.exchanging task hm origin phase
        rw [uncachedResult_origin he]
        rw [not_not.mp epoch, stamp] at current
        show origin = world.clears
        omega
    | _ => simpa only [phase] using h

theorem clearCache {cleared} (unraced : world.unraced (.clearCache cleared) = true)
    : (world.clearCache cleared).Current where
  cache := by
    intro key entry hp
    simp [ClientWorld.clearCache, clearState] at hp
  rows := by
    intro enabled row entry hp
    have reached : world.options.persistentCache ∧ cleared := by
      refine ⟨enabled, ?_⟩
      have enabled : world.options.persistentCache = true := enabled
      simpa [ClientWorld.unraced, enabled] using unraced
    simp [ClientWorld.clearCache, reached] at hp
  epoch := by
    have epoch := h.epoch
    show (world.state.cacheEpoch + 1).toNat = (world.clears + 1) % 2 ^ 64
    rw [UInt64.toNat_add, epoch]
    exact Nat.mod_add_mod world.clears (2 ^ 64) 1
  started := fun call hm => Nat.le_succ_of_le (h.started call hm)
  loaded := h.loaded
  spawned := fun task hm =>
    ⟨Nat.le_succ_of_le (h.spawned task hm).1, (h.spawned task hm).2⟩
  exchanging := by
    intro task hm origin phase
    obtain ⟨after, hb⟩ := h.exchanging task hm origin phase
    exact ⟨after, Nat.le_succ_of_le hb⟩
  barrier := h.barrier

theorem step {step} (unraced : world.unraced step = true) : (world.step step).Current := by
  cases step with
  | begin transport request overrides owned loads =>
    exact h.begin transport request overrides owned loads
  | enter index clock => exact h.enter unraced
  | complete index result clock saved => exact h.complete unraced
  | cancel index => exact h.cancel index
  | startRefresh index => exact h.startRefresh index
  | finishRefresh index result clock saved => exact h.finishRefresh unraced
  | clearCache _ => exact h.clearCache unraced

theorem run {steps} (unraced : world.Unraced steps) : (world.run steps).Current := by
  induction steps generalizing world with
  | nil => exact h
  | cons _ steps ih => exact ih (h.step unraced.1) unraced.2

end Current

end ClientWorld

/-- In a run without races a clear is a barrier: from any persistent cache, no call is
answered from a cache with the response of an exchange that a clear before the call had
outdated.
-/
theorem clearCache_barrier_of_unraced (options : ClientOptions)
    (rows : PersistentKey → Option (Message × Nat)) (steps : List ClientStep)
    (unraced : (start options rows).Unraced steps)
    : ((start options rows).run steps).Barrier :=
  ((current_start options rows).run unraced).barrier

/-- An address query as one process sends it again and again. -/
def addressRequest : Message :=
  { Message.new 1 .query 0 with queries := [{ name := "a.", queryType := .a }] }

def addressResponse : Message :=
  { addressRequest with
    messageType := .response
    answers := [{ name := "a.", dnsClass := 1, ttl := 60, data := .a 0x01020304 }] }

def persistentOptions : ClientOptions where
  disableCache := false
  disableExpire := false
  optimisticTimeout := 0
  cacheCapacity := 1024
  persistentCache := true

def addressCall : ClientStep :=
  .begin "udp" addressRequest
    { disableCache := false, disableOptimisticCache := false, rewriteTtl := none } true true

/-- A call fills the cache, and the next is answered from it. -/
def answeredTwice : List ClientStep :=
  [addressCall, .enter 0 ⟨0, 0⟩, .complete 0 (.ok addressResponse) ⟨0, 0⟩ true,
    addressCall, .enter 1 ⟨0, 0⟩]

/-- After a clear the third call has to ask again. -/
def refilled : List ClientStep :=
  answeredTwice ++ [.clearCache true, addressCall, .enter 2 ⟨0, 0⟩,
    .complete 2 (.ok addressResponse) ⟨0, 0⟩ true]

theorem clearCache_barrier_refilled
    : (start persistentOptions fun _ => none).Unraced refilled
      ∧ ((start persistentOptions fun _ => none).run refilled).Barrier := by
  refine ⟨by decide +kernel, ?_⟩
  exact clearCache_barrier_of_unraced persistentOptions (fun _ => none) _ (by decide +kernel)

/-- The cache is cleared while a flight is under way. Its owner stores the response all the
same, and a call that starts after the clear is answered with it.
-/
theorem clearCache_passed_by_flight
    : ¬ ((start persistentOptions fun _ => none).run
        [addressCall, .enter 0 ⟨0, 0⟩, .clearCache true,
          .complete 0 (.ok addressResponse) ⟨0, 0⟩ true, addressCall,
          .enter 1 ⟨0, 0⟩]).Barrier := by
  intro barrier
  have outdated := barrier
    { started := 1, result := .ok { message := addressResponse, origin := 0 },
      fromCache := true } (by decide +kernel) rfl _ rfl
  exact absurd outdated (by decide)

end Zay.Dns
