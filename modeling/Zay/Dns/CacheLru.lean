import Zay.Dns.CacheBarrier
import Zay.Lib.LazyQueue

/-! The DNS response cache as a bounded cache that gives up its least recently used entries.
Beside a run, the cached keys are kept in the order of their last insertion or hit.
-/

namespace Zay.Dns

open Lib ClientWorld List Option Function UInt32

/-- The order of use after `load_cache`: a hit counts as a use, and an entry that has expired is
removed.
-/
def recencyOfLookup (recency : List CacheKey) (key : CacheKey) : CacheLookup → List CacheKey
  | .fresh _ => useKey recency key
  | .stale _ => useKey recency key
  | .miss => recency.erase key

/-- The order of use after `exchange_inner` has looked for `key`. -/
def recencyOfLoad (state : ClientState) (recency : List CacheKey) (key : CacheKey)
    (entry : Option PersistentEntry) (options : ClientOptions) (allowOptimistic : Bool)
    (clock : Clock)
    : List CacheKey :=
  let admitted :=
    if entry.isSome ∧ state.cache.lookup key = none then useKey recency key else recency
  recencyOfLookup admitted key
    (loadCache (admitPersistent state key entry clock) key options allowOptimistic clock.now).1

/-- The order of use after an exchange has ended: the entries that were used last remain. -/
def recencyOfStore (capacity : Nat) (recency : List CacheKey) (key : CacheKey)
    (result : IoResult Sourced)
    : List CacheKey :=
  if unstored result then recency else mostRecent capacity (useKey recency key)

namespace ClientWorld

def recencyAfter (world : ClientWorld) (recency : List CacheKey) : ClientStep → List CacheKey
  | .enter index clock =>
    match world.calls[index]? with
    | none => recency
    | some call =>
      match call.phase with
      | .loaded key _ entry =>
        recencyOfLoad world.state recency key entry world.options
          (!call.overrides.disableOptimisticCache) clock
      | _ => recency
  | .complete index result _ _ =>
    match world.calls[index]? with
    | none => recency
    | some call =>
      match call.phase with
      | .owner key _ origin =>
        recencyOfStore world.options.cacheCapacity recency key
          (uncachedResult call.overrides origin result)
      | _ => recency
  | .finishRefresh index result _ _ =>
    match world.refreshes[index]? with
    | none => recency
    | some task =>
      match task.phase with
      | .exchanging origin =>
        if world.state.cacheEpoch ≠ task.epoch then recency
        else
          recencyOfStore world.options.cacheCapacity recency task.key
            (uncachedResult task.overrides origin result)
      | _ => recency
  | .clearCache _ => []
  | _ => recency

def runRecency (world : ClientWorld) (recency : List CacheKey) : List ClientStep → List CacheKey
  | [] => recency
  | step :: steps => (world.step step).runRecency (world.recencyAfter recency step) steps

/-- Before the step: a persistent entry that is put into the cache finds room there, and the
queue is no longer than a queue can be.
-/
def roomy (world : ClientWorld) (step : ClientStep) : Bool :=
  world.state.order.length < 2 ^ 63 &&
    match step with
    | .enter index _ =>
      match world.calls[index]? with
      | some call =>
        match call.phase with
        | .loaded key _ (some _) =>
          (world.state.cache.lookup key).isSome
            || world.state.cache.entries.length < world.options.cacheCapacity
        | _ => true
      | none => true
    | _ => true

def Roomy (world : ClientWorld) : List ClientStep → Prop
  | [] => True
  | step :: steps => world.roomy step = true ∧ (world.step step).Roomy steps

instance decidableRoomy
    : (world : ClientWorld) → (steps : List ClientStep) → Decidable (world.Roomy steps)
  | _, [] => isTrue trivial
  | world, step :: steps =>
    have := decidableRoomy (world.step step) steps
    inferInstanceAs (Decidable (_ ∧ _))

/-- The cache holds the keys of `recency`, the last of them used last. -/
structure BoundedLru (world : ClientWorld) (recency : List CacheKey) : Prop where
  bounded : world.state.cache.entries.length ≤ world.options.cacheCapacity
  queued : ∀ key entry, world.state.cache.lookup key = some entry →
    (key, entry.generation) ∈ world.state.order
  keys : world.state.cache.keys.Perm recency
  evicts : world.state.order.length < 2 ^ 63 → ∀ key response ttl now,
    (insertCache world.state key response ttl world.options.cacheCapacity now).cache.keys.Perm
      (mostRecent world.options.cacheCapacity (useKey recency key))

end ClientWorld

--------
-- The queue of a state
--------

/-- The current generations of the cached keys. -/
def stamps (cache : AList fun _ : CacheKey => CacheEntry) (key : CacheKey) : Option UInt64 :=
  (cache.lookup key).map CacheEntry.generation

section

variable (cache : AList fun _ : CacheKey => CacheEntry)

theorem stamps_insert (key entry)
    : stamps (cache.insert key entry)
      = update (stamps cache) key (some entry.generation) := by
  funext other
  rw [stamps, lookup_insert_eq, update_apply]
  split <;> rfl

theorem stamps_erase (key)
    : stamps (cache.erase key) = update (stamps cache) key none := by
  funext other
  rw [stamps, lookup_erase_eq, update_apply]
  split <;> rfl

end

/-- The queue lists the cached keys in the order `recency`. -/
structure Queued (cache : AList fun _ : CacheKey => CacheEntry)
    (order : List (CacheKey × UInt64)) (generation : UInt64) (recency : List CacheKey)
    : Prop where
  tracks : LazyQueue.Tracks (stamps cache) order
  live : LazyQueue.live (stamps cache) order = recency
  counted : ∃ count, LazyQueue.Counted count generation (order.map Prod.snd)

namespace Queued

variable {cache : AList fun _ : CacheKey => CacheEntry} {order : List (CacheKey × UInt64)}
  {generation : UInt64} {recency : List CacheKey}

variable (h : Queued cache order generation recency)

include h

theorem mem_iff (key) : key ∈ recency ↔ (cache.lookup key).isSome := by
  rw [← h.live, h.tracks.mem_live_iff, stamps, isSome_map]

theorem keys_perm : cache.keys.Perm recency := by
  refine (perm_ext_iff_of_nodup cache.keys_nodup (h.live ▸ h.tracks.nodup_live)).mpr ?_
  intro key
  rw [h.mem_iff, AList.lookup_isSome]
  exact AList.mem_keys.symm

theorem length_eq : cache.entries.length = recency.length := by
  rw [← h.keys_perm.length_eq, AList.keys, keys, length_map]

theorem use (hs : order.length < 2 ^ 64) (key entry) (stamped : entry.generation = generation + 1)
    : Queued (cache.insert key entry) (order ++ [(key, generation + 1)]) (generation + 1)
      (useKey recency key) := by
  obtain ⟨count, hc⟩ := h.counted
  have hn : (key, generation + 1) ∉ order := fun mem =>
    hc.next_notMem (by rwa [length_map]) (mem_map_of_mem mem)
  refine ⟨?_, ?_, count + 1, ?_⟩
  · rw [stamps_insert, stamped]
    exact h.tracks.use hn
  · rw [stamps_insert, stamped, LazyQueue.live_use h.tracks hn, h.live]
  · rw [map_append]
    exact hc.push

theorem forget (key) : Queued (cache.erase key) order generation (recency.erase key) := by
  refine ⟨?_, ?_, h.counted⟩
  · rw [stamps_erase]
    exact h.tracks.forget
  · rw [stamps_erase, LazyQueue.live_forget h.tracks, h.live]

/-- The loop gives up the entries that were used before the last `capacity` ones. -/
theorem evict {capacity}
    : Queued (Dns.evict capacity cache order).1 (Dns.evict capacity cache order).2 generation
      (mostRecent capacity recency) := by
  induction order generalizing cache recency with
  | nil =>
    have empty : recency = [] := h.live.symm
    rw [mostRecent_of_le (by rw [empty]; exact Nat.zero_le _)]
    exact h
  | cons element order ih =>
    rcases element with ⟨candidate, stamp⟩
    obtain ⟨count, hc⟩ := h.counted
    have hr : ∃ count, LazyQueue.Counted count generation (order.map Prod.snd) :=
      ⟨count, hc.pop⟩
    have size := h.length_eq
    unfold Dns.evict
    by_cases fits : cache.entries.length ≤ capacity
    · rw [if_pos fits, mostRecent_of_le (size ▸ fits)]
      exact h
    rw [if_neg fits]
    by_cases current : stamps cache candidate = some stamp
    · obtain ⟨tracks, live⟩ := h.tracks.pop_live current
      have hf : (cache.lookup candidate).any (·.generation = stamp) = true := by
        rw [stamps, map_eq_some_iff] at current
        obtain ⟨entry, hp, rfl⟩ := current
        rw [hp]
        simp
      rw [if_pos hf]
      rw [h.live] at live
      rw [live, mostRecent_cons (by rw [← live, ← size]; omega)]
      rw [← stamps_erase] at tracks ⊢
      exact ih ⟨tracks, rfl, hr⟩
    · obtain ⟨tracks, live⟩ := h.tracks.pop_stale current
      have outdated : ¬(cache.lookup candidate).any (·.generation = stamp) = true := by
        intro hf
        rw [Option.any_eq_true] at hf
        obtain ⟨entry, hp, he⟩ := hf
        refine current ?_
        rw [stamps, hp, map_some, of_decide_eq_true he]
      rw [if_neg outdated]
      exact ih ⟨tracks, live.symm.trans h.live, hr⟩

end Queued

namespace ClientState

/-- The part of the state that `recency` describes. -/
def Lru (state : ClientState) (recency : List CacheKey) : Prop :=
  Queued state.cache state.order state.generation recency

namespace Lru

variable {state : ClientState} {recency : List CacheKey}

variable (h : state.Lru recency)
include h

variable (hs : state.order.length < 2 ^ 64)
include hs

theorem touch {key entry} (hp : state.cache.lookup key = some entry)
    : (touch state key).Lru (useKey recency key) := by
  have used := Queued.use h hs key { entry with generation := state.generation + 1 } rfl
  simp only [Zay.Dns.touch, hp]
  exact used

variable (key : CacheKey)

theorem admitPersistent (entry) (clock : Clock)
    : (admitPersistent state key entry clock).Lru
      (if entry.isSome ∧ state.cache.lookup key = none then useKey recency key else recency) := by
  cases entry with
  | none => exact h
  | some _ =>
    simp only [Zay.Dns.admitPersistent, isSome_some, true_and]
    split
    · exact Queued.use h hs key _ rfl
    · exact h

theorem loadCache (options allowOptimistic now)
    : (loadCache state key options allowOptimistic now).2.Lru
      (recencyOfLookup recency key (loadCache state key options allowOptimistic now).1) := by
  unfold Zay.Dns.loadCache
  cases hp : state.cache.lookup key with
  | none =>
    have hno : key ∉ recency := by
      rw [Queued.mem_iff h, hp]
      exact Bool.false_ne_true
    simp only [recencyOfLookup, erase_of_not_mem hno]
    exact h
  | some _ =>
    simp only
    repeat' split
    on_goal 4 => exact Queued.forget h key
    all_goals exact h.touch hs hp

theorem insertCache (response ttl capacity now)
    : (insertCache state key response ttl capacity now).Lru
      (mostRecent capacity (useKey recency key)) :=
  (Queued.use h hs key _ rfl).evict

end Lru

end ClientState

/-- The same cache in two worlds. -/
structure SameCache (left right : ClientWorld) : Prop where
  cache : left.state.cache = right.state.cache
  order : left.state.order = right.state.order
  generation : left.state.generation = right.state.generation
  options : left.options = right.options

namespace SameCache

theorem refl (world) : SameCache world world := ⟨rfl, rfl, rfl, rfl⟩

theorem trans {first second third} (left : SameCache first second) (right : SameCache second third)
    : SameCache first third :=
  ⟨left.cache.trans right.cache, left.order.trans right.order,
    left.generation.trans right.generation, left.options.trans right.options⟩

variable (world : ClientWorld)

include world

variable (index : Nat) (call : ExchangeCall) (key : CacheKey) (row : PersistentKey)
  (result : IoResult Sourced)

theorem finish (fromCache : Bool) : SameCache (world.finish index call result fromCache) world :=
  ⟨rfl, rfl, rfl, rfl⟩

theorem notify (waiters) : SameCache (world.notify result waiters) world := by
  refine foldlRecOn (motive := (SameCache · world)) waiters _ (refl world) fun _ he _ _ => ?_
  split
  · split
    · exact (finish ..).trans he
    · exact he
  · exact he

theorem land : SameCache (world.land key result) world :=
  (notify ..).trans ⟨rfl, rfl, rfl, rfl⟩

theorem savePersistent (response ttl) (clock : Clock) (saved)
    : SameCache (world.savePersistent row response ttl clock saved) world := by
  unfold ClientWorld.savePersistent
  split
  · exact ⟨rfl, rfl, rfl, rfl⟩
  · exact refl world

theorem spawnRefresh : SameCache (world.spawnRefresh call key row) world := by
  unfold ClientWorld.spawnRefresh
  split
  · exact ⟨rfl, rfl, rfl, rfl⟩
  · exact refl world

theorem fly : SameCache (world.fly index call key row) world := by
  unfold ClientWorld.fly
  split <;> exact ⟨rfl, rfl, rfl, rfl⟩

theorem cancel : SameCache (world.cancel index) world := by
  unfold ClientWorld.cancel
  split
  · exact refl world
  split
  · exact ⟨rfl, rfl, rfl, rfl⟩
  · exact ⟨rfl, rfl, rfl, rfl⟩
  · exact (land ..).trans ⟨rfl, rfl, rfl, rfl⟩
  · exact refl world

theorem startRefresh : SameCache (world.startRefresh index) world := by
  unfold ClientWorld.startRefresh
  split
  · exact refl world
  split
  · exact ⟨rfl, rfl, rfl, rfl⟩
  · exact refl world

end SameCache

--------
-- Runs
--------

namespace ClientWorld

/-- What a run keeps. -/
structure Recent (world : ClientWorld) (recency : List CacheKey) : Prop where
  lru : world.state.Lru recency
  bounded : recency.length ≤ world.options.cacheCapacity

namespace Recent

variable {world : ClientWorld} {recency : List CacheKey}

theorem same {next} (h : world.Recent recency) (same : SameCache next world)
    : next.Recent recency := by
  refine ⟨?_, same.options ▸ h.bounded⟩
  unfold ClientState.Lru
  rw [same.cache, same.order, same.generation]
  exact h.lru

theorem store (h : world.Recent recency) (hs : world.state.order.length < 2 ^ 63)
    (key row result) (clock : Clock) (saved)
    : (world.store key row result clock saved).Recent
      (recencyOfStore world.options.cacheCapacity recency key result) := by
  unfold ClientWorld.store
  cases result with
  | error error => exact h
  | ok response =>
    by_cases hpos : 0 < computeTimeToLive response.message
    · have hk : unstored (.ok response) = false := by
        simpa [unstored, UInt32.pos_iff_ne_zero] using hpos
      have inserted := h.lru.insertCache (hs.trans (by decide)) key response
        (computeTimeToLive response.message) world.options.cacheCapacity clock.now
      have stored : Recent { world with state := _ } _ :=
        ⟨inserted, length_mostRecent_le world.options.cacheCapacity _⟩
      simp only [if_pos hpos, recencyOfStore, hk, Bool.false_eq_true, if_false]
      exact stored.same (SameCache.savePersistent ..)
    · have hd : unstored (.ok response) = true := by
        simpa [unstored, UInt32.pos_iff_ne_zero] using hpos
      simp only [if_neg hpos, recencyOfStore, hd, if_true]
      exact h

variable {key : CacheKey}

theorem length_recencyOfLookup_le {lookup} (hp : lookup ≠ .miss → key ∈ recency)
    : (recencyOfLookup recency key lookup).length ≤ recency.length := by
  cases lookup with
  | fresh response => exact (length_useKey_of_mem (hp nofun)).le
  | stale response => exact (length_useKey_of_mem (hp nofun)).le
  | miss => exact length_erase_le ..

section

variable (h : world.Recent recency)

include h

/-- The critical section of `exchange_inner`, up to what it does with the result. -/
theorem load (hs : world.state.order.length < 2 ^ 63) {entry}
    (hr : entry.isSome → world.state.cache.lookup key = none →
      world.state.cache.entries.length < world.options.cacheCapacity) (allowOptimistic : Bool)
    (clock : Clock)
    : Recent { world with
        state := (loadCache (admitPersistent world.state key entry clock) key world.options
          allowOptimistic clock.now).2 }
      (recencyOfLoad world.state recency key entry world.options allowOptimistic clock) := by
  have ha := h.lru.admitPersistent (hs.trans (by decide)) key entry clock
  have longer : (admitPersistent world.state key entry clock).order.length
      ≤ world.state.order.length + 1 := by
    unfold admitPersistent
    split
    · split
      · exact (length_append ..).le
      · exact Nat.le_succ _
    · exact Nat.le_succ _
  refine ⟨ha.loadCache (by omega) key world.options allowOptimistic clock.now, ?_⟩
  refine (length_recencyOfLookup_le fun hit => ?_).trans ?_
  · refine (Queued.mem_iff ha key).mpr (isSome_iff_ne_none.mpr fun hno => hit ?_)
    simp [loadCache, hno]
  · split
    next enters =>
      have hno : key ∉ recency := by
        rw [Queued.mem_iff h.lru, enters.2]
        exact Bool.false_ne_true
      have hf := hr enters.1 enters.2
      rw [Queued.length_eq h.lru] at hf
      rw [length_useKey_of_notMem hno]
      exact hf
    · exact h.bounded

theorem enter {index clock} (roomy : world.roomy (.enter index clock) = true)
    : (world.enter index clock).Recent (world.recencyAfter recency (.enter index clock)) := by
  simp only [ClientWorld.enter, recencyAfter]
  simp only [ClientWorld.roomy, Bool.and_eq_true, decide_eq_true_eq] at roomy
  obtain ⟨hs, hr⟩ := roomy
  cases hf : world.calls[index]? with
  | none => exact h
  | some call =>
    simp only [hf] at hr
    cases phase : call.phase with
    | loaded key row entry =>
      simp only [phase] at hr
      have fits : entry.isSome → world.state.cache.lookup key = none →
          world.state.cache.entries.length < world.options.cacheCapacity := by
        intro given hno
        obtain ⟨row, rfl⟩ := isSome_iff_exists.mp given
        simpa [hno] using hr
      have loaded := h.load hs fits (!call.overrides.disableOptimisticCache) clock
      simp only [phase]
      split
      · exact loaded.same (SameCache.finish ..)
      · exact loaded.same ((SameCache.finish ..).trans (SameCache.spawnRefresh ..))
      · exact loaded.same (SameCache.fly ..)
    | _ => simpa only [phase] using h

theorem complete (hs : world.state.order.length < 2 ^ 63) (index result) (clock : Clock) (saved)
    : (world.complete index result clock saved).Recent
      (world.recencyAfter recency (.complete index result clock saved)) := by
  simp only [ClientWorld.complete, recencyAfter]
  cases hf : world.calls[index]? with
  | none => exact h
  | some call =>
    cases phase : call.phase with
    | owner key row origin =>
      simp only [phase]
      exact (h.store hs key row _ clock saved).same
        ((SameCache.finish ..).trans (SameCache.land ..))
    | uncached origin =>
      simp only [phase]
      exact h.same (SameCache.finish ..)
    | _ => simpa only [phase] using h

theorem finishRefresh (hs : world.state.order.length < 2 ^ 63) (index result) (clock : Clock)
    (saved)
    : (world.finishRefresh index result clock saved).Recent
      (world.recencyAfter recency (.finishRefresh index result clock saved)) := by
  simp only [ClientWorld.finishRefresh, recencyAfter]
  cases hf : world.refreshes[index]? with
  | none => exact h
  | some task =>
    cases phase : task.phase with
    | exchanging _ =>
      simp only [phase]
      have he : Recent { world with
          refreshes := world.refreshes.set index { task with phase := .done }
          state := { world.state with
            backgroundRefresh := world.state.backgroundRefresh.erase task.key } } recency :=
        h.same ⟨rfl, rfl, rfl, rfl⟩
      split
      · exact he
      · exact he.store hs task.key task.row _ clock saved
    | _ => simpa only [phase] using h

theorem clearCache (cleared : Bool) : (world.clearCache cleared).Recent [] := by
  obtain ⟨count, hc⟩ := h.lru.counted
  refine ⟨⟨⟨fun _ _ impossible => ?_, nodup_nil⟩, rfl, count, ?_⟩, Nat.zero_le _⟩
  · cases impossible
  · exact ⟨hc.counter, Nat.zero_le _, rfl⟩

theorem step {step} (roomy : world.roomy step = true)
    : (world.step step).Recent (world.recencyAfter recency step) := by
  have hs : world.state.order.length < 2 ^ 63 := by
    simp only [ClientWorld.roomy, Bool.and_eq_true, decide_eq_true_eq] at roomy
    exact roomy.1
  cases step with
  | begin _ _ _ _ _ => exact h.same ⟨rfl, rfl, rfl, rfl⟩
  | enter index clock => exact h.enter roomy
  | complete index result clock saved => exact h.complete hs index result clock saved
  | cancel index => exact h.same (SameCache.cancel world index)
  | startRefresh index => exact h.same (SameCache.startRefresh world index)
  | finishRefresh index result clock saved =>
    exact h.finishRefresh hs index result clock saved
  | clearCache cleared => exact h.clearCache cleared

theorem run {steps} (roomy : world.Roomy steps)
    : (world.run steps).Recent (world.runRecency recency steps) := by
  induction steps generalizing world recency with
  | nil => exact h
  | cons _ steps ih => exact ih (h.step roomy.1) roomy.2

end

theorem start (options rows) : (start options rows).Recent [] := by
  refine ⟨⟨⟨fun _ _ impossible => ?_, nodup_nil⟩, rfl, 0, ?_⟩, Nat.zero_le _⟩
  · cases impossible
  · exact ⟨rfl, Nat.zero_le _, rfl⟩

theorem boundedLru (h : world.Recent recency) : world.BoundedLru recency where
  bounded := (Queued.length_eq h.lru).trans_le h.bounded
  queued key entry present := h.lru.tracks.queued key entry.generation (by
    rw [stamps, present, map_some])
  keys := Queued.keys_perm h.lru
  evicts hs key response ttl now :=
    (h.lru.insertCache (hs.trans (by decide)) key response ttl _ now).keys_perm

end Recent

end ClientWorld

/-- As long as persistent entries find room, the cache stays within its capacity and gives up
its least recently used entries.
-/
theorem client_cache_bounded_lru (options : ClientOptions)
    (rows : PersistentKey → Option (Message × Nat)) (steps : List ClientStep)
    (roomy : (start options rows).Roomy steps)
    : ((start options rows).run steps).BoundedLru
      ((start options rows).runRecency [] steps) :=
  ((ClientWorld.Recent.start options rows).run roomy).boundedLru

theorem client_cache_bounded_lru_example
    : (start persistentOptions fun _ => none).Roomy answeredTwice
      ∧ ((start persistentOptions fun _ => none).run answeredTwice).BoundedLru
        ((start persistentOptions fun _ => none).runRecency [] answeredTwice) := by
  refine ⟨by decide +kernel, ?_⟩
  exact client_cache_bounded_lru persistentOptions (fun _ => none) _ (by decide +kernel)

--------
-- Persistent entries without room
--------

/-- Calls that differ in the TTL they ask for. -/
def numberedCall (number : Nat) : ClientStep :=
  .begin "udp" addressRequest
    { disableCache := false
      disableOptimisticCache := false
      rewriteTtl := some (ofNat number) } true true

def numberedKey (number : Nat) : CacheKey where
  transport := "udp"
  name := toAsciiLowercase "a."
  recordType := .a
  clientSubnet := none
  rewriteTtl := some (ofNat number)

/-- Rows of an earlier process for the first 1025 calls. -/
def numberedRows (row : PersistentKey) : Option (Message × Nat) :=
  if row.rewriteTtl.any (·.toNat ≤ 1024) then some (addressResponse, 60) else none

def numberedRun (count : Nat) : List ClientStep :=
  (range count).flatMap fun number => [numberedCall number, .enter number ⟨0, 0⟩]

/-- What `count` such calls leave behind. -/
structure Filled (count : Nat) (world : ClientWorld) : Prop where
  options : world.options = persistentOptions
  rows : world.rows = (start persistentOptions numberedRows).rows
  calls : world.calls.length = count
  size : world.state.cache.entries.length = count
  free : ∀ number, count ≤ number → number < 2 ^ 32 →
    world.state.cache.lookup (numberedKey number) = none

variable {key : CacheKey} {world : ClientWorld} {count : Nat}

def numberedRow (number : Nat) : PersistentKey where
  transport := "udp"
  qname := "a."
  qtype := 1
  clientSubnet := none
  rewriteTtl := some (ofNat number)

def storedEntry : PersistentEntry where
  response := { message := addressResponse, origin := 0 }
  expiresAt := 60

/-- An entry that is put into the cache from the persistent one is found there. -/
theorem load_numbered {state} (hno : state.cache.lookup key = none)
    : ∃ entry response,
      (loadCache (admitPersistent state key (some storedEntry) ⟨0, 0⟩) key persistentOptions
        true 0).1 = .fresh response
      ∧ (loadCache (admitPersistent state key (some storedEntry) ⟨0, 0⟩) key persistentOptions
        true 0).2.cache = state.cache.insert key entry := by
  have ha : admitPersistent state key (some storedEntry) ⟨0, 0⟩
      = insertPersistentEntry state key storedEntry ⟨0, 0⟩ := if_pos hno
  obtain ⟨entry, inserted, hr⟩ : ∃ entry,
      (insertPersistentEntry state key storedEntry ⟨0, 0⟩).cache = state.cache.insert key entry
      ∧ 0 < entry.expiresAt := by
    refine ⟨_, rfl, ?_⟩
    rw [if_pos (Nat.zero_le _), Nat.zero_add, Nat.sub_zero]
    exact Nat.mul_pos (by decide) (by decide)
  have hf : (insertPersistentEntry state key storedEntry ⟨0, 0⟩).cache.lookup key
      = some entry := by
    rw [inserted, AList.lookup_insert]
  rw [ha]
  simp only [loadCache, hf, persistentOptions, Bool.false_eq_true, if_false, if_pos hr]
  refine ⟨{ entry with
    generation := (insertPersistentEntry state key storedEntry ⟨0, 0⟩).generation + 1 }, _, rfl, ?_⟩
  simp only [touch, hf]
  rw [inserted, AList.insert_insert]

theorem Filled.next (filled : Filled count world) (hs : count ≤ 1024)
    : Filled (count + 1)
      ((world.step (numberedCall count)).step (.enter count ⟨0, 0⟩)) := by
  have row : world.rows (numberedRow count) = some storedEntry := by
    have hl : (ofNat count).toNat ≤ 1024 := by
      rw [toNat_ofNat']
      omega
    have hp : numberedRows (numberedRow count) = some (addressResponse, 60) :=
      if_pos (decide_eq_true hl)
    rw [filled.rows, start]
    simp only [hp, map_some]
    rfl
  let call : ExchangeCall :=
    { started := world.clears
      request := addressRequest
      overrides :=
        { disableCache := false
          disableOptimisticCache := false
          rewriteTtl := some (ofNat count) }
      owned := true
      phase := .loaded (numberedKey count) (numberedRow count) (some storedEntry) }
  have begun : world.step (numberedCall count)
      = { world with calls := world.calls ++ [call] } := by
    have keyed : cacheKey "udp" addressRequest (some (ofNat count))
        = some (numberedKey count, numberedRow count) := rfl
    simp only [step, numberedCall, begin, keyed, filled.options, row]
    rfl
  have free := filled.free count le_rfl (by omega)
  obtain ⟨entry, response, hn, cache⟩ := load_numbered free
  rw [← filled.options] at hn cache
  have hf : (world.calls ++ [call])[count]? = some call := by
    rw [getElem?_append_right filled.calls.le, filled.calls, Nat.sub_self]
    rfl
  rw [begun]
  simp only [step, enter, hf, call, Bool.not_false, hn]
  refine ⟨filled.options, filled.rows, ?_, ?_, fun number after hb => ?_⟩
  · rw [finish, length_set, length_append, filled.calls]
    rfl
  · rw [finish, cache, AList.entries_insert_of_notMem (AList.lookup_eq_none.mp free),
      length_cons, filled.size]
  · have other : numberedKey number ≠ numberedKey count := by
      intro he
      have numbers : ofNat number = ofNat count :=
        some.inj (congrArg CacheKey.rewriteTtl he)
      have values := congrArg toNat numbers
      rw [toNat_ofNat', toNat_ofNat'] at values
      omega
    have hk := filled.free number (by omega) hb
    rw [← AList.lookup_insert_ne other, ← cache] at hk
    exact hk

theorem filled_numberedRun (hs : count ≤ 1025)
    : Filled count ((start persistentOptions numberedRows).run (numberedRun count)) := by
  induction count with
  | zero => exact ⟨rfl, rfl, rfl, rfl, fun _ _ _ => rfl⟩
  | succ count ih =>
    have hb := ih (by omega)
    rw [numberedRun, range_succ, flatMap_append, flatMap_singleton, run, foldl_append]
    exact hb.next (by omega)

theorem client_cache_overfull
    : ¬((start persistentOptions numberedRows).run
        (numberedRun 1025)).state.cache.entries.length
      ≤ persistentOptions.cacheCapacity := by
  rw [(filled_numberedRun (Nat.le_refl 1025)).size]
  decide

end Zay.Dns
