import Mathlib.Data.Finset.Erase
import Zay.Dns.Client

/-! Concurrent use of one DNS client (`Client::exchange_inner`, `spawn_refresh` and
`clear_cache`). A step is what a task does between two points where others may run: a
critical section of the state mutex, an access to the persistent cache outside it, or the
start of a transport exchange.
-/

namespace Zay.Dns

/-- Where an exchange call stands. -/
inductive CallPhase where
  /-- The persistent cache has been read, the state mutex not yet taken. -/
  | loaded (key : CacheKey) (row : PersistentKey) (entry : Option PersistentEntry)
  | waiting
  /-- The call owns the flight of its key; its transport exchange started after `origin`
  cache clears.
  -/
  | owner (key : CacheKey) (row : PersistentKey) (origin : Nat)
  | uncached (origin : Nat)
  | done
  deriving Repr, DecidableEq

/-- A call of `exchange_inner`, and the number of cache clears before it started. -/
structure ExchangeCall where
  started : Nat
  request : Message
  overrides : ExchangeOptions
  owned : Bool
  phase : CallPhase
  deriving Repr, DecidableEq

inductive RefreshPhase where
  | spawned
  | exchanging (origin : Nat)
  | done
  deriving Repr, DecidableEq

/-- A background refresh, and the number of cache clears before it was spawned. -/
structure RefreshTask where
  key : CacheKey
  row : PersistentKey
  epoch : UInt64
  overrides : ExchangeOptions
  spawned : Nat
  phase : RefreshPhase
  deriving Repr, DecidableEq

/-- What a call has returned, and whether it came from the cache. -/
structure Returned where
  started : Nat
  result : IoResult Sourced
  fromCache : Bool
  deriving DecidableEq

structure ClientWorld where
  options : ClientOptions
  state : ClientState
  rows : PersistentKey → Option PersistentEntry
  calls : List ExchangeCall
  refreshes : List RefreshTask
  clears : Nat
  returned : List Returned

/-- The owner's result as a waiter returns it: under the waiter's own id, and with an error
passed on as text.
-/
def waiterResult (result : IoResult Sourced) (request : Message) : IoResult Sourced :=
  match result with
  | .ok response => .ok (response.withId request.id)
  | .error error => .error ⟨.other, error.message⟩

/-- The result of `exchange_uncached_with_options`, from what the transport returned. -/
def uncachedResult (overrides : ExchangeOptions) (origin : Nat) (result : IoResult Message)
    : IoResult Sourced :=
  result.map fun message =>
    { message := match overrides.rewriteTtl with
        | some ttl => normalizeTtl message ttl
        | none => message
      origin }

/-- `exchange_inner` puts the persistent entry into the cache when it has none. -/
def admitPersistent (state : ClientState) (key : CacheKey) (entry : Option PersistentEntry)
    (clock : Clock)
    : ClientState :=
  match entry with
  | some entry =>
    if state.cache.lookup key = none then insertPersistentEntry state key entry clock
    else state
  | none => state

inductive ClientStep where
  | begin (transport : String) (request : Message) (overrides : ExchangeOptions)
      (owned loads : Bool)
  | enter (call : Nat) (clock : Clock)
  | complete (call : Nat) (result : IoResult Message) (clock : Clock) (saved : Bool)
  | cancel (call : Nat)
  | startRefresh (task : Nat)
  | finishRefresh (task : Nat) (result : IoResult Message) (clock : Clock) (saved : Bool)
  | clearCache (cleared : Bool)

namespace ClientWorld

/-- `Client::new` over a persistent cache that may hold rows of an earlier process. -/
def start (options : ClientOptions) (rows : PersistentKey → Option (Message × Nat))
    : ClientWorld where
  options := { options with cacheCapacity := max options.cacheCapacity 1024 }
  state := .default
  rows := fun key => (rows key).map fun (message, expiresAt) =>
    { response := { message, origin := 0 }, expiresAt }
  calls := []
  refreshes := []
  clears := 0
  returned := []

variable (world : ClientWorld)

def finish (index : Nat) (call : ExchangeCall) (result : IoResult Sourced) (fromCache : Bool)
    : ClientWorld :=
  { world with
    calls := world.calls.set index { call with phase := .done }
    returned := world.returned ++ [{ started := call.started, result, fromCache }] }

/-- The owner's result reaches every call that still waits. -/
def notify (result : IoResult Sourced) (waiters : List Nat) : ClientWorld :=
  waiters.foldl (fun world waiter =>
    match world.calls[waiter]? with
    | some call =>
      if call.phase = .waiting then
        world.finish waiter call (waiterResult result call.request) false
      else world
    | none => world) world

/-- `save_persistent`; an SQL error (`saved = false`) is ignored by its callers. -/
def savePersistent (row : PersistentKey) (response : Sourced) (ttl : UInt32)
    (clock : Clock) (saved : Bool)
    : ClientWorld :=
  if world.options.persistentCache ∧ saved then
    let expiresAt := (clock.nowSystem + seconds ttl.toNat) / seconds 1
    { world with rows := Function.update world.rows row (some { response, expiresAt }) }
  else world

/-- Both completion paths store a response with a positive TTL in the two caches. -/
def store (key : CacheKey) (row : PersistentKey) (result : IoResult Sourced)
    (clock : Clock) (saved : Bool)
    : ClientWorld :=
  match result with
  | .error _ => world
  | .ok response =>
    let ttl := computeTimeToLive response.message
    if 0 < ttl then
      let state :=
        insertCache world.state key response ttl world.options.cacheCapacity clock.now
      { world with state }.savePersistent row response ttl clock saved
    else world

/-- The flight of `key` ends; its waiters are told `result`. -/
def land (key : CacheKey) (result : IoResult Sourced) : ClientWorld :=
  let waiters := (world.state.flights.lookup key).getD []
  { world with
    state := { world.state with flights := world.state.flights.erase key } }.notify
      result waiters

/-- The step of a call that starts: the key is computed and the persistent cache is read,
unless the SQL query fails (`loads = false`).
-/
def begin (transport : String) (request : Message) (overrides : ExchangeOptions)
    (owned loads : Bool)
    : ClientWorld :=
  let phase :=
    match cacheKey transport request overrides.rewriteTtl with
    | none => .uncached world.clears
    | some (key, row) =>
      if world.options.disableCache ∨ overrides.disableCache then .uncached world.clears
      else if world.options.persistentCache ∧ loads then .loaded key row (world.rows row)
      else .loaded key row none
  { world with
    calls := world.calls
      ++ [{ started := world.clears, request, overrides, owned, phase }] }

/-- After a miss: join the flight of the key, or own a new one and start the exchange. -/
def fly (index : Nat) (call : ExchangeCall) (key : CacheKey) (row : PersistentKey)
    : ClientWorld :=
  match world.state.flights.lookup key with
  | some waiters =>
    { world with
      state := { world.state with
        flights := world.state.flights.insert key (waiters ++ [index]) }
      calls := world.calls.set index { call with phase := .waiting } }
  | none =>
    { world with
      state := { world.state with flights := world.state.flights.insert key [] }
      calls := world.calls.set index { call with phase := .owner key row world.clears } }

/-- A stale hit of an owned transport spawns one background refresh per key. -/
def spawnRefresh (call : ExchangeCall) (key : CacheKey) (row : PersistentKey)
    : ClientWorld :=
  if call.owned ∧ key ∉ world.state.backgroundRefresh then
    { world with
      state := { world.state with
        backgroundRefresh := insert key world.state.backgroundRefresh }
      refreshes := world.refreshes ++ [{
        key, row, epoch := world.state.cacheEpoch, overrides := call.overrides
        spawned := world.clears, phase := .spawned }] }
  else world

/-- The critical section of a call that has read the persistent cache. -/
def enter (index : Nat) (clock : Clock) : ClientWorld :=
  match world.calls[index]? with
  | none => world
  | some call =>
    match call.phase with
    | .loaded key row entry =>
      let lookup := loadCache (admitPersistent world.state key entry clock) key
        world.options (!call.overrides.disableOptimisticCache) clock.now
      let world := { world with state := lookup.2 }
      match lookup.1 with
      | .fresh response =>
        world.finish index call (.ok (response.withId call.request.id)) true
      | .stale response =>
        (world.spawnRefresh call key row).finish index call
          (.ok (response.withId call.request.id)) true
      | .miss => world.fly index call key row
    | _ => world

/-- The transport exchange of a call ends. A flight's owner stores the response and tells
its waiters.
-/
def complete (index : Nat) (result : IoResult Message) (clock : Clock) (saved : Bool)
    : ClientWorld :=
  match world.calls[index]? with
  | none => world
  | some call =>
    match call.phase with
    | .uncached origin =>
      world.finish index call (uncachedResult call.overrides origin result) false
    | .owner key row origin =>
      let result := uncachedResult call.overrides origin result
      ((world.store key row result clock saved).land key result).finish index call
        result false
    | _ => world

/-- A call is dropped at an await. The guard of a flight's owner ends the flight. -/
def cancel (index : Nat) : ClientWorld :=
  match world.calls[index]? with
  | none => world
  | some call =>
    let dropped := world.calls.set index { call with phase := .done }
    match call.phase with
    | .waiting | .uncached _ => { world with calls := dropped }
    | .owner key _ _ =>
      { world with calls := dropped }.land key
        (.error ⟨.other, "DNS exchange owner was cancelled"⟩)
    | _ => world

/-- A spawned refresh is scheduled for the first time and starts its exchange. -/
def startRefresh (index : Nat) : ClientWorld :=
  match world.refreshes[index]? with
  | none => world
  | some task =>
    match task.phase with
    | .spawned =>
      { world with
        refreshes := world.refreshes.set index
          { task with phase := .exchanging world.clears } }
    | _ => world

def finishRefresh (index : Nat) (result : IoResult Message) (clock : Clock) (saved : Bool)
    : ClientWorld :=
  match world.refreshes[index]? with
  | none => world
  | some task =>
    match task.phase with
    | .exchanging origin =>
      let world := { world with
        refreshes := world.refreshes.set index { task with phase := .done }
        state := { world.state with
          backgroundRefresh := world.state.backgroundRefresh.erase task.key } }
      if world.state.cacheEpoch ≠ task.epoch then world
      else
        world.store task.key task.row (uncachedResult task.overrides origin result) clock
          saved
    | _ => world

/-- `clear_cache`; an SQL error (`cleared = false`) is ignored. -/
def clearCache (cleared : Bool) : ClientWorld :=
  { world with
    state := clearState world.state
    rows := if world.options.persistentCache ∧ cleared then fun _ => none else world.rows
    clears := world.clears + 1 }

def step : ClientStep → ClientWorld
  | .begin transport request overrides owned loads =>
    world.begin transport request overrides owned loads
  | .enter call clock => world.enter call clock
  | .complete call result clock saved => world.complete call result clock saved
  | .cancel call => world.cancel call
  | .startRefresh task => world.startRefresh task
  | .finishRefresh task result clock saved => world.finishRefresh task result clock saved
  | .clearCache cleared => world.clearCache cleared

def run (steps : List ClientStep) : ClientWorld :=
  steps.foldl step world

end ClientWorld

end Zay.Dns
