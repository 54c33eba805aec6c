import Mathlib.Data.Finset.Insert
import Mathlib.Data.List.AList
import Zay.Clock
import Zay.Dns.Message
import Zay.Error
import Zay.Text

/-! The DNS exchange client (`dns/client.rs`): TTL calculation, the bounded response cache
with optimistic stale reads, the persistent cache behind it, and duplicate-query
coalescing. Everything here is what one call does while it holds the state mutex.
-/

namespace Zay.Dns

open Net

structure ClientOptions where
  disableCache : Bool
  disableExpire : Bool
  optimisticTimeout : Duration
  cacheCapacity : Nat
  persistentCache : Bool
  deriving Repr, DecidableEq

structure ExchangeOptions where
  disableCache : Bool
  disableOptimisticCache : Bool
  rewriteTtl : Option UInt32
  deriving Repr, DecidableEq

/-- A response and the number of cache clears that had happened when the transport
exchange that produced it started. The program does not keep this number.
-/
structure Sourced where
  message : Message
  origin : Nat
  deriving Repr, DecidableEq

def seconds (count : Nat) : Duration := count * 1000000000

def computeTimeToLive (response : Message) : UInt32 :=
  let negative :=
    if response.answers.isEmpty then
      response.authorities.findSome? fun record =>
        match record.data with
        | .soa minimum => some (min record.ttl minimum)
        | _ => none
    else none
  match negative with
  | some ttl => ttl
  | none =>
    let records := response.answers ++ response.authorities ++ response.additionals
    let ttls := (records.filter (·.recordType ≠ .opt)).map (·.ttl)
    (ttls.filter (0 < ·)).min?.getD 0

def normalizeRecords (ttl : UInt32) (records : List Record) : List Record :=
  records.map fun record =>
    if record.recordType ≠ .opt then { record with ttl } else record

def normalizeTtl (response : Message) (ttl : UInt32) : Message :=
  { response with
    answers := normalizeRecords ttl response.answers
    authorities := normalizeRecords ttl response.authorities
    additionals := normalizeRecords ttl response.additionals }

/-- `CacheKey`. Its name is kept in lower case, which is how two keys compare. -/
structure CacheKey where
  transport : String
  name : String
  recordType : RecordType
  clientSubnet : Option ClientSubnet
  rewriteTtl : Option UInt32
  deriving Repr, DecidableEq

/-- The key columns of a `dns_cache` row under one cache id: the name in its own letter
case, and the subnet without its scope prefix.
-/
structure PersistentKey where
  transport : String
  qname : String
  qtype : UInt16
  clientSubnet : Option (IpAddr × UInt8)
  rewriteTtl : Option UInt32
  deriving Repr, DecidableEq

/-- `cache_key`: a request with one question and nothing else, apart from EDNS. -/
def cacheKey (transport : String) (request : Message) (rewriteTtl : Option UInt32)
    : Option (CacheKey × PersistentKey) :=
  match request.queries, request.authorities, request.additionals with
  | [query], [], [] =>
    some
      ({ transport
         name := toAsciiLowercase query.name
         recordType := query.queryType
         clientSubnet := request.clientSubnet
         rewriteTtl },
        { transport
          qname := query.name
          qtype := query.queryType
          clientSubnet := request.clientSubnet.map fun subnet =>
            (subnet.address, subnet.sourcePrefix)
          rewriteTtl })
  | _, _, _ => none

structure CacheEntry where
  response : Sourced
  expiresAt : Instant
  generation : UInt64
  deriving Repr, DecidableEq

/-- A row of the persistent cache; the expiry is in whole seconds of system time. -/
structure PersistentEntry where
  response : Sourced
  expiresAt : Nat
  deriving Repr, DecidableEq

/-- `State`. A flight lists the calls that wait for its owner's result. -/
structure ClientState where
  cache : AList fun _ : CacheKey => CacheEntry
  order : List (CacheKey × UInt64)
  generation : UInt64
  flights : AList fun _ : CacheKey => List Nat
  backgroundRefresh : Finset CacheKey
  cacheEpoch : UInt64

def ClientState.default : ClientState where
  cache := ∅
  order := []
  generation := 0
  flights := ∅
  backgroundRefresh := ∅
  cacheEpoch := 0

/-- The clocks a locked section reads: monotonic and system time, in nanoseconds. -/
structure Clock where
  now : Instant
  nowSystem : Nat
  deriving Repr, DecidableEq

variable (state : ClientState)

def touch (key : CacheKey) : ClientState :=
  let generation := state.generation + 1
  let state := { state with generation }
  match state.cache.lookup key with
  | none => state
  | some entry =>
    { state with
      cache := state.cache.insert key { entry with generation }
      order := state.order ++ [(key, generation)] }

/-- `insert_persistent_entry`: the expiry is carried over from system to monotonic time. -/
def insertPersistentEntry (key : CacheKey) (entry : PersistentEntry) (clock : Clock)
    : ClientState :=
  let expiry := seconds entry.expiresAt
  let expiresAt :=
    if clock.nowSystem ≤ expiry then clock.now + (expiry - clock.nowSystem)
    else
      let elapsed := clock.nowSystem - expiry
      if elapsed ≤ clock.now then clock.now - elapsed else clock.now
  let generation := state.generation + 1
  { state with
    generation
    cache := state.cache.insert key { response := entry.response, expiresAt, generation }
    order := state.order ++ [(key, generation)] }

inductive CacheLookup where
  | fresh (response : Sourced)
  | stale (response : Sourced)
  | miss
  deriving Repr, DecidableEq

def Sourced.withTtl (response : Sourced) (ttl : UInt32) : Sourced :=
  { response with message := normalizeTtl response.message ttl }

def Sourced.withId (response : Sourced) (id : UInt16) : Sourced :=
  { response with message := { response.message with id } }

def loadCache (key : CacheKey) (options : ClientOptions) (allowOptimistic : Bool) (now : Instant)
    : CacheLookup × ClientState :=
  match state.cache.lookup key with
  | none => (.miss, state)
  | some entry =>
    if options.disableExpire then (.fresh entry.response, touch state key)
    else if now < entry.expiresAt then
      let remaining := (entry.expiresAt - now) / seconds 1
      let ttl := UInt32.ofNat (min remaining 0xFFFFFFFF)
      (.fresh (entry.response.withTtl ttl), touch state key)
    else if allowOptimistic ∧ 0 < options.optimisticTimeout
        ∧ now < entry.expiresAt + options.optimisticTimeout then
      (.stale (entry.response.withTtl 1), touch state key)
    else (.miss, { state with cache := state.cache.erase key })

/-- The eviction loop of `insert_cache`: entries leave in queue order, and a queue element
whose generation is out of date is skipped.
-/
def evict (capacity : Nat) (cache : AList fun _ : CacheKey => CacheEntry)
    : List (CacheKey × UInt64) →
      (AList fun _ : CacheKey => CacheEntry) × List (CacheKey × UInt64)
  | [] => (cache, [])
  | (candidate, generation) :: order =>
    if cache.entries.length ≤ capacity then (cache, (candidate, generation) :: order)
    else if (cache.lookup candidate).any (·.generation = generation) then
      evict capacity (cache.erase candidate) order
    else evict capacity cache order

def insertCache (key : CacheKey) (response : Sourced) (ttl : UInt32) (capacity : Nat)
    (now : Instant)
    : ClientState :=
  let generation := state.generation + 1
  let entry : CacheEntry :=
    { response, expiresAt := now + seconds ttl.toNat, generation }
  let evicted := evict capacity (state.cache.insert key entry)
    (state.order ++ [(key, generation)])
  { state with generation, cache := evicted.1, order := evicted.2 }

/-- The part of `clear_cache` that the state mutex protects. -/
def clearState : ClientState :=
  { state with
    cache := ∅
    order := []
    backgroundRefresh := ∅
    cacheEpoch := state.cacheEpoch + 1 }

end Zay.Dns
