import Zay.Endpoint.IpPacket
import Zay.Lib.AssocMap
import Zay.Route.Rule

/-! The flow dispatcher of userspace endpoints (`endpoint/flow_dispatch.rs`): raw IP packets
are forwarded to a packet port under the port's own address, and replies are matched and
rewritten back.

Packets are dispatched in parallel. Each action below is what one task does between two points
where others may run: a section under the lock of the state, or the work between two
suspensions. Flows are shared by reference and identified by a number; what can change of a
flow is its cell. Packet ports are identified by the address of their object.
-/

namespace Zay.Endpoint

open Lib Net Route Function

def seconds (count : Nat) : Duration := count * 1000000000

def natSelectorStart : Nat := 49152
def flowCapacity : Nat := 16384
def tcpTransitoryTimeout : Duration := seconds (4 * 60)
def tcpEstablishedTimeout : Duration := seconds (2 * 60 * 60 + 4 * 60)
def tcpClosingTimeout : Duration := seconds 10
def udpTimeoutDefault : Duration := seconds (5 * 60)
def icmpTimeout : Duration := seconds 10
def flowTombstoneTimeout : Duration := seconds (4 * 60)
def flowSweepInterval : Duration := seconds 30
def flowSweepLimit : Nat := flowCapacity / 8

/-- The fields of a flow that never change. -/
structure Flow where
  forwardKey : FlowKey
  reverseKey : FlowKey
  portId : Nat
  forward : Rewrite
  reverse : Rewrite
  mtu : Nat
  protocol : UInt8
  udpTimeout : Duration
  deriving Repr, DecidableEq

structure FlowCell where
  idle : Duration
  expiresAt : Instant
  lastReverse : Option Instant
  finForward : Bool
  established : Bool
  finReverse : Bool
  reported : Bool
  closed : Bool
  tombstoned : Bool
  deriving Repr, DecidableEq

def Flow.idleTimeout (flow : Flow) (cell : FlowCell) : Duration :=
  if flow.protocol = 6 then
    if cell.finForward && cell.finReverse then tcpClosingTimeout
    else if cell.established && !cell.finForward && !cell.finReverse then tcpEstablishedTimeout
    else tcpTransitoryTimeout
  else if flow.protocol = 17 then flow.udpTimeout
  else icmpTimeout

namespace FlowCell

variable (cell : FlowCell)

def report : FlowCell := { cell with reported := true }

def close : FlowCell :=
  if cell.closed then cell else { cell with closed := true }.report

@[simp] theorem close_closed (cell : FlowCell) : cell.close.closed = true := by
  unfold close
  split
  · assumption
  · rfl

def touchTombstone (now : Instant) : FlowCell :=
  { cell with
    tombstoned := true, idle := flowTombstoneTimeout, expiresAt := now + flowTombstoneTimeout }

/-- Packets that came back put the deadline off, but only when it has passed. -/
def expired (now : Instant) : Bool × FlowCell :=
  if now ≤ cell.expiresAt then (false, cell)
  else
    match cell.lastReverse with
    | some last =>
      if now ≤ last + cell.idle then (false, { cell with expiresAt := last + cell.idle })
      else (true, cell)
    | none => (true, cell)

/-- Whether the packet resets the connection, after which the deadline stays. -/
def observeForward (flow : Flow) (packet : ParsedPacket) (now : Instant) : Bool × FlowCell :=
  let cell :=
    if flow.protocol = 6 then
      if packet.tcpFlags &&& 0x01 ≠ 0 then { cell with finForward := true }
      else if cell.finForward && cell.finReverse then cell.report
      else cell
    else cell
  if flow.protocol = 6 ∧ packet.tcpFlags &&& 0x04 ≠ 0 then (true, cell)
  else
    let idle := flow.idleTimeout cell
    (false, { cell with idle, expiresAt := now + idle })

def observeReverse (flow : Flow) (packet : ParsedPacket) (now : Instant) : FlowCell :=
  let cell := { cell with lastReverse := some now }
  if flow.protocol = 6 then
    let cell := { cell with established := true }
    let cell :=
      if packet.tcpFlags &&& 0x01 ≠ 0 then { cell with finReverse := true }
      else if cell.finReverse && cell.finForward then cell.report
      else cell
    if packet.tcpFlags &&& 0x04 ≠ 0 then cell.close else cell
  else cell

end FlowCell

inductive SimpleAction where
  | accept
  | reject
  | drop
  deriving Repr, DecidableEq

structure SimpleEntry where
  action : SimpleAction
  idle : Duration
  expiresAt : Instant
  deriving Repr, DecidableEq

/-- A packet port as `IpPacketPort` describes it. -/
structure Port where
  id : Nat
  ipv4 : Option (BitVec 32)
  ipv6 : Option (BitVec 128)
  mtu : Nat
  selectorRange : UInt16 × UInt16
  deriving Repr, DecidableEq

/-- `alive` says whether the weak reference to the port can be upgraded. -/
structure PortNatState where
  alive : Bool
  selectorRange : UInt16 × UInt16
  counter : UInt32
  deriving Repr, DecidableEq

structure State where
  forward : AssocMap FlowKey Nat
  simple : AssocMap FlowKey SimpleEntry
  reverse : Nat × FlowKey → Option Nat
  ports : Nat → Option PortNatState
  portOrder : List Nat
  portByAddress : IpAddr → Option Nat
  lastSweep : Option Instant
  sweepCursor : Nat
  evictionCursor : Nat

inductive StateEntryKey where
  | flow (key : FlowKey)
  | simple (key : FlowKey)
  deriving Repr, DecidableEq

/-- What routing a packet found. The port is that of the outbound, if it is a packet port. -/
structure Verdict where
  action : Option Action
  rejectIsDrop : Bool
  port : Option Port
  destination : SocksAddr
  destinationAddresses : List IpAddr
  udpTimeout : Option Duration

/-- A flow that is to be opened. -/
structure Plan where
  parsed : ParsedPacket
  key : FlowKey
  port : Port
  portAddress : IpAddr
  routedDestination : SocketAddr
  udpTimeout : Duration
  deriving Repr, DecidableEq

/-- Where a call of `dispatch` stands. -/
inductive DispatchPhase where
  | found (flow : Nat) (parsed : ParsedPacket)
  | unlisted (parsed : ParsedPacket) (key : FlowKey)
  | routing (parsed : ParsedPacket) (key : FlowKey)
  | installing (key : FlowKey) (protocol : UInt8) (action : SimpleAction)
  | attaching (plan : Plan)
  | connecting (plan : Plan)
  | allocating (plan : Plan)
  | inserting (plan : Plan) (selector : UInt16)
  | forwarding (flow : Nat) (reset : Option Instant)
  | finished
  deriving Repr, DecidableEq

/-- A returned packet whose flow is known; ICMP errors have the flow of the packet they
quote.
-/
structure Held where
  flow : Nat
  packet : List UInt8
  parsed : ParsedPacket
  quote : Option EmbeddedPacket
  deriving Repr, DecidableEq

/-- Where a call of `return_packets` stands. -/
structure ReturnTask where
  packets : List (List UInt8)
  held : Option Held
  unconsumed : List (List UInt8)
  deriving Repr, DecidableEq

/-- `draining` are the flows that `reset_network` has taken out and not closed yet. -/
structure FlowWorld where
  udpTimeout : Duration
  state : State
  flows : Nat → Option Flow
  cells : Nat → FlowCell
  tasks : Nat → Option DispatchPhase
  returns : Nat → Option ReturnTask
  draining : List Nat

inductive FlowReply where
  | written (packet : List UInt8)
  | unconsumed (packets : List (List UInt8))
  deriving Repr, DecidableEq

namespace FlowWorld

def new (udpTimeout : Duration) : FlowWorld where
  udpTimeout := if udpTimeout = 0 then udpTimeoutDefault else udpTimeout
  state := {
    forward := .empty
    simple := .empty
    reverse := fun _ => none
    ports := fun _ => none
    portOrder := []
    portByAddress := fun _ => none
    lastSweep := none
    sweepCursor := 0
    evictionCursor := 0 }
  flows := fun _ => none
  cells := fun _ => ⟨0, 0, none, false, false, false, false, false, false⟩
  tasks := fun _ => none
  returns := fun _ => none
  draining := []

variable (world : FlowWorld) (task : Nat)

def setTask (phase : DispatchPhase) : FlowWorld :=
  { world with tasks := update world.tasks task (some phase) }

def setReturn (state : ReturnTask) : FlowWorld :=
  { world with returns := update world.returns task (some state) }

def setCell (flow : Nat) (cell : FlowCell) : FlowWorld :=
  { world with cells := update world.cells flow cell }

def closeFlow (flow : Nat) : FlowWorld :=
  world.setCell flow (world.cells flow).close

def flowExpired (flow : Nat) (now : Instant) : Bool × FlowWorld :=
  let (expired, cell) := (world.cells flow).expired now
  (expired, world.setCell flow cell)

/-- Both entries of a flow. -/
def unlist (flow : Flow) : FlowWorld :=
  { world with state := { world.state with
    forward := world.state.forward.erase flow.forwardKey
    reverse := update world.state.reverse (flow.portId, flow.reverseKey) none } }

/-- The flow of a key, unless it has expired. -/
def lookupForward (key : FlowKey) (now : Instant) : Option Nat × FlowWorld :=
  match world.state.forward.get? key with
  | none => (none, world)
  | some id =>
    match world.flows id with
    | none => (some id, world)
    | some flow =>
      let (expired, world) := world.flowExpired id now
      if expired then (none, world.unlist flow) else (some id, world)

def removeStateEntry : StateEntryKey → FlowWorld
  | .flow key =>
    match world.state.forward.get? key with
    | none => world
    | some id =>
      match world.flows id with
      | some flow =>
        let state := { world.state with
          forward := world.state.forward.erase key
          reverse := update world.state.reverse (flow.portId, flow.reverseKey)
            none }
        { world with state }.closeFlow id
      | none => world
  | .simple key =>
    { world with state := { world.state with simple := world.state.simple.erase key } }

/-- The keys that one pass looks at, from the cursor on and around the end, and the next
cursor.
-/
def scan (keys : List StateEntryKey) (cursor : Nat) : List StateEntryKey × Nat :=
  let count := min keys.length flowSweepLimit
  let start := cursor % keys.length
  ((keys.rotate start).take count, if keys = [] then 0 else (start + count) % keys.length)

/-- Whether an entry has expired, and its deadline. -/
def deadline (now : Instant)
    : StateEntryKey → Option (Bool × Instant) × FlowWorld
  | .flow key =>
    match world.state.forward.get? key with
    | none => (none, world)
    | some id =>
      let (expired, world) := world.flowExpired id now
      (some (expired, (world.cells id).expiresAt), world)
  | .simple key =>
    ((world.state.simple.get? key).map fun entry =>
      (decide (entry.expiresAt < now), entry.expiresAt), world)

/-- The expired ones of some entries, and the one among the others that expires first. -/
def survey (world : FlowWorld) (now : Instant)
    : (keys : List StateEntryKey) → (expired : List StateEntryKey) →
      (oldest : Option (StateEntryKey × Instant)) →
      List StateEntryKey × Option (StateEntryKey × Instant) × FlowWorld
  | [], expired, oldest => (expired, oldest, world)
  | key :: keys, expired, oldest =>
    match world.deadline now key with
    | (none, world) => world.survey now keys expired oldest
    | (some (true, _), world) => world.survey now keys (expired ++ [key]) oldest
    | (some (false, time), world) =>
      if oldest.all (time < ·.2) then world.survey now keys expired (some (key, time))
      else world.survey now keys expired oldest

/-- `keys` are the keys of the two maps, in the order in which they happen to list them. -/
def evictIfFull (now : Instant) (keys : List StateEntryKey) : FlowWorld :=
  if world.state.forward.len + world.state.simple.len < flowCapacity then world
  else if keys.isEmpty then world
  else
    let (scanned, cursor) := scan keys world.state.evictionCursor
    let world := { world with state := { world.state with evictionCursor := cursor } }
    let (expired, oldest, world) := world.survey now scanned [] none
    if expired.isEmpty then
      match oldest with
      | some (key, _) => world.removeStateEntry key
      | none => world
    else expired.foldl removeStateEntry world

def sweepEntry (now : Instant) (world : FlowWorld) : StateEntryKey → FlowWorld
  | .flow key =>
    match world.state.forward.get? key with
    | none => world
    | some id =>
      if (world.cells id).closed && !(world.cells id).tombstoned then
        world.setCell id ((world.cells id).touchTombstone now)
      else
        match world.flowExpired id now with
        | (true, world) => world.removeStateEntry (.flow key)
        | (false, world) => world
  | .simple key =>
    if (world.state.simple.get? key).any (·.expiresAt < now) then
      world.removeStateEntry (.simple key)
    else world

def maybeSweep (now : Instant) (keys : List StateEntryKey) : FlowWorld :=
  if world.state.lastSweep.any (now.durationSince · < flowSweepInterval) then world
  else
    let (scanned, cursor) := scan keys world.state.sweepCursor
    let world := { world with state :=
      { world.state with lastSweep := some now, sweepCursor := cursor } }
    scanned.foldl (sweepEntry now) world

/-- The flows are closed one after the other once the lock is free. -/
def resetNetwork : FlowWorld :=
  { world with
    draining := world.draining ++ world.state.forward.entries.map (·.2)
    state := { world.state with
      forward := .empty
      reverse := fun _ => none
      simple := .empty
      lastSweep := none
      sweepCursor := 0
      evictionCursor := 0 } }

def closeDrained : FlowWorld :=
  match world.draining with
  | [] => world
  | flow :: draining => { world with draining }.closeFlow flow

--------
-- Dispatching
--------

/-- A packet comes in and its flow is looked up. -/
def dispatch (packet : List UInt8) (now : Instant) : FlowWorld :=
  match ParsedPacket.parse packet with
  | none => world.setTask task .finished
  | some parsed =>
    if parsed.fragmented then world.setTask task .finished
    else
      match parsed.flowKey with
      | none => world.setTask task .finished
      | some key =>
        match world.lookupForward key now with
        | (some flow, world) => world.setTask task (.found flow parsed)
        | (none, world) => world.setTask task (.unlisted parsed key)

/-- The packet of a known flow is counted before it is forwarded. -/
def observe (cancelled : Bool) (now : Instant) : FlowWorld :=
  match world.tasks task with
  | some (.found id parsed) =>
    match world.flows id with
    | none => world
    | some flow =>
      let world := if cancelled then world.closeFlow id else world
      let cell := world.cells id
      if cell.closed then
        (world.setCell id (cell.touchTombstone now)).setTask task .finished
      else
        let (reset, cell) := cell.observeForward flow parsed now
        (world.setCell id cell).setTask task
          (.forwarding id (if reset then some now else none))
  | _ => world

/-- `none` when there is no verdict for the key yet. -/
def handleSimple (key : FlowKey) (parsed : ParsedPacket) (now : Instant)
    : Option SimpleAction × FlowWorld :=
  let setSimple (simple : AssocMap FlowKey SimpleEntry) : FlowWorld :=
    { world with state := { world.state with simple } }
  match world.state.simple.get? key with
  | none => (none, world)
  | some entry =>
    if entry.expiresAt < now then (none, setSimple (world.state.simple.erase key))
    else if entry.action = .accept ∧ parsed.protocol = 6 ∧ parsed.tcpFlags &&& 0x04 ≠ 0 then
      (some .accept, setSimple (world.state.simple.erase key))
    else
      let idle :=
        if entry.action = .accept ∧ parsed.protocol = 6 ∧ parsed.tcpFlags &&& 0x02 = 0 then
          tcpEstablishedTimeout
        else entry.idle
      (some entry.action, setSimple
        (world.state.simple.insert key { entry with idle, expiresAt := now + idle }))

/-- The network that the router is asked about; only new connections and echo requests
begin a flow.
-/
def network (parsed : ParsedPacket) : Option Network :=
  if parsed.protocol = 6 then if parsed.initialTcpSyn then some .tcp else none
  else if parsed.protocol = 17 then some .udp
  else if parsed.isIcmpEchoRequest then some .icmp
  else none

def checkSimple (now : Instant) : FlowWorld :=
  match world.tasks task with
  | some (.unlisted parsed key) =>
    match world.handleSimple key parsed now with
    | (some _, world) => world.setTask task .finished
    | (none, world) =>
      world.setTask task
        (if (network parsed).isSome then .routing parsed key else .finished)
  | _ => world

/-- A domain is replaced by its first address of the family of the packet. -/
def routedDestination (parsed : ParsedPacket) (verdict : Verdict) : Option SocketAddr :=
  match verdict.destination with
  | .ip address => some address
  | .domain _ number =>
    (verdict.destinationAddresses.find? (·.isIpv4 = parsed.source.ip.isIpv4)).map
      fun address => { ip := address, port := number }

def Port.addressFor (port : Port) (source : IpAddr) : Option IpAddr :=
  if source.isIpv4 then port.ipv4.map .v4 else port.ipv6.map .v6

variable (parsed : ParsedPacket) (key : FlowKey) (verdict : Verdict)

/-- The port of a verdict, if the packet can leave through it. -/
def planFor : Option Plan :=
  match verdict.port, routedDestination parsed verdict with
  | some port, some routedDestination =>
    if routedDestination.ip.isIpv4 ≠ parsed.source.ip.isIpv4 then none
    else
      match Port.addressFor port parsed.source.ip with
      | none => none
      | some portAddress =>
        if parsed.source.ip.isIpv6 ∧ port.mtu ≠ 0 ∧ port.mtu < 1280 then none
        else
          some {
            parsed, key, port, portAddress, routedDestination
            udpTimeout := verdict.udpTimeout.getD world.udpTimeout }
  | _, _ => none

/-- Packets that no port can carry are left to the endpoint. -/
def forwardPhase : DispatchPhase :=
  match world.planFor parsed key verdict with
  | some plan => .attaching plan
  | none => .installing key parsed.protocol .accept

/-- The next phase after routing. -/
def reaction : DispatchPhase :=
  let install (action : SimpleAction) : DispatchPhase := .installing key parsed.protocol action
  match verdict.action with
  | some (.reject method _) =>
    install (if method = "drop" ∨ verdict.rejectIsDrop then .drop else .reject)
  | some .hijackDns => .finished
  | some .direct => install .accept
  | some (.bypass outbound _) =>
    if outbound.isEmpty then install .accept else world.forwardPhase parsed key verdict
  | _ => world.forwardPhase parsed key verdict

/-- Routing ends, with `none` for an error. -/
def route (verdict : Option Verdict) : FlowWorld :=
  match world.tasks task with
  | some (.routing parsed key) =>
    match verdict with
    | none => world.setTask task .finished
    | some verdict => world.setTask task (world.reaction parsed key verdict)
  | _ => world

def installSimple (now : Instant) (keys : List StateEntryKey) : FlowWorld :=
  match world.tasks task with
  | some (.installing key protocol action) =>
    let idle :=
      if protocol = 6 then tcpTransitoryTimeout
      else if protocol = 17 then world.udpTimeout
      else icmpTimeout
    let world := world.evictIfFull now keys
    let simple := world.state.simple.insert key { action, idle, expiresAt := now + idle }
    { world with state := { world.state with simple } }.setTask task .finished
  | _ => world

/-- What is left of a port that is gone. -/
def forgetPort (id : Nat) : FlowWorld :=
  { world with state := { world.state with
    ports := update world.state.ports id none
    portOrder := world.state.portOrder.filter (· ≠ id)
    portByAddress := fun address => (world.state.portByAddress address).filter (· ≠ id) } }

/-- The first half of `ensure_return_attached`. -/
def attach : FlowWorld :=
  match world.tasks task with
  | some (.attaching plan) =>
    if (world.state.ports plan.port.id).any (·.alive) then
      world.setTask task (.allocating plan)
    else (world.forgetPort plan.port.id).setTask task (.connecting plan)
  | _ => world

def enterPort (port : Port) : FlowWorld :=
  let addresses := (port.ipv4.map IpAddr.v4).toList ++ (port.ipv6.map IpAddr.v6).toList
  { world with state := { world.state with
    portOrder := world.state.portOrder ++ [port.id]
    portByAddress := addresses.foldl
      (fun table address => update table address (some port.id))
      world.state.portByAddress
    ports := update world.state.ports port.id
      (some { alive := true, selectorRange := port.selectorRange, counter := 0 }) } }

/-- The second half, after the port has taken the return path or has refused it. -/
def connect (taken : Bool) : FlowWorld :=
  match world.tasks task with
  | some (.connecting plan) =>
    let range := plan.port.selectorRange
    if range.2 ≠ 0 ∧ 65536 < range.1.toNat + range.2.toNat ∨ taken = false then
      world.setTask task (.installing plan.key plan.parsed.protocol .accept)
    else if (world.state.ports plan.port.id).isSome then
      world.setTask task (.allocating plan)
    else (world.enterPort plan.port).setTask task (.allocating plan)
  | _ => world

/-- The key of the replies to a selector. -/
def replyKey (protocol : UInt8) (portAddress : IpAddr) (server : SocketAddr) (selector : UInt16)
    : FlowKey where
  protocol
  source := ⟨server.ip, if protocol = 1 ∨ protocol = 58 then selector else server.port⟩
  destination := ⟨portAddress, selector⟩

def searchSelector (free : UInt16 → Bool) (start count : Nat)
    : (rounds : Nat) → (counter : UInt32) → Option UInt16 × UInt32
  | 0, counter => (none, counter)
  | rounds + 1, counter =>
    let candidate := UInt16.ofNat (start + (counter + 1).toNat % count)
    if free candidate then (some candidate, counter + 1)
    else searchSelector free start count rounds (counter + 1)

/-- Where to look for selectors: echo identifiers have no range of a port's own. -/
def selectorBounds (nat : PortNatState) (protocol : UInt8) : Option (Nat × Nat) :=
  if protocol = 1 ∨ protocol = 58 ∨ nat.selectorRange.2 = 0 then
    some (natSelectorStart, 65535 - natSelectorStart + 1)
  else if nat.selectorRange.1.toNat + nat.selectorRange.2.toNat ≤ 65536 then
    some (nat.selectorRange.1.toNat, nat.selectorRange.2.toNat)
  else none

/-- The selector is chosen under the lock, and the lock is given up. -/
def allocateSelector (plan : Plan) : Option UInt16 × FlowWorld :=
  let id := plan.port.id
  let protocol := plan.parsed.protocol
  let free (candidate : UInt16) : Bool :=
    (world.state.reverse
      (id, replyKey protocol plan.portAddress plan.routedDestination candidate)).isNone
  match world.state.ports id with
  | none => (none, world)
  | some nat =>
    match selectorBounds nat protocol with
    | none => (none, world)
    | some (start, count) =>
      let preferred := plan.parsed.source.port
      if preferred ≠ 0 ∧ start ≤ preferred.toNat ∧ preferred.toNat < start + count
          ∧ free preferred then
        (some preferred, world)
      else
        let (found, counter) := searchSelector free start count count nat.counter
        (found, { world with state := { world.state with
          ports := update world.state.ports id (some { nat with counter }) } })

def allocate : FlowWorld :=
  match world.tasks task with
  | some (.allocating plan) =>
    match world.allocateSelector plan with
    | (some selector, world) => world.setTask task (.inserting plan selector)
    | (none, world) =>
      world.setTask task (.installing plan.key plan.parsed.protocol .reject)
  | _ => world

def newFlow (plan : Plan) (selector : UInt16) : Flow where
  forwardKey := plan.key
  reverseKey := replyKey plan.parsed.protocol plan.portAddress plan.routedDestination selector
  portId := plan.port.id
  forward := {
    sourceAddress := plan.portAddress
    sourceSelector := selector
    destinationAddress := plan.routedDestination.ip
    destinationSelector :=
      if plan.parsed.isIcmp then selector else plan.routedDestination.port }
  reverse := {
    sourceAddress := plan.parsed.destination.ip
    sourceSelector := plan.parsed.destination.port
    destinationAddress := plan.parsed.source.ip
    destinationSelector := plan.parsed.source.port }
  mtu := plan.port.mtu
  protocol := plan.parsed.protocol
  udpTimeout := plan.udpTimeout

def newCell (plan : Plan) (now : Instant) : FlowCell :=
  let idle :=
    if plan.parsed.protocol = 6 then tcpTransitoryTimeout
    else if plan.parsed.protocol = 17 then plan.udpTimeout
    else icmpTimeout
  ⟨idle, now + idle, none, false, false, false, false, false, false⟩

def createFlow (id : Nat) (flow : Flow) (cell : FlowCell) : FlowWorld :=
  { world with
    flows := update world.flows id (some flow)
    cells := update world.cells id cell }

def enterFlow (id : Nat) (flow : Flow) : FlowWorld :=
  { world with state := { world.state with
    forward := world.state.forward.insert flow.forwardKey id
    reverse := update world.state.reverse (flow.portId, flow.reverseKey) (some id) } }

/-- The flow is entered under the lock, taken anew. -/
def insertFlow (id : Nat) (created now : Instant) (keys : List StateEntryKey) : FlowWorld :=
  match world.tasks task with
  | some (.inserting plan selector) =>
    let flow := newFlow plan selector
    let world := (world.createFlow id flow (newCell plan created)).evictIfFull now keys
    (world.enterFlow id flow).setTask task (.forwarding id none)
  | _ => world

/-- The packet has been written to the port, or has not. -/
def forwarded : FlowWorld :=
  match world.tasks task with
  | some (.forwarding id (some now)) =>
    (world.setCell id ((world.cells id).close.touchTombstone now)).setTask task .finished
  | some (.forwarding _ none) => world.setTask task .finished
  | _ => world

/-- A call that is dropped where it waits. -/
def cancel : FlowWorld :=
  match world.tasks task with
  | some (.routing _ _) => world.setTask task .finished
  | some (.forwarding _ _) => world.setTask task .finished
  | _ => world

/-- `SweepAfterDispatch`: every call ends with a sweep. -/
def finish (now : Instant) (keys : List StateEntryKey) : FlowWorld :=
  match world.tasks task with
  | some .finished =>
    let world := world.maybeSweep now keys
    { world with tasks := update world.tasks task none }
  | _ => world

/-- The port that was attached last is asked first when ports share an address. -/
def lookupReverse (state : State) (key : FlowKey) : Option Nat :=
  match (state.portByAddress key.destination.ip).bind fun port => state.reverse (port, key) with
  | some flow => some flow
  | none => state.portOrder.findSome? fun port => state.reverse (port, key)

/-- The key under which a returned packet is looked up, with the quote of an ICMP error. -/
def returnKey (packet : List UInt8)
    : Option (ParsedPacket × Option EmbeddedPacket × FlowKey) := do
  let parsed ← ParsedPacket.parse packet
  if parsed.fragmented then none
  else
    match parsed.flowKey with
    | some key => some (parsed, none, key)
    | none =>
      if parsed.isIcmpError then
        let embedded ← EmbeddedPacket.parse packet parsed
        some (parsed, some embedded, embedded.flowKey.reversed)
      else none

/-- The next packet is looked up; with none left the call returns what it did not consume. -/
def returnNext : FlowWorld × Option FlowReply :=
  match world.returns task with
  | some { packets := [], held := none, unconsumed } =>
    ({ world with returns := update world.returns task none },
      some (.unconsumed unconsumed))
  | some { packets := packet :: packets, held := none, unconsumed } =>
    let found := (returnKey packet).bind fun (parsed, quote, key) =>
      (lookupReverse world.state key).map fun flow => { flow, packet, parsed, quote }
    match found with
    | some held => (world.setReturn task { packets, held := some held, unconsumed }, none)
    | none =>
      (world.setReturn task
        { packets, held := none, unconsumed := unconsumed ++ [packet] }, none)
  | _ => (world, none)

/-- What the packet around the quote of an ICMP error becomes. -/
def errorRewrite (parsed : ParsedPacket) (flow : Flow) : Rewrite where
  sourceAddress :=
    if parsed.source.ip = flow.forward.destinationAddress then flow.reverse.sourceAddress
    else parsed.source.ip
  sourceSelector := parsed.source.port
  destinationAddress := flow.reverse.destinationAddress
  destinationSelector := parsed.destination.port

/-- An ICMP error with its quote: the result says whether it was consumed. -/
def returnIcmpError (packet : List UInt8) (parsed : ParsedPacket) (embedded : EmbeddedPacket)
    (flow : Flow)
    : Bool × List UInt8 :=
  match rewriteEmbeddedPacket packet embedded flow.reverse.destinationAddress
      flow.reverse.destinationSelector flow.reverse.sourceAddress flow.reverse.sourceSelector with
  | .error _ => (false, packet)
  | .ok packet =>
    match rewritePacket packet parsed (errorRewrite parsed flow) with
    | .error _ => (false, packet)
    | .ok packet => (true, packet)

/-- `none` when the packet is dropped. -/
def returnPacket (packet : List UInt8) (parsed : ParsedPacket) (flow : Flow)
    : Option (List UInt8) := do
  let packet ← (rewritePacket packet parsed flow.reverse).toOption
  if parsed.protocol = 6 then (clampTcpMss packet parsed flow.mtu).toOption
  else some packet

/-- The packet that is held goes back to where its flow came from. -/
def returnHeld (cancelled : Bool) (now : Instant) : FlowWorld × Option FlowReply :=
  match world.returns task with
  | some { packets, held := some held, unconsumed } =>
    match world.flows held.flow with
    | none => (world, none)
    | some flow =>
      let world := if cancelled then world.closeFlow held.flow else world
      let consumed := world.setReturn task { packets, held := none, unconsumed }
      let cell := world.cells held.flow
      match held.quote with
      | none =>
        if cell.closed then (consumed, none)
        else
          let consumed := consumed.setCell held.flow
            (cell.observeReverse flow held.parsed now)
          (consumed, (returnPacket held.packet held.parsed flow).map .written)
      | some embedded =>
        let refused (packet : List UInt8) : FlowWorld :=
          world.setReturn task
            { packets, held := none, unconsumed := unconsumed ++ [packet] }
        if cell.closed then (refused held.packet, none)
        else
          match returnIcmpError held.packet held.parsed embedded flow with
          | (true, packet) => (consumed, some (.written packet))
          | (false, packet) => (refused packet, none)
  | _ => (world, none)

end FlowWorld

/-- One step of one task. New tasks and flows bring a number of their own. -/
inductive FlowAction where
  | dispatch (task : Nat) (packet : List UInt8) (now : Instant)
  | observe (task : Nat) (cancelled : Bool) (now : Instant)
  | checkSimple (task : Nat) (now : Instant)
  | route (task : Nat) (verdict : Option Verdict)
  | installSimple (task : Nat) (now : Instant) (keys : List StateEntryKey)
  | attach (task : Nat)
  | connect (task : Nat) (taken : Bool)
  | allocate (task : Nat)
  | insertFlow (task id : Nat) (created now : Instant) (keys : List StateEntryKey)
  | forwarded (task : Nat)
  | cancel (task : Nat)
  | finish (task : Nat) (now : Instant) (keys : List StateEntryKey)
  | returnPackets (task : Nat) (packets : List (List UInt8))
  | returnNext (task : Nat)
  | returnHeld (task : Nat) (cancelled : Bool) (now : Instant)
  | resetNetwork
  | closeDrained
  | dropPort (id : Nat)

def FlowWorld.step (world : FlowWorld) : FlowAction → FlowWorld × Option FlowReply
  | .dispatch task packet now =>
    if (world.tasks task).isSome then (world, none) else (world.dispatch task packet now, none)
  | .observe task cancelled now => (world.observe task cancelled now, none)
  | .checkSimple task now => (world.checkSimple task now, none)
  | .route task verdict => (world.route task verdict, none)
  | .installSimple task now keys => (world.installSimple task now keys, none)
  | .attach task => (world.attach task, none)
  | .connect task taken => (world.connect task taken, none)
  | .allocate task => (world.allocate task, none)
  | .insertFlow task id created now keys =>
    if (world.flows id).isSome then (world, none)
    else (world.insertFlow task id created now keys, none)
  | .forwarded task => (world.forwarded task, none)
  | .cancel task => (world.cancel task, none)
  | .finish task now keys => (world.finish task now keys, none)
  | .returnPackets task packets =>
    if (world.returns task).isSome then (world, none)
    else (world.setReturn task { packets, held := none, unconsumed := [] }, none)
  | .returnNext task => world.returnNext task
  | .returnHeld task cancelled now => world.returnHeld task cancelled now
  | .resetNetwork => (world.resetNetwork, none)
  | .closeDrained => (world.closeDrained, none)
  | .dropPort id =>
    ({ world with state := { world.state with
      ports := update world.state.ports id
        ((world.state.ports id).map fun nat => { nat with alive := false }) } }, none)

end Zay.Endpoint
