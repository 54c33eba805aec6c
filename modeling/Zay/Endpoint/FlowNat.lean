import Zay.Endpoint.FlowDispatch
import Zay.Endpoint.IcmpQuote
import Zay.Lib.PairedIndex
import Zay.Lib.Runs

/-! The address translation of the flow dispatcher is one-to-one as long as a flow is entered
only where it fits.
-/

namespace Zay.Endpoint

open Lib Net FlowWorld ParsedPacket List Option Function AssocMap

/-- The key of a flow's packets, and the port and key of the replies to them. -/
def Flow.ends (flow : Flow) : FlowKey × Nat × FlowKey :=
  (flow.forwardKey, flow.portId, flow.reverseKey)

/-- The replies of a flow belong to its packets. -/
structure Flow.Proper (flow : Flow) : Prop where
  reverse : flow.reverse = {
    sourceAddress := flow.forwardKey.destination.ip
    sourceSelector := flow.forwardKey.destination.port
    destinationAddress := flow.forwardKey.source.ip
    destinationSelector := flow.forwardKey.source.port }
  protocol : flow.reverseKey.protocol = flow.forwardKey.protocol
  family : flow.forwardKey.destination.ip.isIpv4 = flow.forwardKey.source.ip.isIpv4
  replies : flow.reverseKey.source.ip.isIpv4 = flow.forwardKey.source.ip.isIpv4
  echo : flow.forwardKey.protocol = 1 ∨ flow.forwardKey.protocol = 58 →
    flow.forwardKey.source.port = flow.forwardKey.destination.port

/-- A flow is of the family of what comes back on it. -/
theorem Flow.Proper.families {flow : Flow} {ipVersion} (proper : flow.Proper)
    (ho : Family ipVersion flow.reverseKey.source.ip)
    : Family ipVersion flow.forwardKey.source.ip
      ∧ Family ipVersion flow.forwardKey.destination.ip :=
  have hi := proper.replies.symm.trans ho
  ⟨hi, proper.family.trans hi⟩

/-- The packet has the key. -/
structure Tracked (parsed : ParsedPacket) (key : FlowKey) : Prop where
  key : key = { protocol := parsed.protocol, source := parsed.source
                destination := parsed.destination }
  family : parsed.destination.ip.isIpv4 = parsed.source.ip.isIpv4
  echo : parsed.protocol = 1 ∨ parsed.protocol = 58 →
    parsed.source.port = parsed.destination.port

structure Plan.Proper (plan : Plan) : Prop where
  tracked : Tracked plan.parsed plan.key
  routed : plan.routedDestination.ip.isIpv4 = plan.parsed.source.ip.isIpv4

theorem Plan.Proper.newFlow {plan} (proper : plan.Proper) (selector : UInt16)
    : (newFlow plan selector).Proper where
  reverse := by
    simp [FlowWorld.newFlow, proper.tracked.key]
  protocol := by
    simp [FlowWorld.newFlow, FlowWorld.replyKey, proper.tracked.key]
  family := by
    simp only [FlowWorld.newFlow, proper.tracked.key]
    exact proper.tracked.family
  replies := by
    simp only [FlowWorld.newFlow, FlowWorld.replyKey, proper.tracked.key]
    exact proper.routed
  echo := by
    simp only [FlowWorld.newFlow, proper.tracked.key]
    exact proper.tracked.echo

variable {start : FlowWorld}

namespace FlowWorld

def ends (world : FlowWorld) (id : Nat) : Option (FlowKey × Nat × FlowKey) :=
  (world.flows id).map Flow.ends

def Attached (ports : Nat → Option PortNatState) (id : Nat) : Prop :=
  ∃ nat, ports id = some nat ∧ nat.alive

/-- What a call of `dispatch` can rely on. -/
def Prepared (ports : Nat → Option PortNatState) : DispatchPhase → Prop
  | .unlisted parsed key => Tracked parsed key
  | .routing parsed key => Tracked parsed key
  | .attaching plan => plan.Proper
  | .connecting plan =>
    plan.Proper ∧ ∀ nat, ports plan.port.id = some nat → nat.alive
  | .allocating plan => plan.Proper ∧ Attached ports plan.port.id
  | .inserting plan _ => plan.Proper ∧ Attached ports plan.port.id
  | _ => True

/-- The packet that a call of `return_packets` holds is one of the flow. -/
def Matched (flows : Nat → Option Flow) (held : Held) : Prop :=
  ∃ flow, flows held.flow = some flow
    ∧ returnKey held.packet = some (held.parsed, held.quote, flow.reverseKey)

structure Sound (world : FlowWorld) : Prop where
  paired : Paired world.state.forward.get? world.state.reverse world.ends
  proper : ∀ id flow, world.flows id = some flow → flow.Proper
  attached : ∀ key id flow, world.state.forward.get? key = some id →
    world.flows id = some flow → Attached world.state.ports flow.portId
  ordered : ∀ id nat, world.state.ports id = some nat → id ∈ world.state.portOrder
  prepared : ∀ task phase, world.tasks task = some phase → Prepared world.state.ports phase
  matched : ∀ task state held, world.returns task = some state → state.held = some held →
    Matched world.flows held

/-- The flow in question and its number. -/
def Listed (world : FlowWorld) (id : Nat) (flow : Flow) : Prop :=
  world.state.forward.get? flow.forwardKey = some id ∧ world.flows id = some flow

def DispatchPhase.port? : DispatchPhase → Option Nat
  | .attaching plan => some plan.port.id
  | .connecting plan => some plan.port.id
  | .allocating plan => some plan.port.id
  | .inserting plan _ => some plan.port.id
  | _ => none

/-- Something holds a reference to the port. -/
def PortHeld (world : FlowWorld) (id : Nat) : Prop :=
  (∃ number flow, world.Listed number flow ∧ flow.portId = id)
  ∨ ∃ task phase, world.tasks task = some phase ∧ DispatchPhase.port? phase = some id

/-- The conditions on a step. A listed flow has both ends of a flow that is entered or
neither; a returned packet has the key of flows of one port only; the quote of an ICMP error
is of the version of the error and has all of a UDP header; a port goes when nothing holds it.
-/
def Admissible (world : FlowWorld) : FlowAction → Prop
  | .insertFlow task _ _ _ _ =>
    ∀ plan selector, world.tasks task = some (.inserting plan selector) →
      ∀ id flow, world.Listed id flow →
        (flow.forwardKey = plan.key ↔
          (flow.portId, flow.reverseKey) = (plan.port.id, replyKey plan.parsed.protocol
            plan.portAddress plan.routedDestination selector))
  | .returnNext task =>
    ∀ state packet packets parsed quote key, world.returns task = some state →
      state.packets = packet :: packets → returnKey packet = some (parsed, quote, key) →
      ∀ id flow id' flow', world.Listed id flow → world.Listed id' flow' →
        flow.reverseKey = key → flow'.reverseKey = key → flow.portId = flow'.portId
  | .returnHeld task _ _ =>
    ∀ state held quote, world.returns task = some state → state.held = some held →
      held.quote = some quote → quote.ipVersion = held.parsed.ipVersion
        ∧ (quote.protocol = 17 → quote.transportOffset + 8 ≤ held.packet.length)
  | .dropPort id => ¬world.PortHeld id
  | _ => True

--------
-- Steps that only take flows out
--------

/-- Only entries were taken out, and each flow with both its ends. -/
structure Shrinks (before after : FlowWorld) : Prop where
  flows : after.flows = before.flows
  tasks : after.tasks = before.tasks
  returns : after.returns = before.returns
  ports : after.state.ports = before.state.ports
  portOrder : after.state.portOrder = before.state.portOrder
  forward : ∀ key id, after.state.forward.get? key = some id →
    before.state.forward.get? key = some id
  paired : Paired before.state.forward.get? before.state.reverse before.ends →
    Paired after.state.forward.get? after.state.reverse after.ends

namespace Shrinks

variable {before middle after : FlowWorld}

theorem refl (world) : Shrinks world world :=
  ⟨rfl, rfl, rfl, rfl, rfl, fun _ _ => id, id⟩

theorem trans (left : Shrinks before middle) (right : Shrinks middle after)
    : Shrinks before after where
  flows := right.flows.trans left.flows
  tasks := right.tasks.trans left.tasks
  returns := right.returns.trans left.returns
  ports := right.ports.trans left.ports
  portOrder := right.portOrder.trans left.portOrder
  forward key id found := left.forward key id (right.forward key id found)
  paired := right.paired ∘ left.paired

theorem sound (shrinks : Shrinks before after) (hs : before.Sound) : after.Sound where
  paired := shrinks.paired hs.paired
  proper := by
    rw [shrinks.flows]
    exact hs.proper
  attached key id flow found held := by
    rw [shrinks.ports]
    exact hs.attached key id flow (shrinks.forward key id found) (shrinks.flows ▸ held)
  ordered := by
    rw [shrinks.ports, shrinks.portOrder]
    exact hs.ordered
  prepared := by
    rw [shrinks.tasks, shrinks.ports]
    exact hs.prepared
  matched := by
    rw [shrinks.returns, shrinks.flows]
    exact hs.matched

end Shrinks

variable {world : FlowWorld}

theorem shrinks_setCell (world flow cell) : Shrinks world (world.setCell flow cell) :=
  { Shrinks.refl world with }

variable {key : FlowKey} {id task port : Nat} {flow : Flow} {packet : List UInt8}
  {parsed : ParsedPacket}

theorem ends_eq (held : world.flows id = some flow)
    : world.ends id = some (flow.forwardKey, flow.portId, flow.reverseKey) :=
  congrArg (Option.map Flow.ends) held

theorem listed_of_ends {reply} (own : world.ends id = some (key, port, reply))
    (hf : world.state.forward.get? key = some id)
    : ∃ flow, world.Listed id flow ∧ flow.forwardKey = key ∧ flow.portId = port
      ∧ flow.reverseKey = reply := by
  obtain ⟨flow, held, he⟩ := map_eq_some_iff.mp own
  cases he
  exact ⟨flow, ⟨hf, held⟩, rfl, rfl, rfl⟩

/-- Both ends of a listed flow are taken out. -/
theorem shrinks_erase (hf : world.state.forward.get? key = some id)
    (held : world.flows id = some flow)
    : Shrinks world { world with state := { world.state with
      forward := world.state.forward.erase key
      reverse := update world.state.reverse (flow.portId, flow.reverseKey) none } } where
  flows := rfl
  tasks := rfl
  returns := rfl
  ports := rfl
  portOrder := rfl
  forward _ _ := get?_of_erase
  paired paired := by
    have own := ends_eq held
    obtain ⟨place, -⟩ := paired.answer_eq hf own
    rw [get?_erase_eq_update]
    exact paired.erase hf (place ▸ own)

theorem shrinks_removeStateEntry (world key) : Shrinks world (world.removeStateEntry key) := by
  cases key with
  | flow key =>
    simp only [removeStateEntry]
    split
    · exact .refl _
    next id hf =>
      split
      next flow held =>
        exact (shrinks_erase hf held).trans (shrinks_setCell ..)
      · exact .refl _
  | simple key => exact { Shrinks.refl world with }

variable (keys : List StateEntryKey) (now : Instant)

theorem shrinks_foldl {step} (hs : ∀ world key, Shrinks world (step world key)) (world)
    : Shrinks world (keys.foldl step world) :=
  foldlRecOn keys step (.refl world) fun next before key _ => before.trans (hs next key)

section

variable (world : FlowWorld)

theorem shrinks_flowExpired (flow : Nat) : Shrinks world (world.flowExpired flow now).2 :=
  shrinks_setCell ..

theorem shrinks_deadline (key) : Shrinks world (world.deadline now key).2 := by
  cases key with
  | flow key =>
    simp only [deadline]
    split
    · exact .refl _
    · exact shrinks_flowExpired ..
  | simple key => exact .refl _

theorem shrinks_survey (keys expired oldest)
    : Shrinks world (world.survey now keys expired oldest).2.2 := by
  induction keys generalizing world expired oldest with
  | nil => exact .refl world
  | cons key keys ih =>
    have first := shrinks_deadline now world key
    simp only [survey]
    split <;> rename_i found <;> rw [found] at first
    · exact first.trans (ih ..)
    · exact first.trans (ih ..)
    · split <;> exact first.trans (ih ..)

theorem shrinks_evictIfFull : Shrinks world (world.evictIfFull now keys) := by
  unfold evictIfFull
  split
  · exact .refl _
  split
  · exact .refl _
  have cursor : Shrinks world { world with state := { world.state with
      evictionCursor := (scan keys world.state.evictionCursor).2 } } :=
    { Shrinks.refl world with }
  have surveyed := cursor.trans (shrinks_survey now _
    (scan keys world.state.evictionCursor).1 [] none)
  simp only
  split
  · split
    · exact surveyed.trans (shrinks_removeStateEntry ..)
    · exact surveyed
  · exact surveyed.trans (shrinks_foldl _ shrinks_removeStateEntry ..)

theorem shrinks_sweepEntry (key) : Shrinks world (sweepEntry now world key) := by
  cases key with
  | flow key =>
    simp only [sweepEntry]
    split
    · exact .refl _
    next id hf =>
      split
      · exact shrinks_setCell ..
      have hl := shrinks_flowExpired now world id
      split
      next expired =>
        rw [expired] at hl
        exact hl.trans (shrinks_removeStateEntry ..)
      next hk =>
        rw [hk] at hl
        exact hl
  | simple key =>
    simp only [sweepEntry]
    split
    · exact shrinks_removeStateEntry ..
    · exact .refl _

theorem shrinks_maybeSweep : Shrinks world (world.maybeSweep now keys) := by
  unfold maybeSweep
  split
  · exact .refl _
  have cursor : Shrinks world { world with state := { world.state with
      lastSweep := some now, sweepCursor := (scan keys world.state.sweepCursor).2 } } :=
    { Shrinks.refl world with }
  exact cursor.trans (shrinks_foldl _ (shrinks_sweepEntry now) ..)

theorem shrinks_lookupForward (key) (hs : world.Sound)
    : Shrinks world (world.lookupForward key now).2 := by
  unfold lookupForward
  split
  · exact .refl _
  next id hf =>
    split
    · exact .refl _
    next flow held =>
      have hl := shrinks_flowExpired now world id
      have he : flow.forwardKey = key := (hs.paired.answer_eq hf (ends_eq held)).1
      simp only
      split
      · rw [unlist, he]
        exact hl.trans (shrinks_erase hf held)
      · exact hl

end

variable {state : ReturnTask} {gone : Nat} {embedded : EmbeddedPacket}

theorem family_addressAt (packet ipVersion offset4 offset6)
    : Family ipVersion (addressAt packet ipVersion offset4 offset6) := by
  unfold Family addressAt
  split <;> rename_i version <;> simp [version, ipv4At, ipv6At, IpAddr.isIpv4]

theorem tracked_of_parse (read : parse packet = some parsed)
    (hc : parsed.fragmented = false) (keyed : parsed.flowKey = some key)
    : Tracked parsed key := by
  have shape := (located_of_parse read hc).selectors
  have source := congrArg source shape
  have destination := congrArg destination shape
  unfold flowKey at keyed
  split at keyed
  · cases keyed
    refine ⟨rfl, ?_, fun icmp => ?_⟩
    · rw [source, destination]
      exact (family_addressAt ..).trans (family_addressAt ..).symm
    · rw [source, destination]
      -- The selectors of an echo packet are both its identifier.
      simp only [selectorsOf, selectors]
      rcases icmp with icmp | icmp <;> simp [icmp] <;> split <;> rfl
  · cases keyed

/-- The entry of a port that is needed stays alive. -/
def StaysAlive (before after : Nat → Option PortNatState) (id : Nat) : Prop :=
  (Attached before id → Attached after id)
  ∧ ((∀ nat, before id = some nat → nat.alive) → ∀ nat, after id = some nat → nat.alive)

section

variable (hs : world.Sound)

include hs

--------
-- Dispatching
--------

namespace Sound

theorem setTask {phase} (prepared : Prepared world.state.ports phase)
    : (world.setTask task phase).Sound := by
  refine { hs with prepared := fun other held hf => ?_ }
  rcases update_eq_some hf with ⟨rfl, ⟨⟩⟩ | ⟨-, he⟩
  · exact prepared
  · exact hs.prepared other held he

theorem setReturn (matched : ∀ held, state.held = some held → Matched world.flows held)
    : (world.setReturn task state).Sound := by
  refine { hs with matched := fun other returning held hf holds => ?_ }
  rcases update_eq_some hf with ⟨rfl, ⟨⟩⟩ | ⟨-, earlier⟩
  · exact matched held holds
  · exact hs.matched other returning held earlier holds

variable (task : Nat) (cancelled : Bool) (now : Instant) (keys : List StateEntryKey)

theorem release (packets unconsumed)
    : (world.setReturn task { packets, held := none, unconsumed }).Sound :=
  hs.setReturn fun _ impossible => absurd impossible (some_ne_none _).symm

theorem setCell (flow cell) : (world.setCell flow cell).Sound :=
  (shrinks_setCell world flow cell).sound hs

theorem closeIf (flow : Nat) : (if cancelled then world.closeFlow flow else world).Sound := by
  split
  · exact hs.setCell ..
  · exact hs

theorem dispatch (packet now) : (world.dispatch task packet now).Sound := by
  unfold FlowWorld.dispatch
  split
  · exact hs.setTask trivial
  rename_i parsed read
  split
  · exact hs.setTask trivial
  rename_i complete
  split
  · exact hs.setTask trivial
  rename_i key keyed
  have hl := (shrinks_lookupForward now world key hs).sound hs
  split
  next hf =>
    rw [hf] at hl
    exact hl.setTask trivial
  next hf =>
    rw [hf] at hl
    exact hl.setTask (tracked_of_parse read (by simpa using complete) keyed)

theorem observe : (world.observe task cancelled now).Sound := by
  unfold FlowWorld.observe
  split
  next id parsed _ =>
    split
    · exact hs
    have hc := hs.closeIf cancelled id
    simp only
    generalize (if cancelled then world.closeFlow id else world) = current at hc ⊢
    split <;> exact (hc.setCell _ _).setTask trivial
  · exact hs

/-- The verdicts that are kept for other packets do not count. -/
theorem setSimple (simple)
    : { world with state := { world.state with simple } : FlowWorld }.Sound :=
  { hs with }

theorem handleSimple (key parsed now) : (world.handleSimple key parsed now).2.Sound := by
  unfold FlowWorld.handleSimple
  split
  · exact hs
  split
  · exact hs.setSimple _
  · split <;> exact hs.setSimple _

theorem checkSimple : (world.checkSimple task now).Sound := by
  unfold FlowWorld.checkSimple
  split
  next parsed key unlisted =>
    have tracked : Tracked parsed key := hs.prepared task _ unlisted
    have handled := hs.handleSimple key parsed now
    split
    next hf =>
      rw [hf] at handled
      exact handled.setTask trivial
    next hf =>
      rw [hf] at handled
      refine handled.setTask ?_
      split
      · exact tracked
      · trivial
  · exact hs

theorem route (verdict) : (world.route task verdict).Sound := by
  unfold FlowWorld.route
  split
  next parsed key routing =>
    have tracked : Tracked parsed key := hs.prepared task _ routing
    split
    · exact hs.setTask trivial
    rename_i verdict
    refine hs.setTask ?_
    have planned : Prepared world.state.ports (world.forwardPhase parsed key verdict) := by
      unfold forwardPhase
      split
      next plan hf =>
        unfold planFor at hf
        split at hf
        · split at hf
          · cases hf
          rename_i routed
          split at hf
          · cases hf
          split at hf
          · cases hf
          cases hf
          exact ⟨tracked, by simpa using routed⟩
        · cases hf
      · trivial
    unfold reaction
    split
    · trivial
    · trivial
    · trivial
    · split
      · trivial
      · exact planned
    · exact planned
  · exact hs

theorem installSimple : (world.installSimple task now keys).Sound := by
  unfold FlowWorld.installSimple
  split
  · have he := (shrinks_evictIfFull keys now world).sound hs
    refine (he.setSimple _).setTask ?_
    trivial
  · exact hs

/-- Only the entry of one port changes. -/
theorem withPort {value portOrder}
    (order : ∀ other ∈ world.state.portOrder, other ≠ id → other ∈ portOrder)
    (ordered : ∀ nat, value = some nat → id ∈ portOrder) (alive : world.PortHeld id →
      StaysAlive world.state.ports (update world.state.ports id value) id) (portByAddress)
    : { world with state := { world.state with
      ports := update world.state.ports id value, portOrder, portByAddress } }.Sound := by
  have alive : ∀ other, world.PortHeld other →
      StaysAlive world.state.ports (update world.state.ports id value) other := by
    intro other hh
    by_cases he : other = id
    · subst he
      exact alive hh
    unfold StaysAlive Attached
    rw [update_of_ne he]
    exact ⟨fun attached => attached, fun alive => alive⟩
  refine { hs with attached := ?_, ordered := ?_, prepared := ?_ }
  · intro key number flow hf held
    obtain ⟨place, -⟩ := hs.paired.answer_eq hf (ends_eq held)
    exact (alive _ (.inl ⟨number, flow, ⟨place ▸ hf, held⟩, rfl⟩)).1
      (hs.attached key number flow hf held)
  · intro other nat hf
    rcases update_eq_some hf with ⟨rfl, entered⟩ | ⟨ha, earlier⟩
    · exact ordered nat entered
    · exact order other (hs.ordered other nat earlier) ha
  · intro task phase hf
    have prepared := hs.prepared task phase hf
    have hk (id : Nat) (port : DispatchPhase.port? phase = some id) :=
      alive id (.inr ⟨task, phase, hf, port⟩)
    cases phase with
    | connecting plan => exact ⟨prepared.1, (hk _ rfl).2 prepared.2⟩
    | allocating plan => exact ⟨prepared.1, (hk _ rfl).1 prepared.2⟩
    | inserting plan _ => exact ⟨prepared.1, (hk _ rfl).1 prepared.2⟩
    | _ => exact prepared

theorem forgetPort (dead : ¬Attached world.state.ports gone)
    : (world.forgetPort gone).Sound := by
  refine hs.withPort (fun _ hm ha => ?_) (by simp) (fun _ => ?_) _
  · exact mem_filter.mpr ⟨hm, by simpa using ha⟩
  · exact ⟨fun attached => absurd attached dead, fun _ _ hf => by simp at hf⟩

theorem attach : (world.attach task).Sound := by
  unfold FlowWorld.attach
  split
  next plan attaching =>
    have proper : plan.Proper := hs.prepared task _ attaching
    have attached_iff : (world.state.ports plan.port.id).any (·.alive) = true
        ↔ Attached world.state.ports plan.port.id := by
      simp [Attached, Option.any_eq_true]
    split
    next alive =>
      exact hs.setTask ⟨proper, attached_iff.mp alive⟩
    next dead =>
      refine (hs.forgetPort (mt attached_iff.mpr dead)).setTask ⟨proper, fun _ hl => ?_⟩
      simp only [FlowWorld.forgetPort, update_self] at hl
      cases hl
  · exact hs

theorem enterPort (port : Port) : (world.enterPort port).Sound := by
  refine hs.withPort (fun _ hm _ => mem_append_left _ hm)
    (fun _ _ => mem_append_right _ mem_cons_self) (fun _ => ?_) _
  refine ⟨fun _ => ⟨_, update_self .., rfl⟩, fun _ _ hf => ?_⟩
  rw [update_self] at hf
  cases hf
  rfl

theorem connect (taken : Bool) : (world.connect task taken).Sound := by
  unfold FlowWorld.connect
  split
  next plan connecting =>
    obtain ⟨proper, alive⟩ : plan.Proper ∧ ∀ nat, world.state.ports plan.port.id = some nat →
        nat.alive := hs.prepared task _ connecting
    simp only
    split
    · exact hs.setTask trivial
    split
    next hp =>
      obtain ⟨nat, hf⟩ := isSome_iff_exists.mp hp
      exact hs.setTask ⟨proper, nat, hf, alive nat hf⟩
    · exact (hs.enterPort plan.port).setTask ⟨proper, _, update_self .., rfl⟩
  · exact hs

theorem allocateSelector (plan : Plan)
    : (world.allocateSelector plan).2.Sound
      ∧ (world.allocateSelector plan).2.tasks = world.tasks
      ∧ (Attached world.state.ports plan.port.id →
        Attached (world.allocateSelector plan).2.state.ports plan.port.id) := by
  unfold FlowWorld.allocateSelector
  simp only
  split
  · exact ⟨hs, rfl, id⟩
  rename_i nat present
  split
  · exact ⟨hs, rfl, id⟩
  split
  · exact ⟨hs, rfl, id⟩
  have hc (counter : UInt32)
      : StaysAlive world.state.ports (update world.state.ports plan.port.id
        (some { nat with counter })) plan.port.id := by
    unfold StaysAlive Attached
    rw [update_self, present]
    simp
  refine ⟨hs.withPort (fun _ hm _ => hm) (fun _ _ => ?_) (fun _ => hc _) _, rfl, (hc _).1⟩
  exact hs.ordered _ nat present

theorem allocate : (world.allocate task).Sound := by
  unfold FlowWorld.allocate
  split
  next plan allocating =>
    obtain ⟨proper, ha⟩ : plan.Proper ∧ Attached world.state.ports plan.port.id :=
      hs.prepared task _ allocating
    obtain ⟨chosen, -, hk⟩ := hs.allocateSelector plan
    split
    next hf =>
      rw [hf] at chosen hk
      exact chosen.setTask ⟨proper, hk ha⟩
    next hf =>
      rw [hf] at chosen
      exact chosen.setTask trivial
  · exact hs

/-- A new flow changes nothing that is listed. -/
theorem createFlow (hn : world.flows id = none) (proper : flow.Proper) (cell)
    : (world.createFlow id flow cell).Sound := by
  have hk {other : Nat} {held : Flow} (hf : world.flows other = some held)
      : (world.createFlow id flow cell).flows other = some held :=
    (update_of_ne (ne_of_eq_none hn hf) ..).trans hf
  refine { hs with paired := ?_, proper := ?_, attached := ?_, matched := ?_ }
  · refine hs.paired.extend fun other _ own => ?_
    obtain ⟨held, hf, he⟩ := map_eq_some_iff.mp own
    exact map_eq_some_iff.mpr ⟨held, hk hf, he⟩
  · intro other held hf
    rcases update_eq_some hf with ⟨rfl, ⟨⟩⟩ | ⟨-, earlier⟩
    · exact proper
    · exact hs.proper other held earlier
  · intro key other held hf hp
    obtain ⟨_, own, -⟩ := hs.paired.answered hf
    obtain ⟨earlier, there, -⟩ := map_eq_some_iff.mp own
    rw [hk there] at hp
    cases hp
    exact hs.attached key other _ hf there
  · intro task state held returning hh
    obtain ⟨own, hf, read⟩ := hs.matched task state held returning hh
    exact ⟨own, hk hf, read⟩

theorem enterFlow (hc : world.flows id = some flow)
    (attached : Attached world.state.ports flow.portId)
    (fits : ∀ other held, world.Listed other held →
      (held.forwardKey = flow.forwardKey ↔
        (held.portId, held.reverseKey) = (flow.portId, flow.reverseKey)))
    : (world.enterFlow id flow).Sound := by
  refine { hs with paired := ?_, attached := ?_ }
  · show Paired (world.state.forward.insert flow.forwardKey id).get? _ _
    rw [get?_insert_eq_update]
    refine hs.paired.insert (ends_eq hc) fun other held _ hf own => ?_
    obtain ⟨listed, there, he⟩ := map_eq_some_iff.mp own
    cases he
    exact fits held listed ⟨hf, there⟩
  · intro key other held hf there
    simp only [FlowWorld.enterFlow, get?_insert] at hf
    split at hf
    · cases hf
      cases some.inj (hc.symm.trans there)
      exact attached
    · exact hs.attached key other held hf there

/-- A flow that fits is entered. -/
theorem insertFlow {task} (created now keys) (hn : world.flows id = none)
    (fits : world.Admissible (.insertFlow task id created now keys))
    : (world.insertFlow task id created now keys).Sound := by
  unfold FlowWorld.insertFlow
  split
  next plan selector inserting =>
    obtain ⟨proper, ha⟩ : plan.Proper ∧ Attached world.state.ports plan.port.id :=
      hs.prepared task _ inserting
    have hg := hs.createFlow hn (proper.newFlow selector) (newCell plan created)
    have evicted := shrinks_evictIfFull keys now (world.createFlow id (newFlow plan selector)
      (newCell plan created))
    refine setTask ((evicted.sound hg).enterFlow ?_ ?_ ?_) trivial
    · rw [evicted.flows]
      exact update_self ..
    · rw [evicted.ports]
      exact ha
    · intro other held hl
      -- What is still listed was listed before the flow was made.
      have hf : world.state.forward.get? held.forwardKey = some other :=
        evicted.forward _ _ hl.1
      obtain ⟨_, own, -⟩ := hs.paired.answered hf
      obtain ⟨_, there, -⟩ := map_eq_some_iff.mp own
      have he : world.flows other = some held := by
        have hk := hl.2
        rw [evicted.flows] at hk
        exact (update_of_ne (ne_of_eq_none hn there) ..).symm.trans hk
      exact fits plan selector inserting other held ⟨hf, he⟩
  · exact hs

theorem forwarded : (world.forwarded task).Sound := by
  unfold FlowWorld.forwarded
  split
  · exact (hs.setCell _ _).setTask trivial
  · exact hs.setTask trivial
  · exact hs

theorem cancel : (world.cancel task).Sound := by
  unfold FlowWorld.cancel
  split
  · exact hs.setTask trivial
  · exact hs.setTask trivial
  · exact hs

theorem finish : (world.finish task now keys).Sound := by
  unfold FlowWorld.finish
  split
  · have swept := (shrinks_maybeSweep keys now world).sound hs
    refine { swept with prepared := fun other phase hf => ?_ }
    obtain ⟨-, ⟨⟩⟩ | ⟨-, he⟩ := update_eq_some hf
    exact swept.prepared other phase he
  · exact hs

theorem resetNetwork : world.resetNetwork.Sound := by
  refine { hs with paired := .empty _, attached := ?_ }
  intro key id flow hf
  simp [FlowWorld.resetNetwork] at hf

theorem closeDrained : world.closeDrained.Sound := by
  unfold FlowWorld.closeDrained
  split
  · exact hs
  next flow draining _ =>
    have rest : ({ world with draining } : FlowWorld).Sound := { hs with }
    exact rest.setCell _ _

theorem dropPort (unheld : ¬world.PortHeld gone) : (world.step (.dropPort gone)).1.Sound := by
  refine hs.withPort (fun _ hm _ => hm) (fun _ he => ?_) (fun held => absurd held unheld) _
  obtain ⟨entry, hp, -⟩ := map_eq_some_iff.mp he
  exact hs.ordered _ entry hp

--------
-- Returning
--------

theorem reversed (hl : world.Listed id flow)
    : world.state.reverse (flow.portId, flow.reverseKey) = some id :=
  (hs.paired.answer_eq hl.1 (ends_eq hl.2)).2

theorem listed_of_reverse (hf : world.state.reverse (port, key) = some id)
    : ∃ flow, world.Listed id flow ∧ flow.portId = port ∧ flow.reverseKey = key := by
  obtain ⟨_, own, forward⟩ := hs.paired.listed hf
  obtain ⟨flow, hl, -, he⟩ := listed_of_ends own forward
  exact ⟨flow, hl, he⟩

/-- The flow that is found has the key. -/
theorem lookupReverse (hf : lookupReverse world.state key = some id)
    : ∃ flow, world.Listed id flow ∧ flow.reverseKey = key := by
  obtain ⟨port, there⟩ : ∃ port, world.state.reverse (port, key) = some id := by
    unfold FlowWorld.lookupReverse at hf
    split at hf
    next hp =>
      cases hf
      obtain ⟨port, -, there⟩ := bind_eq_some_iff.mp hp
      exact ⟨port, there⟩
    obtain ⟨port, -, there⟩ := exists_of_findSome?_eq_some hf
    exact ⟨port, there⟩
  obtain ⟨flow, hl, -, he⟩ := hs.listed_of_reverse there
  exact ⟨flow, hl, he⟩

/-- A listed flow is found by the key of its replies, if no other port has the key. -/
theorem lookupReverse_eq (hl : world.Listed id flow)
    (alone : ∀ other flow', world.Listed other flow' → flow'.reverseKey = flow.reverseKey →
      flow'.portId = flow.portId)
    : FlowWorld.lookupReverse world.state flow.reverseKey = some id := by
  have there := hs.reversed hl
  have ha := hs.attached _ id flow hl.1 hl.2
  obtain ⟨other, hf⟩ : ∃ other,
      FlowWorld.lookupReverse world.state flow.reverseKey = some other := by
    unfold FlowWorld.lookupReverse
    split
    · exact ⟨_, rfl⟩
    obtain ⟨nat, hp, -⟩ := ha
    have hm := hs.ordered _ nat hp
    have reached : (world.state.portOrder.findSome? fun port =>
        world.state.reverse (port, flow.reverseKey)) ≠ none := by
      rw [ne_eq, findSome?_eq_none_iff]
      intro hno
      rw [hno _ hm] at there
      cases there
    exact ne_none_iff_exists'.mp reached
  obtain ⟨flow', listed', he⟩ := hs.lookupReverse hf
  have there' := hs.reversed listed'
  rw [alone other flow' listed' he, he, there] at there'
  rw [hf, there']

theorem returnNext : (world.returnNext task).1.Sound := by
  unfold FlowWorld.returnNext
  split
  · refine { hs with matched := fun other state held hf => ?_ }
    obtain ⟨-, ⟨⟩⟩ | ⟨-, earlier⟩ := update_eq_some hf
    exact hs.matched other state held earlier
  · simp only
    split
    next held hf =>
      refine hs.setReturn fun other same => ?_
      cases same
      obtain ⟨⟨_, _, _⟩, read, hk⟩ := bind_eq_some_iff.mp hf
      obtain ⟨_, there, rfl⟩ := map_eq_some_iff.mp hk
      obtain ⟨flow, hl, rfl⟩ := hs.lookupReverse there
      exact ⟨flow, hl.2, read⟩
    · exact hs.release ..
  · exact hs

theorem returnHeld : (world.returnHeld task cancelled now).1.Sound := by
  unfold FlowWorld.returnHeld
  split
  next packets held unconsumed returning =>
    split
    · exact hs
    have hc := hs.closeIf cancelled held.flow
    simp only
    generalize (if cancelled then world.closeFlow held.flow else world) = current at hc ⊢
    split
    · split
      · exact hc.release ..
      · exact (hc.release ..).setCell _ _
    split
    · exact hc.release ..
    split
    · exact hc.release ..
    · exact hc.release ..
  · exact hs

end Sound

end

/-- A packet has a key of its own, or that of the packet that it quotes. -/
theorem returnKey_cases {quote} (read : returnKey packet = some (parsed, quote, key))
    : parse packet = some parsed ∧ parsed.fragmented = false
      ∧ (quote = none ∧ parsed.flowKey = some key
        ∨ ∃ embedded, quote = some embedded ∧ parsed.isIcmpError
          ∧ EmbeddedPacket.parse packet parsed = some embedded
          ∧ key = embedded.flowKey.reversed) := by
  obtain ⟨_, parsed', read⟩ := bind_eq_some_iff.mp read
  split at read
  · cases read
  rename_i complete
  split at read
  next keyed =>
    cases read
    exact ⟨parsed', by simpa using complete, .inl ⟨rfl, keyed⟩⟩
  split at read
  next icmp =>
    obtain ⟨embedded, quoted, he⟩ := bind_eq_some_iff.mp read
    cases he
    exact ⟨parsed', by simpa using complete, .inr ⟨embedded, rfl, icmp, quoted, rfl⟩⟩
  · cases read

theorem family_of_parse (read : parse packet = some parsed) (hc : parsed.fragmented = false)
    : Family parsed.ipVersion parsed.source.ip := by
  have source := congrArg source (located_of_parse read hc).selectors
  rw [source]
  exact family_addressAt ..

/-- A reply comes to the source of its flow from where the flow was headed. -/
theorem returnPacket_eq (proper : flow.Proper)
    (read : returnKey packet = some (parsed, none, flow.reverseKey))
    : ∃ result, returnPacket packet parsed flow = some result
      ∧ parse result = some { parsed with
        source := flow.forwardKey.destination
        destination := flow.forwardKey.source } := by
  obtain ⟨parse, hc, ⟨-, keyed⟩ | ⟨_, ⟨⟩, _⟩⟩ := returnKey_cases read
  have key := (tracked_of_parse parse hc keyed).key
  have hw := located_of_parse parse hc
  have hasFlow : parsed.hasFlow := by
    by_contra absent
    simp [flowKey, absent] at keyed
  have carries := hw.carries (.inl hasFlow)
  obtain ⟨hi, original⟩ := proper.families (by rw [key]; exact family_of_parse parse hc)
  obtain ⟨rewritten, rewrites, reads, -⟩ := rewritePacket_eq hw.version hw.inside hw.fits
    carries (by rw [proper.reverse]; exact original : Family _ flow.reverse.sourceAddress)
    (by rw [proper.reverse]; exact hi)
  have parse' := reads.parse hw carries
  have back : (if parsed.isIcmp then flow.reverse.sourceSelector
      else flow.reverse.destinationSelector) = flow.forwardKey.source.port := by
    rw [proper.reverse]
    split
    next icmp =>
      have protocol : flow.forwardKey.protocol = parsed.protocol := by
        rw [← proper.protocol, key]
      exact (proper.echo (by rw [protocol]; simpa [isIcmp] using icmp)).symm
    · rfl
  rw [back, proper.reverse] at parse'
  unfold returnPacket
  rw [rewrites]
  simp only [Except.toOption, bind_eq_bind, bind_some]
  split
  · obtain ⟨result, clamped, hk⟩ :=
      (located_of_parse parse' hc).clampTcpMss_eq flow.mtu
    refine ⟨result, ?_, hk⟩
    have he : clampTcpMss rewritten parsed flow.mtu = .ok result := clamped
    rw [he]
  · exact ⟨rewritten, rfl, parse'⟩

theorem rewritePacket_errorRewrite {moved} (parse : ParsedPacket.parse packet = some parsed)
    (hc : parsed.fragmented = false) (error : parsed.isIcmpError)
    (hi : Family parsed.ipVersion flow.reverse.destinationAddress)
    (original : Family parsed.ipVersion flow.reverse.sourceAddress)
    (length : moved.length = packet.length)
    : ∃ result, rewritePacket moved parsed (errorRewrite parsed flow) = .ok result
      ∧ parsed.Rewritten (errorRewrite parsed flow) moved result
      ∧ Agrees moved result parsed.Apart := by
  have hw := located_of_parse parse hc
  have sourceFamily : Family parsed.ipVersion (errorRewrite parsed flow).sourceAddress := by
    unfold errorRewrite
    simp only
    split
    · exact original
    · exact family_of_parse parse hc
  exact rewritePacket_eq hw.version hw.inside (length ▸ hw.fits)
    (hw.carries (.inr error)) sourceFamily hi

/-- A flow is of the family of the quote that comes back on it. -/
theorem families_of_quote (proper : flow.Proper)
    (read : returnKey packet = some (parsed, some embedded, flow.reverseKey))
    : Family embedded.ipVersion flow.forwardKey.source.ip
      ∧ Family embedded.ipVersion flow.forwardKey.destination.ip := by
  obtain ⟨-, -, ⟨⟨⟩, _⟩ | ⟨_, ⟨⟩, -, quote, key⟩⟩ := returnKey_cases read
  have addresses := (EmbeddedPacket.located_of_parse quote).addresses
  refine proper.families ?_
  rw [key, show embedded.flowKey.reversed.source.ip = _ from congrArg Prod.snd addresses]
  exact family_addressAt ..

/-- The quote in an ICMP error becomes the packet that the flow had sent. -/
theorem returnIcmpError_eq (proper : flow.Proper)
    (read : returnKey packet = some (parsed, some embedded, flow.reverseKey))
    (version : embedded.ipVersion = parsed.ipVersion)
    (hl : embedded.protocol = 17 → embedded.transportOffset + 8 ≤ packet.length)
    : ∃ result, returnIcmpError packet parsed embedded flow = (true, result)
      ∧ EmbeddedPacket.parse result parsed = some { embedded with
        source := flow.forwardKey.source
        destination := flow.forwardKey.destination }
      ∧ (ParsedPacket.parse result).map (·.destination.ip) = some flow.forwardKey.source.ip := by
  obtain ⟨parse, hc, ⟨⟨⟩, _⟩ | ⟨_, ⟨⟩, error, quote, key⟩⟩ := returnKey_cases read
  have quoted := EmbeddedPacket.located_of_parse quote
  have hw := ParsedPacket.located_of_parse parse hc
  have carries := hw.carries (.inr error)
  have icmp : parsed.protocol = 1 ∨ parsed.protocol = 58 :=
    (of_decide_eq_true error : _ ∧ _ ∨ _ ∧ _).imp And.left And.left
  have sameProtocol : flow.forwardKey.protocol = embedded.protocol := by
    rw [← proper.protocol, key]
    rfl
  obtain ⟨hi, original⟩ := families_of_quote proper read
  obtain ⟨changed, rewrites, reads⟩ := EmbeddedPacket.rewriteEmbeddedPacket_eq quoted.toQuoted
    hi original (quoted.carries hl)
  have parse' : ParsedPacket.parse changed = some parsed :=
    hw.parse_of_agrees_icmp icmp (reads.agrees.mono fun index hb => .inl (quoted.place ▸ hb))
  have quote' : EmbeddedPacket.parse changed parsed = some { embedded with
      source := flow.forwardKey.source
      destination := flow.forwardKey.destination } := by
    rw [reads.parse quoted]
    split
    · rfl
    next noPorts =>
      have echo := (quoted.room.resolve_left fun ports => noPorts ports.1).1
      rw [proper.echo (by rwa [sameProtocol])]
  have whole' := located_of_parse parse' hc
  have toInside : Family parsed.ipVersion flow.reverse.destinationAddress := by
    rw [proper.reverse, ← version]
    exact hi
  have fromOriginal : Family parsed.ipVersion flow.reverse.sourceAddress := by
    rw [proper.reverse, ← version]
    exact original
  obtain ⟨result, hr, again, -⟩ :=
    rewritePacket_errorRewrite parse' hc error toInside fromOriginal rfl
  have outer : (errorRewrite parsed flow).destinationAddress = flow.forwardKey.source.ip := by
    rw [errorRewrite, proper.reverse]
  unfold returnIcmpError
  rw [proper.reverse, rewrites]
  simp only [hr]
  refine ⟨result, rfl, ?_, ?_⟩
  · exact EmbeddedPacket.parse_of_same_quote quote'
      (again.agrees.mono fun index ha => .inr (.inr ⟨icmp, .inr ha⟩))
  · rw [again.parse whole' carries, ← outer]
    rfl

--------
-- Runs
--------

theorem Sound.step (hs : world.Sound) {action} (ha : world.Admissible action)
    : (world.step action).1.Sound := by
  cases action with
  | dispatch task packet now =>
    simp only [FlowWorld.step]
    split
    · exact hs
    · exact hs.dispatch task packet now
  | observe task cancelled now => exact hs.observe task cancelled now
  | checkSimple task now => exact hs.checkSimple task now
  | route task verdict => exact hs.route task verdict
  | installSimple task now keys => exact hs.installSimple task now keys
  | attach task => exact hs.attach task
  | connect task taken => exact hs.connect task taken
  | allocate task => exact hs.allocate task
  | insertFlow task id created now keys =>
    simp only [FlowWorld.step]
    split
    · exact hs
    next hn =>
      exact hs.insertFlow created now keys (by simpa using hn) ha
  | forwarded task => exact hs.forwarded task
  | cancel task => exact hs.cancel task
  | finish task now keys => exact hs.finish task now keys
  | returnPackets task _ =>
    simp only [FlowWorld.step]
    split
    · exact hs
    · exact hs.release ..
  | returnNext task => exact hs.returnNext task
  | returnHeld task cancelled now => exact hs.returnHeld task cancelled now
  | resetNetwork => exact hs.resetNetwork
  | closeDrained => exact hs.closeDrained
  | dropPort id => exact hs.dropPort ha

/-- The states that admissible steps lead to. -/
inductive Reachable (start : FlowWorld) : FlowWorld → Prop where
  | start : Reachable start start
  | step {world : FlowWorld} (earlier : Reachable start world) (action : FlowAction)
      (admissible : world.Admissible action)
      : Reachable start (world.step action).1

theorem sound_new (udpTimeout) : (new udpTimeout).Sound where
  paired := .empty _
  proper _ _ found := by cases found
  attached _ _ _ found := by cases found
  ordered _ _ found := by cases found
  prepared _ _ found := by cases found
  matched _ _ _ found := by cases found

theorem Reachable.sound (hr : Reachable start world) (hb : start.Sound)
    : world.Sound := by
  induction hr with
  | start => exact hb
  | step _ _ admissible ih => exact ih.step admissible

/-- The two tables hold the same flows, and no two of them have a port and a reply key in
common.
-/
structure OneToOne (world : FlowWorld) : Prop where
  keyed : ∀ key id, world.state.forward.get? key = some id →
    ∃ flow, world.Listed id flow ∧ flow.forwardKey = key
  distinct : ∀ id flow id' flow', world.Listed id flow → world.Listed id' flow' →
    flow.portId = flow'.portId → flow.reverseKey = flow'.reverseKey → id = id'
  reversed : ∀ id flow, world.Listed id flow →
    world.state.reverse (flow.portId, flow.reverseKey) = some id
  nothingElse : ∀ port key id, world.state.reverse (port, key) = some id →
    ∃ flow, world.Listed id flow ∧ flow.portId = port ∧ flow.reverseKey = key

theorem Sound.oneToOne (hs : world.Sound) : world.OneToOne where
  keyed key id hf := by
    obtain ⟨_, own, -⟩ := hs.paired.answered hf
    obtain ⟨flow, hl, he, -⟩ := listed_of_ends own hf
    exact ⟨flow, hl, he⟩
  distinct id flow id' flow' hl listed' port key := by
    have there := hs.reversed hl
    rw [port, key, hs.reversed listed'] at there
    exact (some.inj there).symm
  reversed id flow hl := hs.reversed hl
  nothingElse _ _ _ := hs.listed_of_reverse

/-- A returned packet, or the quote in an ICMP error, as the flow's own side knows it. -/
def SentBack (held : Held) (flow : Flow) (packet : List UInt8) : Prop :=
  match held.quote with
  | none =>
    parse packet = some { held.parsed with
      source := flow.forwardKey.destination
      destination := flow.forwardKey.source }
  | some quote =>
    EmbeddedPacket.parse packet held.parsed = some { quote with
      source := flow.forwardKey.source
      destination := flow.forwardKey.destination }
    ∧ (parse packet).map (·.destination.ip) = some flow.forwardKey.source.ip

/-- The packet that is held is written if its flow is open, and only then. -/
theorem Sound.returnHeld_eq (hs : world.Sound) {cancelled now}
    (ha : world.Admissible (.returnHeld task cancelled now)) {held}
    (returning : world.returns task = some state) (hh : state.held = some held)
    (hf : world.flows held.flow = some flow)
    : if cancelled || (world.cells held.flow).closed
      then (world.returnHeld task cancelled now).2 = none
      else ∃ packet, (world.returnHeld task cancelled now).2 = some (.written packet)
        ∧ SentBack held flow packet := by
  obtain ⟨_, there, read⟩ := hs.matched task state held returning hh
  rw [hf] at there
  cases there
  have proper := hs.proper held.flow flow hf
  obtain ⟨_, _, _⟩ := state
  cases hh
  have closes : ((if cancelled then world.closeFlow held.flow else world).cells held.flow).closed
      = (cancelled || (world.cells held.flow).closed) := by
    cases cancelled with
    | false => rfl
    | true => simp [closeFlow, FlowWorld.setCell]
  unfold FlowWorld.returnHeld
  rw [returning]
  simp only [hf]
  generalize (if cancelled then world.closeFlow held.flow else world) = current at closes ⊢
  rw [← closes]
  cases quoted : held.quote with
  | none =>
    rw [quoted] at read
    obtain ⟨packet, hr, parse⟩ := returnPacket_eq proper read
    split
    · rfl
    rw [hr]
    exact ⟨packet, rfl, by rw [SentBack, quoted]; exact parse⟩
  | some quote =>
    rw [quoted] at read
    obtain ⟨version, hl⟩ := ha _ held quote returning rfl quoted
    obtain ⟨packet, hr, parse⟩ := returnIcmpError_eq proper read version hl
    split
    · rfl
    simp only [hr]
    exact ⟨packet, rfl, by rw [SentBack, quoted]; exact parse⟩

end FlowWorld

/-- In every state that admissible steps lead to, the translation is one-to-one; a returned
packet with the reply key of a listed flow is matched with that flow, and what is written back
has the addresses of the flow it was matched with.
-/
theorem flow_nat_one_to_one {udpTimeout : Duration} {world : FlowWorld}
    (reachable : Reachable (new udpTimeout) world)
    : world.OneToOne
      ∧ (∀ task packet packets unconsumed parsed quote id flow,
        world.Admissible (.returnNext task) →
        world.returns task = some { packets := packet :: packets, held := none, unconsumed } →
        returnKey packet = some (parsed, quote, flow.reverseKey) → world.Listed id flow →
        (world.step (.returnNext task)).1.returns task
          = some { packets, held := some { flow := id, packet, parsed, quote }, unconsumed })
      ∧ ∀ task cancelled now state held flow,
        world.Admissible (.returnHeld task cancelled now) →
        world.returns task = some state → state.held = some held →
        world.flows held.flow = some flow →
        if cancelled || (world.cells held.flow).closed
        then (world.step (.returnHeld task cancelled now)).2 = none
        else ∃ packet, (world.step (.returnHeld task cancelled now)).2 = some (.written packet)
          ∧ SentBack held flow packet := by
  have sound := reachable.sound (sound_new udpTimeout)
  refine ⟨sound.oneToOne, ?_, ?_⟩
  · intro task packet packets unconsumed parsed quote id flow admissible returning read listed
    have found := sound.lookupReverse_eq listed fun other flow' listed' same =>
      admissible _ packet packets parsed quote flow.reverseKey returning rfl read other flow' id
        flow listed' listed same rfl
    simp [FlowWorld.step, FlowWorld.returnNext, returning, read, bind_some, found,
      map_some, FlowWorld.setReturn]
  · intro task cancelled now state held flow admissible returning holds found
    exact sound.returnHeld_eq admissible returning holds found

--------
-- Two calls of `dispatch`
--------

def FlowWorld.run (world : FlowWorld) (actions : List FlowAction) : FlowWorld :=
  actions.foldl (fun world action => (world.step action).1) world

/-- A query for 192.0.2.1:53 from port 50000 of 10.0.0.`host`. -/
def examplePacket (host : UInt8) : List UInt8 :=
  [0x45, 0, 0, 28, 0, 0, 0, 0, 64, 17, 0, 0, 10, 0, 0, host, 192, 0, 2, 1,
    0xc3, 0x50, 0, 53, 0, 8, 0, 0]

/-- The answer, as it comes to the address 172.16.0.1 of the packet port. -/
def exampleReply : List UInt8 :=
  [0x45, 0, 0, 28, 0, 0, 0, 0, 64, 17, 0, 0, 192, 0, 2, 1, 172, 16, 0, 1,
    0, 53, 0xc3, 0x50, 0, 8, 0, 0]

def exampleKey (host : UInt8) : FlowKey where
  protocol := 17
  source := ⟨.v4 (BitVec.ofNat 32 (0x0a000000 + host.toNat)), 50000⟩
  destination := ⟨.v4 0xc0000201, 53⟩

def exampleReplyKey : FlowKey where
  protocol := 17
  source := ⟨.v4 0xc0000201, 53⟩
  destination := ⟨.v4 0xac100001, 50000⟩

def exampleVerdict : Verdict where
  action := none
  rejectIsDrop := false
  port := some
    { id := 7, ipv4 := some 0xac100001, ipv6 := none, mtu := 0, selectorRange := (0, 0) }
  destination := .ip ⟨.v4 0xc0000201, 53⟩
  destinationAddresses := []
  udpTimeout := none

def routeActions (task : Nat) (host : UInt8) : List FlowAction :=
  [.dispatch task (examplePacket host) 0, .checkSimple task 0, .route task exampleVerdict]

/-- The second packet of a flow comes while the first is being routed. -/
def sameFlow : List FlowAction :=
  routeActions 0 2 ++ routeActions 1 2
  ++ [.attach 0, .connect 0 true, .allocate 0, .insertFlow 0 0 0 0 [],
    .attach 1, .allocate 1, .insertFlow 1 1 0 0 []]

/-- Two hosts are given the same selector before either of their flows is entered. -/
def sameSelector : List FlowAction :=
  routeActions 0 2 ++ routeActions 1 3
  ++ [.attach 0, .connect 0 true, .attach 1, .allocate 0, .allocate 1,
    .insertFlow 0 0 0 0 [], .insertFlow 1 1 0 0 []]

/-- One flow, and the answer to its packet. -/
def exampleActions : List FlowAction :=
  routeActions 0 2
  ++ [.attach 0, .connect 0 true, .allocate 0, .insertFlow 0 0 0 0 [], .forwarded 0,
    .returnPackets 0 [exampleReply], .returnNext 0]

theorem flow_nat_one_to_one_example
    : ((new 0).run exampleActions).OneToOne
      ∧ ∃ packet, (((new 0).run exampleActions).step (.returnHeld 0 false 0)).2
          = some (.written packet)
        ∧ (parse packet).map (·.destination) = some (exampleKey 2).source := by
  have reachable : Reachable (new 0) ((new 0).run exampleActions) := by
    refine AllAdmitted.run (?_ : AllAdmitted _ Admissible _ _) (fun world _ => Reachable _ world)
      (fun _ action _ hr => .step hr action) .start
    refine ⟨trivial, trivial, trivial, trivial, trivial, trivial, ?_, trivial, trivial, ?_, trivial⟩
    · rintro _ _ ⟨⟩ id flow ⟨listed, -⟩
      cases listed
    · intro state packet packets parsed quote key _ _ _ id flow id' flow' listed listed' _ _
      have number (id : Nat) (key : FlowKey) (found : ((new 0).run
          (exampleActions.take 9)).state.forward.get? key = some id)
          : id = 0 := by
        have member := mem_entries_iff.mpr found
        exact congrArg Prod.snd (mem_singleton.mp member)
      have same : id = id' :=
        (number id _ listed.1).trans (number id' _ listed'.1).symm
      cases same
      cases some.inj (listed.2.symm.trans listed'.2)
      rfl
  obtain ⟨oneToOne, -, returned⟩ := flow_nat_one_to_one reachable
  refine ⟨oneToOne, ?_⟩
  obtain ⟨packet, written, parse⟩ := returned 0 false 0 _ _ _ (by rintro _ _ _ ⟨⟩ ⟨⟩ ⟨⟩) rfl rfl
    rfl
  refine ⟨packet, written, ?_⟩
  rw [parse]
  rfl

theorem flow_nat_not_one_to_one
    : ¬((new 0).run sameFlow).OneToOne
      ∧ ¬((new 0).run sameSelector).OneToOne
      ∧ lookupReverse ((new 0).run sameSelector).state exampleReplyKey
        = some 1 := by
  refine ⟨fun oneToOne => ?_, fun oneToOne => ?_, ?_⟩
  · have stale : ((new 0).run sameFlow).state.reverse (7, exampleReplyKey)
        = some 0 := by
      decide +kernel
    have listed : ((new 0).run sameFlow).state.forward.get? (exampleKey 2)
        = some 1 := by
      decide +kernel
    have ends : ((new 0).run sameFlow).ends 0
        = some (exampleKey 2, 7, exampleReplyKey) := by
      decide +kernel
    obtain ⟨flow, there, -⟩ := oneToOne.nothingElse _ _ _ stale
    obtain ⟨same, held, key⟩ := map_eq_some_iff.mp ends
    cases some.inj (held.symm.trans there.2)
    have place : flow.forwardKey = exampleKey 2 := congrArg Prod.fst key
    have found := there.1
    rw [place, listed] at found
    cases found
  · have first : ((new 0).run sameSelector).ends 0
        = some (exampleKey 2, 7, exampleReplyKey) := by
      decide +kernel
    have second : ((new 0).run sameSelector).ends 1
        = some (exampleKey 3, 7, exampleReplyKey) := by
      decide +kernel
    obtain ⟨flow, listed, -, port, reply⟩ := listed_of_ends first (by decide +kernel)
    obtain ⟨flow', listed', -, port', reply'⟩ := listed_of_ends second (by decide +kernel)
    have same := oneToOne.distinct 0 flow 1 flow' listed listed' (port.trans port'.symm)
      (reply.trans reply'.symm)
    cases same
  · decide +kernel

end Zay.Endpoint
