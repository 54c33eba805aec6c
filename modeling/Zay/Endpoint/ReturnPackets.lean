import Zay.Endpoint.FlowNat

/-! What becomes of the packets that a port returns. A packet that is not consumed is handed on
as it came, unless it is an ICMP error that quotes a packet of the other IP version and finds the
flow of that packet open.
-/

namespace Zay.Endpoint

open ParsedPacket List Option Prod

/-- What becomes of one packet. -/
inductive Fate where
  | handedOn
  | written (packet : List UInt8)
  | dropped
  deriving Repr, DecidableEq

def Fate.written? : Fate → Option (List UInt8)
  | .written packet => some packet
  | _ => none

def FlowReply.written? : FlowReply → Option (List UInt8)
  | .written packet => some packet
  | .unconsumed _ => none

namespace FlowWorld

/-- The packet that is held quotes one of the other IP version, and the flow that was found under
the reverse key of the quote is open.
-/
def HeldCrossed (world : FlowWorld) (task : Nat) (cancelled : Bool) : Prop :=
  ∃ pending held unconsumed embedded flow,
    world.returns task = some ⟨pending, some held, unconsumed⟩
    ∧ held.quote = some embedded ∧ embedded.ipVersion ≠ held.parsed.ipVersion
    ∧ world.flows held.flow = some flow
    ∧ ((if cancelled then world.closeFlow held.flow else world).cells held.flow).closed = false

/-- One call of `return_packets`, what it has written and whether it has met an open flow for a
quote of the other IP version. Between its steps others may change everything but what is its own.
-/
inductive Returning (task : Nat) (packets : List (List UInt8))
    : FlowWorld → (written : List (List UInt8)) → (met : Prop) → Prop
  | begin (world : FlowWorld)
    : Returning task packets (world.setReturn task { packets, held := none, unconsumed := [] }) []
      False
  | others {before after : FlowWorld} {written met}
    (call : Returning task packets before written met)
    (own : after.returns task = before.returns task)
    : Returning task packets after written met
  | next {world written met} (call : Returning task packets world written met)
    : Returning task packets (world.returnNext task).1 written met
  | held {world written met} (call : Returning task packets world written met) (cancelled : Bool)
    (now : Instant)
    : Returning task packets (world.returnHeld task cancelled now).1
      (written ++ ((world.returnHeld task cancelled now).2.bind FlowReply.written?).toList)
      (met ∨ world.HeldCrossed task cancelled)

variable {packet changed : List UInt8} {parsed : ParsedPacket} {embedded : EmbeddedPacket}
  {key : FlowKey} {flow : Flow}

/-- An ICMP error that is refused is left as it was. -/
theorem returnIcmpError_refused (read : returnKey packet = some (parsed, some embedded, key))
    (he : embedded.ipVersion = parsed.ipVersion)
    (hr : returnIcmpError packet parsed embedded flow = (false, changed))
    : changed = packet := by
  obtain ⟨parse, hc, ⟨⟨⟩, _⟩ | ⟨_, ⟨⟩, error, quote, -⟩⟩ := returnKey_cases read
  have quoted := (EmbeddedPacket.located_of_parse quote).toQuoted
  unfold returnIcmpError at hr
  split at hr
  · cases hr
    rfl
  next hm hw =>
    obtain ⟨hi, original, length, -⟩ := quoted.of_rewriteEmbeddedPacket hw
    rw [he] at hi original
    obtain ⟨_, ha, -⟩ :=
      rewritePacket_errorRewrite parse hc error hi original length
    simp only [ha] at hr
    cases hr

/-- An ICMP error with a quote of the other IP version is refused after the quote was rewritten to
the addresses of the flow.
-/
theorem returnIcmpError_crossed (proper : flow.Proper)
    (read : returnKey packet = some (parsed, some embedded, flow.reverseKey))
    (crossed : embedded.ipVersion ≠ parsed.ipVersion)
    (translated : flow.forwardKey.source.ip ≠ flow.reverseKey.destination.ip)
    : ∃ changed, returnIcmpError packet parsed embedded flow = (false, changed)
      ∧ changed ≠ packet := by
  obtain ⟨parse, hc, ⟨⟨⟩, _⟩ | ⟨_, ⟨⟩, error, quote, key⟩⟩ := returnKey_cases read
  have quoted := (EmbeddedPacket.located_of_parse quote).toQuoted
  have version := (located_of_parse parse hc).version
  obtain ⟨hi, original⟩ := families_of_quote proper read
  have rewrites := EmbeddedPacket.rewriteEmbeddedPacket_of_families quoted hi original
  obtain ⟨-, -, -, addresses⟩ := quoted.of_rewriteEmbeddedPacket rewrites
  unfold returnIcmpError
  simp only [proper.reverse, rewrites]
  rw [rewritePacket, if_pos]
  · refine ⟨_, rfl, fun same => translated ?_⟩
    rw [same, ← quoted.addresses] at addresses
    rw [key]
    exact (Prod.mk.inj addresses).1.symm
  · right
    rcases version with ⟨four, -⟩ | ⟨six, -⟩ <;> rcases quoted.version with ⟨own, -⟩ | ⟨own, -⟩ <;>
      simp_all [Family, errorRewrite, proper.reverse]

/-- The packets with their fates so far: what is held comes next. -/
structure Settled (packets written : List (List UInt8)) (state : ReturnTask)
    (fates : List (List UInt8 × Fate))
    : Prop where
  packets : packets
    = fates.map fst ++ (state.held.map (·.packet)).toList ++ state.packets
  unconsumed : state.unconsumed = (fates.filter (·.2 = .handedOn)).map fst
  written : written = fates.filterMap (·.2.written?)
  read : ∀ held ∈ state.held, ∃ key, returnKey held.packet = some (held.parsed, held.quote, key)

variable {packets written pending unconsumed : List (List UInt8)} {state : ReturnTask}

theorem Settled.settle {fates} (hs : Settled packets written state fates) (fate : Fate)
    (next : (state.held.map (·.packet)).toList ++ state.packets = packet :: pending)
    : Settled packets (written ++ fate.written?.toList)
      ⟨pending, none, if fate = .handedOn then state.unconsumed ++ [packet] else state.unconsumed⟩
      (fates ++ [(packet, fate)]) := by
  constructor
  · rw [hs.packets, append_assoc, next]
    simp
  · rw [hs.unconsumed]
    cases fate <;> simp
  · rw [hs.written]
    cases fate <;> simp [Fate.written?]
  · simp

variable {task : Nat} {world : FlowWorld}

@[simp] theorem returns_setReturn (state)
    : (world.setReturn task state).returns task = some state :=
  Function.update_self ..

/-- The held packet is handed on as it came, written or dropped. -/
theorem returnHeld_cases (world : FlowWorld) (task cancelled now)
    : world.returnHeld task cancelled now = (world, none)
      ∨ ∃ pending held unconsumed, world.returns task = some ⟨pending, some held, unconsumed⟩
        ∧ ∀ key, returnKey held.packet = some (held.parsed, held.quote, key) →
          ¬world.HeldCrossed task cancelled →
          ∃ fate : Fate, (world.returnHeld task cancelled now).1.returns task = some ⟨pending, none,
              if fate = .handedOn then unconsumed ++ [held.packet] else unconsumed⟩
            ∧ (world.returnHeld task cancelled now).2.bind FlowReply.written? = fate.written? := by
  unfold FlowWorld.returnHeld
  split
  next pending held unconsumed hb =>
    split
    · exact .inl rfl
    next flow hf =>
      refine .inr ⟨pending, held, unconsumed, hb, fun key read apart => ?_⟩
      have straight (embedded) (quoted : held.quote = some embedded)
          (isOpen : ((if cancelled then world.closeFlow held.flow else world).cells
            held.flow).closed = false) : embedded.ipVersion = held.parsed.ipVersion := by
        by_contra crossed
        exact apart ⟨pending, held, unconsumed, embedded, flow, hb, quoted, crossed, hf, isOpen⟩
      simp only
      generalize (if cancelled then world.closeFlow held.flow else world) = world at straight
      split
      next alone =>
        split
        · exact ⟨.dropped, returns_setReturn _, rfl⟩
        cases returnPacket held.packet held.parsed flow with
        | none => exact ⟨.dropped, returns_setReturn _, rfl⟩
        | some packet => exact ⟨.written packet, returns_setReturn _, rfl⟩
      next embedded quoted =>
        split
        · exact ⟨.handedOn, returns_setReturn _, rfl⟩
        next isOpen =>
        split
        next packet ha => exact ⟨.written packet, returns_setReturn _, rfl⟩
        next packet hr =>
          rw [quoted] at read
          have he := returnIcmpError_refused read
            (straight _ quoted (Bool.not_eq_true _ ▸ isOpen)) hr
          exact ⟨.handedOn, he ▸ returns_setReturn _, rfl⟩
  · exact .inl rfl

/-- By induction over the call: each step settles at most one packet. -/
theorem Returning.settled {met} (call : Returning task packets world written met) (apart : ¬met)
    (own : world.returns task = some state)
    : ∃ fates, Settled packets written state fates := by
  induction call generalizing state with
  | begin world =>
    rw [returns_setReturn] at own
    cases own
    exact ⟨[], by simp, rfl, rfl, by simp⟩
  | others call same ih => exact ih apart (same ▸ own)
  | @next world written met call ih =>
    simp only [FlowWorld.returnNext] at own
    split at own
    · simp at own
    next packet pending unconsumed hb =>
      obtain ⟨fates, hs⟩ := ih apart hb
      split at own
      next held hf =>
        rw [returns_setReturn] at own
        cases own
        simp only [bind_eq_some_iff, map_eq_some_iff] at hf
        obtain ⟨⟨_, _, key⟩, read, _, -, rfl⟩ := hf
        refine ⟨fates, ?_, hs.unconsumed, hs.written, ?_⟩
        · simpa using hs.packets
        · rintro _ ⟨⟩
          exact ⟨key, read⟩
      · rw [returns_setReturn] at own
        cases own
        have next := hs.settle .handedOn rfl
        rw [show Fate.handedOn.written? = none from rfl, toList_none, append_nil,
          if_pos rfl] at next
        exact ⟨_, next⟩
    · exact ih apart own
  | @held world written met call cancelled now ih =>
    rw [not_or] at apart
    rcases world.returnHeld_cases task cancelled now with
      same | ⟨pending, held, unconsumed, hb, fated⟩
    · rw [same] at own ⊢
      simpa using ih apart.1 own
    obtain ⟨_, hs⟩ := ih apart.1 hb
    obtain ⟨key, read⟩ := hs.read held rfl
    obtain ⟨fate, after, reply⟩ := fated key read apart.2
    rw [after] at own
    cases own
    rw [reply]
    exact ⟨_, hs.settle fate rfl⟩

theorem returns_of_unconsumed {result}
    (done : (world.returnNext task).2 = some (.unconsumed result))
    : world.returns task = some ⟨[], none, result⟩ := by
  simp only [FlowWorld.returnNext] at done
  split at done
  next unconsumed last =>
    cases done
    exact last
  · split at done <;> cases done
  · cases done

/-- A packet that was looked up in a call of its own, before it is returned. -/
def lookedUp (world : FlowWorld) (task : Nat) (packet : List UInt8) : FlowWorld :=
  ((world.setReturn task { packets := [packet], held := none, unconsumed := [] }).returnNext task).1

/-- The list that a call with one packet returns. -/
def returnedAlone (world : FlowWorld) (task : Nat) (packet : List UInt8) (cancelled : Bool)
    (now : Instant)
    : Option FlowReply :=
  (((world.lookedUp task packet).returnHeld task cancelled now).1.returnNext task).2

theorem lookedUp_of_held {pending held unconsumed}
    (hb : (world.lookedUp task packet).returns task = some ⟨pending, some held, unconsumed⟩)
    : held.packet = packet ∧ pending = [] ∧ unconsumed = [] := by
  unfold lookedUp FlowWorld.returnNext at hb
  simp only [returns_setReturn] at hb
  split at hb
  next hf =>
    rw [returns_setReturn] at hb
    cases hb
    simp only [bind_eq_some_iff, map_eq_some_iff] at hf
    obtain ⟨_, -, _, -, rfl⟩ := hf
    exact ⟨rfl, rfl, rfl⟩
  · rw [returns_setReturn] at hb
    cases hb

/-- Where an open flow is met, the packet is handed on with the quote rewritten. -/
theorem returnedAlone_of_heldCrossed (sound : (world.lookedUp task packet).Sound)
    (translates : ∀ id flow, (world.lookedUp task packet).flows id = some flow →
      flow.forwardKey.source.ip ≠ flow.reverseKey.destination.ip) {cancelled}
    (crossed : (world.lookedUp task packet).HeldCrossed task cancelled) (now)
    : ∃ changed ≠ packet,
      world.returnedAlone task packet cancelled now = some (.unconsumed [changed]) := by
  obtain ⟨pending, held, unconsumed, embedded, flow, hb, quoted, crossed, hf, isOpen⟩ := crossed
  obtain ⟨rfl, rfl, rfl⟩ := lookedUp_of_held hb
  obtain ⟨own, hf', read⟩ := sound.matched task _ held hb rfl
  cases hf.symm.trans hf'
  rw [quoted] at read
  obtain ⟨changed, refused, different⟩ := returnIcmpError_crossed (sound.proper _ _ hf) read crossed
    (translates _ _ hf)
  refine ⟨changed, different, ?_⟩
  simp [returnedAlone, FlowWorld.returnHeld, hb, hf, quoted, isOpen, refused, FlowWorld.returnNext]

/-- A packet is handed on as it came, written once or dropped, in every call that meets no open
flow for a quote of the other IP version. A call with one packet, in a dispatcher whose flows
translate the address, returns something else exactly when it meets one.
-/
theorem return_packets_untouched (task : Nat)
    : (∀ packets world written met result, Returning task packets world written met → ¬met →
        (world.returnNext task).2 = some (.unconsumed result) →
        ∃ fates : List (List UInt8 × Fate), fates.map fst = packets
          ∧ result = (fates.filter (·.2 = .handedOn)).map fst
          ∧ written = fates.filterMap (·.2.written?) ∧ result.Sublist packets)
      ∧ ∀ (world : FlowWorld) packet cancelled now, world.Sound →
        (∀ id flow, world.flows id = some flow →
          flow.forwardKey.source.ip ≠ flow.reverseKey.destination.ip) →
        ((∃ result, world.returnedAlone task packet cancelled now = some (.unconsumed result)
          ∧ ¬result.Sublist [packet])
        ↔ (world.lookedUp task packet).HeldCrossed task cancelled) := by
  have untouched : ∀ packets world written met result, Returning task packets world written met →
      ¬met → (world.returnNext task).2 = some (.unconsumed result) →
      ∃ fates : List (List UInt8 × Fate), fates.map fst = packets
        ∧ result = (fates.filter (·.2 = .handedOn)).map fst
        ∧ written = fates.filterMap (·.2.written?) ∧ result.Sublist packets := by
    intro packets world written met result call apart done
    obtain ⟨fates, settled⟩ := call.settled apart (returns_of_unconsumed done)
    have inputs : fates.map fst = packets := by
      simp [settled.packets]
    refine ⟨fates, inputs, settled.unconsumed, settled.written, ?_⟩
    have subset : ((fates.filter (·.2 = .handedOn)).map fst).Sublist (fates.map fst) :=
      filter_sublist.map fst
    rwa [← settled.unconsumed, inputs] at subset
  refine ⟨untouched, fun world packet cancelled now sound translates => ⟨?_, fun crossed => ?_⟩⟩
  · rintro ⟨result, done, different⟩
    by_contra apart
    obtain ⟨-, -, -, -, same⟩ := untouched [packet] _ _ _ result
      (((Returning.begin world).next).held cancelled now) (fun met => apart (met.resolve_left id))
      done
    exact different same
  · have looked : (world.lookedUp task packet).Sound := (sound.setReturn (by simp)).returnNext _
    have flows : (world.lookedUp task packet).flows = world.flows := by
      unfold lookedUp FlowWorld.returnNext
      simp only [returns_setReturn]
      split <;> rfl
    obtain ⟨changed, different, done⟩ :=
      returnedAlone_of_heldCrossed looked (by rwa [flows]) crossed now
    refine ⟨_, done, fun same => different ?_⟩
    simpa using same

/-- One flow from 10.0.0.2, known to the server as 172.16.0.1. -/
def oneFlow : FlowWorld :=
  (new 0).run (routeActions 0 2
    ++ [.attach 0, .connect 0 true, .allocate 0, .insertFlow 0 0 0 0 [], .forwarded 0])

/-- An ICMPv6 error that quotes a packet to 192.0.2.1:53 from `source`, over IPv4. -/
def crossedError (checksum source : List UInt8) : List UInt8 :=
  [0x60, 0, 0, 0, 0, 36, 58, 64] ++ replicate 32 0 ++ [1, 0, 0, 0, 0, 0, 0, 0]
  ++ [0x45, 0, 0, 28, 0, 0, 0, 0, 64, 17] ++ checksum ++ source ++ [192, 0, 2, 1]
  ++ [0xc3, 0x50, 0, 53, 0, 8, 0, 0]

/-- The quote is of no flow: the error is handed on as it came. -/
theorem return_packets_untouched_example
    : let packet := crossedError [0, 0] [172, 16, 0, 9]
      ∃ fates : List (List UInt8 × Fate), fates.map fst = [packet]
        ∧ [packet] = (fates.filter (·.2 = .handedOn)).map fst := by
  intro packet
  have none : (oneFlow.lookedUp 1 packet).returns 1 = some ⟨[], none, [packet]⟩ := by
    decide +kernel
  have apart : ¬(False ∨ (oneFlow.lookedUp 1 packet).HeldCrossed 1 false) := by
    rintro (⟨⟨⟩⟩ | ⟨_, _, _, _, _, held, -⟩)
    cases none.symm.trans held
  obtain ⟨fates, inputs, handedOn, -⟩ := (return_packets_untouched 1).1 [packet] _ _ _ [packet]
    (((Returning.begin oneFlow).next).held false 0) apart (by decide +kernel)
  exact ⟨fates, inputs, handedOn⟩

/-- The quote is rewritten, the packet around it is not, and the error is handed on. -/
theorem return_packets_changed
    : oneFlow.returnedAlone 1 (crossedError [0, 0] [172, 16, 0, 1]) false 0
        = some (.unconsumed [crossedError [174, 206] [10, 0, 0, 2]])
      ∧ ¬[crossedError [174, 206] [10, 0, 0, 2]].Sublist
        [crossedError [0, 0] [172, 16, 0, 1]] :=
  ⟨by decide +kernel, by decide⟩

end FlowWorld

end Zay.Endpoint
