import Zay.Lib.Runs
import Zay.OpenConnect.PppCommands

/-! When the negotiation opens the network. The history of a negotiator records for each call
the frame it was given and the packets it returned; the flags of the negotiator say less than
the history unless every Configure-Ack answers the request that was sent last.
-/

namespace Zay.OpenConnect

open Lib PppNegotiator PppCode

/-- One call: the frame it was given, if any, and the packets it returned afterwards. -/
structure PppTurn where
  received : Option Bytes
  sent : List PppOutboundPacket
  deriving Repr, DecidableEq

namespace PppTurn

def control? (turn : PppTurn) : Option (ControlProtocol × PppControlPacket) :=
  turn.received.bind frameControl?

/-- The identifier of the Configure-Ack that was received for the protocol. -/
def acknowledgement? (turn : PppTurn) (protocol : ControlProtocol) : Option UInt8 :=
  match turn.control? with
  | some (own, packet) =>
    if own = protocol ∧ packet.code = configureAcknowledgement.byte then
      some packet.identifier
    else none
  | none => none

/-- The identifiers of the Configure-Requests that were sent for the protocol. -/
def requests (turn : PppTurn) (protocol : ControlProtocol) : List UInt8 :=
  turn.sent.filterMap (·.request? protocol)

end PppTurn

variable (history : List PppTurn) (protocol : ControlProtocol)

/-- The identifier of the last Configure-Request sent for the protocol. -/
def lastRequest : Option UInt8 :=
  (history.flatMap (·.requests protocol)).getLast?

/-- The last Configure-Request of the protocol was answered by a Configure-Ack with its
identifier, received after it was sent.
-/
def Answered : Prop :=
  ∃ before turn after identifier, history = before ++ turn :: after
    ∧ lastRequest before protocol = some identifier
    ∧ turn.acknowledgement? protocol = some identifier
    ∧ (turn :: after).flatMap (·.requests protocol) = []

/-- A Configure-Request of the peer was answered by a Configure-Ack that repeats it. -/
def Confirmed : Prop :=
  ∃ turn ∈ history, ∃ identifier payload,
    turn.control? = some (protocol, {
      code := configureRequest.byte, identifier, payload })
    ∧ ∃ packet ∈ turn.sent, packet.control? = some (protocol, {
      code := configureAcknowledgement.byte, identifier, payload })

variable {history protocol} {α : Type} {command : Negotiation α}

theorem Answered.concat (answered : Answered history protocol) {turn}
    (quiet : turn.requests protocol = [])
    : Answered (history ++ [turn]) protocol := by
  obtain ⟨before, answer, after, identifier, rfl, last, hr, none⟩ := answered
  refine ⟨before, answer, after ++ [turn], identifier, by simp, last, hr, ?_⟩
  rw [← List.cons_append, List.flatMap_append, none]
  simpa using quiet

theorem Confirmed.concat (confirmed : Confirmed history protocol) (turn)
    : Confirmed (history ++ [turn]) protocol := by
  obtain ⟨answer, hm, rest⟩ := confirmed
  exact ⟨answer, List.mem_append_left _ hm, rest⟩

/-- The identifier in question is that of the last request altogether. -/
theorem Answered.acknowledged (answered : Answered history protocol)
    : ∃ turn ∈ history, turn.acknowledgement? protocol = lastRequest history protocol := by
  obtain ⟨_, answer, _, _, rfl, last, hr, none⟩ := answered
  refine ⟨answer, by simp, ?_⟩
  unfold lastRequest at last ⊢
  rw [List.flatMap_append, none, List.append_nil, last]
  exact hr

structure PppRun where
  negotiator : PppNegotiator
  history : List PppTurn

inductive PppCall where
  | start (now : Nat)
  | handleFrame (frame : Bytes) (now : Nat)
  | handleTimer (now : Nat)
  | terminateRequest
  deriving Repr, DecidableEq

namespace PppRun

def begin (negotiator : PppNegotiator) : PppRun where
  negotiator
  history := []

/-- The packets of a call that fails are not sent. -/
def record {α : Type} (run : PppRun) (received : Option Bytes) (command : Negotiation α)
    (sent : α → List PppOutboundPacket)
    : PppRun :=
  match command run.negotiator with
  | .ok result after =>
    { negotiator := after, history := run.history ++ [{ received, sent := sent result }] }
  | .error _ after =>
    { negotiator := after, history := run.history ++ [{ received, sent := [] }] }

def step (run : PppRun) : PppCall → PppRun
  | .start now => run.record none (OpenConnect.start now) id
  | .handleFrame frame now =>
    run.record (some frame) (OpenConnect.handleFrame frame now) (·.outbound)
  | .handleTimer now => run.record none (OpenConnect.handleTimer now) id
  | .terminateRequest => run.record none OpenConnect.terminateRequest fun packet => [packet]

def after (negotiator : PppNegotiator) (calls : List PppCall) : PppRun :=
  calls.foldl step (begin negotiator)

/-- The peer acknowledges only the request that was sent last. Its own requests do not arrive
when the only thing missing is an address: the call then fails, and the acknowledgement is lost.
-/
def Admissible (run : PppRun) : PppCall → Prop
  | .handleFrame frame _ =>
    ∀ protocol packet, frameControl? frame = some (protocol, packet) →
      run.negotiator.wants protocol →
      (packet.code = configureAcknowledgement.byte →
        lastRequest run.history protocol = some packet.identifier)
      ∧ (packet.code = configureRequest.byte →
        (run.negotiator.control protocol).peerRequestAcknowledged
        ∨ ¬(run.negotiator.modifyControl protocol fun state =>
          { state with peerRequestAcknowledged := true }).LacksAddress)
  | _ => True

theorem record_of_leads {run : PppRun} {success : α → PppNegotiator → Prop}
    {failure : PppNegotiator → Prop} (leads : Leads command run.negotiator success failure)
    (received sent)
    : (∃ result, success result (run.record received command sent).negotiator
        ∧ (run.record received command sent).history
          = run.history ++ [{ received, sent := sent result }])
      ∨ failure (run.record received command sent).negotiator
        ∧ (run.record received command sent).history
          = run.history ++ [{ received, sent := [] }] := by
  unfold Leads at leads
  unfold record
  cases he : command run.negotiator with
  | ok result after =>
    rw [he] at leads
    exact .inl ⟨result, leads, rfl⟩
  | error error after =>
    rw [he] at leads
    exact .inr ⟨leads, rfl⟩

end PppRun

/-- The flags are true to the history. Once no family is wanted the network stays closed and
the acknowledgements of the peer do not matter.
-/
structure Truthful (history : List PppTurn) (negotiator : PppNegotiator) : Prop where
  answered
    : ∀ protocol, (negotiator.control protocol).requestAcknowledged → Answered history protocol
  confirmed
    : negotiator.wantIpv4 ∨ negotiator.wantIpv6 → ∀ protocol,
      (negotiator.control protocol).peerRequestAcknowledged → Confirmed history protocol

/-- The flags are true to the history with the turn that is under way, as far as the requests
sent in it do not revoke an acknowledgement.
-/
structure Grounded (history : List PppTurn) (turn : PppTurn) (negotiator : PppNegotiator)
    : Prop where
  answered
    : ∀ protocol, (negotiator.control protocol).requestAcknowledged →
      turn.requests protocol = [] → Answered (history ++ [turn]) protocol
  confirmed
    : negotiator.wantIpv4 ∨ negotiator.wantIpv6 → ∀ protocol,
      (negotiator.control protocol).peerRequestAcknowledged →
      Confirmed (history ++ [turn]) protocol

section Turns

variable {before after ppp start : PppNegotiator} {turn : PppTurn}

theorem Truthful.grounded (ht : Truthful history ppp) (turn)
    : Grounded history turn ppp where
  answered protocol holds quiet := (ht.answered protocol holds).concat quiet
  confirmed family protocol holds := (ht.confirmed family protocol holds).concat turn

theorem families_of_wants (wants : ∀ protocol, after.wants protocol → before.wants protocol)
    (family : after.wantIpv4 ∨ after.wantIpv6)
    : before.wantIpv4 ∨ before.wantIpv6 :=
  family.imp (wants .ipcp) (wants .ip6cp)

theorem Grounded.proceeds (hg : Grounded history turn before) (hp : Proceeds before turn.sent after)
    : Truthful (history ++ [turn]) after where
  answered protocol hh := by
    obtain ⟨he, none⟩ := hp.acknowledged protocol hh
    exact hg.answered protocol he (List.filterMap_eq_nil_iff.mpr none)
  confirmed family protocol hh := by
    rw [hp.confirmed] at hh
    exact hg.confirmed (families_of_wants hp.wants family) protocol hh

theorem Grounded.advances (hg : Grounded history turn before)
    (advances : Advances before turn.sent after)
    : Truthful (history ++ [turn]) after := by
  obtain ⟨⟨_, hp, _, rfl⟩, -⟩ := advances
  exact { hg.proceeds hp with }

theorem Truthful.acknowledged (ht : Truthful history ppp) {packet}
    (hr : turn.control? = some (protocol, packet))
    (code : packet.code = configureAcknowledgement.byte)
    (last : lastRequest history protocol = some packet.identifier)
    : Grounded history turn (ppp.acknowledged protocol) where
  answered other holds quiet := by
    by_cases own : other = protocol
    · subst own
      refine ⟨history, turn, [], packet.identifier, rfl, last, ?_, by simpa using quiet⟩
      simp [PppTurn.acknowledgement?, hr, code]
    refine (ht.answered other ?_).concat quiet
    cases protocol <;> cases other <;> first | exact holds | exact absurd rfl own
  confirmed family other holds := by
    have wanted : ppp.wantIpv4 ∨ ppp.wantIpv6 := by
      refine families_of_wants (fun _ => ?_) family
      cases protocol <;> exact id
    refine (ht.confirmed wanted other ?_).concat turn
    cases protocol <;> cases other <;> exact holds

theorem Truthful.acknowledge (ht : Truthful history ppp) (entropy review)
    (confirmed : ppp.wantIpv4 ∨ ppp.wantIpv6 →
      Confirmed (history ++ [turn]) protocol)
    : Grounded history turn ({ ppp with entropy }.acknowledge protocol review) where
  answered other holds quiet := by
    refine (ht.answered other ?_).concat quiet
    cases protocol <;> cases other <;> exact holds
  confirmed family other holds := by
    have wanted : ppp.wantIpv4 ∨ ppp.wantIpv6 := by
      refine families_of_wants (fun _ => ?_) family
      rw [wants_acknowledge]
      exact id
    by_cases own : other = protocol
    · subst own
      exact confirmed wanted
    refine (ht.confirmed wanted other ?_).concat turn
    cases protocol <;> cases other <;> first | exact holds | exact absurd rfl own

--------
-- One turn
--------

/-- What a turn comes to before the network is opened. -/
structure Handled (history : List PppTurn) (turn : PppTurn) (before after : PppNegotiator)
    : Prop where
  truthful : Truthful (history ++ [turn]) after
  phase : after.phase = before.phase ∨ after.phase = .terminating
  configuration : after.configuration = before.configuration ∨ after.Complete

/-- A turn that fails leaves phase and configuration alone. -/
structure Failed (history : List PppTurn) (turn : PppTurn) (before after : PppNegotiator)
    : Prop where
  truthful : Truthful (history ++ [turn]) after
  phase : after.phase = before.phase
  configuration : after.configuration = before.configuration

theorem Grounded.failed {received} (hg : Grounded history { received, sent := [] } start)
    (he : start.phase = before.phase ∧ start.configuration = before.configuration)
    (hp : Proceeds start [] after)
    : Failed history { received, sent := [] } before after :=
  ⟨hg.proceeds hp, hp.phase.trans he.1, hp.configuration.trans he.2⟩

theorem Grounded.handled (hg : Grounded history turn start)
    (he : start.phase = before.phase ∧ start.configuration = before.configuration)
    (advances : Advances start turn.sent after)
    : Handled history turn before after := by
  refine ⟨hg.advances advances, .inl ?_, ?_⟩
  · obtain ⟨⟨_, hp, _, rfl⟩, -⟩ := advances
    exact hp.phase.trans he.1
  · rw [← he.2]
    exact advances.configuration

/-- What a call comes to that was given `received`. -/
def Handles {α : Type} (history : List PppTurn) (received : Option Bytes) (command : Negotiation α)
    (sent : α → List PppOutboundPacket) (negotiator : PppNegotiator)
    : Prop :=
  Leads command negotiator
    (fun result after => Handled history { received, sent := sent result } negotiator after)
    (Failed history { received, sent := [] } negotiator)

variable {sent : α → List PppOutboundPacket}

theorem Progresses.handled (progresses : Progresses command sent)
    (ht : Truthful history ppp) (received)
    : Handles history received command sent ppp := by
  refine (progresses ppp).mono ?_ ?_
  · exact fun _ after advances => (ht.grounded _).handled ⟨rfl, rfl⟩ advances
  · exact fun after hp => (ht.grounded _).failed ⟨rfl, rfl⟩ hp

/-- What a frame must be like for the flags to stay true: the conditions on a call, for the
packet that the frame holds.
-/
structure Fitting (history : List PppTurn) (negotiator : PppNegotiator) (frame : Bytes)
    (protocol : ControlProtocol) (packet : PppControlPacket)
    : Prop where
  read : frameControl? frame = some (protocol, packet)
  acknowledgement
    : packet.code = configureAcknowledgement.byte →
      lastRequest history protocol = some packet.identifier
  request
    : packet.code = configureRequest.byte →
      (negotiator.control protocol).peerRequestAcknowledged
      ∨ ¬(negotiator.modifyControl protocol fun state =>
        { state with peerRequestAcknowledged := true }).LacksAddress

variable {frame : Bytes} {packet : PppControlPacket}

theorem progresses_refusal (protocol identifier code) (payload : Bytes) (now)
    : Progresses (do
        let outbound ← handleConfigurationNakOrReject protocol identifier code payload now
        return PppNegotiationEvent.sending outbound : Negotiation PppNegotiationEvent)
        (·.outbound) :=
  (progresses_handleConfigurationNakOrReject protocol identifier code payload now).map fun _ => rfl

section

variable (ht : Truthful history ppp)

include ht

section

variable (fitting : Fitting history ppp frame protocol packet)
include fitting

theorem leads_acknowledgement_turn (code : packet.code = configureAcknowledgement.byte) (now : Nat)
    : Handles history (some frame) (handleConfigurationAcknowledgement protocol now) id
      ppp := by
  have hg : ∀ sent, Grounded history { received := some frame, sent }
      (ppp.acknowledged protocol) := fun sent =>
    ht.acknowledged fitting.read code (fitting.acknowledgement code)
  have he : (ppp.acknowledged protocol).phase = ppp.phase
      ∧ (ppp.acknowledged protocol).configuration = ppp.configuration := by
    cases protocol <;> exact ⟨rfl, rfl⟩
  unfold Handles handleConfigurationAcknowledgement
  rw [leads_bind, leads_modify]
  refine (leads_advanceNegotiation now _).mono ?_ ?_
  · exact fun sent after advances => (hg sent).handled he advances
  · exact fun after failed => (hg []).failed he failed.1

theorem leads_request_turn (code : packet.code = configureRequest.byte) (now : Nat)
    : Handles history (some frame)
      (handleConfigurationRequest protocol packet.identifier packet.payload now) id
      ppp := by
  have he : ∀ entropy review, ({ ppp with entropy }.acknowledge protocol review).phase = ppp.phase
      ∧ ({ ppp with entropy }.acknowledge protocol review).configuration
        = ppp.configuration := by
    intro entropy review
    cases protocol <;> exact ⟨rfl, rfl⟩
  have read : frameControl? frame = some (protocol, {
      code := configureRequest.byte
      identifier := packet.identifier
      payload := packet.payload }) := by
    rw [fitting.read, ← code]
  refine (leads_handleConfigurationRequest protocol packet.identifier packet.payload now
    ppp).mono ?_ ?_
  · rintro sent after (hp | ⟨entropy, review, advances, answer, hm, acknowledges⟩)
    · exact (ht.grounded _).handled ⟨rfl, rfl⟩ hp.advances
    · refine (ht.acknowledge entropy review fun _ => ?_).handled (he _ _) advances
      exact ⟨_, List.mem_append_right _ (List.mem_singleton_self _), packet.identifier,
        packet.payload, read, answer, hm, acknowledges⟩
  · rintro after (hp | ⟨entropy, review, hp, reason⟩)
    · exact (ht.grounded _).failed ⟨rfl, rfl⟩ hp
    · -- The acknowledgement is lost, but an earlier one was sent or none is needed.
      refine (ht.acknowledge entropy review fun family => ?_).failed (he _ _) hp
      rcases reason with ⟨noIpv4, noIpv6⟩ | lacks
      · exact absurd family (not_or.mpr ⟨noIpv4, noIpv6⟩)
      rcases fitting.request code with earlier | notLacking
      · exact (ht.confirmed family protocol earlier).concat _
      refine absurd ?_ notLacking
      cases protocol <;> exact lacks

end

theorem leads_terminate_turn (identifier : UInt8)
    : Handles history (some frame) (do
        let answer ← answerPacket protocol .terminateAcknowledgement identifier []
        modify fun ppp => { ppp with phase := .terminating }
        return { PppNegotiationEvent.sending [answer] with peerTerminated := true }
        : Negotiation PppNegotiationEvent) (·.outbound) ppp := by
  rw [Handles, leads_bind]
  refine (keeps_answerPacket (by decide) protocol identifier [] ppp).mono ?_ ?_
  · intro answer middle hp
    rw [leads_bind, leads_modify, leads_pure]
    have sent := (ht.grounded { received := some frame, sent := [answer] }).proceeds hp
    exact ⟨{ sent with }, .inr rfl, .inl hp.configuration⟩
  · exact fun _ hp => (ht.grounded _).failed ⟨rfl, rfl⟩ hp

/-- Whatever control packet a frame holds, the flags stay true. -/
theorem leads_handleControlPacket {payload}
    (fitting : ∀ packet, parsePppControlPacket payload = .ok packet →
      Fitting history ppp frame protocol packet) (now : Nat)
    : Handles history (some frame) (handleControlPacket protocol payload now) (·.outbound)
      ppp := by
  unfold Handles handleControlPacket
  rw [leads_bind]
  cases hp : parsePppControlPacket payload with
  | error error => exact (ht.grounded _).failed ⟨rfl, rfl⟩ (.refl _)
  | ok packet =>
    rw [liftControl, leads_pure]
    cases hk : ofByte? packet.code with
    | none => exact (ht.grounded _).failed ⟨rfl, rfl⟩ (.refl _)
    | some code =>
      have byte := byte_of_ofByte? hk
      cases code with
      | configureRequest =>
        exact leads_bind.mpr (leads_request_turn ht (fitting packet hp) byte now)
      | configureAcknowledgement =>
        exact leads_bind.mpr (leads_acknowledgement_turn ht (fitting packet hp) byte now)
      | configureNegativeAcknowledgement =>
        exact (progresses_refusal _ _ _ _ _).handled ht _
      | configureRejection => exact (progresses_refusal _ _ _ _ _).handled ht _
      | terminateRequest => exact leads_terminate_turn ht packet.identifier
      | terminateAcknowledgement =>
        exact (silent_get.bind fun _ => keeps_pure rfl).progresses.handled ht _
      | codeRejection => exact (ht.grounded _).failed ⟨rfl, rfl⟩ (.refl _)
      | protocolRejection =>
        exact (progresses_handleProtocolRejection _ _ _).handled ht _
      | echoRequest => exact (keeps_handleEchoRequest _ _).progresses.handled ht _
      | echoReply => exact (keeps_handleEchoReply _ _).progresses.handled ht _
      | discardRequest => exact (keeps_pure rfl).progresses.handled ht _

theorem leads_handlePacket {packet} (hp : parsePppPacket frame = .ok packet)
    (fitting : ∀ protocol control, frameControl? frame = some (protocol, control) →
      ppp.wants protocol → Fitting history ppp frame protocol control) (now : Nat)
    : Handles history (some frame) (handlePacket packet now) (·.outbound) ppp := by
  have rejection : Progresses (do
      let outbound ← protocolRejection packet.protocol packet.payload
      return PppNegotiationEvent.sending outbound : Negotiation PppNegotiationEvent)
      (·.outbound) := by
    refine Keeps.progresses (Keeps.map (keeps_protocolRejection _ _) ?_)
    exact fun _ => rfl
  unfold Handles handlePacket
  rw [leads_bind, leads_get]
  cases hk : ControlProtocol.ofNumber? packet.protocol with
  | none =>
    exact (Progresses.ite (keeps_pure rfl).progresses rejection).handled ht _
  | some protocol =>
    simp only [leads_ite]
    refine ⟨fun wanted => ?_, fun _ => rejection.handled ht _⟩
    refine leads_handleControlPacket ht ?_ now
    intro control read
    refine fitting protocol control ?_ wanted
    simp [frameControl?, hp, readControl?, hk, read]

end

--------
-- Whole runs
--------

namespace PppRun

structure Sound (run : PppRun) : Prop where
  truthful : Truthful run.history run.negotiator
  unconfigured : run.negotiator.phase = .establishing → run.negotiator.configuration = none

/-- A turn keeps the run sound, and opens the network only on a complete negotiation. -/
structure Follows (before after : PppRun) : Prop where
  sound : after.Sound
  opens
    : before.negotiator.phase ≠ .network → after.negotiator.phase = .network →
      after.negotiator.Complete

variable {now : Nat} {run after : PppRun}

theorem follows_of_terminating (ht : Truthful after.history after.negotiator)
    (he : after.negotiator.phase = .terminating)
    : Follows run after where
  sound := ⟨ht, fun establishing => by cases he.symm.trans establishing⟩
  opens _ opened := by cases he.symm.trans opened

/-- What a frame comes to, once the network may have been opened. -/
theorem leads_openNetwork {after} (handled : Handled history turn before after)
    (unconfigured : before.phase = .establishing → before.configuration = none) (event)
    (failure : PppNegotiator → Prop)
    : Leads (openNetwork event) after
      (fun result final => result.outbound = event.outbound
        ∧ Truthful (history ++ [turn]) final
        ∧ (final.phase = .establishing → final.configuration = none)
        ∧ (before.phase ≠ .network → final.phase = .network → final.Complete))
      failure := by
  unfold openNetwork
  rw [leads_bind, leads_get, leads_ite]
  refine ⟨?_, ?_⟩
  · rintro ⟨hc, establishing⟩
    rw [leads_bind, leads_modify, leads_pure]
    refine ⟨rfl, { handled.truthful with }, by rintro ⟨⟩, fun _ _ => ?_⟩
    have hb : before.phase = .establishing := by
      rcases handled.phase with he | ended
      · exact he.symm.trans establishing
      · cases ended.symm.trans establishing
    rcases handled.configuration with he | complete
    · rw [he, unconfigured hb] at hc
      cases hc
    · exact complete
  · intro closed
    rw [leads_pure]
    refine ⟨rfl, handled.truthful, ?_, ?_⟩
    · intro establishing
      by_contra hc
      exact closed ⟨Option.isSome_iff_ne_none.mpr hc, establishing⟩
    · intro notOpen ho
      rcases handled.phase with he | ended
      · exact absurd (he.symm.trans ho) notOpen
      · cases ended.symm.trans ho

namespace Sound

variable (hs : run.Sound)
include hs

theorem failed (history : after.history = run.history ++ [turn])
    (failed : Failed run.history turn run.negotiator after.negotiator)
    : Follows run after where
  sound := {
    truthful := history ▸ failed.truthful
    unconfigured := fun establishing => by
      have before : run.negotiator.phase = .establishing := failed.phase.symm.trans establishing
      exact failed.configuration.trans (hs.unconfigured before) }
  opens closed opened := absurd (failed.phase.symm.trans opened) closed

theorem proceeds (history : after.history = run.history ++ [turn])
    (proceeds : Proceeds run.negotiator turn.sent after.negotiator)
    : Follows run after :=
  hs.failed history
    ⟨(hs.truthful.grounded turn).proceeds proceeds, proceeds.phase, proceeds.configuration⟩

/-- Calls that are not about a frame. -/
theorem record (hk : Keeps command sent) : Follows run (run.record none command sent) := by
  rcases record_of_leads (hk run.negotiator) none sent with
    ⟨result, proceeds, history⟩ | ⟨proceeds, history⟩
  all_goals exact hs.proceeds history proceeds

theorem terminateRequest : Follows run (run.step .terminateRequest) := by
  have answered : Leads OpenConnect.terminateRequest run.negotiator
      (fun packet after => Proceeds { run.negotiator with phase := .terminating } [packet] after)
      (fun after => Proceeds { run.negotiator with phase := .terminating } [] after) := by
    unfold OpenConnect.terminateRequest
    rw [leads_bind, leads_modify]
    exact silent_nextLcpIdentifier.bind (fun _ => keeps_answerPacket (by decide) _ _ _) _
  have ht : Truthful run.history { run.negotiator with phase := .terminating } :=
    { hs.truthful with }
  rcases record_of_leads answered none fun packet => [packet] with
    ⟨packet, proceeds, history⟩ | ⟨proceeds, history⟩
  all_goals
    refine follows_of_terminating ?_ proceeds.phase
    rw [step, history]
    exact (ht.grounded _).proceeds proceeds

theorem handleFrame (ha : run.Admissible (.handleFrame frame now))
    : Follows run (run.step (.handleFrame frame now)) := by
  have handled : Leads (OpenConnect.handleFrame frame now) run.negotiator (fun event after =>
        Truthful (run.history ++ [{ received := some frame, sent := event.outbound }]) after
        ∧ (after.phase = .establishing → after.configuration = none)
        ∧ (run.negotiator.phase ≠ .network → after.phase = .network → after.Complete))
      (Failed run.history { received := some frame, sent := [] } run.negotiator) := by
    unfold OpenConnect.handleFrame
    rw [leads_bind]
    cases hp : parsePppPacket frame with
    | error error => exact (hs.truthful.grounded _).failed ⟨rfl, rfl⟩ (.refl _)
    | ok _ =>
      rw [liftControl, leads_pure, leads_bind, leads_modify, leads_bind]
      have ht : Truthful run.history { run.negotiator with
            lastReceived := now, pendingEcho := false, missedEchoReplies := 0 } :=
        { hs.truthful with }
      refine (leads_handlePacket ht hp ?_ now).mono ?_ ?_
      · intro protocol control read wanted
        obtain ⟨acknowledgement, request⟩ := ha protocol control read wanted
        refine ⟨read, acknowledgement, ?_⟩
        cases protocol <;> exact request
      · intro event middle turned
        refine (leads_openNetwork turned hs.unconfigured event _).mono ?_ fun _ => id
        rintro result after ⟨he, rest⟩
        rw [he]
        exact rest
      · exact fun after failed => { failed with }
  rcases record_of_leads handled (some frame) (·.outbound) with
    ⟨event, ⟨ht, unconfigured, opens⟩, history⟩ | ⟨failed, history⟩
  · refine ⟨⟨?_, unconfigured⟩, opens⟩
    rw [step, history]
    exact ht
  · exact hs.failed history failed

theorem step {call} (ha : run.Admissible call) : Follows run (run.step call) := by
  cases call with
  | start now => exact hs.record ((keeps_buildConfigurationRequest .lcp now).map fun _ => rfl)
  | handleFrame _ now => exact hs.handleFrame ha
  | handleTimer now => exact hs.record (keeps_handleTimer now)
  | terminateRequest => exact hs.terminateRequest

end Sound

theorem sound_begin {options entropy} (created : new options now entropy = .ok ppp)
    : (begin ppp).Sound := by
  obtain ⟨-, hc⟩ := guard_eq_ok.mp created
  obtain ⟨-, drawn⟩ := guard_eq_ok.mp hc
  cases magic : entropy 0 with
  | error _ =>
    simp only [magic] at drawn
    cases drawn
  | ok _ =>
    simp only [magic] at drawn
    cases drawn
    refine ⟨⟨?_, ?_⟩, fun _ => rfl⟩
    · intro protocol hh
      cases protocol <;> cases hh
    · intro _ protocol hh
      cases protocol <;> cases hh

theorem sound_foldl (hs : run.Sound) {calls rest}
    (ha : AllAdmitted step Admissible run (calls ++ rest))
    : (calls.foldl step run).Sound ∧ AllAdmitted step Admissible (calls.foldl step run) rest := by
  induction calls generalizing run with
  | nil => exact ⟨hs, ha⟩
  | cons _ calls ih => exact ih (hs.step ha.1).sound ha.2

end PppRun

end Turns

open PppRun

/-- Whenever the network is opened, the last request of each wanted protocol was acknowledged
and so was a request of the peer, if each call of the run is admissible where it is made.
-/
theorem ppp_opens_on_acknowledgements {options : PppNegotiatorOptions} {now : Nat}
    {entropy : Nat → Except String Magic} {negotiator : PppNegotiator}
    (created : new options now entropy = .ok negotiator) {calls : List PppCall}
    {call : PppCall}
    (admissible : AllAdmitted step Admissible (.begin negotiator) (calls ++ [call]))
    (closed : (after negotiator calls).negotiator.phase ≠ .network)
    (opened : (after negotiator (calls ++ [call])).negotiator.phase = .network)
    : ∀ protocol, (after negotiator (calls ++ [call])).negotiator.wants protocol →
      Answered (after negotiator (calls ++ [call])).history protocol
      ∧ Confirmed (after negotiator (calls ++ [call])).history protocol := by
  intro protocol wanted
  obtain ⟨earlier, last, -⟩ := sound_foldl (sound_begin created) admissible
  have follows := earlier.step last
  have next : after negotiator (calls ++ [call]) = (after negotiator calls).step call := by
    simp [after]
  rw [← after, ← next] at follows
  obtain ⟨family, settled⟩ := follows.opens closed opened
  obtain ⟨acknowledged, confirmed⟩ := Bool.and_eq_true_iff.mp (settled protocol wanted)
  exact ⟨follows.sound.truthful.answered protocol acknowledged,
    follows.sound.truthful.confirmed family protocol confirmed⟩

def exampleOptions : PppNegotiatorOptions where
  encapsulation := .fortinet
  wantIpv4 := true
  wantIpv6 := false
  ipv4Address := some { addr := 0x0a000002, prefixLen := ⟨32, by decide⟩ }
  ipv6Address := none
  lockAddresses := false
  mtu := 0
  requestIpv4NameServers := false
  negotiationPeriod := 0
  negotiationAttempts := 0
  echoInterval := 0
  echoFailures := 0

/-- A control packet without options, as the peer sends it. -/
def bareFrame (protocol : ControlProtocol) (code : PppCode) (identifier : UInt8) : Bytes :=
  [0xff, 0x03] ++ toBigEndian 2 protocol.number.toNat ++ [code.byte, identifier, 0, 4]

/-- Both protocols are negotiated, the requests being acknowledged under the identifiers
`link` and `family`.
-/
def exampleCalls (link family : UInt8) : List PppCall :=
  [.start 0,
    .handleFrame (bareFrame .lcp .configureAcknowledgement link) 0,
    .handleFrame (bareFrame .lcp .configureRequest 1) 0,
    .handleFrame (bareFrame .ipcp .configureAcknowledgement family) 0]

def exampleLastCall : PppCall := .handleFrame (bareFrame .ipcp .configureRequest 1) 0

def exampleNegotiator : PppNegotiator :=
  (new exampleOptions 0 fun _ => .ok #v[1, 2, 3, 4]).toOption.get (by decide)

theorem exampleNegotiator_created
    : new exampleOptions 0 (fun _ => .ok #v[1, 2, 3, 4])
      = .ok exampleNegotiator :=
  rfl

theorem frameControl?_bareFrame (protocol code identifier)
    : frameControl? (bareFrame protocol code identifier)
      = some (protocol, { code := code.byte, identifier, payload := [] }) := by
  cases protocol <;> rfl

variable {now : Nat} {identifier : UInt8} {run : PppRun}

theorem PppRun.admissible_acknowledgement
    (last : lastRequest run.history protocol = some identifier)
    : run.Admissible
      (.handleFrame (bareFrame protocol .configureAcknowledgement identifier) now) := by
  intro own packet he _
  rw [frameControl?_bareFrame] at he
  cases he
  have ha : configureAcknowledgement.byte ≠ configureRequest.byte := by decide
  exact ⟨fun _ => last, fun request => absurd request ha⟩

theorem PppRun.admissible_request (hk : ¬(run.negotiator.modifyControl protocol fun state =>
      { state with peerRequestAcknowledged := true }).LacksAddress)
    : run.Admissible (.handleFrame (bareFrame protocol .configureRequest identifier) now) := by
  intro own packet he _
  rw [frameControl?_bareFrame] at he
  cases he
  have ha : configureRequest.byte ≠ configureAcknowledgement.byte := by decide
  exact ⟨fun acknowledgement => absurd acknowledgement ha, fun _ => .inr hk⟩

/-- Both requests have the identifier 1; answered by it, they open the network. -/
theorem ppp_opens_on_acknowledgements_example
    : Answered (after exampleNegotiator (exampleCalls 1 1 ++ [exampleLastCall])).history .lcp
      ∧ Confirmed (after exampleNegotiator
        (exampleCalls 1 1 ++ [exampleLastCall])).history .lcp := by
  have admissible : AllAdmitted step Admissible (.begin exampleNegotiator)
      (exampleCalls 1 1 ++ [exampleLastCall]) := by
    refine ⟨trivial, ?_, ?_, ?_, ?_, trivial⟩
    · exact admissible_acknowledgement (by decide +kernel)
    · exact admissible_request fun lacks => absurd lacks.2.2 (by decide +kernel)
    · exact admissible_acknowledgement (by decide +kernel)
    · exact admissible_request fun lacks => absurd lacks.2.2 (by decide +kernel)
  exact ppp_opens_on_acknowledgements exampleNegotiator_created admissible (by decide +kernel)
    (by decide +kernel) .lcp rfl

/-- Acknowledgements of other identifiers open the network as well. -/
theorem ppp_opens_on_stray_acknowledgements
    : new exampleOptions 0 (fun _ => .ok #v[1, 2, 3, 4])
      = .ok exampleNegotiator
      ∧ (after exampleNegotiator (exampleCalls 9 7)).negotiator.phase ≠ .network
      ∧ (after exampleNegotiator
        (exampleCalls 9 7 ++ [exampleLastCall])).negotiator.phase = .network
      ∧ ¬Answered (after exampleNegotiator
        (exampleCalls 9 7 ++ [exampleLastCall])).history .lcp := by
  refine ⟨exampleNegotiator_created, by decide +kernel, by decide +kernel, ?_⟩
  intro answered
  have stray : ∀ turn ∈ (after exampleNegotiator (exampleCalls 9 7 ++ [exampleLastCall])).history,
      turn.acknowledgement? .lcp ≠ lastRequest (after exampleNegotiator
        (exampleCalls 9 7 ++ [exampleLastCall])).history .lcp := by
    decide +kernel
  obtain ⟨turn, member, same⟩ := answered.acknowledged
  exact stray turn member same

end Zay.OpenConnect
