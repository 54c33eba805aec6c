import Zay.Lib.Commands
import Zay.OpenConnect.PppNegotiation

/-! What the calls of the negotiation do to the acknowledgements. Most of them take none and
give none: for those a protocol stays acknowledged only while no request is sent for it. The
packets of a call that fails count as not sent.
-/

namespace Zay.OpenConnect

open Lib PppCode List

/-- The control packet of a protocol number and a payload. -/
def readControl? (protocol : UInt16) (payload : Bytes)
    : Option (ControlProtocol × PppControlPacket) :=
  match ControlProtocol.ofNumber? protocol, parsePppControlPacket payload with
  | some protocol, .ok packet => some (protocol, packet)
  | _, _ => none

def PppOutboundPacket.control? (packet : PppOutboundPacket)
    : Option (ControlProtocol × PppControlPacket) :=
  readControl? packet.protocol packet.payload

/-- The identifier of a packet that is a Configure-Request of the protocol. -/
def PppOutboundPacket.request? (packet : PppOutboundPacket) (protocol : ControlProtocol)
    : Option UInt8 :=
  match packet.control? with
  | some (own, control) =>
    if own = protocol ∧ control.code = configureRequest.byte then
      some control.identifier
    else none
  | none => none

def frameControl? (frame : Bytes) : Option (ControlProtocol × PppControlPacket) :=
  match parsePppPacket frame with
  | .ok packet => readControl? packet.protocol packet.payload
  | .error _ => none

variable {protocol own : ControlProtocol} {packet : PppOutboundPacket}

theorem control?_outboundPacket {ppp : PppNegotiator} {code identifier payload control}
    (built : buildPppControlPacket code identifier payload = .ok control)
    : (ppp.outboundPacket protocol.number control).control?
      = some (protocol, { code, identifier, payload }) := by
  simp [PppOutboundPacket.control?, PppNegotiator.outboundPacket, readControl?,
    parsePppControlPacket_of_build built]

theorem request?_of_code {control} (read : packet.control? = some (own, control))
    (other : control.code ≠ configureRequest.byte) (protocol)
    : packet.request? protocol = none := by
  simp [PppOutboundPacket.request?, read, other]

namespace PppNegotiator

variable (ppp : PppNegotiator) (change : ControlState → ControlState)

theorem control_modifyControl_of_ne {other} (ha : other ≠ protocol)
    : (ppp.modifyControl protocol change).control other = ppp.control other := by
  cases protocol <;> cases other <;> first | rfl | exact absurd rfl ha

variable (protocol : ControlProtocol)

@[simp] theorem control_modifyControl_self
    : (ppp.modifyControl protocol change).control protocol
      = change (ppp.control protocol) := by
  cases protocol <;> rfl

@[simp] theorem wants_modifyControl
    : (ppp.modifyControl protocol change).wants = ppp.wants := by
  cases protocol <;> rfl

@[simp] theorem phase_modifyControl
    : (ppp.modifyControl protocol change).phase = ppp.phase := by
  cases protocol <;> rfl

@[simp] theorem configuration_modifyControl
    : (ppp.modifyControl protocol change).configuration = ppp.configuration := by
  cases protocol <;> rfl

end PppNegotiator

open PppNegotiator

/-- What a command does that takes no acknowledgement and gives none: a protocol stays
acknowledged only while no request is sent for it.
-/
structure Proceeds (before : PppNegotiator) (sent : List PppOutboundPacket) (after : PppNegotiator)
    : Prop where
  acknowledged
    : ∀ protocol, (after.control protocol).requestAcknowledged →
      (before.control protocol).requestAcknowledged
      ∧ ∀ packet ∈ sent, packet.request? protocol = none
  confirmed
    : ∀ protocol, (after.control protocol).peerRequestAcknowledged
      = (before.control protocol).peerRequestAcknowledged
  wants : ∀ protocol, after.wants protocol → before.wants protocol
  phase : after.phase = before.phase
  configuration : after.configuration = before.configuration

variable {before after middle : PppNegotiator} (ppp : PppNegotiator)

theorem Proceeds.refl : Proceeds ppp [] ppp where
  acknowledged _ holds := ⟨holds, by simp⟩
  confirmed _ := rfl
  wants _ wanted := wanted
  phase := rfl
  configuration := rfl

theorem Proceeds.trans {first second} (left : Proceeds before first middle)
    (right : Proceeds middle second after)
    : Proceeds before (first ++ second) after where
  acknowledged protocol hh := by
    obtain ⟨hr, noSecond⟩ := right.acknowledged protocol hh
    obtain ⟨he, noFirst⟩ := left.acknowledged protocol hr
    exact ⟨he, forall_mem_append.mpr ⟨noFirst, noSecond⟩⟩
  confirmed protocol := (right.confirmed protocol).trans (left.confirmed protocol)
  wants protocol wanted := left.wants protocol (right.wants protocol wanted)
  phase := right.phase.trans left.phase
  configuration := right.configuration.trans left.configuration

variable {sent : List PppOutboundPacket} {condition : Prop}

/-- Packets that are no requests may be sent at any time. -/
theorem Proceeds.sending (hp : Proceeds before [] after)
    (noRequests : ∀ packet ∈ sent, ∀ protocol, packet.request? protocol = none)
    : Proceeds before sent after :=
  { hp with
    acknowledged := fun protocol hh =>
      ⟨(hp.acknowledged protocol hh).1, fun packet hm =>
        noRequests packet hm protocol⟩ }

/-- A command that fails returns nothing. -/
theorem Proceeds.lost (hp : Proceeds before sent after)
    : Proceeds before [] after :=
  { hp with
    acknowledged := fun protocol hh =>
      ⟨(hp.acknowledged protocol hh).1, by simp⟩ }

section Keeping

variable {α β : Type}

/-- The command proceeds, and returns the packets `sent`. -/
def Keeps (command : Negotiation α) (sent : α → List PppOutboundPacket) : Prop :=
  ∀ negotiator, Leads command negotiator
    (fun result after => Proceeds negotiator (sent result) after) (Proceeds negotiator [])

/-- The command proceeds and returns no packets. -/
def Silent (command : Negotiation α) : Prop := Keeps command fun _ => []

variable {sent : α → List PppOutboundPacket} {command : Negotiation β}

theorem Silent.bind {next} (hs : Silent command) (hk : ∀ result, Keeps (next result) sent)
    : Keeps (command >>= next) sent := by
  intro ppp
  refine (hs ppp).bind ?_ fun _ => id
  intro result middle hp
  exact (hk result middle).mono (fun _ _ => hp.trans) fun _ => hp.trans

theorem Keeps.map {sent} (hk : Keeps command sent) {value : β → α} {sent'}
    (he : ∀ result, sent' (value result) = sent result)
    : Keeps (command >>= fun result => pure (value result)) sent' := by
  intro ppp
  refine (hk ppp).bind ?_ fun _ => id
  intro result after hp
  rw [leads_pure, he]
  exact hp

theorem keeps_pure {value : α} (nothing : sent value = []) : Keeps (pure value) sent := by
  intro ppp
  rw [leads_pure, nothing]
  exact .refl ppp

theorem keeps_throw (error sent) : Keeps (throw error : Negotiation α) sent :=
  fun ppp => .refl ppp

theorem silent_get : Silent (get : Negotiation PppNegotiator) :=
  fun ppp => .refl ppp

theorem silent_modify {change} (hp : ∀ ppp, Proceeds ppp [] (change ppp))
    : Silent (modify change : Negotiation PUnit) :=
  hp

theorem Keeps.ite [Decidable condition] {yes no} (left : Keeps yes sent) (right : Keeps no sent)
    : Keeps (if condition then yes else no) sent := by
  split
  · exact left
  · exact right

theorem silent_liftControl (result : Except PppControlError α) : Silent (liftControl result) := by
  cases result with
  | ok _ => exact keeps_pure rfl
  | error error => exact keeps_throw _ _

theorem silent_foldlM {round} (hs : ∀ result item, Silent (round result item)) (items : List α)
    (start : β)
    : Silent (items.foldlM round start) := by
  intro ppp
  refine leads_foldlM (fun _ after => Proceeds ppp [] after) ?_ (.refl ppp)
  intro item _ result middle hp
  exact (hs result item middle).mono (fun _ _ => hp.trans) fun _ => hp.trans

end Keeping

theorem leads_answerPacket (protocol code identifier) (payload : Bytes)
    : Leads (answerPacket protocol code identifier payload) ppp
      (fun packet after => after = ppp
        ∧ packet.control? = some (protocol, { code := code.byte, identifier, payload }))
      (fun after => after = ppp) := by
  unfold answerPacket
  rw [leads_bind]
  cases built : buildPppControlPacket code.byte identifier payload with
  | error error => exact rfl
  | ok _ => exact ⟨rfl, control?_outboundPacket built⟩

variable {protocol : ControlProtocol} {packet : PppOutboundPacket} {code : PppCode}

/-- An answer is no request. -/
theorem request?_of_answer {identifier payload} (other : code ≠ .configureRequest)
    (read : packet.control? = some (protocol, { code := code.byte, identifier, payload }))
    : ∀ sent ∈ [packet], ∀ own, sent.request? own = none := by
  intro sent hm own
  obtain rfl := mem_singleton.mp hm
  exact request?_of_code read (fun he => other (byte_injective he)) own

theorem keeps_answerPacket (other : code ≠ .configureRequest) (protocol identifier)
    (payload : Bytes)
    : Keeps (answerPacket protocol code identifier payload) fun packet => [packet] := by
  intro ppp
  refine (leads_answerPacket ppp protocol code identifier payload).mono ?_ ?_
  · rintro packet after ⟨rfl, read⟩
    exact (Proceeds.refl _).sending (request?_of_answer other read)
  · rintro after rfl
    exact .refl _

--------
-- Requests
--------

theorem length_requestOptions (protocol) : (ppp.requestOptions protocol).length ≤ 5 := by
  cases protocol with
  | lcp =>
    have single : ∀ (asked : Bool) (option : UInt8 × Bytes),
        (if asked then [option] else []).length ≤ 1 := by
      intro asked option
      cases asked <;> simp
    simp only [requestOptions, length_append]
    show _ ≤ 1 + 1 + 1 + 1 + 1
    iterate 4 refine Nat.add_le_add ?_ (single ..)
    exact single ..
  | ipcp =>
    have few := length_filterMap_le (fun option =>
      (ppp.nameServerRequests option).map fun address =>
        (option.kind, toBigEndian 4 address.toNat)) NameServerOption.all
    exact Nat.succ_le_succ few
  | ip6cp => simp [requestOptions]

theorem length_of_mem_requestOptions {ppp : PppNegotiator} {option}
    (hm : option ∈ ppp.requestOptions protocol)
    : option.2.length ≤ 8 := by
  cases protocol with
  | lcp =>
    simp only [requestOptions, mem_append, mem_ite_nil_right, mem_singleton] at hm
    rcases hm with (((⟨-, rfl⟩ | ⟨-, rfl⟩) | ⟨-, rfl⟩) | ⟨-, rfl⟩) | ⟨-, rfl⟩ <;> simp
  | ipcp =>
    rcases mem_cons.mp hm with rfl | server
    · simp
    obtain ⟨_, -, read⟩ := mem_filterMap.mp server
    obtain ⟨_, -, rfl⟩ := Option.map_eq_some_iff.mp read
    simp
  | ip6cp =>
    obtain rfl := mem_singleton.mp hm
    simp

/-- The payload of a request always fits in a packet. -/
theorem exists_requestPacket (protocol)
    : ∃ payload, appendPppOptions [] (ppp.requestOptions protocol) = .ok payload
      ∧ ∀ code identifier, ∃ control,
        buildPppControlPacket code identifier payload = .ok control := by
  obtain ⟨payload, written, size⟩ := appendPppOptions_fits (by decide : 8 < 254) []
    (ppp.requestOptions protocol) fun _ hm => length_of_mem_requestOptions hm
  have few := length_requestOptions ppp protocol
  have hf : ¬payload.length + 4 > pppMaximumPayloadLength := by
    rw [length_nil] at size
    rw [pppMaximumPayloadLength]
    omega
  exact ⟨payload, written, fun code identifier => ⟨_, if_neg hf⟩⟩

/-- The request as it was sent, and its protocol unacknowledged. Of the rest only the magic
number may be new, and that for LCP alone.
-/
def Requested (before : PppNegotiator) (protocol : ControlProtocol) (now : Nat)
    (packet : PppOutboundPacket) (after : PppNegotiator)
    : Prop :=
  ∃ magic entropy payload,
    after = { before with localMagic := magic, entropy }.modifyControl protocol
      (·.requested now)
    ∧ packet.control? = some (protocol, {
      code := configureRequest.byte
      identifier := (after.control protocol).requestIdentifier
      payload })
    ∧ (protocol ≠ .lcp → magic = before.localMagic ∧ entropy = before.entropy)

variable (protocol : ControlProtocol) (identifier : UInt8) (code : PppCode) (disabled : Bool)
  (payload : Bytes) (review : RequestReview) (option : PppOption) (now : Nat)
  (ppp : PppNegotiator)

theorem leads_packRequest (failure : PppNegotiator → Prop)
    : Leads (packRequest protocol now) ppp
      (fun packet after => after = ppp.modifyControl protocol (·.requested now)
        ∧ ∃ payload, packet.control? = some (protocol, {
          code := configureRequest.byte
          identifier := (after.control protocol).requestIdentifier
          payload }))
      failure := by
  obtain ⟨payload, written, hf⟩ := exists_requestPacket ppp protocol
  obtain ⟨_, packed⟩ := hf configureRequest.byte
    ((ppp.modifyControl protocol (·.requested now)).control protocol).requestIdentifier
  simp only [packRequest, leads_bind, leads_get, leads_modify, written, liftControl, leads_pure,
    packed, true_and]
  exact ⟨payload, control?_outboundPacket packed⟩

/-- Only the magic number of an LCP request can fail. -/
theorem leads_buildConfigurationRequest
    : Leads (buildConfigurationRequest protocol now) ppp
      (Requested ppp protocol now)
      (fun after => protocol = .lcp ∧ ∃ entropy, after = { ppp with entropy }) := by
  unfold buildConfigurationRequest renewMagic
  rw [leads_bind, leads_bind, leads_get, leads_ite]
  constructor
  · rintro ⟨rfl, -⟩
    unfold randomPppMagic
    rw [leads_bind, leads_bind, leads_get, leads_bind, leads_modify]
    cases ppp.entropy 0 with
    | error _ => exact ⟨rfl, _, rfl⟩
    | ok magic =>
      rw [leads_pure, leads_modify]
      refine (leads_packRequest .lcp now _ _).mono ?_ fun _ => id
      rintro packet after ⟨rfl, payload, read⟩
      exact ⟨magic, _, payload, rfl, read, fun other => absurd rfl other⟩
  · intro _
    rw [leads_pure]
    refine (leads_packRequest protocol now _ _).mono ?_ fun _ => id
    rintro packet after ⟨rfl, payload, read⟩
    exact ⟨_, _, payload, rfl, read, fun _ => ⟨rfl, rfl⟩⟩

theorem Requested.proceeds {protocol now} (requested : Requested before protocol now packet after)
    : Proceeds before [packet] after := by
  obtain ⟨magic, entropy, _, rfl, read, -⟩ := requested
  have he : { before with localMagic := magic, entropy }.control = before.control := rfl
  refine ⟨?_, ?_, ?_, ?_, ?_⟩
  · intro other hh
    by_cases own : other = protocol
    · subst own
      rw [control_modifyControl_self] at hh
      cases hh
    rw [control_modifyControl_of_ne _ _ own, he] at hh
    refine ⟨hh, ?_⟩
    intro sent hm
    obtain rfl := mem_singleton.mp hm
    simp [PppOutboundPacket.request?, read, Ne.symm own]
  · intro other
    by_cases own : other = protocol
    · subst own
      rw [control_modifyControl_self, he]
      rfl
    · rw [control_modifyControl_of_ne _ _ own, he]
  · intro other wanted
    rw [wants_modifyControl] at wanted
    exact wanted
  · exact phase_modifyControl ..
  · exact configuration_modifyControl ..

theorem keeps_buildConfigurationRequest
    : Keeps (buildConfigurationRequest protocol now) fun packet => [packet] := by
  intro ppp
  refine (leads_buildConfigurationRequest protocol now ppp).mono ?_ ?_
  · exact fun packet after requested => requested.proceeds
  · rintro after ⟨-, entropy, rfl⟩
    exact { Proceeds.refl _ with }

--------
-- Advancing
--------

namespace PppNegotiator

/-- Every wanted protocol is negotiated in both directions. -/
def Complete (negotiator : PppNegotiator) : Prop :=
  (negotiator.wantIpv4 ∨ negotiator.wantIpv6)
  ∧ ∀ protocol, negotiator.wants protocol → (negotiator.control protocol).settled

/-- Nothing is left to request or to acknowledge, but a family has no address. -/
def LacksAddress (negotiator : PppNegotiator) : Prop :=
  negotiator.Complete
  ∧ (∀ protocol, negotiator.wants protocol → protocol ≠ .lcp →
    (negotiator.control protocol).requestSent)
  ∧ (negotiator.wantIpv4 ∧ negotiator.missesIpv4 ∨ negotiator.wantIpv6 ∧ negotiator.missesIpv6)

end PppNegotiator

/-- The negotiation proceeds, or it is complete and gets its configuration. -/
structure Advances (before : PppNegotiator) (sent : List PppOutboundPacket) (after : PppNegotiator)
    : Prop where
  proceeds : ∃ middle, Proceeds before sent middle
    ∧ ∃ configuration, after = { middle with configuration }
  configuration : after.configuration = before.configuration ∨ after.Complete

theorem Proceeds.advances (hp : Proceeds before sent after)
    : Advances before sent after :=
  ⟨⟨after, hp, after.configuration, rfl⟩, .inl hp.configuration⟩

theorem leads_requestFamily {protocol} (family : protocol ≠ .lcp) (now ppp)
    (failure : PppNegotiator → Prop)
    : Leads (requestFamily protocol now) ppp
      (fun sent after =>
        sent = [] ∧ after = ppp
          ∧ (ppp.wants protocol → (ppp.control protocol).requestSent)
        ∨ Proceeds ppp sent after ∧ after.wants = ppp.wants
          ∧ after.wants protocol ∧ ¬(after.control protocol).settled
          ∧ ∀ other, other ≠ protocol → after.control other = ppp.control other)
      failure := by
  unfold requestFamily
  rw [leads_bind, leads_get, leads_ite]
  constructor
  · rintro ⟨wanted, -⟩
    refine (leads_buildConfigurationRequest protocol now ppp).bind ?_ ?_
    · intro packet after requested
      rw [leads_pure]
      refine .inr ⟨requested.proceeds, ?_⟩
      obtain ⟨_, _, _, rfl, -, -⟩ := requested
      refine ⟨wants_modifyControl .., ?_, ?_, ?_⟩
      · rw [wants_modifyControl]
        exact wanted
      · rw [control_modifyControl_self]
        simp [ControlState.settled, ControlState.requested]
      · intro other ha
        rw [control_modifyControl_of_ne _ _ ha]
        rfl
    · rintro after ⟨lcp, -⟩
      exact absurd lcp family
  · intro rest
    rw [leads_pure]
    refine .inl ⟨rfl, rfl, ?_⟩
    intro wanted
    by_contra unsent
    exact rest ⟨wanted, unsent⟩

/-- Either there was nothing to request, or a wanted family is not settled. -/
theorem leads_requestFamilies (failure : PppNegotiator → Prop)
    : Leads (requestFamilies now) ppp
      (fun sent after =>
        sent = [] ∧ after = ppp
          ∧ (∀ protocol, ppp.wants protocol → protocol ≠ .lcp →
            (ppp.control protocol).requestSent)
        ∨ Proceeds ppp sent after
          ∧ ∃ protocol, protocol ≠ .lcp ∧ after.wants protocol
            ∧ ¬(after.control protocol).settled)
      failure := by
  unfold requestFamilies
  refine (leads_requestFamily (by decide : ControlProtocol.ipcp ≠ .lcp) now ppp
    failure).bind ?_ fun _ => id
  intro first middle firstDone
  refine (leads_requestFamily (by decide : ControlProtocol.ip6cp ≠ .lcp) now middle
    failure).bind ?_ fun _ => id
  intro second after secondDone
  rw [leads_pure]
  rcases firstDone with ⟨rfl, rfl, sent⟩ | ⟨left, _, wanted, unsettled, _⟩
  · rcases secondDone with ⟨rfl, rfl, sent'⟩ | ⟨right, -, wanted, unsettled, -⟩
    · refine .inl ⟨rfl, rfl, ?_⟩
      intro protocol wanted family
      cases protocol with
      | lcp => exact absurd rfl family
      | ipcp => exact sent wanted
      | ip6cp => exact sent' wanted
    · exact .inr ⟨right, .ip6cp, by decide, wanted, unsettled⟩
  · rcases secondDone with ⟨rfl, rfl, -⟩ | ⟨right, wants', -, -, others'⟩
    · rw [append_nil]
      exact .inr ⟨left, .ipcp, by decide, wanted, unsettled⟩
    refine .inr ⟨left.trans right, .ipcp, by decide, ?_, ?_⟩
    · rw [wants']
      exact wanted
    · rw [others' .ipcp (by decide)]
      exact unsettled

theorem leads_configure {ppp} (link : ppp.lcp.settled) (family : ppp.wantIpv4 ∨ ppp.wantIpv6)
    : Leads configure ppp
      (fun _ after => after = ppp
        ∨ (∃ configuration, after = { ppp with configuration }) ∧ ppp.Complete)
      (fun after => after = ppp ∧ ppp.Complete
        ∧ (ppp.wantIpv4 ∧ ppp.missesIpv4
          ∨ ppp.wantIpv6 ∧ ppp.missesIpv6)) := by
  unfold configure
  rw [leads_bind, leads_get, leads_ite]
  refine ⟨fun _ => .inl rfl, fun ipcp => ?_⟩
  rw [leads_ite]
  refine ⟨fun _ => .inl rfl, fun ip6cp => ?_⟩
  have hc : ppp.Complete := by
    refine ⟨family, ?_⟩
    intro protocol wanted
    cases protocol with
    | lcp => exact link
    | ipcp =>
      by_contra unsettled
      exact ipcp ⟨wanted, unsettled⟩
    | ip6cp =>
      by_contra unsettled
      exact ip6cp ⟨wanted, unsettled⟩
  rw [leads_ite]
  refine ⟨fun misses => ⟨rfl, hc, .inl misses⟩, fun _ => ?_⟩
  rw [leads_ite]
  refine ⟨fun misses => ⟨rfl, hc, .inr misses⟩, fun _ => ?_⟩
  exact .inr ⟨⟨_, rfl⟩, hc⟩

theorem leads_advanceNegotiation
    : Leads (advanceNegotiation now) ppp (Advances ppp)
      (fun after => Proceeds ppp [] after
        ∧ (¬ppp.wantIpv4 ∧ ¬ppp.wantIpv6 ∨ ppp.LacksAddress)) := by
  unfold advanceNegotiation
  rw [leads_bind, leads_get, leads_ite]
  refine ⟨fun _ => (Proceeds.refl ppp).advances, fun hs => ?_⟩
  rw [leads_ite]
  refine ⟨fun nothing => ⟨.refl ppp, .inl nothing⟩, fun some => ?_⟩
  have link : ppp.lcp.settled := by simpa using hs
  have family : ppp.wantIpv4 ∨ ppp.wantIpv6 := by
    by_contra neither
    exact some (not_or.mp neither)
  refine (leads_requestFamilies now ppp _).bind ?_ fun _ => id
  intro sent middle requested
  rw [leads_bind]
  rcases requested with ⟨rfl, rfl, sent⟩ | ⟨hp, protocol, notLink, wanted, unsettled⟩
  · refine (leads_configure link family).mono ?_ ?_
    · rintro - after (rfl | ⟨⟨configuration, rfl⟩, hc⟩)
      · exact (Proceeds.refl _).advances
      · exact ⟨⟨_, .refl _, configuration, rfl⟩, .inr hc⟩
    · rintro after ⟨rfl, hc, misses⟩
      exact ⟨.refl _, .inr ⟨hc, sent, misses⟩⟩
  unfold configure
  rw [leads_bind, leads_get, leads_ite]
  refine ⟨fun _ => hp.advances, fun ipcp => ?_⟩
  rw [leads_ite]
  refine ⟨fun _ => hp.advances, fun ip6cp => ?_⟩
  cases protocol with
  | lcp => exact absurd rfl notLink
  | ipcp => exact absurd ⟨wanted, unsettled⟩ ipcp
  | ip6cp => exact absurd ⟨wanted, unsettled⟩ ip6cp

/-- A command that proceeds or advances and takes no acknowledgement itself. -/
def Progresses {α : Type} (command : Negotiation α) (sent : α → List PppOutboundPacket) : Prop :=
  ∀ negotiator, Leads command negotiator
    (fun result after => Advances negotiator (sent result) after) (Proceeds negotiator [])

theorem Proceeds.trans_advances {first second} (left : Proceeds before first middle)
    (right : Advances middle second after)
    : Advances before (first ++ second) after := by
  obtain ⟨⟨last, hp, hc⟩, configuration⟩ := right
  refine ⟨⟨last, left.trans hp, hc⟩, ?_⟩
  rw [← left.configuration]
  exact configuration

section Progressing

variable {α β : Type} {sent : α → List PppOutboundPacket}

theorem Keeps.progresses {command} (hk : Keeps command sent) : Progresses command sent := by
  intro ppp
  exact (hk ppp).mono (fun _ _ hp => hp.advances) fun _ => id

variable {command : Negotiation β}

theorem Silent.bind_progresses {next} (hs : Silent command)
    (progresses : ∀ result, Progresses (next result) sent)
    : Progresses (command >>= next) sent := by
  intro ppp
  refine (hs ppp).bind ?_ fun _ => id
  intro result middle hp
  exact (progresses result middle).mono (fun _ _ => hp.trans_advances) fun _ => hp.trans

theorem Progresses.map {sent'} (progresses : Progresses command sent') {value : β → α}
    (he : ∀ result, sent (value result) = sent' result)
    : Progresses (command >>= fun result => pure (value result)) sent := by
  intro ppp
  refine (progresses ppp).bind ?_ fun _ => id
  intro result after advances
  rw [leads_pure, he]
  exact advances

theorem Progresses.ite [Decidable condition] {yes no} (left : Progresses yes sent)
    (right : Progresses no sent)
    : Progresses (if condition then yes else no) sent := by
  split
  · exact left
  · exact right

end Progressing

theorem progresses_advanceNegotiation : Progresses (advanceNegotiation now) id := by
  intro ppp
  exact (leads_advanceNegotiation now ppp).mono (fun _ _ advances => advances)
    fun _ failed => failed.1

theorem silent_disableIpv6 : Silent disableIpv6 := by
  refine silent_modify fun ppp => { Proceeds.refl ppp with wants := ?_ }
  intro protocol wanted
  cases protocol with
  | lcp => rfl
  | ipcp => exact wanted
  | ip6cp => cases wanted

theorem silent_applyLcpRefusal : Silent (applyLcpRefusal code option) := by
  have free : ∀ change, (∀ ppp, Proceeds ppp [] (change ppp)) → ∀ error,
      ∀ condition, ∀ [Decidable condition],
      Silent (if condition then modify change else throw error : Negotiation Unit) :=
    fun change hp error condition _ => (silent_modify hp).ite (keeps_throw _ _)
  unfold applyLcpRefusal
  refine Keeps.ite (free _ ?_ _ _) (.ite (free _ ?_ _ _) (.ite (free _ ?_ _ _)
    (.ite (free _ ?_ _ _) (.ite (free _ ?_ _ _) (keeps_throw _ _)))))
  all_goals exact fun _ => { Proceeds.refl _ with }

theorem silent_adoptIpv4 (address : BitVec 32) : Silent (adoptIpv4 address) := by
  have adopt : Silent (modify fun ppp => { ppp with localIpv4 := some address }
      : Negotiation Unit) :=
    silent_modify fun _ => { Proceeds.refl _ with }
  unfold adoptIpv4
  refine silent_get.bind fun ppp => ?_
  cases ppp.localIpv4 with
  | none => exact adopt
  | some _ => exact (keeps_throw _ _).ite adopt

theorem silent_setNameServer (option address) : Silent (setNameServer option address) :=
  silent_modify fun _ => { Proceeds.refl _ with }

theorem silent_applyIpcpRefusal : Silent (applyIpcpRefusal code option) := by
  unfold applyIpcpRefusal
  refine Keeps.ite ?_ ?_
  · exact (silent_liftControl _).bind fun address =>
      (keeps_throw _ _).ite (silent_adoptIpv4 address)
  · cases NameServerOption.ofKind? option.kind with
    | none => exact keeps_throw _ _
    | some server =>
      exact (silent_setNameServer server none).ite ((silent_liftControl _).bind fun address =>
        (keeps_throw _ _).ite (silent_setNameServer server (some address)))

theorem silent_adoptInterfaceId (address : BitVec 128) : Silent (adoptInterfaceId address) := by
  unfold adoptInterfaceId
  refine silent_get.bind fun _ => (keeps_throw _ _).ite ?_
  exact silent_modify fun _ => { Proceeds.refl _ with }

theorem silent_applyIp6cpRefusal : Silent (applyIp6cpRefusal code disabled option) := by
  have disable : Silent (do disableIpv6; return true : Negotiation Bool) :=
    silent_disableIpv6.map fun _ => rfl
  unfold applyIp6cpRefusal
  refine (keeps_throw _ _).ite (disable.ite ?_)
  exact (silent_liftControl _).bind fun address =>
    disable.ite ((silent_adoptInterfaceId address).map fun _ => rfl)

theorem silent_applyRefusal : Silent (applyRefusal protocol code disabled option) := by
  cases protocol with
  | lcp => exact (silent_applyLcpRefusal code option).map fun _ => rfl
  | ipcp => exact (silent_applyIpcpRefusal code option).map fun _ => rfl
  | ip6cp => exact silent_applyIp6cpRefusal code disabled option

theorem progresses_handleConfigurationNakOrReject
    : Progresses (handleConfigurationNakOrReject protocol identifier code payload now) id := by
  unfold handleConfigurationNakOrReject
  refine silent_get.bind_progresses fun _ => ?_
  refine .ite (keeps_pure rfl).progresses ?_
  refine (silent_liftControl _).bind_progresses fun _ => ?_
  refine (silent_foldlM (silent_applyRefusal protocol code) _ _).bind_progresses fun _ => ?_
  refine .ite (progresses_advanceNegotiation now) ?_
  refine silent_get.bind_progresses fun _ => ?_
  exact .ite (keeps_throw _ _).progresses
    ((keeps_buildConfigurationRequest protocol now).map fun _ => rfl).progresses

theorem silent_nextLcpIdentifier : Silent nextLcpIdentifier := by
  unfold nextLcpIdentifier
  refine Silent.bind (silent_modify fun _ => ⟨?_, ?_, ?_, rfl, rfl⟩) fun _ => ?_
  · intro protocol hh
    refine ⟨?_, by simp⟩
    cases protocol <;> exact hh
  · intro protocol
    cases protocol <;> rfl
  · exact fun _ wanted => wanted
  · exact silent_get.map fun _ => rfl

theorem keeps_protocolRejection (protocol : UInt16) (payload : Bytes)
    : Keeps (protocolRejection protocol payload) id := by
  unfold protocolRejection
  refine silent_get.bind fun ppp => ?_
  refine silent_nextLcpIdentifier.bind fun identifier => ?_
  intro current
  rw [leads_bind]
  cases built : buildPppControlPacket PppCode.protocolRejection.byte identifier
      (toBigEndian 2 protocol.toNat ++ payload.take
        (min (payload.length + 2) (max (ppp.peerMru.toNat - 10) 2) - 2)) with
  | error error => exact .refl current
  | ok _ =>
    refine (Proceeds.refl current).sending ?_
    intro packet hm own
    obtain rfl := mem_singleton.mp hm
    have other : PppCode.protocolRejection.byte ≠ PppCode.configureRequest.byte := by decide
    exact request?_of_code (control?_outboundPacket built) other own

theorem keeps_handleEchoRequest (packet)
    : Keeps (handleEchoRequest protocol packet) (·.outbound) := by
  unfold handleEchoRequest
  refine silent_get.bind fun _ => (keeps_throw _ _).ite (.ite (keeps_pure rfl) ?_)
  exact (keeps_answerPacket (by decide) protocol packet.identifier _).map fun _ => rfl

theorem keeps_handleEchoReply : Keeps (handleEchoReply protocol identifier) (·.outbound) := by
  unfold handleEchoReply
  refine (keeps_throw _ _).ite (Silent.bind (silent_modify fun ppp => ?_) fun _ =>
    keeps_pure rfl)
  split
  · exact { Proceeds.refl _ with }
  · exact .refl ppp

theorem progresses_handleProtocolRejection
    : Progresses (handleProtocolRejection protocol payload now) (·.outbound) := by
  have advance : Progresses (do
      let outbound ← advanceNegotiation now
      return PppNegotiationEvent.sending outbound : Negotiation PppNegotiationEvent)
      (·.outbound) :=
    (progresses_advanceNegotiation now).map fun _ => rfl
  unfold handleProtocolRejection
  refine .ite (keeps_throw _ _).progresses ?_
  generalize ControlProtocol.ofNumber? (UInt16.ofNat (ofBigEndian (payload.take 2))) = rejected
  rcases rejected with _ | _ | _ | _
  · exact (keeps_pure rfl).progresses
  · exact (keeps_pure rfl).progresses
  · refine Silent.bind_progresses (silent_modify fun ppp => ?_) fun _ => advance
    refine { Proceeds.refl ppp with wants := ?_ }
    intro family wanted
    cases family with
    | lcp => rfl
    | ipcp => cases wanted
    | ip6cp => exact wanted
  · exact silent_disableIpv6.bind_progresses fun _ => advance

theorem keeps_retransmissions (protocols : List ControlProtocol)
    : Keeps (protocols.foldlM (retransmit now) []) id := by
  intro ppp
  refine leads_foldlM (fun outbound after => Proceeds ppp outbound after) ?_ (.refl ppp)
  intro protocol _ outbound middle hp
  unfold retransmit
  rw [leads_bind, leads_get, leads_ite]
  refine ⟨fun _ => hp, fun _ => ?_⟩
  rw [leads_ite]
  refine ⟨fun _ => hp.lost, fun _ => ?_⟩
  refine (keeps_buildConfigurationRequest protocol now middle).bind ?_ ?_
  · exact fun _ _ hr => hp.trans hr
  · exact fun _ hr => (hp.trans hr).lost

theorem keeps_echoRequest : Keeps (echoRequest now) fun packet => [packet] := by
  unfold echoRequest
  refine silent_nextLcpIdentifier.bind fun _ => ?_
  refine Silent.bind (silent_modify fun _ => ?_) fun _ => ?_
  · exact { Proceeds.refl _ with }
  · exact silent_get.bind fun _ => keeps_answerPacket (by decide) _ _ _

theorem keeps_handleTimer : Keeps (handleTimer now) id := by
  unfold handleTimer
  refine silent_get.bind fun _ => .ite (keeps_pure rfl) ?_
  intro current
  refine (keeps_retransmissions now _ current).bind ?_ fun _ => id
  intro outbound middle hp
  -- Whatever the echo adds, it comes behind the requests.
  have echo : ∀ state, Proceeds current outbound state → Leads (do
        let echo ← echoRequest now
        return outbound ++ [echo] : Negotiation (List PppOutboundPacket)) state
        (fun sent after => Proceeds current sent after) (Proceeds current []) := by
    intro state before
    refine (keeps_echoRequest now state).bind ?_ ?_
    · exact fun _ _ hr => before.trans hr
    · exact fun _ hr => (before.trans hr).lost
  rw [leads_bind, leads_get, leads_ite]
  refine ⟨fun _ => hp, fun _ => ?_⟩
  rw [leads_ite]
  refine ⟨fun _ => ?_, fun _ => ?_⟩
  · rw [leads_ite]
    refine ⟨fun _ => hp, fun _ => ?_⟩
    rw [leads_bind, leads_modify, leads_bind, leads_get, leads_ite]
    have missed : Proceeds current outbound
        { middle with missedEchoReplies := middle.missedEchoReplies + 1 } := by
      have free : Proceeds middle []
          { middle with missedEchoReplies := middle.missedEchoReplies + 1 } :=
        { Proceeds.refl _ with }
      simpa using hp.trans free
    exact ⟨fun _ => missed.lost, fun _ => echo _ missed⟩
  · rw [leads_ite]
    exact ⟨fun _ => hp, fun _ => echo _ hp⟩

--------
-- Acknowledging the peer
--------

/-- Reviewing the options of a request draws random numbers and changes nothing else. -/
def Draws {α : Type} (command : Negotiation α) : Prop :=
  ∀ negotiator, Leads command negotiator
    (fun _ after => ∃ entropy, after = { negotiator with entropy })
    (fun after => ∃ entropy, after = { negotiator with entropy })

variable {α β : Type}

theorem draws_pure (value : α) : Draws (pure value) :=
  fun ppp => ⟨ppp.entropy, rfl⟩

theorem draws_liftControl (result : Except PppControlError α) : Draws (liftControl result) := by
  cases result with
  | ok value => exact draws_pure value
  | error error => exact fun ppp => ⟨ppp.entropy, rfl⟩

theorem Draws.bind {command} {next : β → Negotiation α} (first : Draws command)
    (second : ∀ result, Draws (next result))
    : Draws (command >>= next) := by
  intro ppp
  refine (first ppp).bind ?_ fun _ => id
  rintro result middle ⟨entropy, rfl⟩
  exact second result { ppp with entropy }

theorem Draws.ite [Decidable condition] {yes no : Negotiation α} (left : Draws yes)
    (right : Draws no)
    : Draws (if condition then yes else no) := by
  split
  · exact left
  · exact right

theorem draws_foldlM {round} (draws : ∀ result item, Draws (round result item)) (items : List α)
    (start : β)
    : Draws (items.foldlM round start) := by
  intro ppp
  refine leads_foldlM (fun _ after => ∃ entropy, after = { ppp with entropy }) ?_ ⟨ppp.entropy, rfl⟩
  rintro item - result middle ⟨entropy, rfl⟩
  exact draws result item { ppp with entropy }

theorem draws_randomPppMagic : Draws randomPppMagic := by
  intro ppp
  unfold randomPppMagic
  rw [leads_bind, leads_get, leads_bind, leads_modify]
  cases ppp.entropy 0 with
  | ok _ => exact ⟨_, rfl⟩
  | error _ => exact ⟨_, rfl⟩

theorem draws_refuse (kind : UInt8) (value : Bytes) : Draws (review.refuse kind value) :=
  (draws_liftControl _).bind fun _ => draws_pure _

theorem draws_reviewOption : Draws (reviewOption protocol review option) := by
  have get : Draws (get : Negotiation PppNegotiator) :=
    fun ppp => ⟨ppp.entropy, rfl⟩
  cases protocol with
  | ipcp => exact draws_pure _
  | ip6cp => exact draws_pure _
  | lcp =>
    unfold reviewOption reviewLcpOption
    refine .ite (.ite (draws_refuse _ _ _) (draws_pure _)) (.ite (draws_pure _) (.ite ?_
      (.ite (draws_pure _) (draws_pure _))))
    exact get.bind fun _ => .ite (draws_randomPppMagic.bind fun _ => draws_refuse _ _ _)
      (draws_pure _)

theorem leads_answerUnless {code} (other : code ≠ .configureRequest) (ha : Bytes)
    (protocol identifier ppp)
    : Leads (answerUnless ha protocol code identifier) ppp
      (fun sent after => after = ppp
        ∧ ∀ packet ∈ sent, ∀ own, packet.request? own = none)
      (fun after => after = ppp) := by
  unfold answerUnless
  rw [leads_ite]
  refine ⟨fun _ => ⟨rfl, by simp⟩, fun _ => ?_⟩
  refine (leads_answerPacket ppp protocol code identifier ha).bind ?_ fun _ => id
  rintro packet after ⟨rfl, read⟩
  exact ⟨rfl, request?_of_answer other read⟩

namespace PppNegotiator

theorem wants_acknowledge (protocol review)
    : (ppp.acknowledge protocol review).wants = ppp.wants := by
  cases protocol <;> rfl

end PppNegotiator

/-- The packet that acknowledges a request is lost if the negotiation fails to advance. -/
theorem leads_acceptRequest
    : Leads (acceptRequest protocol identifier payload review now) ppp
      (fun sent after => Advances (ppp.acknowledge protocol review) sent after
        ∧ ∃ packet ∈ sent, packet.control? = some (protocol, {
          code := configureAcknowledgement.byte, identifier, payload }))
      (fun after => after = ppp
        ∨ Proceeds (ppp.acknowledge protocol review) [] after
          ∧ (¬ppp.wantIpv4 ∧ ¬ppp.wantIpv6
            ∨ (ppp.acknowledge protocol review).LacksAddress)) := by
  unfold acceptRequest
  refine (leads_answerPacket ppp protocol .configureAcknowledgement identifier
    payload).bind ?_ fun _ failed => .inl failed
  rintro packet middle ⟨he, read⟩
  rw [he, leads_bind, leads_modify, leads_bind]
  refine (leads_advanceNegotiation now _).mono ?_ ?_
  · intro requests after advances
    have answer := (Proceeds.refl (ppp.acknowledge protocol review)).sending
      (request?_of_answer (by decide) read)
    exact ⟨answer.trans_advances advances, packet, mem_cons_self .., read⟩
  · rintro after ⟨hp, reason⟩
    refine .inr ⟨hp, ?_⟩
    rcases reason with ⟨noIpv4, noIpv6⟩ | lacks
    · have wants := wants_acknowledge ppp protocol review
      refine .inl ⟨?_, ?_⟩
      · intro wanted
        exact noIpv4 ((congrFun wants .ipcp).trans wanted)
      · intro wanted
        exact noIpv6 ((congrFun wants .ip6cp).trans wanted)
    · exact .inr lacks

/-- A request of the peer is refused or accepted. -/
theorem leads_handleConfigurationRequest
    : Leads (handleConfigurationRequest protocol identifier payload now) ppp
      (fun sent after => Proceeds ppp sent after
        ∨ ∃ entropy review,
          Advances ({ ppp with entropy }.acknowledge protocol review) sent after
          ∧ ∃ packet ∈ sent, packet.control? = some (protocol, {
            code := configureAcknowledgement.byte, identifier, payload }))
      (fun after => Proceeds ppp [] after
        ∨ ∃ entropy review,
          Proceeds ({ ppp with entropy }.acknowledge protocol review) [] after
          ∧ (¬ppp.wantIpv4 ∧ ¬ppp.wantIpv6
            ∨ ({ ppp with entropy }.acknowledge protocol review).LacksAddress)) := by
  have drawn : ∀ entropy, Proceeds ppp [] { ppp with entropy } :=
    fun _ => { Proceeds.refl _ with }
  unfold handleConfigurationRequest
  refine (draws_liftControl _ ppp).bind ?_ fun _ ⟨_, failed⟩ => .inl (failed ▸ drawn _)
  rintro options - ⟨first, rfl⟩
  refine (draws_foldlM (draws_reviewOption protocol) options _ _).bind ?_
    fun _ ⟨_, failed⟩ => .inl (failed ▸ drawn _)
  rintro review - ⟨entropy, rfl⟩
  refine (leads_answerUnless (by decide) review.rejected protocol identifier _).bind ?_
    fun _ failed => .inl (failed ▸ drawn _)
  rintro rejection - ⟨rfl, rejects⟩
  refine (leads_answerUnless (by decide) review.nak protocol identifier _).bind ?_
    fun _ failed => .inl (failed ▸ drawn _)
  rintro nak - ⟨rfl, naks⟩
  rw [leads_ite]
  refine ⟨fun _ => ?_, fun _ => .inl ((drawn entropy).sending ?_)⟩
  · refine (leads_acceptRequest protocol identifier payload review now _).mono ?_ ?_
    · exact fun sent after ha => .inr ⟨entropy, review, ha⟩
    · rintro after (rfl | lost)
      · exact .inl (drawn _)
      · exact .inr ⟨entropy, review, lost⟩
  · exact forall_mem_append.mpr ⟨rejects, naks⟩

end Zay.OpenConnect
