import Zay.Net.Address
import Zay.OpenConnect.PppControl

/-! The PPP negotiation of Fortinet and F5 sessions
(`protocol/openconnect_ppp_negotiation.rs`): LCP brings up the link, IPCP and IP6CP the network
families. A call that fails keeps what it has changed by then, but the packets it would have
returned are lost. Times are counted in nanoseconds.
-/

namespace Zay.OpenConnect

open Lib Net

inductive PppEncapsulation where
  | f5
  | f5Hdlc
  | fortinet
  deriving Repr, DecidableEq

def pppDefaultTunnelMtu : Nat := 1400

def pppDefaultNegotiationPeriod : Nat := 3000000000

def pppDefaultNegotiationAttempts : Nat := 10

def pppDefaultEchoFailures : Nat := 3

def pppHdlcControlEscapeMask : UInt32 := 0xffffffff

structure PppNegotiatorOptions where
  encapsulation : PppEncapsulation
  wantIpv4 : Bool
  wantIpv6 : Bool
  ipv4Address : Option (Cidr 32)
  ipv6Address : Option (Cidr 128)
  lockAddresses : Bool
  mtu : Nat
  requestIpv4NameServers : Bool
  negotiationPeriod : Nat
  negotiationAttempts : Nat
  echoInterval : Nat
  echoFailures : Nat
  deriving Repr, DecidableEq

inductive PppNegotiationPhase where
  | establishing
  | network
  | terminating
  deriving Repr, DecidableEq

structure PppOutboundPacket where
  protocol : UInt16
  payload : Bytes
  protocolCompression : Bool
  addressCompression : Bool
  asyncMap : UInt32
  deriving Repr, DecidableEq

structure PppNegotiationEvent where
  outbound : List PppOutboundPacket
  delivered : Option Bytes
  networkReady : Bool
  peerTerminated : Bool
  terminationAcknowledged : Bool
  deriving Repr, DecidableEq

def PppNegotiationEvent.default : PppNegotiationEvent where
  outbound := []
  delivered := none
  networkReady := false
  peerTerminated := false
  terminationAcknowledged := false

inductive PppNegotiationError where
  | random (message : String)
  | control (error : PppControlError)
  | noNetworkFamily
  | invalidMtu (mtu : Nat)
  | noNetworkProtocol
  | ipv4Rejected
  | ipv4AddressChanged (proposed offered : BitVec 32)
  | ipv6AddressChanged
  | invalidNameServer (kind : UInt8)
  | unknownLcpOption (kind : UInt8)
  | unknownIpcpOption (kind : UInt8)
  | unknownIp6cpOption (kind : UInt8)
  | invalidNak (option : String)
  | attemptsExhausted (protocol : UInt16)
  | negotiationTimedOut (protocol : UInt16)
  | missingIpv4Address
  | missingIpv6Address
  | echoOnNonLcp
  | invalidProtocolReject
  | codeRejected
  | unsupportedControlCode (code : UInt8)
  | peerDead
  deriving Repr, DecidableEq

structure ControlState where
  nextIdentifier : UInt8
  requestIdentifier : UInt8
  requestSent : Bool
  requestAcknowledged : Bool
  peerRequestAcknowledged : Bool
  requestAttempts : Nat
  lastRequest : Option Nat
  deriving Repr, DecidableEq

def ControlState.default : ControlState where
  nextIdentifier := 0
  requestIdentifier := 0
  requestSent := false
  requestAcknowledged := false
  peerRequestAcknowledged := false
  requestAttempts := 0
  lastRequest := none

/-- The fields of the tunnel configuration that the negotiation sets. -/
structure TunnelConfiguration where
  mtu : Nat
  addresses : List IpNet
  dns : List IpAddr
  nbns : List IpAddr
  deriving Repr, DecidableEq

/-- `[u8; 4]`. -/
abbrev Magic := Vector UInt8 4

structure PppNegotiator where
  options : PppNegotiatorOptions
  phase : PppNegotiationPhase
  lcp : ControlState
  ipcp : ControlState
  ip6cp : ControlState
  localMru : UInt16
  peerMru : UInt16
  localMagic : Magic
  localMagicEnabled : Bool
  requestAsyncMap : Bool
  requestProtocolCompression : Bool
  requestAddressCompression : Bool
  localAsyncMap : UInt32
  outboundProtocolCompression : Bool
  outboundAddressCompression : Bool
  requestMru : Bool
  addressesLocked : Bool
  wantIpv4 : Bool
  wantIpv6 : Bool
  localIpv4 : Option (BitVec 32)
  peerIpv4 : Option (BitVec 32)
  localIpv6 : Option (BitVec 128)
  peerIpv6 : Option (BitVec 128)
  nameServerRequests : NameServerOption → Option (BitVec 32)
  configuration : Option TunnelConfiguration
  lastReceived : Nat
  pendingEcho : Bool
  pendingEchoIdentifier : UInt8
  pendingEchoSent : Nat
  missedEchoReplies : Nat
  /-- What the calls of `random_ppp_magic` still to come return. -/
  entropy : Nat → Except String Magic

/-- A call on the negotiator. -/
abbrev Negotiation := EStateM PppNegotiationError PppNegotiator

/-- The `?` on a result of `openconnect_ppp_control.rs`. -/
def liftControl {α : Type} : Except PppControlError α → Negotiation α
  | .ok value => pure value
  | .error error => throw (.control error)

def randomPppMagic : Negotiation Magic := do
  let negotiator ← get
  modify fun negotiator =>
    { negotiator with entropy := fun draw => negotiator.entropy (draw + 1) }
  match negotiator.entropy 0 with
  | .ok magic => pure magic
  | .error message => throw (.random message)

def pppMaximumTunnelMtu (encapsulation : PppEncapsulation) : Nat :=
  let maximum := pppMaximumPayloadLength - 4
  if encapsulation = .fortinet then maximum - 6 else maximum

variable (protocol : ControlProtocol)

namespace PppNegotiator

/-- `new` with its defaults for options that are zero. -/
def new (options : PppNegotiatorOptions) (now : Nat) (entropy : Nat → Except String Magic)
    : Except PppNegotiationError PppNegotiator :=
  if ¬options.wantIpv4 ∧ ¬options.wantIpv6 then .error .noNetworkFamily
  else
    let mtu := if options.mtu = 0 then pppDefaultTunnelMtu else options.mtu
    if mtu < pppMinimumMru.toNat ∨ mtu > pppMaximumTunnelMtu options.encapsulation then
      .error (.invalidMtu mtu)
    else
      let options := { options with
        mtu
        negotiationPeriod :=
          if options.negotiationPeriod = 0 then pppDefaultNegotiationPeriod
          else options.negotiationPeriod
        negotiationAttempts :=
          if options.negotiationAttempts = 0 then pppDefaultNegotiationAttempts
          else options.negotiationAttempts
        echoFailures :=
          if options.echoFailures = 0 then pppDefaultEchoFailures else options.echoFailures }
      let fortinet := options.encapsulation = .fortinet
      match entropy 0 with
      | .error message => .error (.random message)
      | .ok magic =>
        .ok {
          options
          phase := .establishing
          lcp := .default
          ipcp := .default
          ip6cp := .default
          localMru := UInt16.ofNat mtu
          peerMru := pppDefaultMru
          localMagic := magic
          localMagicEnabled := true
          requestAsyncMap := options.encapsulation = .f5Hdlc
          requestProtocolCompression := ¬fortinet
          requestAddressCompression := ¬fortinet
          localAsyncMap := 0
          outboundProtocolCompression := false
          outboundAddressCompression := false
          requestMru := true
          addressesLocked := options.lockAddresses
          wantIpv4 := options.wantIpv4
          wantIpv6 := options.wantIpv6
          localIpv4 := options.ipv4Address.map (·.addr)
          peerIpv4 := none
          localIpv6 := options.ipv6Address.map (·.addr)
          peerIpv6 := none
          nameServerRequests := fun _ =>
            if options.requestIpv4NameServers then some 0 else none
          configuration := none
          lastReceived := now
          pendingEcho := false
          pendingEchoIdentifier := 0
          pendingEchoSent := now
          missedEchoReplies := 0
          entropy := fun draw => entropy (draw + 1) }

variable (negotiator : PppNegotiator)

def control : ControlProtocol → ControlState
  | .lcp => negotiator.lcp
  | .ipcp => negotiator.ipcp
  | .ip6cp => negotiator.ip6cp

def modifyControl (protocol : ControlProtocol) (change : ControlState → ControlState)
    : PppNegotiator :=
  match protocol with
  | .lcp => { negotiator with lcp := change negotiator.lcp }
  | .ipcp => { negotiator with ipcp := change negotiator.ipcp }
  | .ip6cp => { negotiator with ip6cp := change negotiator.ip6cp }

/-- Whether packets of the protocol are handled; LCP always is. -/
def wants : ControlProtocol → Bool
  | .lcp => true
  | .ipcp => negotiator.wantIpv4
  | .ip6cp => negotiator.wantIpv6

def outboundPacket (protocol : UInt16) (payload : Bytes) : PppOutboundPacket where
  protocol
  payload
  protocolCompression := negotiator.outboundProtocolCompression
  addressCompression := negotiator.outboundAddressCompression
  asyncMap :=
    if protocol = ControlProtocol.lcp.number then pppHdlcControlEscapeMask
    else negotiator.localAsyncMap

def missesIpv4 : Bool :=
  negotiator.localIpv4.all (· = 0)

def missesIpv6 : Bool :=
  negotiator.localIpv6.all (pppInterfaceId · = 0)

/-- `build_configuration`, for a negotiator that has the addresses of the families it wants. -/
def buildConfiguration : TunnelConfiguration :=
  let ipv4 := negotiator.localIpv4.map fun address =>
    IpNet.v4 {
      addr := address
      prefixLen := negotiator.options.ipv4Address.elim (Fin.last 32) (·.prefixLen) }
  let ipv6 := negotiator.localIpv6.map fun address =>
    IpNet.v6 {
      addr := address
      prefixLen := negotiator.options.ipv6Address.elim ⟨64, by decide⟩ (·.prefixLen) }
  let nameServers (kinds : List NameServerOption) : List IpAddr :=
    (kinds.filterMap negotiator.nameServerRequests).filterMap fun address =>
      if address = 0 then none else some (.v4 address)
  { mtu := min negotiator.localMru.toNat negotiator.peerMru.toNat
    addresses :=
      (if negotiator.wantIpv4 then ipv4.toList else [])
      ++ (if negotiator.wantIpv6 then ipv6.toList else [])
    dns := nameServers [.primaryDns, .secondaryDns]
    nbns := nameServers [.primaryNbns, .secondaryNbns] }

/-- The options of a Configure-Request. -/
def requestOptions : ControlProtocol → List (UInt8 × Bytes)
  | .lcp =>
    (if negotiator.requestMru then
      [(lcpOptionMru, toBigEndian 2 negotiator.localMru.toNat)] else [])
    ++ (if negotiator.requestAsyncMap then
      [(lcpOptionAsyncMap, toBigEndian 4 negotiator.localAsyncMap.toNat)] else [])
    ++ (if negotiator.localMagicEnabled then
      [(lcpOptionMagic, negotiator.localMagic.toList)] else [])
    ++ (if negotiator.requestProtocolCompression then
      [(lcpOptionProtocolCompression, [])] else [])
    ++ (if negotiator.requestAddressCompression then
      [(lcpOptionAddressCompression, [])] else [])
  | .ipcp =>
    (ipcpOptionAddress, toBigEndian 4 (negotiator.localIpv4.getD 0).toNat)
    :: NameServerOption.all.filterMap fun option =>
      (negotiator.nameServerRequests option).map fun address =>
        (option.kind, toBigEndian 4 address.toNat)
  | .ip6cp =>
    [(ip6cpOptionInterfaceId,
      toBigEndian 8 (negotiator.localIpv6.elim 0 pppInterfaceId).toNat)]

end PppNegotiator

/-- A Configure-Request counts as sent and not yet acknowledged from the moment it is built. -/
def ControlState.requested (now : Nat) (state : ControlState) : ControlState :=
  { state with
    nextIdentifier := state.nextIdentifier + 1
    requestIdentifier := state.nextIdentifier + 1
    requestSent := true
    requestAcknowledged := false
    requestAttempts := state.requestAttempts + 1
    lastRequest := some now }

/-- Each LCP request has a magic number of its own. -/
def renewMagic : Negotiation Unit := do
  let negotiator ← get
  if protocol = .lcp ∧ negotiator.localMagicEnabled then
    let magic ← randomPppMagic
    modify fun negotiator => { negotiator with localMagic := magic }
  else pure ()

/-- Builds the request from the options as they stand. -/
def packRequest (now : Nat) : Negotiation PppOutboundPacket := do
  let negotiator ← get
  let payload ← liftControl (appendPppOptions [] (negotiator.requestOptions protocol))
  modify (·.modifyControl protocol (·.requested now))
  let negotiator ← get
  let control ← liftControl (buildPppControlPacket PppCode.configureRequest.byte
    (negotiator.control protocol).requestIdentifier payload)
  return negotiator.outboundPacket protocol.number control

def buildConfigurationRequest (now : Nat) : Negotiation PppOutboundPacket := do
  renewMagic protocol
  packRequest protocol now

/-- The request of a family that is wanted and was not asked for yet. -/
def requestFamily (now : Nat) : Negotiation (List PppOutboundPacket) := do
  let negotiator ← get
  if negotiator.wants protocol ∧ ¬(negotiator.control protocol).requestSent then
    let packet ← buildConfigurationRequest protocol now
    return [packet]
  else return []

/-- Whether a protocol is negotiated in both directions. -/
def ControlState.settled (state : ControlState) : Bool :=
  state.requestAcknowledged && state.peerRequestAcknowledged

def requestFamilies (now : Nat) : Negotiation (List PppOutboundPacket) := do
  let ipcp ← requestFamily .ipcp now
  let ip6cp ← requestFamily .ip6cp now
  return ipcp ++ ip6cp

/-- Sets the configuration once every wanted family is negotiated. -/
def configure : Negotiation Unit := do
  let negotiator ← get
  if negotiator.wantIpv4 ∧ ¬negotiator.ipcp.settled then return
  else if negotiator.wantIpv6 ∧ ¬negotiator.ip6cp.settled then return
  else if negotiator.wantIpv4 ∧ negotiator.missesIpv4 then throw .missingIpv4Address
  else if negotiator.wantIpv6 ∧ negotiator.missesIpv6 then throw .missingIpv6Address
  else
    modify fun negotiator =>
      { negotiator with configuration := some negotiator.buildConfiguration }

def advanceNegotiation (now : Nat) : Negotiation (List PppOutboundPacket) := do
  let negotiator ← get
  if ¬negotiator.lcp.settled then return []
  else if ¬negotiator.wantIpv4 ∧ ¬negotiator.wantIpv6 then throw .noNetworkProtocol
  else
    let outbound ← requestFamilies now
    configure
    return outbound

/-- The identifier of the next packet that is not a Configure-Request. -/
def nextLcpIdentifier : Negotiation UInt8 := do
  modify (·.modifyControl .lcp fun state =>
    { state with nextIdentifier := state.nextIdentifier + 1 })
  let negotiator ← get
  return negotiator.lcp.nextIdentifier

def protocolRejection (protocol : UInt16) (payload : Bytes)
    : Negotiation (List PppOutboundPacket) := do
  let negotiator ← get
  let maximum := min (payload.length + 2) (max (negotiator.peerMru.toNat - 10) 2)
  let identifier ← nextLcpIdentifier
  let control ← liftControl (buildPppControlPacket PppCode.protocolRejection.byte identifier
    (toBigEndian 2 protocol.toNat ++ payload.take (maximum - 2)))
  return [negotiator.outboundPacket ControlProtocol.lcp.number control]

/-- What the options of the peer's request come to. -/
structure RequestReview where
  rejected : Bytes
  nak : Bytes
  peerMru : UInt16
  peerIpv4 : Option (BitVec 32)
  peerIpv6 : Option (BitVec 128)
  deriving Repr, DecidableEq

def RequestReview.start : RequestReview where
  rejected := []
  nak := []
  peerMru := pppDefaultMru
  peerIpv4 := none
  peerIpv6 := none

variable (review : RequestReview)

def RequestReview.reject (option : PppOption) : RequestReview :=
  { review with rejected := review.rejected ++ option.raw }

def RequestReview.refuse (kind : UInt8) (value : Bytes) : Negotiation RequestReview := do
  let nak ← liftControl (appendPppOption review.nak kind value)
  return { review with nak }

def reviewLcpOption (option : PppOption) : Negotiation RequestReview := do
  if option.kind = lcpOptionMru ∧ option.value.length = 2 then
    let mru := UInt16.ofNat (ofBigEndian option.value)
    if mru < pppMinimumMru then
      review.refuse option.kind (toBigEndian 2 pppMinimumMru.toNat)
    else return { review with peerMru := mru }
  else if option.kind = lcpOptionAsyncMap ∧ option.value.length = 4 then return review
  else if option.kind = lcpOptionMagic ∧ option.value.length = 4 then
    let negotiator ← get
    -- The peer's magic number is our own: the link may be looped back.
    if negotiator.localMagicEnabled ∧ option.value = negotiator.localMagic.toList then
      let magic ← randomPppMagic
      review.refuse option.kind magic.toList
    else return review
  else if (option.kind = lcpOptionProtocolCompression
      ∨ option.kind = lcpOptionAddressCompression) ∧ option.value.isEmpty then
    return review
  else return review.reject option

def reviewIpcpOption (option : PppOption) : RequestReview :=
  if option.kind = ipcpOptionAddresses ∧ option.value.length = 8 then review
  else if option.kind = ipcpOptionAddress then
    match pppIpv4FromBytes option.value with
    | .ok address => { review with peerIpv4 := some address }
    | .error _ => review.reject option
  else review.reject option

def reviewIp6cpOption (option : PppOption) : RequestReview :=
  if option.kind ≠ ip6cpOptionInterfaceId then review.reject option
  else
    match pppIpv6FromInterfaceId option.value with
    | .ok address => { review with peerIpv6 := some address }
    | .error _ => review.reject option

def reviewOption (option : PppOption) : Negotiation RequestReview :=
  match protocol with
  | .lcp => reviewLcpOption review option
  | .ipcp => pure (reviewIpcpOption review option)
  | .ip6cp => pure (reviewIp6cpOption review option)

variable (negotiator : PppNegotiator)

/-- The negotiator after it has acknowledged the peer's request. -/
def PppNegotiator.acknowledge (protocol : ControlProtocol) (review : RequestReview)
    : PppNegotiator :=
  let negotiator := negotiator.modifyControl protocol fun state =>
    { state with peerRequestAcknowledged := true }
  match protocol with
  | .lcp => { negotiator with peerMru := review.peerMru }
  | .ipcp => { negotiator with peerIpv4 := review.peerIpv4 }
  | .ip6cp => { negotiator with peerIpv6 := review.peerIpv6 }

def answerPacket (code : PppCode) (identifier : UInt8) (payload : Bytes)
    : Negotiation PppOutboundPacket := do
  let control ← liftControl (buildPppControlPacket code.byte identifier payload)
  let negotiator ← get
  return negotiator.outboundPacket protocol.number control

/-- The rejection or Nak of the options that were not accepted, if there are any. -/
def answerUnless (accepted : Bytes) (protocol : ControlProtocol) (code : PppCode)
    (identifier : UInt8)
    : Negotiation (List PppOutboundPacket) := do
  if accepted.isEmpty then return []
  else
    let packet ← answerPacket protocol code identifier accepted
    return [packet]

/-- Acknowledges a request whose options are all acceptable. -/
def acceptRequest (identifier : UInt8) (payload : Bytes) (review : RequestReview) (now : Nat)
    : Negotiation (List PppOutboundPacket) := do
  let acknowledgement ← answerPacket protocol .configureAcknowledgement identifier payload
  modify (·.acknowledge protocol review)
  let requests ← advanceNegotiation now
  return acknowledgement :: requests

def handleConfigurationRequest (identifier : UInt8) (payload : Bytes) (now : Nat)
    : Negotiation (List PppOutboundPacket) := do
  let options ← liftControl (parsePppOptions payload)
  let review ← options.foldlM (reviewOption protocol) RequestReview.start
  let rejection ← answerUnless review.rejected protocol .configureRejection identifier
  let nak ← answerUnless review.nak protocol .configureNegativeAcknowledgement identifier
  if review.rejected.isEmpty ∧ review.nak.isEmpty then
    acceptRequest protocol identifier payload review now
  else return rejection ++ nak

/-- Takes back what the peer refused of an LCP request. -/
def applyLcpRefusal (code : PppCode) (option : PppOption) : Negotiation Unit :=
  if option.kind = lcpOptionMru then
    if option.value.length = 2 then modify fun negotiator =>
      { negotiator with requestMru := false }
    else throw (.invalidNak "LCP MRU")
  else if option.kind = lcpOptionAsyncMap then
    if option.value.length = 4 then modify fun negotiator =>
      { negotiator with localAsyncMap := pppHdlcControlEscapeMask, requestAsyncMap := false }
    else throw (.invalidNak "LCP async-map")
  else if option.kind = lcpOptionMagic then
    if option.value.length = 4 then modify fun negotiator =>
      { negotiator with
        localMagicEnabled := negotiator.localMagicEnabled && code ≠ .configureRejection }
    else throw (.invalidNak "LCP magic")
  else if option.kind = lcpOptionProtocolCompression then
    if option.value.isEmpty then modify fun negotiator =>
      { negotiator with
        requestProtocolCompression := false
        outboundProtocolCompression := false }
    else throw (.invalidNak "LCP protocol-compression")
  else if option.kind = lcpOptionAddressCompression then
    if option.value.isEmpty then modify fun negotiator =>
      { negotiator with
        requestAddressCompression := false
        outboundAddressCompression := false }
    else throw (.invalidNak "LCP address-compression")
  else throw (.unknownLcpOption option.kind)

/-- Takes up an address the peer offers in place of the requested one. -/
def adoptIpv4 (address : BitVec 32) : Negotiation Unit := do
  let negotiator ← get
  match negotiator.localIpv4 with
  | some current =>
    if negotiator.addressesLocked ∧ current ≠ address then
      throw (.ipv4AddressChanged current address)
    else modify fun negotiator => { negotiator with localIpv4 := some address }
  | none => modify fun negotiator => { negotiator with localIpv4 := some address }

def setNameServer (option : NameServerOption) (address : Option (BitVec 32))
    : Negotiation Unit :=
  modify fun negotiator =>
    { negotiator with
      nameServerRequests := fun other =>
        if other = option then address else negotiator.nameServerRequests other }

def applyIpcpRefusal (code : PppCode) (option : PppOption) : Negotiation Unit := do
  if option.kind = ipcpOptionAddress then
    let address ← liftControl (pppIpv4FromBytes option.value)
    if code = .configureRejection ∨ address = 0 then throw .ipv4Rejected
    else adoptIpv4 address
  else
    match NameServerOption.ofKind? option.kind with
    | some server =>
      if code = .configureRejection then setNameServer server none
      else
        let address ← liftControl (pppIpv4FromBytes option.value)
        if address = 0 then throw (.invalidNameServer option.kind)
        else setNameServer server (some address)
    | none => throw (.unknownIpcpOption option.kind)

/-- Takes up an interface identifier; the upper half of the address stays. -/
def adoptInterfaceId (address : BitVec 128) : Negotiation Unit := do
  let negotiator ← get
  let offered := pppInterfaceId address
  if negotiator.addressesLocked
      ∧ negotiator.localIpv6.any (pppInterfaceId · ≠ offered) then
    throw .ipv6AddressChanged
  else
    modify fun negotiator =>
      { negotiator with
        localIpv6 :=
          some ((negotiator.localIpv6.getD address).extractLsb' 64 64 ++ offered) }

def disableIpv6 : Negotiation Unit :=
  modify fun negotiator => { negotiator with wantIpv6 := false }

/-- Whether the refusal ends IPv6. -/
def applyIp6cpRefusal (code : PppCode) (disabled : Bool) (option : PppOption)
    : Negotiation Bool := do
  if option.kind ≠ ip6cpOptionInterfaceId then throw (.unknownIp6cpOption option.kind)
  else if code = .configureRejection then
    disableIpv6
    return true
  else
    let address ← liftControl (pppIpv6FromInterfaceId option.value)
    if pppInterfaceId address = 0 then
      disableIpv6
      return true
    else
      adoptInterfaceId address
      return disabled

def applyRefusal (code : PppCode) (disabled : Bool) (option : PppOption) : Negotiation Bool :=
  match protocol with
  | .lcp => do
    applyLcpRefusal code option
    return disabled
  | .ipcp => do
    applyIpcpRefusal code option
    return disabled
  | .ip6cp => applyIp6cpRefusal code disabled option

def handleConfigurationNakOrReject (identifier : UInt8) (code : PppCode) (payload : Bytes)
    (now : Nat)
    : Negotiation (List PppOutboundPacket) := do
  let negotiator ← get
  if identifier ≠ (negotiator.control protocol).requestIdentifier then return []
  else
    let options ← liftControl (parsePppOptions payload)
    let disabled ← options.foldlM (applyRefusal protocol code) false
    if disabled then advanceNegotiation now
    else
      let negotiator ← get
      if (negotiator.control protocol).requestAttempts
          ≥ negotiator.options.negotiationAttempts then
        throw (.attemptsExhausted protocol.number)
      else
        let packet ← buildConfigurationRequest protocol now
        return [packet]

def PppNegotiationEvent.sending (outbound : List PppOutboundPacket) : PppNegotiationEvent :=
  { PppNegotiationEvent.default with outbound }

/-- A Configure-Ack, whatever its identifier, acknowledges the request. -/
def PppNegotiator.acknowledged (protocol : ControlProtocol) : PppNegotiator :=
  let negotiator := negotiator.modifyControl protocol fun state =>
    { state with requestAcknowledged := true }
  if protocol = .lcp then
    { negotiator with
      outboundProtocolCompression := negotiator.requestProtocolCompression
      outboundAddressCompression := negotiator.requestAddressCompression }
  else negotiator

def handleConfigurationAcknowledgement (now : Nat) : Negotiation (List PppOutboundPacket) := do
  modify (·.acknowledged protocol)
  advanceNegotiation now

/-- The payload of an echo reply: our magic number and what followed the peer's. -/
def PppNegotiator.echoReply (payload : Bytes) : Bytes :=
  (if negotiator.localMagicEnabled then negotiator.localMagic.toList else [0, 0, 0, 0])
  ++ payload.drop 4

def handleEchoRequest (packet : PppControlPacket) : Negotiation PppNegotiationEvent := do
  let negotiator ← get
  if protocol ≠ .lcp then throw .echoOnNonLcp
  else if ¬negotiator.lcp.settled then return .default
  else
    let answer ← answerPacket protocol .echoReply packet.identifier
      (negotiator.echoReply packet.payload)
    return .sending [answer]

def handleEchoReply (identifier : UInt8) : Negotiation PppNegotiationEvent := do
  if protocol ≠ .lcp then throw .echoOnNonLcp
  else
    modify fun negotiator =>
      if negotiator.pendingEcho ∧ identifier = negotiator.pendingEchoIdentifier then
        { negotiator with pendingEcho := false, missedEchoReplies := 0 }
      else negotiator
    return .default

def handleProtocolRejection (payload : Bytes) (now : Nat) : Negotiation PppNegotiationEvent := do
  if protocol ≠ .lcp ∨ payload.length < 2 then throw .invalidProtocolReject
  else
    match ControlProtocol.ofNumber? (UInt16.ofNat (ofBigEndian (payload.take 2))) with
    | some .ipcp =>
      modify fun negotiator => { negotiator with wantIpv4 := false }
      let outbound ← advanceNegotiation now
      return .sending outbound
    | some .ip6cp =>
      disableIpv6
      let outbound ← advanceNegotiation now
      return .sending outbound
    | _ => return .default

def handleControlPacket (packet : Bytes) (now : Nat) : Negotiation PppNegotiationEvent := do
  let packet ← liftControl (parsePppControlPacket packet)
  match PppCode.ofByte? packet.code with
  | some .configureRequest =>
    let outbound ←
      handleConfigurationRequest protocol packet.identifier packet.payload now
    return .sending outbound
  | some .configureAcknowledgement =>
    let outbound ← handleConfigurationAcknowledgement protocol now
    return .sending outbound
  | some .configureNegativeAcknowledgement =>
    let outbound ← handleConfigurationNakOrReject protocol packet.identifier
      .configureNegativeAcknowledgement packet.payload now
    return .sending outbound
  | some .configureRejection =>
    let outbound ← handleConfigurationNakOrReject protocol packet.identifier
      .configureRejection packet.payload now
    return .sending outbound
  | some .terminateRequest =>
    let answer ← answerPacket protocol .terminateAcknowledgement packet.identifier []
    modify fun negotiator => { negotiator with phase := .terminating }
    return { PppNegotiationEvent.sending [answer] with peerTerminated := true }
  | some .terminateAcknowledgement =>
    let negotiator ← get
    return { PppNegotiationEvent.default with
      terminationAcknowledged := negotiator.phase = .terminating }
  | some .echoRequest => handleEchoRequest protocol packet
  | some .echoReply => handleEchoReply protocol packet.identifier
  | some .discardRequest => return .default
  | some .protocolRejection => handleProtocolRejection protocol packet.payload now
  | some .codeRejection => throw .codeRejected
  | none => throw (.unsupportedControlCode packet.code)

/-- The part of `handle_frame` that depends on the protocol of the packet. -/
def handlePacket (packet : PppPacket) (now : Nat) : Negotiation PppNegotiationEvent := do
  let negotiator ← get
  match ControlProtocol.ofNumber? packet.protocol with
  | some protocol =>
    if negotiator.wants protocol then handleControlPacket protocol packet.payload now
    else
      let outbound ← protocolRejection packet.protocol packet.payload
      return .sending outbound
  | none =>
    if packet.protocol = pppProtocolIpv4 ∨ packet.protocol = pppProtocolIpv6 then
      let allowed :=
        packet.protocol = pppProtocolIpv4 ∧ negotiator.wantIpv4
        ∨ packet.protocol = pppProtocolIpv6 ∧ negotiator.wantIpv6
      return { PppNegotiationEvent.default with
        delivered :=
          if negotiator.phase = .network ∧ allowed then some packet.payload else none }
    else
      let outbound ← protocolRejection packet.protocol packet.payload
      return .sending outbound

/-- Opens the network once there is a configuration. -/
def openNetwork (event : PppNegotiationEvent) : Negotiation PppNegotiationEvent := do
  let negotiator ← get
  if negotiator.configuration.isSome ∧ negotiator.phase = .establishing then
    modify fun negotiator => { negotiator with phase := .network, addressesLocked := true }
    return { event with networkReady := true }
  else return event

def handleFrame (frame : Bytes) (now : Nat) : Negotiation PppNegotiationEvent := do
  let packet ← liftControl (parsePppPacket frame)
  modify fun negotiator =>
    { negotiator with lastReceived := now, pendingEcho := false, missedEchoReplies := 0 }
  let event ← handlePacket packet now
  openNetwork event

def start (now : Nat) : Negotiation (List PppOutboundPacket) := do
  let packet ← buildConfigurationRequest .lcp now
  return [packet]

/-- Sends the request of a protocol again when no answer came for long enough. -/
def retransmit (now : Nat) (outbound : List PppOutboundPacket) (protocol : ControlProtocol)
    : Negotiation (List PppOutboundPacket) := do
  let negotiator ← get
  let state := negotiator.control protocol
  if ¬negotiator.wants protocol ∨ ¬state.requestSent ∨ state.requestAcknowledged
      ∨ state.lastRequest.all (now - · < negotiator.options.negotiationPeriod) then
    return outbound
  else if state.requestAttempts ≥ negotiator.options.negotiationAttempts then
    throw (.negotiationTimedOut protocol.number)
  else
    let packet ← buildConfigurationRequest protocol now
    return outbound ++ [packet]

def echoRequest (now : Nat) : Negotiation PppOutboundPacket := do
  let identifier ← nextLcpIdentifier
  modify fun negotiator =>
    { negotiator with
      pendingEchoIdentifier := identifier
      pendingEcho := true
      pendingEchoSent := now }
  let negotiator ← get
  answerPacket .lcp .echoRequest identifier (negotiator.echoReply [])

def handleTimer (now : Nat) : Negotiation (List PppOutboundPacket) := do
  let negotiator ← get
  if negotiator.phase = .terminating then return []
  else
    let outbound ← [ControlProtocol.lcp, .ipcp, .ip6cp].foldlM (retransmit now) []
    let negotiator ← get
    let interval := negotiator.options.echoInterval
    if negotiator.phase ≠ .network ∨ interval = 0 then return outbound
    else if negotiator.pendingEcho then
      if now - negotiator.pendingEchoSent < interval then return outbound
      else
        modify fun negotiator =>
          { negotiator with missedEchoReplies := negotiator.missedEchoReplies + 1 }
        let negotiator ← get
        if negotiator.missedEchoReplies ≥ negotiator.options.echoFailures then throw .peerDead
        else
          let echo ← echoRequest now
          return outbound ++ [echo]
    else if now - negotiator.lastReceived < interval then return outbound
    else
      let echo ← echoRequest now
      return outbound ++ [echo]

def terminateRequest : Negotiation PppOutboundPacket := do
  modify fun negotiator => { negotiator with phase := .terminating }
  let identifier ← nextLcpIdentifier
  answerPacket .lcp .terminateRequest identifier []

end Zay.OpenConnect
