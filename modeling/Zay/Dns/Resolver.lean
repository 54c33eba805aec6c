import Zay.Dns.Rule
import Zay.Error

/-! The resolver that routes queries by rules (`RoutingResolver`): the checks on its rule
list, the walk of an address lookup (`lookup_direct`) and the walk of a message exchange
(`exchange_once`) with its evaluations and races. A walk ends at a `Terminal`, which says
where the answer comes from.
-/

namespace Zay.Dns

open Net
open Route

/-- The two operations of the `Resolver` trait that the walks use. -/
structure Resolver where
  lookup : String → LookupOptions → IoResult (List IpAddr)
  exchange : Message → LookupOptions → IoResult Message

def forceQueryStrategy (options : LookupOptions) (queryType : RecordType) : LookupOptions :=
  if queryType = .a then { options with strategy := .ipv4Only }
  else if queryType = .aaaa then { options with strategy := .ipv6Only }
  else options

/-- The answer record for an address of the family that was asked for. -/
def addressRecord (query : Query) (address : IpAddr) : Option Record :=
  let record : Record :=
    { name := query.name, dnsClass := 1, ttl := 60, data := .ofAddress address }
  match address with
  | .v4 _ => if query.queryType = .a then some record else none
  | .v6 _ => if query.queryType = .aaaa then some record else none

/-- `exchange_resolver`: a resolver without raw exchanges is asked for addresses. The name
of a record type in the error is left out.
-/
def Resolver.exchangeResolver (resolver : Resolver) (request : Message) (options : LookupOptions)
    : IoResult Message :=
  match resolver.exchange request options with
  | .ok response => .ok response
  | .error error =>
    if error.kind ≠ .unsupported then .error error
    else
      match request.queries with
      | [query] =>
        if query.queryType ≠ .a ∧ query.queryType ≠ .aaaa then
          .error ⟨.unsupported, "address-only DNS resolver does not support the type"⟩
        else
          (resolver.lookup query.name (forceQueryStrategy options query.queryType)).map
            fun addresses =>
              { Message.new request.id .response request.opCode with
                queries := request.queries
                answers := addresses.filterMap (addressRecord query) }
      | _ =>
        .error ⟨.unsupported, "address-only DNS resolver requires exactly one query"⟩

inductive DnsRuleError where
  | invalid (message : String)
  | missingServer (server : String)
  deriving Repr, DecidableEq

/-- What the rules before the current one evaluate. -/
structure RuleScan where
  hasAnonymousEvaluation : Bool
  evaluationTags : List String
  deriving Repr, DecidableEq

def ResponseSelector.tag : ResponseSelector → Option String
  | .anonymous => none
  | .tagged tag => some tag

def checkRace (rule : DnsRule) : Except DnsRuleError Unit :=
  if !rule.race then .ok ()
  else if !rule.action.isTerminal then .error (.invalid "race requires a final action")
  else if rule.responseSelectors.isEmpty then
    .error (.invalid "race requires match_response")
  else if rule.action.speculative then
    .error (.invalid "race and speculative cannot be combined on the same rule")
  else .ok ()

/-- One turn of the loop in `compile_with_runtime_cache_and_rule_sets`. -/
def checkRule (isFakeip hasServer : String → Bool) (scan : RuleScan) (rule : DnsRule)
    : Except DnsRuleError RuleScan := do
  checkRace rule
  if rule.responseSelectors.contains .anonymous && !scan.hasAnonymousEvaluation then
    .error (.invalid "match_response requires a preceding anonymous evaluate action")
  let requiredTags := rule.responseSelectors.filterMap ResponseSelector.tag
  match requiredTags.find? (!scan.evaluationTags.contains ·) with
  | some tag => .error (.invalid ("match_response references unevaluated tag " ++ tag.quote))
  | none => pure ()
  let next ←
    match rule.action with
    | .evaluate server tag _ _ =>
      if isFakeip server then
        .error (.invalid ("evaluate action cannot use fakeip server: " ++ server))
      else
        match tag with
        | some tag => .ok { scan with evaluationTags := tag :: scan.evaluationTags }
        | none => .ok { scan with hasAnonymousEvaluation := true }
    | .respond =>
      if rule.responseSelector.isNone && !scan.hasAnonymousEvaluation then
        .error (.invalid "respond action requires a preceding evaluate action")
      else .ok scan
    | _ => .ok scan
  match rule.action.server with
  | some server => if hasServer server then .ok next else .error (.missingServer server)
  | none => .ok next

def checkRules (isFakeip hasServer : String → Bool) (rules : List DnsRule)
    : Except DnsRuleError RuleScan :=
  rules.foldlM (checkRule isFakeip hasServer)
    { hasAnonymousEvaluation := false, evaluationTags := [] }

/-- `RoutingResolver` with the rules that passed the checks. `rejects` says whether it keeps
the cache of rejected responses.
-/
structure RoutingResolver where
  rules : List DnsRule
  resolvers : String → Option Resolver
  fallback : Resolver
  isFakeip : String → Bool
  rejects : Bool
  clashMode : Option String
  ruleSetRouter : Option Router
  legacyDnsMode : Bool
  checked : (checkRules isFakeip (fun server => (resolvers server).isSome) rules).isOk

namespace RoutingResolver

variable (self : RoutingResolver)

def hasMessageMatchers : Bool :=
  self.legacyDnsMode || self.rules.any DnsRule.requiresMessageLookup

def checkedSelectors : List ResponseSelector :=
  self.rules.flatMap DnsRule.responseSelectors

/-- A server that a rule names, which the checks have found. -/
def server (name : String) : Resolver :=
  (self.resolvers name).getD self.fallback

end RoutingResolver

/-- A server and the options it is asked with. -/
structure Evaluation where
  server : String
  options : LookupOptions
  deriving Repr, DecidableEq

/-- Where the answer comes from: a server, the fallback, an evaluated response, none since
an evaluation failed, a rejection or a predefined response.
-/
inductive Terminal where
  | server (evaluation : Evaluation)
  | fallback (options : LookupOptions)
  | respond (source : Option Evaluation)
  | failed (evaluation : Evaluation)
  | reject (action : DnsRejectAction)
  | predefined (action : PredefinedAction)
  | modernAction
  deriving Repr, DecidableEq

namespace RoutingResolver

variable (self : RoutingResolver)

def evaluateLookup (domain : String) (evaluation : Evaluation) : IoResult (List IpAddr) :=
  (self.server evaluation.server).lookup domain evaluation.options

/-- The loop of `lookup_direct`, with the options in effect where it ends. -/
def lookupWalk (domain : String) (metadata : QueryMetadata)
    : List DnsRule → LookupOptions → Option Evaluation → Terminal × LookupOptions
  | [], options, _ => (.fallback options, options)
  | rule :: rules, options, evaluated =>
    if !rule.matchesQuery self.ruleSetRouter domain metadata (fun _ => none) then
      lookupWalk domain metadata rules options evaluated
    else
      match rule.action with
      | .route server _ overrides =>
        let options := overrides.apply options
        (.server { server, options }, options)
      | .routeOptions overrides =>
        lookupWalk domain metadata rules (overrides.apply options) evaluated
      | .evaluate server _ _ overrides =>
        let evaluation : Evaluation := { server, options := overrides.apply options }
        if (self.evaluateLookup domain evaluation).isOk then
          lookupWalk domain metadata rules options (some evaluation)
        else (.failed evaluation, options)
      | .respond => (.respond evaluated, options)
      | .reject action => (.reject action, options)
      | .predefined action => (.predefined action, options)

/-- `lookup_direct`. -/
def lookupDirect (domain : String) (options : LookupOptions) (context : Option Metadata)
    : Terminal × LookupOptions :=
  self.lookupWalk domain (.forDomain domain none context self.clashMode) self.rules options
    none

end RoutingResolver

/-- A race rule that waits for its responses, with the options in effect at the rule. -/
structure ArmedRace where
  rule : DnsRule
  options : LookupOptions

/-- The state of `exchange_once`: evaluations under way, responses with the evaluations they
came from, and the servers whose answers to this query are on record as rejected.
-/
structure RuleExchangeState where
  options : LookupOptions
  tasks : ResponseSelector → Option Evaluation
  responses : ResponseSelector → Option (Evaluation × Message)
  armedRaces : List ArmedRace
  rejected : String → Bool

def RuleExchangeState.start (options : LookupOptions) (rejected : String → Bool)
    : RuleExchangeState where
  options
  tasks := fun _ => none
  responses := fun _ => none
  armedRaces := []
  rejected

/-- The order in which pending evaluations finish. -/
structure CompletionOrder where
  order : List ResponseSelector → List ResponseSelector
  permutes : ∀ pending, (order pending).Perm pending

/-- One call of `exchange_once`. -/
structure RuleExchange where
  resolver : RoutingResolver
  request : Message
  domain : String
  metadata : QueryMetadata
  completion : CompletionOrder
  /-- The servers as the evaluations meet them, whose answers to one question may differ. -/
  servers : ResponseSelector → String → Resolver := fun _ => resolver.server

namespace RuleExchange

variable (call : RuleExchange)

def evaluate (selector : ResponseSelector) (evaluation : Evaluation) : IoResult Message :=
  (call.servers selector evaluation.server).exchangeResolver call.request evaluation.options

variable (state : RuleExchangeState)

def ruleMatches (rule : DnsRule) : Bool :=
  rule.matchesQuery call.resolver.ruleSetRouter call.domain call.metadata
    fun selector => (state.responses selector).map (·.2)

/-- `EvaluationTasks::settle`: a failed evaluation leaves the responses as they are. -/
def settle (selector : ResponseSelector) : RuleExchangeState :=
  match state.tasks selector with
  | none => state
  | some evaluation =>
    let state := { state with tasks := Function.update state.tasks selector none }
    match call.evaluate selector evaluation with
    | .ok response =>
      { state with
        responses := Function.update state.responses selector (some (evaluation, response)) }
    | .error _ => state

/-- `persist_rule_rejections`. -/
def persistRejections (rule : DnsRule) : RuleExchangeState :=
  if !call.resolver.rejects then state
  else
    let selectors := rule.rejectedResponseSelectors call.resolver.ruleSetRouter call.domain
      call.metadata fun selector => (state.responses selector).map (·.2)
    let servers := selectors.filterMap fun selector =>
      (state.responses selector).map (·.1.server)
    { state with rejected := fun server => state.rejected server || servers.contains server }

/-- `response_for_respond`, as the evaluation it came from. -/
def responseForRespond (rule : DnsRule) : Option Evaluation :=
  (state.responses (rule.responseSelector.getD .anonymous)).map (·.1)

/-- `race_commit`. The checks leave final actions only to race rules. -/
def raceCommit (race : ArmedRace) : Terminal :=
  match race.rule.action with
  | .route server _ overrides => .server { server, options := overrides.apply race.options }
  | .reject action => .reject action
  | .predefined action => .predefined action
  | _ => .respond (responseForRespond state race.rule)

def readyRaceCommit (pending : List ResponseSelector) : Option Terminal :=
  state.armedRaces.findSome? fun race =>
    if race.rule.responseSelectors.any pending.contains || !call.ruleMatches state race.rule
    then none
    else some (raceCommit state race)

/-- The loop of `resolve_race_actions` over the evaluations as they finish. -/
def raceLoop
    : List ResponseSelector → List ResponseSelector → RuleExchangeState
      → Option Terminal × RuleExchangeState
  | [], _, state => (none, state)
  | selector :: rest, pending, state =>
    let pending := pending.filter (· ≠ selector)
    let succeeded := (state.tasks selector).any fun evaluation =>
      (call.evaluate selector evaluation).isOk
    let state := call.settle state selector
    let state :=
      if succeeded then
        (state.armedRaces.map (·.rule)).foldl call.persistRejections state
      else state
    match call.readyRaceCommit state pending with
    | some terminal => (some terminal, state)
    | none => raceLoop rest pending state

def resolveRaceActions : Option Terminal × RuleExchangeState :=
  let selectors := (state.armedRaces.flatMap (·.rule.responseSelectors)).eraseDups
  let pending := selectors.filter fun selector => (state.tasks selector).isSome
  match call.readyRaceCommit state pending with
  | some terminal => (some terminal, state)
  | none => call.raceLoop (call.completion.order pending) pending state

/-- Lets the armed races decide first; without a decision they are over. -/
def raceFirst (next : RuleExchangeState → Terminal × LookupOptions) : Terminal × LookupOptions :=
  if state.armedRaces.isEmpty then next state
  else
    match call.resolveRaceActions state with
    | (some terminal, state) => (terminal, state.options)
    | (none, state) => next { state with armedRaces := [] }

/-- Starts an evaluation, unless the server's answer is already known to be rejected. -/
def startEvaluation (server : String) (tag : Option String) (overrides : DnsLookupOverride)
    : RuleExchangeState :=
  let selector := tag.elim .anonymous .tagged
  let task : Option Evaluation :=
    if call.resolver.checkedSelectors.contains selector && call.resolver.rejects
        && state.rejected server
    then none
    else some { server, options := overrides.apply state.options }
  { state with tasks := Function.update state.tasks selector task }

/-- The loop of `exchange_once`. -/
def walk : List DnsRule → RuleExchangeState → Terminal × LookupOptions
  | [], state =>
    match call.resolveRaceActions state with
    | (some terminal, state) => (terminal, state.options)
    | (none, state) => (.fallback state.options, state.options)
  | rule :: rules, state =>
    if rule.race then
      walk rules
        { state with
          armedRaces := state.armedRaces ++ [{ rule, options := state.options }] }
    else
      let state := rule.responseSelectors.foldl call.settle state
      let state := call.persistRejections state rule
      if !call.ruleMatches state rule then walk rules state
      else
        match rule.action with
        | .route server _ overrides =>
          call.raceFirst state fun state =>
            let options := overrides.apply state.options
            (.server { server, options }, options)
        | .routeOptions overrides =>
          walk rules { state with options := overrides.apply state.options }
        | .evaluate server tag speculative overrides =>
          if speculative then walk rules (call.startEvaluation state server tag overrides)
          else
            call.raceFirst state fun state =>
              walk rules (call.startEvaluation state server tag overrides)
        | .respond =>
          call.raceFirst state fun state =>
            let state :=
              if rule.responseSelector.isNone then call.settle state .anonymous else state
            (.respond (responseForRespond state rule), state.options)
        | .reject action =>
          call.raceFirst state fun state => (.reject action, state.options)
        | .predefined action =>
          call.raceFirst state fun state => (.predefined action, state.options)

/-- The loop of `exchange_legacy`: a response that its rule turns down sends the query on to
the rules after it, with the options it started with.
-/
def legacyWalk (baseOptions : LookupOptions)
    : List DnsRule → (String → Bool) → LookupOptions → Terminal × LookupOptions
  | [], _, options => (.fallback options, options)
  | rule :: rules, rejected, options =>
    let router := call.resolver.ruleSetRouter
    let limited := rule.hasLegacyAddressLimit router
    let isAddressQuery := call.request.queries.any fun query =>
      query.queryType = .a || query.queryType = .aaaa || query.queryType = .https
    if limited && !isAddressQuery then legacyWalk baseOptions rules rejected options
    else if !(rule.legacyMatchPossibility router call.domain call.metadata).canMatch then
      legacyWalk baseOptions rules rejected options
    else
      match rule.action with
      | .route server _ overrides =>
        let options := overrides.apply options
        let decide := (Terminal.server { server, options }, options)
        if limited && call.resolver.rejects && rejected server then
          legacyWalk baseOptions rules rejected baseOptions
        else
          match (call.resolver.server server).exchangeResolver call.request options with
          | .error _ => decide
          | .ok response =>
            if !limited
                || rule.legacyMatchesResponse router call.domain call.metadata response
            then decide
            else
              legacyWalk baseOptions rules
                (fun other => rejected other || other = server) baseOptions
      | .routeOptions overrides =>
        legacyWalk baseOptions rules rejected (overrides.apply options)
      | .reject action => (.reject action, options)
      | .predefined action => (.predefined action, options)
      | .evaluate _ _ _ _ => (.modernAction, options)
      | .respond => (.modernAction, options)

end RuleExchange

variable (self : RoutingResolver)

/-- `exchange_once`, where `rejected` are the servers whose answers to the query are on
record as rejected.
-/
def RoutingResolver.exchangeOnce (request : Message) (options : LookupOptions)
    (context : Option Metadata) (rejected : String → Bool) (completion : CompletionOrder)
    : Terminal × LookupOptions :=
  match request.queries.head? with
  | none => (.fallback options, options)
  | some query =>
    let call : RuleExchange :=
      { resolver := self
        request
        domain := query.name
        metadata := .fromRequest request context self.clashMode
        completion }
    if self.legacyDnsMode then call.legacyWalk options self.rules rejected options
    else call.walk self.rules (.start options rejected)

end Zay.Dns
