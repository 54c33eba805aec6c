import Zay.Dns.Resolver
import Zay.Lib.Runs
import Zay.Route.RuleSetReads

/-! An address lookup takes a shorter way through the rules when no rule looks at the
message (`has_message_matchers`). Here is when it ends where the exchange of a message for
the same domain does.
-/

namespace Zay.Dns

open Net List Option
open Route DnsRule RoutingResolver

variable (request : Message) (router : Option Router)
  (responses : ResponseSelector → Option Message) (domain : String) (metadata : QueryMetadata)
  {rules : List DnsRule}

mutual

theorem DnsRule.verdict_congr {left right} (rule : DnsRule)
    (he : ∀ leaf ∈ rule.leaves, left leaf.1 = right leaf.1)
    : rule.verdict left = rule.verdict right := by
  match rule with
  | .default _ _ _ _ =>
    rw [verdict, verdict, he _ (mem_singleton_self _)]
  | .logical .and rules _ _ _ =>
    rw [verdict, verdict, (verdictNested_congr rules he).1]
  | .logical .or rules _ _ _ =>
    rw [verdict, verdict, (verdictNested_congr rules he).2]

theorem DnsRule.verdictNested_congr {left right} (rules)
    (he : ∀ leaf ∈ allLeaves rules, left leaf.1 = right leaf.1)
    : verdictAll left rules = verdictAll right rules
      ∧ verdictAny left rules = verdictAny right rules := by
  match rules with
  | [] => exact ⟨rfl, rfl⟩
  | rule :: rules =>
    simp only [allLeaves, mem_append] at he
    have head := verdict_congr rule fun leaf hl => he leaf (.inl hl)
    have tail := verdictNested_congr rules fun leaf hl => he leaf (.inr hl)
    simp [verdictAll, verdictAny, head, tail]

end

namespace QueryMatcher

/-- What `requires_message_lookup` rules out. -/
structure Quiet (matcher : QueryMatcher) : Prop where
  ipVersion : matcher.ipVersion = none
  queryTypes : matcher.queryTypes = []
  clientSubnets : matcher.clientSubnets = []
  queryDnssec : matcher.queryDnssec = false
  clashMode : matcher.clashMode = ""
  response : matcher.response = none

variable {matcher : QueryMatcher}

theorem quiet_of_requiresMessageLookup (hq : matcher.requiresMessageLookup = false)
    : matcher.Quiet := by
  simp only [requiresMessageLookup, Bool.or_eq_false_iff, isSome_eq_false_iff,
    isNone_iff_eq_none, Bool.not_eq_false', List.isEmpty_iff, decide_eq_false_iff_not,
    not_not] at hq
  obtain ⟨⟨⟨⟨⟨ipVersion, queryTypes⟩, clientSubnets⟩, queryDnssec⟩, clashMode⟩, response⟩ := hq
  exact { ipVersion, queryTypes, clientSubnets, queryDnssec, clashMode, response }

/-- No rule-set that the matcher refers to has a condition on the query type. -/
def Typeless (matcher : QueryMatcher) (router : Option Router) : Prop :=
  ∀ sets ∈ router, ∀ tag ∈ matcher.ruleSets, ∀ set, sets.ruleSets tag = some set →
    HeadlessRule.containsDnsQueryTypeRule set.rules = false

/-- The query type, the subnet and the DNSSEC flag of the message do not matter. -/
theorem Quiet.matchesQuery_eq (hq : matcher.Quiet) (typeless : matcher.Typeless router)
    (queryType context clashMode response)
    : matcher.matchesQuery router domain (.forDomain domain none context clashMode) response
      = matcher.matchesQuery router domain
        ((QueryMetadata.forDomain domain queryType context clashMode).withMessage request)
        response := by
  have context : matcher.matchesQueryContext domain (.forDomain domain none context clashMode)
      = matcher.matchesQueryContext domain
        ((QueryMetadata.forDomain domain queryType context clashMode).withMessage request) := by
    simp only [matchesQueryContext, matchesClientSubnet, matchesIpVersion, hq.clientSubnets,
      hq.queryDnssec, hq.ipVersion, hq.queryTypes]
    rfl
  simp only [matchesQuery, context, hq.response]
  congr 1
  split
  · rfl
  cases router with
  | none => rfl
  | some sets =>
    refine Router.matchesRuleSets_congr (fun tag hl set hf leaf hw => ?_) _ _
    have plain := any_eq_false.mp (typeless sets rfl tag hl set hf) leaf hw
    rw [Bool.not_eq_true, Bool.not_eq_false', List.isEmpty_iff] at plain
    simp only [HeadlessDefaultRule.evaluate, plain]
    rfl

end QueryMatcher

namespace DnsRule

def Quiet (rule : DnsRule) : Prop :=
  ∀ leaf ∈ rule.leaves, leaf.1.Quiet

variable {rule : DnsRule}

variable (hq : rule.Quiet)
include hq

theorem Quiet.responseSelectors : rule.responseSelectors = [] := by
  rw [DnsRule.responseSelectors, filterMap_eq_nil_iff]
  intro leaf hl
  rw [QueryMatcher.responseSelector, (hq leaf hl).response]
  rfl

theorem Quiet.responseSelector : rule.responseSelector = none := by
  cases rule with
  | default matcher invert _ _ =>
    have hs := (hq (matcher, invert) (mem_singleton_self _)).response
    rw [responseSelector, QueryMatcher.responseSelector, hs]
    rfl
  | logical _ _ _ _ _ => rfl

theorem Quiet.rejectedResponseSelectors
    : rule.rejectedResponseSelectors router domain metadata responses = [] := by
  rw [DnsRule.rejectedResponseSelectors, filterMap_eq_nil_iff]
  intro leaf hl
  rw [(hq leaf hl).response]
  split <;> rfl

end DnsRule

variable {isFakeip hasServer : String → Bool} {rule : DnsRule}

/-- A rule list that passes the checks has races on responses only. -/
theorem checkRules_race (hp : (checkRules isFakeip hasServer rules).isOk)
    (hl : rule ∈ rules) (race : rule.race)
    : rule.responseSelectors ≠ [] := by
  have each : ∀ (rules : List DnsRule) scan, (rules.foldlM (checkRule isFakeip hasServer) scan).isOk
      → ∀ rule ∈ rules, checkRace rule = .ok () := by
    intro rules
    induction rules with
    | nil => simp
    | cons rule rules ih =>
      intro scan hp other hl
      rw [foldlM_cons] at hp
      cases head : checkRule isFakeip hasServer scan rule with
      | error error => rw [head] at hp; cases hp
      | ok next =>
        rw [head] at hp
        rcases mem_cons.mp hl with rfl | hl
        · unfold checkRule at head
          cases race : checkRace other with
          | ok _ => rfl
          | error error => rw [race] at head; cases head
        · exact ih next hp other hl
  have hc := each rules _ hp rule hl
  intro none
  simp only [checkRace, race, Bool.not_true, Bool.false_eq_true, if_false, none,
    isEmpty_nil, if_true] at hc
  split at hc <;> cases hc

namespace RoutingResolver

variable {self : RoutingResolver}

variable (hs : self.hasMessageMatchers = false)
include hs

theorem quiet_of_hasMessageMatchers (hl : rule ∈ self.rules)
    : rule.Quiet ∧ rule.race = false := by
  rw [hasMessageMatchers, Bool.or_eq_false_iff, List.any_eq_false] at hs
  have hq : rule.Quiet := by
    intro leaf hw
    have unrequired := hs.2 rule hl
    rw [Bool.not_eq_true, requiresMessageLookup, List.any_eq_false] at unrequired
    exact QueryMatcher.quiet_of_requiresMessageLookup (Bool.not_eq_true _ ▸ unrequired leaf hw)
  refine ⟨hq, ?_⟩
  cases race : rule.race with
  | false => rfl
  | true => exact absurd hq.responseSelectors (checkRules_race self.checked hl race)

theorem checkedSelectors_of_hasMessageMatchers : self.checkedSelectors = [] := by
  rw [checkedSelectors, flatMap_eq_nil_iff]
  exact fun _ hl => (quiet_of_hasMessageMatchers hs hl).1.responseSelectors

end RoutingResolver

namespace RuleExchange

variable {call : RuleExchange} {state : RuleExchangeState}

theorem resolveRaceActions_of_no_races (none : state.armedRaces = [])
    : call.resolveRaceActions state = (Option.none, state) := by
  have idle : call.completion.order [] = [] := (call.completion.permutes []).eq_nil
  simp [resolveRaceActions, readyRaceCommit, none, raceLoop, idle]

/-- The response of a rule without a selector of its own is that of the anonymous
evaluation under way.
-/
theorem respond_of_quiet (hq : rule.Quiet) (hb : state.responses = fun _ => none)
    : responseForRespond
        (if rule.responseSelector.isNone then call.settle state .anonymous else state) rule
      = (state.tasks .anonymous).filter fun evaluation =>
        (call.evaluate .anonymous evaluation).isOk := by
  simp only [hq.responseSelector, responseForRespond, isNone_none, if_true, getD_none, settle]
  cases state.tasks .anonymous with
  | none => simp [hb]
  | some evaluation =>
    cases result : call.evaluate .anonymous evaluation with
    | ok _ => simp [Option.filter, result, Except.toBool]
    | error error => simp [Option.filter, result, hb, Except.toBool]

/-- The exchange of rules that do not look at the message: `task` is the last evaluation without
a tag, the only one that a response can come from.
-/
def quietWalk (matched : DnsRule → Bool) (succeeds : Evaluation → Bool)
    : List DnsRule → LookupOptions → (task : Option Evaluation) → Terminal
  | [], options, _ => .fallback options
  | rule :: rules, options, task =>
    if !matched rule then quietWalk matched succeeds rules options task
    else
      match rule.action with
      | .route server _ overrides => .server { server, options := overrides.apply options }
      | .routeOptions overrides =>
        quietWalk matched succeeds rules (overrides.apply options) task
      | .evaluate server tag _ overrides =>
        quietWalk matched succeeds rules options
          (if tag.isNone then some { server, options := overrides.apply options } else task)
      | .respond => .respond (task.filter succeeds)
      | .reject action => .reject action
      | .predefined action => .predefined action

/-- Whether a rule matches the message, before any response. -/
def matchesMessage (call : RuleExchange) (rule : DnsRule) : Bool :=
  rule.matchesQuery call.resolver.ruleSetRouter call.domain call.metadata fun _ => none

def succeeds (call : RuleExchange) (evaluation : Evaluation) : Bool :=
  (call.evaluate .anonymous evaluation).isOk

/-- Without races and responses a walk only asks which rules match the message. -/
theorem walk_eq (unchecked : call.resolver.checkedSelectors = []) (rules)
    (hq : ∀ rule ∈ rules, rule.Quiet ∧ rule.race = false) (state) (races : state.armedRaces = [])
    (hb : state.responses = fun _ => none)
    : (call.walk rules state).1
      = quietWalk call.matchesMessage call.succeeds rules state.options
        (state.tasks .anonymous) := by
  induction rules generalizing state with
  | nil => simp only [walk, resolveRaceActions_of_no_races races]; rfl
  | cons rule rules ih =>
    obtain ⟨calm, noRace⟩ := hq rule mem_cons_self
    have ih := ih fun rule hl => hq rule (mem_cons_of_mem _ hl)
    have first : ∀ next, call.raceFirst state next = next state := by
      intro next
      rw [raceFirst, races]
      rfl
    have matching : call.ruleMatches state rule = call.matchesMessage rule := by
      rw [ruleMatches, hb]
      rfl
    have hk : call.persistRejections state rule = state := by
      simp [persistRejections, calm.rejectedResponseSelectors]
    simp only [walk, noRace, Bool.false_eq_true, if_false, calm.responseSelectors,
      foldl_nil, hk, matching, quietWalk]
    cases call.matchesMessage rule with
    | false => exact ih state races hb
    | true =>
      simp only [Bool.not_true, Bool.false_eq_true, if_false, first]
      cases rule.action with
      | route _ _ _ => rfl
      | reject _ => rfl
      | predefined _ => rfl
      | routeOptions _ => exact ih _ races hb
      | evaluate server tag _ overrides =>
        have next := ih (call.startEvaluation state server tag overrides) races hb
        simp only [ite_self, next]
        cases tag <;> simp [startEvaluation, unchecked]
      | respond => exact congrArg Terminal.respond (respond_of_quiet calm hb)

end RuleExchange

open RuleExchange

/-- A lookup and an exchange go the same way through the rules that they reach: a final action is
matched by both or by neither, as is one on the options that changes them, the lookup selects no
evaluation that fails, and where they respond its last one is the last without a tag.
-/
def Follows (direct message : DnsRule → Bool) (succeeds : Evaluation → Bool)
    : List DnsRule → LookupOptions → (evaluated task : Option Evaluation) → Prop
  | [], _, _, _ => True
  | rule :: rules, options, evaluated, task =>
    match rule.action with
    | .routeOptions overrides =>
      (direct rule = message rule ∨ overrides.apply options = options)
      ∧ Follows direct message succeeds rules
        (if direct rule then overrides.apply options else options) evaluated task
    | .evaluate server tag _ overrides =>
      let evaluation : Evaluation := { server, options := overrides.apply options }
      (direct rule → succeeds evaluation)
      ∧ Follows direct message succeeds rules options
        (if direct rule then some evaluation else evaluated)
        (if message rule ∧ tag.isNone then some evaluation else task)
    | .respond =>
      direct rule = message rule ∧ (direct rule → evaluated = task.filter succeeds)
      ∧ (¬direct rule → Follows direct message succeeds rules options evaluated task)
    | _ =>
      direct rule = message rule
      ∧ (¬direct rule → Follows direct message succeeds rules options evaluated task)

namespace RoutingResolver

/-- Whether a rule matches in the lookup of a domain. -/
def matchesDirect (self : RoutingResolver) (domain : String) (metadata : QueryMetadata)
    (rule : DnsRule) : Bool :=
  rule.matchesQuery self.ruleSetRouter domain metadata fun _ => none

variable {self : RoutingResolver} {message : DnsRule → Bool}

/-- They go the same way exactly when they end alike for every initial part of the rules. -/
theorem follows_iff {options evaluated task}
    : let succeeds := fun evaluation => (self.evaluateLookup domain evaluation).isOk
      Follows (self.matchesDirect domain metadata) message succeeds rules options evaluated task
      ↔ ∀ count, (self.lookupWalk domain metadata (rules.take count) options evaluated).1
        = quietWalk message succeeds (rules.take count) options task := by
  intro succeeds
  induction rules generalizing options evaluated task with
  | nil => simp [Follows, lookupWalk, quietWalk]
  | cons rule rules ih =>
    rw [Follows, Lib.forall_take_cons (motive := fun rules =>
      (self.lookupWalk domain metadata rules options evaluated).1
        = quietWalk message succeeds rules options task) rfl]
    simp only [lookupWalk, quietWalk]
    rw [← matchesDirect]
    generalize self.matchesDirect domain metadata rule = direct
    generalize message rule = matched
    cases rule.action with
    | routeOptions overrides =>
      have moved : ∀ {left right}, left = right
          ∧ Follows (self.matchesDirect domain metadata) message succeeds rules left evaluated task
          ↔ ∀ count, (self.lookupWalk domain metadata (rules.take count) left evaluated).1
            = quietWalk message succeeds (rules.take count) right task := by
        intro left right
        refine (and_congr_right fun same => ?_).trans
          (and_iff_right_of_imp fun agree => Terminal.fallback.inj (agree 0))
        rw [ih, same]
      cases direct <;> cases matched
      · simp [ih]
      · simpa using (and_congr_left' eq_comm).trans moved
      · simpa using moved
      · simp [ih]
    | evaluate server tag _ overrides =>
      let evaluation : Evaluation := { server, options := overrides.apply options }
      have fails : ∀ task, ¬∀ count, Terminal.failed evaluation
          = quietWalk message succeeds (rules.take count) options task := by
        intro task agree
        simpa [quietWalk] using agree 0
      cases selected : succeeds evaluation <;> cases direct <;> cases matched <;>
        simp_all [succeeds, evaluation]
    | _ =>
      -- A walk that goes on would end at the fallback if the rules ended here.
      simp only [apply_ite Prod.fst]
      refine Iff.trans ?_ (Lib.forall_stop_iff (by simp [quietWalk]) (by simp [lookupWalk])).symm
      simp [ih]

end RoutingResolver

/-- What makes the two walks the same for every context: no rule-set asks for the query type,
and an evaluation has no tag and succeeds.
-/
structure RoutingResolver.Plain (resolver : RoutingResolver) (domain : String) : Prop where
  typeless : ∀ rule ∈ resolver.rules, ∀ leaf ∈ rule.leaves,
    leaf.1.Typeless resolver.ruleSetRouter
  evaluate : ∀ rule ∈ resolver.rules, ∀ server tag speculative overrides,
    rule.action = .evaluate server tag speculative overrides →
      tag = none ∧ ∀ options, (resolver.evaluateLookup domain { server, options }).isOk

/-- The walks follow each other where all verdicts agree and evaluations do not matter. -/
theorem follows_of_agree {direct message : DnsRule → Bool} {succeeds : Evaluation → Bool}
    (agree : ∀ rule ∈ rules, direct rule = message rule)
    (evaluate : ∀ rule ∈ rules, ∀ server tag speculative overrides,
      rule.action = .evaluate server tag speculative overrides →
        tag = none ∧ ∀ options, succeeds { server, options })
    {options} {task : Option Evaluation} (kept : task.filter succeeds = task)
    : Follows direct message succeeds rules options task task := by
  induction rules generalizing options task with
  | nil => trivial
  | cons rule rules ih =>
    have rest := @ih (fun rule hl => agree rule (mem_cons_of_mem _ hl))
      fun rule hl => evaluate rule (mem_cons_of_mem _ hl)
    have same := agree rule mem_cons_self
    rw [Follows]
    cases action : rule.action with
    | routeOptions _ => exact ⟨.inl same, rest kept⟩
    | evaluate server tag _ _ =>
      obtain ⟨rfl, succeed⟩ := evaluate rule mem_cons_self _ _ _ _ action
      refine ⟨fun _ => succeed _, ?_⟩
      simp only [← same, isNone_none, and_true]
      apply rest
      split
      · simp [succeed]
      · exact kept
    | respond => exact ⟨same, fun _ => kept.symm, fun _ => rest kept⟩
    | _ => exact ⟨same, fun _ => rest kept⟩

/-- An address lookup that takes the shorter way ends where the exchange of a message does when
the two follow each other, and then for every initial part of the rules; if they do not, the
rules up to the one where they part tell. They do for a query of the same name if no rule-set
asks for the query type and evaluations have no tag and succeed.
-/
theorem lookupDirect_agrees_along (self : RoutingResolver)
    (silent : self.hasMessageMatchers = false) (domain : String) (request : Message)
    (query : Query) (asked : request.queries.head? = some query)
    (alike : ∀ evaluation, (self.evaluateLookup domain evaluation).isOk
      = ((self.server evaluation.server).exchangeResolver request evaluation.options).isOk)
    (options : LookupOptions) (context : Option Metadata) (rejected : String → Bool)
    (completion : CompletionOrder)
    : let metadata := QueryMetadata.forDomain domain none context self.clashMode
      let call : RuleExchange :=
        { resolver := self
          request
          domain := query.name
          metadata := .fromRequest request context self.clashMode
          completion }
      let follows := Follows (self.matchesDirect domain metadata) call.matchesMessage call.succeeds
        self.rules options none none
      (follows → (self.lookupDirect domain options context).1
        = (self.exchangeOnce request options context rejected completion).1)
      ∧ (follows ↔ ∀ count,
        (self.lookupWalk domain metadata (self.rules.take count) options none).1
          = (call.walk (self.rules.take count) (.start options rejected)).1)
      ∧ (query.name = domain → self.Plain domain → follows) := by
  intro metadata call follows
  have hq := fun rule (hl : rule ∈ self.rules) => quiet_of_hasMessageMatchers silent hl
  have walked : ∀ count, (call.walk (self.rules.take count) (.start options rejected)).1
      = quietWalk call.matchesMessage call.succeeds (self.rules.take count) options
        none := fun count =>
    walk_eq (checkedSelectors_of_hasMessageMatchers silent) _
      (fun rule hl => hq rule (mem_of_mem_take hl)) _ rfl rfl
  have same : call.succeeds = fun evaluation => (self.evaluateLookup domain evaluation).isOk :=
    funext fun evaluation => (alike evaluation).symm
  have exact : follows ↔ ∀ count,
      (self.lookupWalk domain metadata (self.rules.take count) options none).1
        = (call.walk (self.rules.take count) (.start options rejected)).1 := by
    simp only [walked, follows, same]
    exact follows_iff _ _
  refine ⟨fun h => ?_, exact, ?_⟩
  · have modern : self.legacyDnsMode = false := (Bool.or_eq_false_iff.mp silent).1
    simp only [exchangeOnce, asked, modern, Bool.false_eq_true, if_false]
    have whole := exact.mp h self.rules.length
    rwa [take_length] at whole
  · intro named plain
    have message : call.metadata = (QueryMetadata.forDomain domain (some query.queryType) context
        self.clashMode).withMessage request := by
      simp [call, QueryMetadata.fromRequest, asked, named]
    refine follows_of_agree (fun rule hl => ?_) ?_ rfl
    · rw [matchesMessage, message]
      refine rule.verdict_congr fun leaf hw => ?_
      rw [show call.domain = domain from named]
      exact ((hq rule hl).1 leaf hw).matchesQuery_eq _ _ _ (plain.typeless rule hl leaf hw) _ _ _ _
    · rw [same]
      exact plain.evaluate

/-- A resolver that knows addresses and no messages. -/
def addressOnly (addresses : List IpAddr) : Resolver where
  lookup := fun _ _ => .ok addresses
  exchange := fun _ _ => .error ⟨.unsupported, "resolver does not expose raw DNS exchange"⟩

def LookupOptions.default : LookupOptions where
  strategy := .asIs
  timeout := none
  disableCache := false
  disableOptimisticCache := false
  rewriteTtl := none
  clientSubnet := none
  removeClientSubnet := false

def CompletionOrder.asStarted : CompletionOrder where
  order := id
  permutes := fun _ => .rfl

/-- Every query is answered with what `up` said. -/
def evaluatingResolver : RoutingResolver where
  rules :=
    [.default .plain false false (.evaluate "up" none false .default),
      .default .plain false false .respond]
  resolvers := fun server => if server = "up" then some (addressOnly [.v4 0x01010101]) else none
  fallback := addressOnly []
  isFakeip := fun _ => false
  rejects := false
  clashMode := none
  ruleSetRouter := none
  legacyDnsMode := false
  checked := by decide +kernel

def addressQuery (queryType : RecordType) : Message :=
  { Message.new 1 .query 0 with queries := [{ name := "a.example", queryType }] }

theorem lookupDirect_agrees_evaluating
    : evaluatingResolver.hasMessageMatchers = false
      ∧ (evaluatingResolver.lookupDirect "a.example" .default none).1
        = (evaluatingResolver.exchangeOnce (addressQuery .a) .default none (fun _ => false)
          .asStarted).1 := by
  have silent : evaluatingResolver.hasMessageMatchers = false := by decide +kernel
  have alike : ∀ evaluation, (evaluatingResolver.evaluateLookup "a.example" evaluation).isOk
      = ((evaluatingResolver.server evaluation.server).exchangeResolver (addressQuery .a)
        evaluation.options).isOk := by
    intro evaluation
    simp only [evaluateLookup, server, evaluatingResolver]
    split <;> rfl
  refine ⟨silent, (lookupDirect_agrees_along evaluatingResolver silent "a.example"
    (addressQuery .a) ⟨"a.example", .a⟩ rfl alike .default none (fun _ => false)
    .asStarted).1 ⟨?_, ?_, ?_, ?_⟩⟩
  · decide +kernel
  · decide +kernel
  · decide +kernel
  · exact fun _ => trivial

/-- Queries for IPv6 addresses are rejected, by a rule-set on the query type. -/
def withoutIpv6Resolver : RoutingResolver where
  rules :=
    [.default { QueryMatcher.plain with ruleSets := ["ipv6"] } false false
      (.reject { method := "default", noDrop := true })]
  resolvers := fun _ => none
  fallback := addressOnly [.v4 0x01010101, .v6 1]
  isFakeip := fun _ => false
  rejects := false
  clashMode := none
  ruleSetRouter := some {
    rules := []
    ruleSets := fun tag =>
      if tag = "ipv6" then
        some { rules := [.default { HeadlessDefaultRule.ofItems .plain
          DefaultItems.ipIsPrivate_plain with
          queryType := [RecordType.aaaa] }] }
      else none
    finalOutbound := ""
    clashMode := none }
  legacyDnsMode := false
  checked := by decide +kernel

/-- The lookup goes on to the fallback, with its IPv6 address, where the exchange of an
`AAAA` query is rejected.
-/
theorem lookupDirect_passes_withoutIpv6
    : withoutIpv6Resolver.hasMessageMatchers = false
      ∧ (withoutIpv6Resolver.lookupDirect "a.example" .default none).1 = .fallback .default
      ∧ (withoutIpv6Resolver.exchangeOnce (addressQuery .aaaa) .default none (fun _ => false)
          .asStarted).1 = .reject { method := "default", noDrop := true } := by
  decide +kernel

end Zay.Dns
