import Zay.Lib.Runs
import Zay.Route.Target

/-! The evaluator that is called again after every sniff and resolve action against the
single pass: for which rules and which connection they do not drift apart.
-/

namespace Zay.Route

open Net Rule List Option ConnectionOverride

def Metadata.target (metadata : Metadata) : Target where
  destination := metadata.destination
  addresses := metadata.destinationAddresses
  ipVersion := metadata.ipVersion

/-- An IP destination fixes the version. -/
def Target.settle (target : Target) : Target :=
  { target with
    ipVersion :=
      match target.ip with
      | some address => some (if address.isIpv4 then 4 else 6)
      | none => target.ipVersion }

def Target.override (target : Target) (next : ConnectionOverride) : Target :=
  { target with
    destination := target.destination.map next.apply
    addresses := if next.address ≠ "" then [] else target.addresses }

/-- The target with which the evaluation goes on after a sniff or resolve action. -/
def Metadata.rebuilt (metadata : Metadata) (options : ConnectionOverride) : Target :=
  Target.settle {
    destination := metadata.destination.map options.apply
    addresses :=
      if metadata.destination.isSome ∧ options.address ≠ "" then []
      else metadata.destinationAddresses
    ipVersion := metadata.ipVersion }

/-- The metadata under the clash mode of the router. -/
def Router.clashed (router : Router) (metadata : Metadata) : Metadata :=
  { metadata with clashMode := router.clashMode.getD metadata.clashMode }

theorem Router.applyRuntimeMetadata_eq (router : Router) (metadata)
    : router.applyRuntimeMetadata metadata
      = (router.clashed metadata).aimed metadata.target.settle := rfl

theorem overrideDestination_aimed (metadata : Metadata) (target next)
    : overrideDestination (metadata.aimed target) next false
      = metadata.aimed (target.override next) := by
  simp only [overrideDestination, Bool.not_false, true_and]
  rfl

/-- The whole stepwise evaluation as one pass: where it is called again, the target is
rebuilt.
-/
def steppedPass (finalOutbound : String) (metadata clashed : Metadata)
    : List Rule → Target → ConnectionOverride → RouteDecision
  | [], _, options => { action := none, options, finalOutbound }
  | rule :: rules, target, options =>
    let skip := steppedPass finalOutbound metadata clashed rules target options
    let again := steppedPass finalOutbound metadata clashed rules (metadata.rebuilt options)
      options
    let decide : RouteDecision := { action := some rule.action, options, finalOutbound }
    if !rule.matchesMetadata (clashed.aimed target) then skip
    else
      match rule.action with
      | .routeOptions next =>
        steppedPass finalOutbound metadata clashed rules (target.override next)
          (options.update next)
      | .bypass outbound _ => if outbound = "" then skip else decide
      | .sniff _ => if metadata.protocol ≠ "" then skip else again
      | .resolve _ => again
      | _ => decide

namespace Router

/-- A call of `route_next` from rule `index` on has come to the end of the pass, or to a
sniff or resolve action, after which the pass goes on from the state the call leaves.
-/
def Resumes (router : Router) (metadata : Metadata) (index : Nat)
    (decision : RouteDecision) (walk : RouteDecision × RouteState)
    : Prop :=
  if walk.1.action.any Action.isPreprocessing then
    decision = steppedPass router.finalOutbound metadata (router.clashed metadata)
        (router.rules.drop walk.2.nextRule) (metadata.rebuilt walk.2.options)
        walk.2.options
      ∧ index < walk.2.nextRule ∧ walk.2.nextRule ≤ router.rules.length
  else decision = walk.1

theorem Resumes.earlier {router : Router} {metadata index decision walk}
    (h : router.Resumes metadata (index + 1) decision walk)
    : router.Resumes metadata index decision walk := by
  unfold Resumes at h ⊢
  split at h
  next again =>
    rw [if_pos again]
    exact ⟨h.1, Nat.lt_of_succ_lt h.2.1, h.2.2⟩
  next final =>
    rw [if_neg final]
    exact h

/-- A call goes along the pass up to the first action that it returns. -/
theorem resumes_routeWalk (router : Router) (metadata) {rules index}
    (tail : rules = router.rules.drop index) (target state)
    : router.Resumes metadata index
        (steppedPass router.finalOutbound metadata (router.clashed metadata) rules target
          state.options)
        (routeWalk router.finalOutbound metadata.protocol false rules index
          ((router.clashed metadata).aimed target) state) := by
  induction rules generalizing index target state with
  | nil => simp [Resumes, routeWalk, steppedPass]
  | cons rule rules ih =>
    have hr : rules = router.rules.drop (index + 1) := by
      rw [← tail_drop, ← tail, tail_cons]
    have hi : index + 1 ≤ router.rules.length := by
      apply Nat.lt_of_not_le
      intro past
      rw [drop_eq_nil_of_le past] at tail
      exact cons_ne_nil _ _ tail
    have skip := fun state => (ih hr target state).earlier
    rw [steppedPass, routeWalk]
    by_cases hm : rule.matchesMetadata ((router.clashed metadata).aimed target)
    · simp only [hm, Bool.not_true, Bool.false_eq_true, if_false]
      cases action : rule.action with
      | routeOptions next =>
        simp only [overrideDestination_aimed]
        exact (ih hr (target.override next)
          { nextRule := index + 1, options := state.options.update next }).earlier
      | bypass _ options =>
        simp only [Bool.not_false, and_true]
        split
        · exact skip { state with nextRule := index + 1 }
        · simp [Resumes, Action.isPreprocessing]
      | sniff options =>
        simp only
        split
        · exact skip { state with nextRule := index + 1 }
        · simp [Resumes, Action.isPreprocessing, ← hr, hi]
      | resolve options => simp [Resumes, Action.isPreprocessing, ← hr, hi]
      | _ => simp [Resumes, Action.isPreprocessing]
    · simp only [hm, Bool.not_false, if_true]
      exact skip state

/-- With a call for every rule left and one more, stepping comes to its decision. -/
theorem routeDiscarding_eq_steppedPass (router : Router) (metadata) {fuel state}
    (place : state.nextRule ≤ router.rules.length)
    (he : router.rules.length < fuel + state.nextRule)
    : router.routeDiscarding metadata fuel state
      = some (steppedPass router.finalOutbound metadata (router.clashed metadata)
          (router.rules.drop state.nextRule) (metadata.rebuilt state.options)
          state.options) := by
  induction fuel generalizing state with
  | zero => omega
  | succ fuel ih =>
    have hr := @resumes_routeWalk router metadata _ state.nextRule rfl
      (metadata.rebuilt state.options) state
    have rebuilt : router.rebuild metadata state.options false
        = (router.clashed metadata).aimed (metadata.rebuilt state.options) := by
      simp only [rebuild, Bool.not_false, true_and]
      rfl
    rw [← rebuilt] at hr
    unfold Resumes at hr
    unfold routeDiscarding routeNext routeNextInternal
    split at hr
    next again =>
      obtain ⟨heq, after, hw⟩ := hr
      rw [if_pos again, heq]
      exact ih hw (by omega)
    next final =>
      rw [if_neg final, hr]

end Router

/-- The two evaluations go the same way through the rules that they reach, the one with the
target in place and the other with the target rebuilt: a rule that only one of them matches has
no effect. A sniff or resolve action rebuilds the target, and a route-options action that
changes no option moves on the target alone.
-/
def Undrifted (metadata clashed : Metadata)
    : List Rule → (inPlace rebuilt : Target) → ConnectionOverride → Prop
  | [], _, _, _ => True
  | rule :: rules, inPlace, rebuilt, options =>
    let matched := rule.matchesMetadata (clashed.aimed inPlace)
    let matchedAgain := rule.matchesMetadata (clashed.aimed rebuilt)
    let again := if matchedAgain then metadata.rebuilt options else rebuilt
    match rule.action with
    | .routeOptions next =>
      (matched = matchedAgain ∨ options.update next = options)
      ∧ Undrifted metadata clashed rules (if matched then inPlace.override next else inPlace)
        (if matchedAgain then rebuilt.override next else rebuilt)
        (if matched then options.update next else options)
    | .bypass outbound _ =>
      (outbound = "" ∨ matched = matchedAgain)
      ∧ (outbound ≠ "" ∧ matched ∨ Undrifted metadata clashed rules inPlace rebuilt options)
    | .sniff _ =>
      Undrifted metadata clashed rules inPlace (if metadata.protocol = "" then again else rebuilt)
        options
    | .resolve _ => Undrifted metadata clashed rules inPlace again options
    | _ =>
      matched = matchedAgain
      ∧ (matched ∨ Undrifted metadata clashed rules inPlace rebuilt options)

section Drift

variable {finalOutbound : String} {metadata clashed : Metadata}

/-- The two evaluations of a list of rules come to the same decision. -/
def PassesAgree (finalOutbound : String) (metadata clashed : Metadata) (rules : List Rule)
    (inPlace rebuilt : Target) (options : ConnectionOverride)
    : Prop :=
  routePass finalOutbound metadata.protocol true true rules (clashed.aimed inPlace) options
    = steppedPass finalOutbound metadata clashed rules rebuilt options

/-- The evaluations go the same way exactly when they agree on every initial part of the rules:
if only one of them matches a rule that has an effect, the rules up to that one tell.
-/
theorem undrifted_iff_passesAgree {rules inPlace rebuilt options}
    : Undrifted metadata clashed rules inPlace rebuilt options
      ↔ ∀ count, PassesAgree finalOutbound metadata clashed (rules.take count) inPlace rebuilt
        options := by
  induction rules generalizing inPlace rebuilt options with
  | nil => simp [Undrifted, PassesAgree, routePass, steppedPass]
  | cons rule rules ih =>
    rw [Lib.forall_take_cons (motive := fun rules =>
      PassesAgree finalOutbound metadata clashed rules inPlace rebuilt options) rfl]
    unfold PassesAgree at ih ⊢
    rw [Undrifted]
    simp only [routePass, steppedPass, overrideDestination_aimed]
    generalize rule.matchesMetadata (clashed.aimed inPlace) = matched
    generalize rule.matchesMetadata (clashed.aimed rebuilt) = matchedAgain
    cases rule.action with
    | routeOptions next =>
      -- Where only one of them matches, the options tell, unless they stay the same.
      have moved : ∀ {inPlace rebuilt left right}, left = right
          ∧ Undrifted metadata clashed rules inPlace rebuilt left
          ↔ ∀ count, routePass finalOutbound metadata.protocol true true (rules.take count)
            (clashed.aimed inPlace) left
            = steppedPass finalOutbound metadata clashed (rules.take count) rebuilt right := by
        intro inPlace rebuilt left right
        refine (and_congr_right fun same => ?_).trans
          (and_iff_right_of_imp fun agree => congrArg RouteDecision.options (agree 0))
        rw [ih, same]
      cases matched <;> cases matchedAgain
      · simp [ih]
      · simpa using (and_congr_left' eq_comm).trans moved
      · simpa using moved
      · simp [ih]
    | bypass outbound _ =>
      by_cases empty : outbound = ""
      · simp [empty, ih]
      · simp only [empty, if_false]
        refine Iff.trans ?_ (Lib.forall_stop_iff (by simp [steppedPass]) (by simp [routePass])).symm
        simp [empty, ih, or_iff_not_imp_left]
    | sniff _ =>
      by_cases sniffed : metadata.protocol = "" <;> cases matchedAgain <;> simp [sniffed, ih]
    | resolve _ => cases matchedAgain <;> simp [ih]
    | _ =>
      refine Iff.trans ?_ (Lib.forall_stop_iff (by simp [steppedPass]) (by simp [routePass])).symm
      simp [ih, or_iff_not_imp_left]

end Drift

/-- Calling `route_next` again and again, and discarding what it wants sniffed or resolved,
ends in the decision of the single pass.
-/
def Router.SteppingAgrees (router : Router) (metadata : Metadata) : Prop :=
  ∃ decision,
    router.routeDiscarding metadata (router.rules.length + 1) .default = some decision
    ∧ decision.action = (router.routeAfterActions metadata true true).action
    ∧ decision.options = (router.routeAfterActions metadata true true).options
    ∧ decision.finalOutbound = (router.routeAfterActions metadata true true).finalOutbound

theorem Router.steppingAgrees_iff_passesAgree (router : Router) (metadata)
    : router.SteppingAgrees metadata
      ↔ PassesAgree router.finalOutbound metadata (router.clashed metadata) router.rules
        metadata.target.settle (metadata.rebuilt .default) .default := by
  have stepped : router.routeDiscarding metadata (router.rules.length + 1) .default
      = some (steppedPass router.finalOutbound metadata (router.clashed metadata) router.rules
          (metadata.rebuilt .default) .default) :=
    router.routeDiscarding_eq_steppedPass metadata (Nat.zero_le _) (Nat.lt_succ_self _)
  unfold Router.SteppingAgrees PassesAgree
  rw [stepped, ← Router.applyRuntimeMetadata_eq]
  constructor
  · rintro ⟨decision, hf, action, options, outbound⟩
    rw [← some.inj hf] at action options outbound
    exact (RouteDecision.ext action options outbound).symm
  · intro he
    refine ⟨_, rfl, ?_⟩
    rw [← he]
    exact ⟨rfl, rfl, rfl⟩

/-- The condition of the two evaluations of a router from the start. -/
def Router.Undrifted (router : Router) (metadata : Metadata) : Prop :=
  Route.Undrifted metadata (router.clashed metadata) router.rules metadata.target.settle
    (metadata.rebuilt .default) .default

/-- The text of the destination reads as its IP address, that of a domain as none. -/
def Metadata.ReadsBack (metadata : Metadata) : Prop :=
  ∀ address, metadata.destination = some address →
    parseIpAddr address.host = metadata.target.ip

/-- The text of the destination reads as its address, or as none, and no rule overrides it. -/
structure Router.KeepsAddress (router : Router) (metadata : Metadata) : Prop where
  readBack : metadata.ReadsBack
  kept : ∀ rule ∈ router.rules, ∀ next, rule.action = .routeOptions next → next.address = ""

theorem Metadata.override_rebuilt {metadata : Metadata} {options next : ConnectionOverride}
    (readBack : metadata.ReadsBack)
    (kept : options.address = "") (still : next.address = "")
    : (metadata.rebuilt options).override next = metadata.rebuilt (options.update next) := by
  have both : (options.update next).address = "" := by
    simp [update, kept, still]
  have port : (options.update next).port = if next.port ≠ 0 then next.port else options.port := rfl
  unfold rebuilt Target.override
  cases destination : metadata.destination with
  | none => simp [Target.settle, Target.ip, still, both, kept]
  | some address =>
    have text := readBack address destination
    cases address <;>
      simp_all [Target.settle, Target.ip, target, apply, SocksAddr.new,
        SocksAddr.host, SocksAddr.port]
    all_goals grind

theorem Metadata.rebuilt_default {metadata : Metadata} (readBack : metadata.ReadsBack)
    : metadata.rebuilt .default = metadata.target.settle := by
  unfold rebuilt
  cases destination : metadata.destination with
  | none => simp [target, destination]
  | some address =>
    have text := readBack address destination
    cases address <;>
      simp_all [Target.ip, target, apply, ConnectionOverride.default,
        SocksAddr.new, SocksAddr.host, SocksAddr.port]

/-- Rules that leave the address alone cause no drift: both targets are the rebuilt one. -/
theorem undrifted_of_keepsAddress {metadata clashed : Metadata} {rules : List Rule}
    (readBack : metadata.ReadsBack)
    (kept : ∀ rule ∈ rules, ∀ next, rule.action = .routeOptions next → next.address = "")
    {options : ConnectionOverride} (empty : options.address = "")
    : Undrifted metadata clashed rules (metadata.rebuilt options) (metadata.rebuilt options)
        options := by
  induction rules generalizing options with
  | nil => trivial
  | cons rule rules ih =>
    have rest := @ih fun rule member => kept rule (mem_cons_of_mem _ member)
    rw [Undrifted]
    cases action : rule.action with
    | routeOptions next =>
      have still := kept rule mem_cons_self next action
      refine ⟨.inl rfl, ?_⟩
      rw [metadata.override_rebuilt readBack empty still]
      split
      · apply rest
        simp [update, empty, still]
      · exact rest empty
    | bypass _ _ => exact ⟨.inr rfl, .inr (rest empty)⟩
    | sniff _ => simpa using rest empty
    | resolve _ => simpa using rest empty
    | _ => exact ⟨rfl, .inr (rest empty)⟩

/-- A rule that matches everything. -/
def Rule.always (action : Action) : Rule :=
  .default { items := DefaultItems.plain, ruleSets := [], action }

/-- A rule that matches when another does, or when it does not. -/
def Rule.wrap (rule : Rule) (invert : Bool) (action : Action) : Rule :=
  .logical .and [rule] invert action

/-- Stepping agrees with the single pass when no rule with an effect is matched by only one of
them on their way, and then for every initial part of the rules; if one is, the rules up to it
tell them apart. There is none when the rules override no address.
-/
theorem stepping_agrees_unless_drifted (router : Router) (metadata : Metadata)
    : (router.Undrifted metadata → router.SteppingAgrees metadata)
      ∧ (router.Undrifted metadata
        ↔ ∀ count, { router with rules := router.rules.take count }.SteppingAgrees metadata)
      ∧ (router.KeepsAddress metadata → router.Undrifted metadata) := by
  have exact : router.Undrifted metadata
      ↔ ∀ count, { router with rules := router.rules.take count }.SteppingAgrees metadata := by
    simp only [Router.steppingAgrees_iff_passesAgree]
    exact undrifted_iff_passesAgree
  refine ⟨fun undrifted => ?_, exact, fun keeps => ?_⟩
  · simpa using exact.mp undrifted router.rules.length
  · unfold Router.Undrifted
    rw [← Metadata.rebuilt_default keeps.readBack]
    exact undrifted_of_keepsAddress keeps.readBack keeps.kept rfl

/-- Connections that `first` matches are given a domain as their destination, and all are sniffed.
The rule after that asks for IPv4.
-/
def overriding (first : Action → Rule) : Router where
  rules := [
    first (.routeOptions { ConnectionOverride.default with address := "example.com" }),
    .always (.sniff { names := [], timeout := 0 }),
    (onDestination 4 [] []).wrap false (.reject "" false)]
  ruleSets := fun _ => none
  finalOutbound := ""
  clashMode := none

/-- A connection to an IPv4 address. -/
def ipv4Connection : Metadata :=
  { Metadata.default with destination := some (.ip { ip := .v4 0x01020304, port := 443 }) }

/-- The connection does not reach the override, which is for another port. -/
theorem stepping_agrees_elsewhere
    : (overriding ((onDestination 0 [80] []).wrap false)).SteppingAgrees ipv4Connection := by
  refine (stepping_agrees_unless_drifted _ _).1 ⟨.inl ?_, ?_, ?_⟩
  · decide +kernel
  · decide +kernel
  · exact .inl (by decide +kernel)

/-- The single pass still counts the connection as IPv4, the evaluator that was called again does
not.
-/
theorem stepping_drifts_after_override
    : ¬ (overriding .always).SteppingAgrees ipv4Connection := by
  rintro ⟨decision, found, action, -⟩
  have stepped : ((overriding .always).routeDiscarding ipv4Connection 4 .default).map (·.action)
      = some none := by
    decide +kernel
  have passed : ((overriding .always).routeAfterActions ipv4Connection true true).action
      = some (.reject "" false) := by
    decide +kernel
  rw [show (overriding .always).rules.length + 1 = 4 from rfl] at found
  rw [found, map_some, action, passed] at stepped
  simp at stepped

end Zay.Route
