import Zay.Dns.FastPath

/-! The order in which the evaluations of a race end. A rule is decided once all responses it
looks at are known, and its verdict is then that of the end of the race.
-/

namespace Zay.Dns

open List Option Function

namespace RuleExchange

variable (call : RuleExchange) (state : RuleExchangeState)

/-- The responses once every evaluation under way has ended. -/
def finalResponses (selector : ResponseSelector) : Option Message :=
  match state.tasks selector with
  | some evaluation => (call.evaluate selector evaluation).toOption
  | none => (state.responses selector).map (·.2)

def matchesFinally (rule : DnsRule) : Bool :=
  rule.matchesQuery call.resolver.ruleSetRouter call.domain call.metadata
    (call.finalResponses state)

/-- The evaluations that the armed rules wait for. -/
def pendingSelectors (state : RuleExchangeState) : List ResponseSelector :=
  ((state.armedRaces.flatMap (·.rule.responseSelectors)).eraseDups).filter fun selector =>
    (state.tasks selector).isSome

/-- None of the rule's responses is outstanding when the evaluations `ended` have ended. -/
def settledBy (pending ended : List ResponseSelector) (rule : DnsRule) : Bool :=
  rule.responseSelectors.all fun selector => !(pending.filter (· ∉ ended)).contains selector

/-- The first armed rule that is decided and matches. -/
def decidedRace (ended : List ResponseSelector) : Option ArmedRace :=
  state.armedRaces.find? fun race =>
    settledBy (pendingSelectors state) ended race.rule && call.matchesFinally state race.rule

/-- What the loop does with an evaluation that has ended. -/
def afterEvaluation (state : RuleExchangeState) (selector : ResponseSelector)
    : RuleExchangeState :=
  let succeeded := (state.tasks selector).any fun evaluation =>
    (call.evaluate selector evaluation).isOk
  let settled := call.settle state selector
  if succeeded then (settled.armedRaces.map (·.rule)).foldl call.persistRejections settled
  else settled

/-- The state of a race after some evaluations have ended. -/
structure Along (start : RuleExchangeState) (ended : List ResponseSelector)
    (now : RuleExchangeState)
    : Prop where
  armed : now.armedRaces = start.armedRaces
  known : ∀ selector ∈ ended,
    (now.responses selector).map (·.2) = call.finalResponses start selector
  others : ∀ selector ∉ ended,
    now.tasks selector = start.tasks selector ∧ now.responses selector = start.responses selector

variable {call state} {start now : RuleExchangeState} {ended : List ResponseSelector}

/-- Persisting rejections leaves the race as it is. -/
theorem Along.persistRejections (ha : call.Along start ended now) (rule)
    : call.Along start ended (call.persistRejections now rule) := by
  unfold RuleExchange.persistRejections
  split
  · exact ha
  · exact ⟨ha.armed, ha.known, ha.others⟩

theorem Along.foldl_persistRejections (ha : call.Along start ended now) (rules : List DnsRule)
    : call.Along start ended (rules.foldl call.persistRejections now) := by
  exact foldlRecOn rules _ ha fun _ ha rule _ => ha.persistRejections rule

variable {selector : ResponseSelector}

section

variable (ha : call.Along start ended now)

include ha

section

variable (fresh : ∀ selector, (start.tasks selector).isSome → start.responses selector = none)
  (running : (start.tasks selector).isSome) (outstanding : selector ∉ ended)

include fresh running outstanding

theorem Along.settle
    : call.Along start (ended ++ [selector]) (call.settle now selector) := by
  obtain ⟨evaluation, task⟩ := isSome_iff_exists.mp running
  have current : now.tasks selector = some evaluation :=
    (ha.others selector outstanding).1.trans task
  have final : call.finalResponses start selector
      = (call.evaluate selector evaluation).toOption := by
    rw [finalResponses, task]
  -- both outcomes leave the other selectors as they are
  have extended : ∀ next, next.armedRaces = now.armedRaces →
      (next.responses selector).map (·.2) = (call.evaluate selector evaluation).toOption →
      (∀ other, other ≠ selector → next.tasks other = now.tasks other
        ∧ next.responses other = now.responses other) →
      call.Along start (ended ++ [selector]) next := by
    intro next armed response he
    refine ⟨armed.trans ha.armed, fun other mem => ?_, fun other hno => ?_⟩
    · rcases mem_append.mp mem with hb | last
      · have hne : other ≠ selector := fun heq => outstanding (heq ▸ hb)
        rw [(he other hne).2, ha.known other hb]
      · rw [mem_singleton.mp last, response, final]
    · obtain ⟨hb, last⟩ := not_or.mp (mem_append.not.mp hno)
      have hne : other ≠ selector := fun heq => last (mem_singleton.mpr heq)
      obtain ⟨task, response⟩ := ha.others other hb
      exact ⟨(he other hne).1.trans task, (he other hne).2.trans response⟩
  unfold RuleExchange.settle
  simp only [current]
  cases outcome : call.evaluate selector evaluation with
  | ok response =>
    refine extended _ rfl ?_ fun other hne => ⟨?_, ?_⟩
    · simp [outcome, Except.toOption]
    · exact update_of_ne hne ..
    · exact update_of_ne hne ..
  | error error =>
    refine extended _ rfl ?_ fun other hne => ⟨?_, rfl⟩
    · rw [outcome, (ha.others selector outstanding).2, fresh selector running]
      rfl
    · exact update_of_ne hne ..

theorem Along.afterEvaluation
    : call.Along start (ended ++ [selector]) (call.afterEvaluation now selector) := by
  have hs := ha.settle fresh running outstanding
  unfold RuleExchange.afterEvaluation
  simp only
  split
  · exact hs.foldl_persistRejections _
  · exact hs

end

/-- The verdict on a rule that is decided is the final one. -/
theorem Along.ruleMatches_eq {race} (armed : race ∈ start.armedRaces)
    (decided : settledBy (pendingSelectors start) ended race.rule = true)
    : call.ruleMatches now race.rule = call.matchesFinally start race.rule := by
  refine DnsRule.verdict_congr race.rule fun leaf hl => ?_
  cases looked : leaf.1.responseSelector with
  | none => rfl
  | some selector =>
    have selected : selector ∈ race.rule.responseSelectors :=
      mem_filterMap.mpr ⟨leaf, hl, looked⟩
    have hk : (now.responses selector).map (·.2) = call.finalResponses start selector := by
      by_cases ends : selector ∈ ended
      · exact ha.known selector ends
      have hs := all_eq_true.mp decided selector selected
      have idle : start.tasks selector = none := by
        by_contra running
        have hl : selector ∈ (pendingSelectors start).filter (· ∉ ended) := by
          refine mem_filter.mpr ⟨mem_filter.mpr ⟨?_, ?_⟩, by simpa using ends⟩
          · rw [mem_eraseDups]
            exact mem_flatMap.mpr ⟨race, armed, selected⟩
          · exact isSome_iff_ne_none.mpr running
        rw [contains_eq_mem, decide_eq_true hl] at hs
        cases hs
      rw [(ha.others selector ends).2, finalResponses, idle]
    simp [hk]

theorem Along.readyRaceCommit_eq
    : call.readyRaceCommit now ((pendingSelectors start).filter (· ∉ ended))
      = (call.decidedRace start ended).map (raceCommit now) := by
  unfold readyRaceCommit decidedRace
  rw [ha.armed]
  -- the rules are gone through in their order on both sides
  have each : ∀ race ∈ start.armedRaces,
      (race.rule.responseSelectors.any ((pendingSelectors start).filter (· ∉ ended)).contains
        || !call.ruleMatches now race.rule)
      = !(settledBy (pendingSelectors start) ended race.rule
        && call.matchesFinally start race.rule) := by
    intro race armed
    have hs : settledBy (pendingSelectors start) ended race.rule
        = !race.rule.responseSelectors.any
          ((pendingSelectors start).filter (· ∉ ended)).contains := by
      rw [settledBy, all_eq_not_any_not]
      simp only [Bool.not_not]
    rw [Bool.not_and, hs, Bool.not_not]
    cases hw : race.rule.responseSelectors.any _ with
    | true => rfl
    | false => rw [ha.ruleMatches_eq armed (by rw [hs, hw]; rfl)]
  revert each
  induction start.armedRaces with
  | nil => exact fun _ => rfl
  | cons race _ ih =>
    intro each
    obtain ⟨head, tail⟩ := forall_mem_cons.mp each
    rw [findSome?_cons, find?_cons, head]
    cases settledBy (pendingSelectors start) ended race.rule
        && call.matchesFinally start race.rule with
    | false => exact ih tail
    | true => rfl

end

/-- The race commits `race` as soon as some evaluations `ended` have ended. -/
structure Commits (call : RuleExchange) (state : RuleExchangeState)
    (ended : List ResponseSelector) (race : ArmedRace) (terminal : Terminal)
    : Prop where
  decided : call.decidedRace state ended = some race
  committed : ∃ now, call.Along state ended now ∧ terminal = raceCommit now race
  earliest : ∀ fewer, fewer <+: ended → fewer ≠ ended → call.decidedRace state fewer = none

theorem raceLoop_cons (call : RuleExchange) (selector rest pending now)
    : call.raceLoop (selector :: rest) pending now
      = match call.readyRaceCommit (call.afterEvaluation now selector)
          (pending.filter (· ≠ selector)) with
        | some terminal => (some terminal, call.afterEvaluation now selector)
        | none => call.raceLoop rest (pending.filter (· ≠ selector))
            (call.afterEvaluation now selector) :=
  rfl

theorem raceLoop_spec
    (fresh : ∀ selector, (start.tasks selector).isSome → start.responses selector = none) {rest}
    (ha : call.Along start ended now)
    (running : ∀ selector ∈ rest, (start.tasks selector).isSome) (hd : (ended ++ rest).Nodup)
    (hu : ∀ fewer, fewer <+: ended → call.decidedRace start fewer = none)
    : ((call.raceLoop rest ((pendingSelectors start).filter (· ∉ ended)) now).1 = none
        ∧ call.decidedRace start (ended ++ rest) = none)
      ∨ ∃ terminal more race,
        (call.raceLoop rest ((pendingSelectors start).filter (· ∉ ended)) now).1 = some terminal
        ∧ more <+: rest ∧ Commits call start (ended ++ more) race terminal := by
  induction rest generalizing ended now with
  | nil =>
    refine .inl ⟨rfl, ?_⟩
    rw [append_nil]
    exact hu ended (prefix_refl ended)
  | cons selector rest ih =>
    obtain ⟨runs, others⟩ := forall_mem_cons.mp running
    have outstanding : selector ∉ ended := fun mem =>
      (nodup_append.mp hd).2.2 selector mem selector mem_cons_self rfl
    have next := ha.afterEvaluation fresh runs outstanding
    have ready := next.readyRaceCommit_eq
    have left : ((pendingSelectors start).filter (· ∉ ended)).filter (· ≠ selector)
        = (pendingSelectors start).filter (· ∉ ended ++ [selector]) := by
      rw [List.filter_filter]
      exact filter_congr fun _ _ => by simp [and_comm]
    rw [raceLoop_cons, left, ready]
    have append : ended ++ selector :: rest = (ended ++ [selector]) ++ rest := by simp
    cases decided : call.decidedRace start (ended ++ [selector]) with
    | some race =>
      refine .inr ⟨_, [selector], race, rfl, prefix_append [selector] rest, decided,
        ⟨_, next, rfl⟩, fun fewer hw hs => ?_⟩
      rcases prefix_concat_iff.mp hw with whole | hb
      · exact absurd whole hs
      · exact hu fewer hb
    | none =>
      have hr : ∀ fewer, fewer <+: ended ++ [selector] → call.decidedRace start fewer = none := by
        intro fewer hw
        rcases prefix_concat_iff.mp hw with rfl | hb
        · exact decided
        · exact hu fewer hb
      rw [append] at hd ⊢
      rcases ih next others hd hr with
        ended' | ⟨terminal, more, race, found, hw, commits⟩
      · exact .inl ended'
      refine .inr ⟨terminal, selector :: more, race, found, ?_, ?_⟩
      · exact (prefix_cons_inj selector).mpr hw
      · rwa [append_assoc] at commits

theorem nodup_eraseDups (selectors : List ResponseSelector) : selectors.eraseDups.Nodup := by
  induction length : selectors.length using Nat.strong_induction_on generalizing selectors with
  | _ length ih =>
    cases selectors with
    | nil => exact nodup_nil
    | cons first rest =>
      have hs := length_filter_le (fun other => !other == first) rest
      rw [eraseDups_cons, nodup_cons, mem_eraseDups, mem_filter]
      refine ⟨by simp, ih _ ?_ _ rfl⟩
      rw [← length, length_cons]
      omega

theorem resolveRaceActions_spec (call state)
    (fresh : ∀ selector, (state.tasks selector).isSome → state.responses selector = none)
    : ((call.resolveRaceActions state).1 = none
        ∧ call.decidedRace state (call.completion.order (pendingSelectors state)) = none)
      ∨ ∃ terminal ended race, (call.resolveRaceActions state).1 = some terminal
        ∧ ended <+: call.completion.order (pendingSelectors state)
        ∧ Commits call state ended race terminal := by
  have start : call.Along state [] state := ⟨rfl, nofun, fun _ _ => ⟨rfl, rfl⟩⟩
  have ready := start.readyRaceCommit_eq
  have all : (pendingSelectors state).filter (· ∉ ([] : List ResponseSelector))
      = pendingSelectors state := by simp
  rw [all] at ready
  have order := call.completion.permutes (pendingSelectors state)
  have resolved : call.resolveRaceActions state
      = match call.readyRaceCommit state (pendingSelectors state) with
        | some terminal => (some terminal, state)
        | none => call.raceLoop (call.completion.order (pendingSelectors state))
            (pendingSelectors state) state := rfl
  rw [resolved, ready]
  cases decided : call.decidedRace state [] with
  | some race =>
    exact .inr ⟨_, [], race, rfl, nil_prefix, decided, ⟨state, start, rfl⟩,
      fun fewer hw hs => absurd (prefix_nil.mp hw) hs⟩
  | none =>
    have hu : ∀ fewer, fewer <+: [] → call.decidedRace state fewer = none := by
      intro fewer hw
      rw [prefix_nil.mp hw, decided]
    have hd : ([] ++ call.completion.order (pendingSelectors state)).Nodup :=
      order.nodup_iff.mpr ((nodup_eraseDups _).filter _)
    have loop := raceLoop_spec fresh start
      (fun selector mem => (mem_filter.mp (order.mem_iff.mp mem)).2) hd hu
    rw [all] at loop
    exact loop

/-- Every order of completions leads to a commit, or none does. What is committed is the first
rule that matches in the end, of those that were decided at that moment.
-/
theorem race_outcome (call : RuleExchange) (state : RuleExchangeState)
    (fresh : ∀ selector, (state.tasks selector).isSome → state.responses selector = none)
    : ((call.resolveRaceActions state).1.isSome
        ↔ ∃ race ∈ state.armedRaces, call.matchesFinally state race.rule)
      ∧ ∀ terminal, (call.resolveRaceActions state).1 = some terminal →
        ∃ ended race, ended <+: call.completion.order (pendingSelectors state)
          ∧ race ∈ state.armedRaces
          ∧ call.matchesFinally state race.rule
          ∧ Commits call state ended race terminal := by
  -- Once nothing is outstanding, every rule is decided.
  have settled (rule : DnsRule) : settledBy (pendingSelectors state)
      (call.completion.order (pendingSelectors state)) rule = true := by
    rw [settledBy, filter_eq_nil_iff.mpr fun selector listed => by
      simpa using (call.completion.permutes (pendingSelectors state)).mem_iff.mpr listed]
    exact all_eq_true.mpr fun _ _ => rfl
  rcases resolveRaceActions_spec call state fresh with
    ⟨none, undecided⟩ | ⟨terminal, ended, race, found, within, commits⟩
  · simp only [decidedRace, settled, Bool.true_and, find?_eq_none] at undecided
    rw [none]
    refine ⟨⟨fun impossible => ?_, ?_⟩, fun terminal impossible => ?_⟩
    · cases impossible
    · rintro ⟨race, armed, matching⟩
      exact absurd matching (undecided race armed)
    · cases impossible
  · have armed := mem_of_find?_eq_some commits.decided
    have decided := find?_some commits.decided
    have matching := (Bool.and_eq_true_iff.mp decided).2
    rw [found]
    refine ⟨⟨fun _ => ⟨race, armed, matching⟩, fun _ => rfl⟩, fun _ same => ?_⟩
    cases same
    exact ⟨ended, race, within, armed, matching, commits⟩

end RuleExchange

/-- Evaluations that end in the opposite order. -/
def waitingExchange : RuleExchange where
  resolver := evaluatingResolver
  request := addressQuery .a
  domain := "a.example"
  metadata := .fromRequest (addressQuery .a) none none
  completion := ⟨reverse, reverse_perm⟩

/-- A rule that answers with the response of an evaluation if that has an address. -/
def waitingRace (selector : ResponseSelector) : ArmedRace where
  rule := .default
    { QueryMatcher.plain with
      response := some {
        selector
        address := { ipCidrs := [], ipIsPrivate := false, ipAcceptAny := true }
        responseCode := none
        answers := []
        authorities := []
        additionals := [] } }
    false true .respond
  options := .default

def taggedEvaluation : Evaluation :=
  { server := "up", options := { LookupOptions.default with disableCache := true } }

/-- Two evaluations of `up` are under way, and a rule waits for each. -/
def waitingState : RuleExchangeState :=
  { RuleExchangeState.start .default fun _ => false with
    tasks := fun selector =>
      if selector = .anonymous then some { server := "up", options := .default }
      else some taggedEvaluation
    armedRaces := [waitingRace .anonymous, waitingRace (.tagged "tag")] }

/-- Both rules match in the end, and the second one answers. -/
theorem race_outcome_waiting
    : (waitingExchange.resolveRaceActions waitingState).1
        = some (.respond (some taggedEvaluation))
      ∧ waitingExchange.matchesFinally waitingState (waitingRace .anonymous).rule
      ∧ ∃ race ∈ waitingState.armedRaces,
        waitingExchange.matchesFinally waitingState race.rule := by
  have committed : (waitingExchange.resolveRaceActions waitingState).1
      = some (.respond (some taggedEvaluation)) := by decide +kernel
  have outcome := (RuleExchange.race_outcome waitingExchange waitingState fun _ _ => rfl).1
  exact ⟨committed, by decide +kernel, outcome.mp (by rw [committed]; rfl)⟩

end Zay.Dns
