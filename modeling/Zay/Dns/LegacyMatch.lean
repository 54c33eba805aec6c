import Zay.Dns.Rule
import Zay.Route.RuleSetReads

/-! Legacy DNS rules are matched twice: before the query, when the addresses of the response
are not known (`legacy_match_possibility`), and on the response. The first match is meant to
leave open whatever the second can find.
-/

namespace Zay.Dns

open Net List Option Bool QueryMatcher
open Route MatchPossibility

/-- The possibility does not exclude the verdict. -/
def MatchPossibility.Covers (possibility : MatchPossibility) (verdict : Bool) : Prop :=
  (verdict = true → possibility.canMatch = true)
  ∧ (verdict = false → possibility.canMiss = true)

namespace MatchPossibility

variable {self other : MatchPossibility} {verdict next : Bool}

theorem covers_fixed (verdict : Bool) : (fixed verdict).Covers verdict := by
  cases verdict <;> simp [Covers, fixed]

theorem covers_unknown (verdict : Bool) : unknown.Covers verdict := by
  simp [Covers, unknown]

theorem Covers.and (left : self.Covers verdict) (right : other.Covers next)
    : (self.and other).Covers (verdict && next) := by
  cases verdict <;> cases next <;> simp_all [Covers, and]

theorem Covers.or (left : self.Covers verdict) (right : other.Covers next)
    : (self.or other).Covers (verdict || next) := by
  cases verdict <;> cases next <;> simp_all [Covers, or]

theorem covers_invertedIf (invert : Bool)
    : (self.invertedIf invert).Covers (verdict != invert) ↔ self.Covers verdict := by
  cases invert <;> cases verdict <;> simp [Covers, invertedIf]

end MatchPossibility

namespace DnsRule

section

variable {possible : QueryMatcher → MatchPossibility} {actual : QueryMatcher → Bool}

mutual

/-- Possibilities that cover the verdicts of all matchers of a rule cover the verdict of the
rule.
-/
theorem covers_possibility (rule : DnsRule)
    (hc : ∀ leaf ∈ rule.leaves, (possible leaf.1).Covers (actual leaf.1))
    : (rule.possibility possible).Covers (rule.verdict actual) := by
  match rule with
  | .default matcher invert _ _ =>
    exact (covers_invertedIf invert).mpr (hc (matcher, invert) (mem_singleton_self _))
  | .logical .and rules invert _ _ =>
    refine (covers_invertedIf invert).mpr ?_
    exact (covers_possibilityNested rules hc (covers_fixed true)).1
  | .logical .or rules invert _ _ =>
    refine (covers_invertedIf invert).mpr ?_
    exact (covers_possibilityNested rules hc (covers_fixed false)).2

theorem covers_possibilityNested (rules)
    (hc : ∀ leaf ∈ allLeaves rules, (possible leaf.1).Covers (actual leaf.1)) {state seen}
    (sofar : state.Covers seen)
    : (possibilityAll possible state rules).Covers (seen && verdictAll actual rules)
      ∧ (possibilityAny possible state rules).Covers (seen || verdictAny actual rules) := by
  match rules with
  | [] => simpa [possibilityAll, verdictAll, possibilityAny, verdictAny] using sofar
  | rule :: rules =>
    simp only [allLeaves, mem_append] at hc
    have head := covers_possibility rule fun leaf hl => hc leaf (.inl hl)
    have rest := fun leaf hl => hc leaf (.inr hl)
    rw [possibilityAll, verdictAll, possibilityAny, verdictAny, ← Bool.and_assoc, ← Bool.or_assoc]
    exact ⟨(covers_possibilityNested rules rest (sofar.and head)).1,
      (covers_possibilityNested rules rest (sofar.or head)).2⟩

end

end

end DnsRule

namespace QueryMatcher

/-- The domain condition of the rule is there and holds. -/
def domainDecides (matcher : QueryMatcher) (domain : String) : Bool :=
  !matcher.domain.isEmpty && matcher.domain.matchesDomain domain

def destinationRequired (matcher : QueryMatcher) : Bool :=
  !matcher.domain.isEmpty || matcher.legacyAddress.isSome

def acceptsAddresses (matcher : QueryMatcher) (addresses : List IpAddr) : Bool :=
  matcher.legacyAddress.any (·.matchesAddresses addresses false)

section

variable (matcher : QueryMatcher) (router : Router) (domain : String) (metadata : QueryMetadata)

/-- The verdict of the rule-sets of a rule on the given addresses, where `addressMet` says
whether the address condition of the rule itself is met.
-/
def setsMatch (addresses : List IpAddr) (addressMet ipCidrAcceptEmpty : Bool) : Bool :=
  router.matchesRuleSets matcher.ruleSets (metadata.route.withAddresses addresses)
    matcher.ruleSetIpCidrMatchSource matcher.destinationRequired
    (matcher.domainDecides domain || addressMet) ipCidrAcceptEmpty

/-- What the rule-sets say before the response is known. -/
def setsMatchBefore (addressMet : Bool) : Bool :=
  matcher.setsMatch router domain metadata metadata.route.destinationAddresses addressMet false

/-- The rule-sets of a rule cannot take back what they say before the response: sets that look at
the source stand beside no address condition of the rule itself, and where sets look at the
destination, the query comes with no addresses and no `ip_cidr` condition is inverted.
-/
structure Upright (matcher : QueryMatcher) (router : Router) (metadata : Metadata) : Prop where
  bySource : matcher.ruleSetIpCidrMatchSource → matcher.legacyAddress = none
  byDestination : ¬matcher.ruleSetIpCidrMatchSource → metadata.destinationIp = none →
    router.ruleSetsContainDestinationIp matcher.ruleSets →
    metadata.destinationAddresses = [] ∧ router.ruleSetsUpright matcher.ruleSets

end

variable {matcher : QueryMatcher} {router : Router} {domain : String} {metadata : QueryMetadata}
  {addresses : List IpAddr}

theorem setsMatch_eq_before (unread : AddressesFixed metadata.route matcher.ruleSetIpCidrMatchSource
      ∨ router.ruleSetsContainDestinationIp matcher.ruleSets = false)
    (addresses addressMet ipCidrAcceptEmpty)
    : matcher.setsMatch router domain metadata addresses addressMet ipCidrAcceptEmpty
      = matcher.setsMatchBefore router domain metadata addressMet :=
  Router.matchesRuleSets_withAddresses unread _ _ _ _ _

/-- Without an address condition of the rule itself, no response meets it. -/
theorem legacyAddress_of_acceptsAddresses (accepts : matcher.acceptsAddresses addresses)
    : matcher.legacyAddress.isSome := by
  unfold acceptsAddresses at accepts
  cases hf : matcher.legacyAddress with
  | none => simp [hf] at accepts
  | some _ => rfl

section

variable (context : matcher.matchesQueryContext domain metadata)
include context

theorem legacyMatchesResponse_eq (sets : matcher.ruleSets.isEmpty = false) (response)
    : matcher.legacyMatchesResponse (some router) domain metadata response
      = matcher.setsMatch router domain metadata (dnsResponseAddresses response)
        (matcher.acceptsAddresses (dnsResponseAddresses response))
        matcher.ruleSetIpCidrAcceptEmpty := by
  simp only [legacyMatchesResponse, context, sets, Bool.true_and, false_eq_true,
    if_false, any_some]
  rfl

theorem legacyMatchPossibility_eq (sets : matcher.ruleSets.isEmpty = false)
    : matcher.legacyMatchPossibility (some router) domain metadata
      = let before := matcher.setsMatchBefore router domain metadata
        if before false || matcher.ruleSetIpCidrMatchSource then .fixed (before false)
        else
          { canMatch := (matcher.destinationPossibility domain).canMatch && before true
              || router.ruleSetsContainDestinationIp matcher.ruleSets
            canMiss := true } := by
  have certain : matcher.setsMatchBefore router domain metadata false
      = router.matchesRuleSets matcher.ruleSets metadata.route
        matcher.ruleSetIpCidrMatchSource matcher.destinationRequired
        (!(matcher.destinationPossibility domain).canMiss) false := by
    -- The code takes the destination condition as met exactly when the domain decides it.
    unfold setsMatchBefore setsMatch Router.matchesRuleSets destinationRequired
      destinationPossibility domainDecides
    cases matcher.domain.isEmpty <;> cases matcher.domain.matchesDomain domain <;>
      cases matcher.legacyAddress.isSome <;> rfl
  have hopeful : matcher.setsMatchBefore router domain metadata true
      = router.matchesRuleSets matcher.ruleSets metadata.route
        matcher.ruleSetIpCidrMatchSource matcher.destinationRequired true false := by
    unfold setsMatchBefore setsMatch
    rw [Bool.or_true]
    rfl
  simp only [legacyMatchPossibility, context, sets, Bool.not_true, false_eq_true, if_false,
    certain, hopeful, Router.ruleSetsLegacyMatchPossibility, destinationRequired]
  split <;> rfl

end

/-- A condition that is met can only help. -/
theorem setsMatchBefore_of_unmet (addressMet : Bool)
    (hm : matcher.setsMatchBefore router domain metadata false)
    : matcher.setsMatchBefore router domain metadata addressMet := by
  refine Router.matchesRuleSets_of_imp ?_ hm
  cases matcher.domainDecides domain
  · exact fun unmet => absurd unmet false_ne_true
  · exact fun _ => rfl

/-- Sets that do not match before the response can match on it only if the code says so. -/
theorem canMatch_of_setsMatch (unmatched : matcher.setsMatchBefore router domain metadata false
      = false) (hm : matcher.setsMatch router domain metadata addresses
      (matcher.acceptsAddresses addresses) matcher.ruleSetIpCidrAcceptEmpty)
    : ((matcher.destinationPossibility domain).canMatch
        && matcher.setsMatchBefore router domain metadata true
        || router.ruleSetsContainDestinationIp matcher.ruleSets) = true := by
  cases reads : router.ruleSetsContainDestinationIp matcher.ruleSets with
  | true => exact or_true _
  | false =>
    rw [setsMatch_eq_before (.inr reads)] at hm
    cases accepts : matcher.acceptsAddresses addresses with
    | false =>
      rw [accepts, unmatched] at hm
      exact absurd hm false_ne_true
    | true =>
      rw [accepts] at hm
      have pending : (matcher.destinationPossibility domain).canMatch := by
        simp only [destinationPossibility, legacyAddress_of_acceptsAddresses accepts]
        split <;> rfl
      rw [pending, hm]
      rfl

/-- Sets that look at the destination and match already match on every response. -/
theorem Upright.setsMatch (upright : matcher.Upright router metadata.route)
    (source : matcher.ruleSetIpCidrMatchSource = false)
    (hm : matcher.setsMatchBefore router domain metadata false) (addresses addressMet)
    : matcher.setsMatch router domain metadata addresses addressMet
      matcher.ruleSetIpCidrAcceptEmpty := by
  cases hk : metadata.route.destinationIp with
  | some _ =>
    rw [setsMatch_eq_before (.inl (.inr (by rw [hk]; rfl)))]
    exact setsMatchBefore_of_unmet _ hm
  | none =>
    cases reads : router.ruleSetsContainDestinationIp matcher.ruleSets with
    | true =>
      obtain ⟨none, upright⟩ := upright.byDestination (by simp [source]) hk reads
      have met := setsMatchBefore_of_unmet addressMet hm
      rw [setsMatchBefore, none] at met
      exact Router.matchesRuleSets_of_upright _ _ _ _ upright met
    | false =>
      rw [setsMatch_eq_before (.inr reads)]
      exact setsMatchBefore_of_unmet _ hm

/-- By cases on what the sets are asked about, the source or the destination. -/
theorem covers_of_upright (context : matcher.matchesQueryContext domain metadata)
    (sets : matcher.ruleSets.isEmpty = false) (upright : matcher.Upright router metadata.route)
    (response)
    : (matcher.legacyMatchPossibility (some router) domain metadata).Covers
      (matcher.legacyMatchesResponse (some router) domain metadata response) := by
  rw [legacyMatchPossibility_eq context sets, legacyMatchesResponse_eq context sets]
  generalize dnsResponseAddresses response = addresses
  cases source : matcher.ruleSetIpCidrMatchSource with
  | true =>
    -- Neither the sets nor the rule look at the addresses.
    rw [setsMatch_eq_before (.inl (.inl source))]
    simp only [acceptsAddresses, upright.bySource source, Bool.or_true, if_true]
    exact covers_fixed _
  | false =>
    simp only [Bool.or_false]
    cases hb : matcher.setsMatchBefore router domain metadata false with
    | true =>
      rw [upright.setsMatch source hb addresses]
      exact covers_fixed true
    | false => exact ⟨canMatch_of_setsMatch hb, fun _ => rfl⟩

/-- Without rule-sets the destination condition of the rule is all that the response can
change.
-/
theorem covers_of_no_ruleSets (context : matcher.matchesQueryContext domain metadata)
    (none : matcher.ruleSets.isEmpty) (router response)
    : (matcher.legacyMatchPossibility router domain metadata).Covers
      (matcher.legacyMatchesResponse router domain metadata response) := by
  simp only [legacyMatchPossibility, legacyMatchesResponse, context, none,
    destinationPossibility, Bool.not_true, false_eq_true, if_false, if_true,
    Bool.true_and]
  cases matcher.legacyAddress with
  | none =>
    cases matcher.domain.isEmpty <;> cases matcher.domain.matchesDomain domain <;>
      exact covers_fixed _
  | some _ =>
    cases !matcher.domain.isEmpty && matcher.domain.matchesDomain domain with
    | true =>
      rw [Bool.true_or, Bool.or_true]
      exact covers_fixed _
    | false => exact covers_unknown _

end QueryMatcher

/-- The rule-set `lan` is the addresses `192.168.0.0/16`, or all others. -/
def lanRouter (invert : Bool) : Router where
  rules := []
  ruleSets := fun tag =>
    if tag = "lan" then
      some { rules := [.default (.ofItems
        { DefaultItems.plain with
          raw := { RawDefaultRule.default with ipCidr := ["192.168.0.0/16"], invert }
          destinationPrefixes := [.v4 { addr := 0xc0a80000, prefixLen := 16 }] } rfl)] }
    else none
  finalOutbound := ""
  clashMode := none

/-- The answers of `local` for clients in `lan`, or in `lan` themselves, where they meet a
condition on their addresses.
-/
def lanRule (ruleSetIpCidrMatchSource : Bool) (legacyAddress : Option AddressMatcher) : DnsRule :=
  .default
    { plain with ruleSets := ["lan"], ruleSetIpCidrMatchSource, legacyAddress }
    false false (.route "local" false .default)

/-- A query of the client `192.168.1.2`. -/
def lanQuery (destinationAddresses : List IpAddr) : QueryMetadata :=
  .forDomain "nas" (some .a)
    (some { Metadata.default with
      source := some (.ip { ip := .v4 0xc0a80102, port := 5353 })
      destinationAddresses })
    none

/-- The condition of a rule on the addresses `10.0.0.0/8`. -/
def privateAnswers : AddressMatcher where
  ipCidrs := [.v4 { addr := 0x0a000000, prefixLen := 8 }]
  ipIsPrivate := false
  ipAcceptAny := false

end Zay.Dns
