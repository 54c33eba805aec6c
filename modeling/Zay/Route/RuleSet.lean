import Zay.Route.DefaultItems
import Zay.Route.SuccinctSet

/-! Rule-sets: headless rules and how a rule that refers to a set is matched with it. -/

namespace Zay.Route

open Net List

inductive LogicalMode where
  | and
  | or
  deriving Repr, DecidableEq

/-- A headless rule has no condition on private destinations: `ip_is_private` is none of its
fields.
-/
structure HeadlessDefaultRule where
  queryType : List UInt16
  base : DefaultItems
  notPrivate : base.raw.ipIsPrivate = false
  networkInterfacePrefixes : List (String × List IpNet)
  defaultInterfacePrefixes : List IpNet
  adguardRegex : List Regex
  compactDomain : Option SuccinctSet
  compactAdguard : Option SuccinctSet

namespace HeadlessDefaultRule

/-- A rule with the conditions of a default rule only. -/
def ofItems (base : DefaultItems) (notPrivate : base.raw.ipIsPrivate = false)
    : HeadlessDefaultRule where
  queryType := []
  base
  notPrivate
  networkInterfacePrefixes := []
  defaultInterfacePrefixes := []
  adguardRegex := []
  compactDomain := none
  compactAdguard := none

def evaluate (rule : HeadlessDefaultRule) (metadata : Metadata)
    (ipCidrMatchSource ipCidrAcceptEmpty : Bool)
    : RuleMatch :=
  let evaluated := rule.base.evaluate metadata ipCidrMatchSource ipCidrAcceptEmpty
  let evaluated := { evaluated with
    ordinary := evaluated.ordinary
      && matchesOptional rule.queryType metadata.queryType
      && matchesInterfacePrefixes rule.networkInterfacePrefixes
        metadata.networkInterfaceAddress
      && matchesAnyPrefix rule.defaultInterfacePrefixes metadata.defaultInterfaceAddress }
  let evaluated := evaluated.group matchDestinationAddress (!rule.adguardRegex.isEmpty)
    (metadata.domainName.any fun domain => rule.adguardRegex.any (· domain))
  let evaluated :=
    match rule.compactDomain with
    | some matcher => evaluated.group matchDestinationAddress true
        (metadata.domainName.any fun domain =>
          matcher.matchesDomain (toAsciiLowercase (trimEndMatches domain '.')))
    | none => evaluated
  match rule.compactAdguard with
  | some matcher => evaluated.group matchDestinationAddress true
      (metadata.domainName.any fun domain =>
        matcher.matchesAdguard (toAsciiLowercase (trimEndMatches domain '.')))
  | none => evaluated

def matchesMetadata (rule : HeadlessDefaultRule) (metadata : Metadata)
    (ipCidrMatchSource ipCidrAcceptEmpty : Bool)
    : Bool :=
  (rule.evaluate metadata ipCidrMatchSource ipCidrAcceptEmpty).done != rule.base.raw.invert

end HeadlessDefaultRule

inductive HeadlessRule where
  | default (rule : HeadlessDefaultRule)
  | logical (mode : LogicalMode) (rules : List HeadlessRule) (invert : Bool)

namespace HeadlessRule

mutual

/-- `matches_with_ip_source_accept_empty`. -/
def matchesMetadata (metadata : Metadata) (ipCidrMatchSource ipCidrAcceptEmpty : Bool)
    : HeadlessRule → Bool
  | .default rule => rule.matchesMetadata metadata ipCidrMatchSource ipCidrAcceptEmpty
  | .logical .and rules invert =>
    matchesAll metadata ipCidrMatchSource ipCidrAcceptEmpty rules != invert
  | .logical .or rules invert =>
    matchesAny metadata ipCidrMatchSource ipCidrAcceptEmpty rules != invert

def matchesAll (metadata : Metadata) (ipCidrMatchSource ipCidrAcceptEmpty : Bool)
    : List HeadlessRule → Bool
  | [] => true
  | rule :: rules =>
    matchesMetadata metadata ipCidrMatchSource ipCidrAcceptEmpty rule
      && matchesAll metadata ipCidrMatchSource ipCidrAcceptEmpty rules

def matchesAny (metadata : Metadata) (ipCidrMatchSource ipCidrAcceptEmpty : Bool)
    : List HeadlessRule → Bool
  | [] => false
  | rule :: rules =>
    matchesMetadata metadata ipCidrMatchSource ipCidrAcceptEmpty rule
      || matchesAny metadata ipCidrMatchSource ipCidrAcceptEmpty rules

end

mutual

/-- The default rules in a rule, from left to right. -/
def defaults : HeadlessRule → List HeadlessDefaultRule
  | .default rule => [rule]
  | .logical _ rules _ => allDefaults rules

def allDefaults : List HeadlessRule → List HeadlessDefaultRule
  | [] => []
  | rule :: rules => defaults rule ++ allDefaults rules

end

/-- The `contains_ip_cidr_rule` of `accumulate_metadata`. -/
def containsIpCidrRule (rules : List HeadlessRule) : Bool :=
  (allDefaults rules).any fun rule => !rule.base.raw.ipCidr.isEmpty

/-- The `contains_dns_query_type_rule` of `accumulate_metadata`. -/
def containsDnsQueryTypeRule (rules : List HeadlessRule) : Bool :=
  (allDefaults rules).any fun rule => !rule.queryType.isEmpty

theorem matchesAny_eq (metadata ipCidrMatchSource ipCidrAcceptEmpty rules)
    : matchesAny metadata ipCidrMatchSource ipCidrAcceptEmpty rules
      = rules.any (matchesMetadata metadata ipCidrMatchSource ipCidrAcceptEmpty) := by
  induction rules with
  | nil => rfl
  | cons _ rules ih => rw [matchesAny, ih, any_cons]

variable {left right : Metadata} {ipCidrMatchSource leftEmpty rightEmpty : Bool}

mutual

/-- A rule gives the same verdict twice if all default rules in it are evaluated alike. -/
theorem matchesMetadata_congr (rule : HeadlessRule)
    (he : ∀ leaf ∈ rule.defaults, leaf.evaluate left ipCidrMatchSource leftEmpty
      = leaf.evaluate right ipCidrMatchSource rightEmpty)
    : rule.matchesMetadata left ipCidrMatchSource leftEmpty
      = rule.matchesMetadata right ipCidrMatchSource rightEmpty := by
  match rule with
  | .default rule =>
    simp [matchesMetadata, HeadlessDefaultRule.matchesMetadata, he rule (mem_singleton_self rule)]
  | .logical .and rules invert =>
    rw [matchesMetadata, matchesMetadata, (matchesNested_congr rules he).1]
  | .logical .or rules invert =>
    rw [matchesMetadata, matchesMetadata, (matchesNested_congr rules he).2]

theorem matchesNested_congr (rules)
    (he : ∀ leaf ∈ allDefaults rules, leaf.evaluate left ipCidrMatchSource leftEmpty
      = leaf.evaluate right ipCidrMatchSource rightEmpty)
    : matchesAll left ipCidrMatchSource leftEmpty rules
        = matchesAll right ipCidrMatchSource rightEmpty rules
      ∧ matchesAny left ipCidrMatchSource leftEmpty rules
        = matchesAny right ipCidrMatchSource rightEmpty rules := by
  match rules with
  | [] => exact ⟨rfl, rfl⟩
  | rule :: rules =>
    simp only [allDefaults, mem_append] at he
    have head := matchesMetadata_congr rule fun leaf hl => he leaf (.inl hl)
    have tail := matchesNested_congr rules fun leaf hl => he leaf (.inr hl)
    simp [matchesAll, matchesAny, head, tail]

end

end HeadlessRule

/-- The snapshot a `RuleSet` holds. -/
structure RuleSet where
  rules : List HeadlessRule

namespace RuleSet

/-- `matches_with_outer_accept_empty`: a set of one plain rule is merged with the groups of
the rule that refers to it; any other set is a condition of its own.
-/
def matchesWithOuter (set : RuleSet) (metadata : Metadata) (outer : RuleMatch)
    (ipCidrMatchSource ipCidrAcceptEmpty : Bool)
    : Bool :=
  let apart :=
    outer.done
      && set.rules.any
        (HeadlessRule.matchesMetadata metadata ipCidrMatchSource ipCidrAcceptEmpty)
  match set.rules with
  | [.default rule] =>
    if !rule.base.raw.invert then
      (outer.merge (rule.evaluate metadata ipCidrMatchSource ipCidrAcceptEmpty)).done
    else apart
  | _ => apart

theorem matchesWithOuter_congr {set : RuleSet} {left right ipCidrMatchSource leftEmpty rightEmpty}
    (he : ∀ leaf ∈ HeadlessRule.allDefaults set.rules,
      leaf.evaluate left ipCidrMatchSource leftEmpty
        = leaf.evaluate right ipCidrMatchSource rightEmpty) (outer)
    : set.matchesWithOuter left outer ipCidrMatchSource leftEmpty
      = set.matchesWithOuter right outer ipCidrMatchSource rightEmpty := by
  have any := (HeadlessRule.matchesNested_congr set.rules he).2
  rw [HeadlessRule.matchesAny_eq, HeadlessRule.matchesAny_eq] at any
  simp only [matchesWithOuter, any]
  split
  next rule single =>
    rw [he rule (by simp [single, HeadlessRule.allDefaults, HeadlessRule.defaults])]
  · rfl

end RuleSet

end Zay.Route
