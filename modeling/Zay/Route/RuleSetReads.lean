import Zay.Route.Router

/-! What the verdict of a rule-set depends on: it never turns worse when the destination
condition of the referring rule is met, it reads the destination addresses only through an
`ip_cidr` condition, and where no such condition is inverted it never turns worse with addresses.
-/

namespace Zay.Route

open Net DefaultItems List Option Bool HeadlessDefaultRule HeadlessRule RuleMatch BitVec

namespace RuleMatch

/-- The same match with more groups met. -/
def raise (result : RuleMatch) (mask : BitVec 8) : RuleMatch :=
  { result with satisfied := result.satisfied ||| mask }

variable {result other : RuleMatch} {mask : BitVec 8}

/-- A group that is met can only help. -/
theorem done_raise (done : result.done) (mask : BitVec 8) : (result.raise mask).done := by
  simp only [RuleMatch.done, and_eq_true, decide_eq_true_eq] at done ⊢
  refine ⟨done.1, ?_⟩
  rw [raise, BitVec.not_or, ← BitVec.and_assoc, done.2, ofNat_eq_ofNat, zero_and]

theorem merge_raise_left : (result.raise mask).merge other = (result.merge other).raise mask := by
  simp [merge, raise, BitVec.or_assoc, or_comm mask]

theorem merge_raise_right : result.merge (other.raise mask) = (result.merge other).raise mask := by
  simp [merge, raise, BitVec.or_assoc]

theorem group_raise (own : BitVec 8) (required satisfied : Bool)
    : (result.raise mask).group own required satisfied
      = (result.group own required satisfied).raise mask := by
  cases required <;> cases satisfied <;>
    simp [group, raise, BitVec.or_assoc, or_comm mask]

/-- A group that is met where it was not before. -/
theorem group_of_imp {weak strong : Bool} (imp : weak → strong) (required : Bool) (own : BitVec 8)
    : ∃ mask, result.group own required strong = (result.group own required weak).raise mask := by
  refine ⟨if required && strong then own else 0, ?_⟩
  cases required <;> cases weak <;> cases strong <;> simp_all [group, raise, BitVec.or_assoc]

end RuleMatch

variable {weak strong ipCidrMatchSource ipCidrAcceptEmpty : Bool} {metadata : Metadata}
  {router : Router} {tags : List String}

theorem destinationOuter_of_imp (imp : weak → strong) (required : Bool)
    : ∃ mask, destinationOuter required strong = (destinationOuter required weak).raise mask := by
  refine ⟨if required && strong then matchDestinationAddress else 0, ?_⟩
  revert weak strong required
  decide

theorem RuleSet.matchesWithOuter_raise {set : RuleSet} {outer}
    (hm : set.matchesWithOuter metadata outer ipCidrMatchSource ipCidrAcceptEmpty) (mask : BitVec 8)
    : set.matchesWithOuter metadata (outer.raise mask) ipCidrMatchSource
      ipCidrAcceptEmpty := by
  have ha : ∀ rest : Bool, (outer.done && rest) → ((outer.raise mask).done && rest) := by
    intro rest
    simp only [and_eq_true]
    exact And.imp_left fun done => done_raise done mask
  simp only [RuleSet.matchesWithOuter] at hm ⊢
  split at hm
  · split at hm
    · rw [if_pos ‹_›, merge_raise_left]
      exact done_raise hm mask
    rw [if_neg ‹_›]
    exact ha _ hm
  · exact ha _ hm

/-- Sets that match while the destination condition of the rule is open match whatever
becomes of it.
-/
theorem Router.matchesRuleSets_of_imp {required} (imp : weak → strong)
    (hm : router.matchesRuleSets tags metadata ipCidrMatchSource required weak
      ipCidrAcceptEmpty)
    : router.matchesRuleSets tags metadata ipCidrMatchSource required strong
      ipCidrAcceptEmpty := by
  obtain ⟨mask, raised⟩ := destinationOuter_of_imp imp required
  simp only [Router.matchesRuleSets, raised, List.any_eq_true, Option.any_eq_true] at hm ⊢
  obtain ⟨tag, hl, set, hf, hm⟩ := hm
  exact ⟨tag, hl, set, hf, RuleSet.matchesWithOuter_raise hm mask⟩

/-- The address condition is on the source, or the destination is an address itself. -/
def AddressesFixed (metadata : Metadata) (ipCidrMatchSource : Bool) : Prop :=
  ipCidrMatchSource = true ∨ metadata.destinationIp.isSome

theorem DefaultItems.evaluate_withAddresses {items : DefaultItems}
    (unread : AddressesFixed metadata ipCidrMatchSource ∨ items.hasDestinationIp = false)
    (addresses left right)
    : items.evaluate (metadata.withAddresses addresses) ipCidrMatchSource left
      = items.evaluate metadata ipCidrMatchSource right := by
  have he : items.satisfiesDestinationAddress (metadata.withAddresses addresses)
      ipCidrMatchSource left
      = items.satisfiesDestinationAddress metadata ipCidrMatchSource right := by
    have name : (metadata.withAddresses addresses).domainName = metadata.domainName := rfl
    have ip : (metadata.withAddresses addresses).destinationIp = metadata.destinationIp := rfl
    unfold satisfiesDestinationAddress
    rw [name]
    rcases unread with (source | hk) | plain
    · simp [source]
    · obtain ⟨_, hk⟩ := isSome_iff_exists.mp hk
      simp [matchesDestinationIpAddress, ip, hk]
    · simp [plain]
  simp only [evaluate, he]
  rfl

theorem HeadlessDefaultRule.evaluate_withAddresses {rule : HeadlessDefaultRule}
    (unread : AddressesFixed metadata ipCidrMatchSource ∨ rule.base.raw.ipCidr.isEmpty)
    (addresses left right)
    : rule.evaluate (metadata.withAddresses addresses) ipCidrMatchSource left
      = rule.evaluate metadata ipCidrMatchSource right := by
  have base : rule.base.evaluate (metadata.withAddresses addresses) ipCidrMatchSource left
      = rule.base.evaluate metadata ipCidrMatchSource right := by
    apply DefaultItems.evaluate_withAddresses
    rcases unread with fixed | plain
    · exact .inl fixed
    · exact .inr (by simp [hasDestinationIp, plain, rule.notPrivate])
  simp only [evaluate, base]
  rfl

/-- Sets give the same verdict twice if all default rules in them are evaluated alike. -/
theorem Router.matchesRuleSets_congr {before after : Metadata} {left right}
    (he : ∀ tag ∈ tags, ∀ set, router.ruleSets tag = some set →
      ∀ leaf ∈ allDefaults set.rules,
        leaf.evaluate before ipCidrMatchSource left = leaf.evaluate after ipCidrMatchSource right)
    (required satisfied)
    : router.matchesRuleSets tags before ipCidrMatchSource required satisfied left
      = router.matchesRuleSets tags after ipCidrMatchSource required satisfied right := by
  rw [Bool.eq_iff_iff]
  simp only [Router.matchesRuleSets, List.any_eq_true, Option.any_eq_true]
  refine exists_congr fun tag => and_congr_right fun hl =>
    exists_congr fun set => and_congr_right fun hf => ?_
  rw [RuleSet.matchesWithOuter_congr (he tag hl set hf)]

/-- Sets whose address conditions are out of reach of the response give the same verdict
before it and after it.
-/
theorem Router.matchesRuleSets_withAddresses (unread : AddressesFixed metadata ipCidrMatchSource
      ∨ router.ruleSetsContainDestinationIp tags = false) (required satisfied addresses left right)
    : router.matchesRuleSets tags (metadata.withAddresses addresses) ipCidrMatchSource
        required satisfied left
      = router.matchesRuleSets tags metadata ipCidrMatchSource required satisfied right := by
  refine Router.matchesRuleSets_congr (fun tag hl set hf leaf hw => ?_) required satisfied
  apply HeadlessDefaultRule.evaluate_withAddresses
  rcases unread with fixed | plain
  · exact .inl fixed
  have plain := any_eq_false.mp plain tag hl
  rw [hf, any_some, not_eq_true, containsIpCidrRule] at plain
  exact .inr (by simpa using any_eq_false.mp plain leaf hw)

namespace HeadlessRule

mutual

/-- No `ip_cidr` condition stands below an odd number of inversions, one of them outside the
rule when `inverted`.
-/
def upright (inverted : Bool) : HeadlessRule → Bool
  | .default rule => rule.base.raw.ipCidr.isEmpty || rule.base.raw.invert == inverted
  | .logical _ rules invert => allUpright (invert != inverted) rules

def allUpright (inverted : Bool) : List HeadlessRule → Bool
  | [] => true
  | rule :: rules => upright inverted rule && allUpright inverted rules

end

end HeadlessRule

/-- The sets that tags refer to have upright address conditions only. -/
def Router.ruleSetsUpright (router : Router) (tags : List String) : Bool :=
  tags.all fun tag =>
    (router.ruleSets tag).all fun set => allUpright false set.rules

section Upright

variable (metadata : Metadata) (ipCidrMatchSource : Bool) (addresses : List IpAddr)
  (ipCidrAcceptEmpty : Bool)

/-- Addresses can only meet more conditions than none do. -/
theorem DefaultItems.evaluate_addresses (items : DefaultItems)
    : ∃ mask, items.evaluate (metadata.withAddresses addresses) ipCidrMatchSource
        ipCidrAcceptEmpty
      = (items.evaluate (metadata.withAddresses []) ipCidrMatchSource false).raise mask := by
  have more : items.satisfiesDestinationAddress (metadata.withAddresses []) ipCidrMatchSource
      false
      → items.satisfiesDestinationAddress (metadata.withAddresses addresses)
        ipCidrMatchSource ipCidrAcceptEmpty := by
    have name : (metadata.withAddresses addresses).domainName
        = (metadata.withAddresses []).domainName := rfl
    have ip : ∀ other, (metadata.withAddresses other).destinationIp
        = metadata.destinationIp := fun _ => rfl
    simp only [satisfiesDestinationAddress, name, or_eq_true, and_eq_true,
      matchesDestinationIpAddress, ip]
    cases metadata.destinationIp with
    | some address => exact Or.imp_right fun met => ⟨met.1, .inl (by simpa using met.2)⟩
    | none => exact Or.imp_right fun met => by simp [Metadata.withAddresses] at met
  obtain ⟨mask, raised⟩ := group_of_imp more
    (items.requiresDestinationAddress ipCidrMatchSource) matchDestinationAddress
  refine ⟨mask, ?_⟩
  simp only [evaluate]
  rw [← group_raise, ← raised]
  rfl

/-- Addresses can only raise bits of the result. -/
theorem HeadlessDefaultRule.evaluate_addresses (rule : HeadlessDefaultRule)
    : ∃ mask, rule.evaluate (metadata.withAddresses addresses) ipCidrMatchSource
        ipCidrAcceptEmpty
      = (rule.evaluate (metadata.withAddresses []) ipCidrMatchSource false).raise mask := by
  obtain ⟨mask, raised⟩ := rule.base.evaluate_addresses metadata ipCidrMatchSource addresses
    ipCidrAcceptEmpty
  refine ⟨mask, ?_⟩
  have ordinary : ∀ (result : RuleMatch) (value : Bool),
      { result.raise mask with ordinary := value }
        = { result with ordinary := value }.raise mask := fun _ _ => rfl
  simp only [evaluate, raised, ordinary]
  cases rule.compactDomain <;> cases rule.compactAdguard <;>
    simp only [group_raise] <;> rfl

namespace HeadlessRule

theorem matchesDefault_of_upright {inverted} (rule : HeadlessDefaultRule)
    (upright : (default rule).upright inverted)
    (hm : rule.matchesMetadata (metadata.withAddresses []) ipCidrMatchSource false != inverted)
    : rule.matchesMetadata (metadata.withAddresses addresses) ipCidrMatchSource
      ipCidrAcceptEmpty != inverted := by
  simp only [HeadlessRule.upright, or_eq_true, beq_iff_eq] at upright
  simp only [HeadlessDefaultRule.matchesMetadata] at hm ⊢
  rcases upright with plain | same
  · rw [evaluate_withAddresses (.inr plain) [] false false] at hm
    rwa [evaluate_withAddresses (.inr plain) addresses _ false]
  · obtain ⟨mask, raised⟩ := rule.evaluate_addresses metadata ipCidrMatchSource addresses
      ipCidrAcceptEmpty
    have done : (rule.evaluate (metadata.withAddresses []) ipCidrMatchSource false).done := by
      simpa [same] using hm
    rw [raised]
    simp [same, done_raise done mask]

mutual

/-- A rule whose address conditions are upright keeps a match that it makes on no address; what
an inversion outside it turns around, it turns around twice.
-/
theorem matchesMetadata_of_upright (rule : HeadlessRule) (inverted : Bool)
    (upright : rule.upright inverted)
    : rule.matchesMetadata (metadata.withAddresses []) ipCidrMatchSource false != inverted
      → rule.matchesMetadata (metadata.withAddresses addresses) ipCidrMatchSource
        ipCidrAcceptEmpty != inverted := by
  match rule with
  | .default rule =>
    exact matchesDefault_of_upright metadata ipCidrMatchSource addresses ipCidrAcceptEmpty
      rule upright
  | .logical mode rules invert =>
    have nested := matchesNested_of_upright rules (invert != inverted) upright
    cases mode <;> rw [matchesMetadata, matchesMetadata, bne_assoc, bne_assoc]
    · exact nested.1
    · exact nested.2

theorem matchesNested_of_upright (rules : List HeadlessRule) (inverted : Bool)
    (upright : allUpright inverted rules)
    : (matchesAll (metadata.withAddresses []) ipCidrMatchSource false rules != inverted
        → matchesAll (metadata.withAddresses addresses) ipCidrMatchSource ipCidrAcceptEmpty
          rules != inverted)
      ∧ (matchesAny (metadata.withAddresses []) ipCidrMatchSource false rules != inverted
        → matchesAny (metadata.withAddresses addresses) ipCidrMatchSource ipCidrAcceptEmpty
          rules != inverted) := by
  match rules with
  | [] => exact ⟨id, id⟩
  | rule :: rules =>
    rw [allUpright, and_eq_true] at upright
    have head := matchesMetadata_of_upright rule inverted upright.1
    obtain ⟨all, any⟩ := matchesNested_of_upright rules inverted upright.2
    simp only [matchesAll, matchesAny]
    cases inverted <;> grind

end

end HeadlessRule

theorem RuleSet.matchesWithOuter_of_upright {set : RuleSet} {outer : RuleMatch}
    (upright : allUpright false set.rules)
    (hm : set.matchesWithOuter (metadata.withAddresses []) outer ipCidrMatchSource false)
    : set.matchesWithOuter (metadata.withAddresses addresses) outer ipCidrMatchSource
      ipCidrAcceptEmpty := by
  have kept := (matchesNested_of_upright metadata ipCidrMatchSource addresses
    ipCidrAcceptEmpty set.rules false upright).2
  simp only [matchesAny_eq, bne_false] at kept
  simp only [RuleSet.matchesWithOuter] at hm ⊢
  split at hm
  next rule single =>
    split at hm
    · obtain ⟨mask, raised⟩ := rule.evaluate_addresses metadata ipCidrMatchSource addresses
        ipCidrAcceptEmpty
      rw [if_pos ‹_›, raised, merge_raise_right]
      exact done_raise hm mask
    · rw [if_neg ‹_›]
      exact and_eq_true_iff.mpr ((and_eq_true_iff.mp hm).imp_right kept)
  · exact and_eq_true_iff.mpr ((and_eq_true_iff.mp hm).imp_right kept)

/-- Upright sets that match on no address match on all addresses. -/
theorem Router.matchesRuleSets_of_upright {required satisfied : Bool}
    (upright : router.ruleSetsUpright tags)
    (hm : router.matchesRuleSets tags (metadata.withAddresses []) ipCidrMatchSource
      required satisfied false)
    : router.matchesRuleSets tags (metadata.withAddresses addresses) ipCidrMatchSource
      required satisfied ipCidrAcceptEmpty := by
  simp only [Router.matchesRuleSets, List.any_eq_true, Option.any_eq_true] at hm ⊢
  obtain ⟨tag, hl, set, hf, hm⟩ := hm
  have upright := all_eq_true.mp upright tag hl
  rw [hf] at upright
  exact ⟨tag, hl, set, hf, RuleSet.matchesWithOuter_of_upright _ _ _ _ upright hm⟩

end Upright

end Zay.Route
