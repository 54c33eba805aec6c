import Mathlib.Data.Prod.Lex
import Zay.Lib.GreedyPath
import Zay.Tailscale.AuthorityStore

/-! The walk to the active head is a greedy path: the fork rules rank the children of an update
by a linear order.
-/

namespace Zay.Tailscale

open Lib TailscaleTkaAuthority List Option

variable {crypto : TkaPrimitives} {aums all : AumStore}

abbrev ForkRank := Natᵒᵈ ×ₗ Boolᵒᵈ ×ₗ TailscaleAumHash

/-- More votes come first, then removals, then lower hashes. -/
def forkRank (state : TailscaleTkaAuthorityState) (candidate : StoredAum) : ForkRank :=
  toLex (OrderDual.toDual (signatureWeight state candidate.2),
    toLex (OrderDual.toDual (decide (candidate.2.kind = kindRemoveKey)), candidate.1))

theorem compare_then_ne_gt_iff {α : Type} [LinearOrder α] {left right : α} {next}
    : (compare left right).then next ≠ .gt ↔ left < right ∨ left = right ∧ next ≠ .gt := by
  rcases lt_trichotomy left right with less | he | greater
  · simp [compare_lt_iff_lt.mpr less, less]
  · simp [he]
  · simp [compare_gt_iff_gt.mpr greater, greater.ne', greater.le]

variable {state : TailscaleTkaAuthorityState} {hash : TailscaleAumHash} {left : StoredAum}
  {cursor : TailscaleAumHash} {aum : TailscaleAum}

theorem compareForkCandidates_ne_gt_iff {right}
    : compareForkCandidates state left right ≠ .gt
      ↔ forkRank state left ≤ forkRank state right := by
  simp only [forkRank, Prod.Lex.toLex_le_toLex, OrderDual.toDual_lt_toDual, OrderDual.toDual_inj]
  rw [compareForkCandidates, compare_then_ne_gt_iff, compare_then_ne_gt_iff]
  rw [Ne, compare_gt_iff_gt, not_lt, @eq_comm _ (signatureWeight state left.2),
    @eq_comm _ (decide (left.2.kind = kindRemoveKey))]

instance instTotalForkOrder (state : TailscaleTkaAuthorityState)
    : Std.Total fun left right => compareForkCandidates state left right ≠ .gt where
  total left right := by
    rw [compareForkCandidates_ne_gt_iff, compareForkCandidates_ne_gt_iff]
    exact le_total _ _

instance instTransForkOrder (state : TailscaleTkaAuthorityState)
    : IsTrans StoredAum fun left right => compareForkCandidates state left right ≠ .gt where
  trans one two three := by
    rw [compareForkCandidates_ne_gt_iff, compareForkCandidates_ne_gt_iff,
      compareForkCandidates_ne_gt_iff]
    exact le_trans

/-- The preferred child has the least rank. -/
theorem preferredChild_least {child other} (hp : preferredChild aums state cursor = some child)
    (stored : aums.get? other.1 = some other.2) (previous : other.2.previous = some cursor)
    : forkRank state child ≤ forkRank state other := by
  have hs := pairwise_insertionSort
    (fun left right => compareForkCandidates state left right ≠ .gt) (childrenOf aums cursor)
  obtain ⟨rest, form⟩ := head?_eq_some_iff.mp hp
  have hm : other ∈ child :: rest := by
    rw [← form, mem_insertionSort]
    exact mem_childrenOf.mpr ⟨stored, previous⟩
  rw [form] at hs
  rcases mem_cons.mp hm with rfl | hr
  · exact le_refl _
  · exact compareForkCandidates_ne_gt_iff.mp ((pairwise_cons.mp hs).1 other hr)

/-- The hashes of the stored updates. -/
def stored (aums : AumStore) : Set TailscaleAumHash := {hash | ∃ aum, aums.get? hash = some aum}

def parentIn (aums : AumStore) (hash : TailscaleAumHash) : Option TailscaleAumHash :=
  (aums.get? hash).bind (·.previous)

instance instInhabitedState : Inhabited TailscaleTkaAuthorityState := ⟨emptyState⟩

noncomputable def stateIn (primitives : TkaPrimitives) (aums : AumStore)
    (hash : TailscaleAumHash) : TailscaleTkaAuthorityState :=
  Classical.epsilon (HasState primitives aums hash)

/-- The rank of an update among the children of its parent. -/
noncomputable def rankIn (primitives : TkaPrimitives) (aums : AumStore)
    (hash : TailscaleAumHash) : ForkRank :=
  forkRank (stateIn primitives aums ((parentIn aums hash).getD hash))
    (hash, (aums.get? hash).getD emptyAum)

theorem rankIn_injective : Function.Injective (rankIn crypto aums) :=
  fun _ _ he => congrArg (fun rank => (ofLex (ofLex rank).2).2) he

theorem HasState.stateIn_eq (hk : HasState crypto aums hash state)
    : stateIn crypto aums hash = state :=
  HasState.unique (Classical.epsilon_spec ⟨state, hk⟩) hk

theorem parentIn_of_stored (hf : aums.get? hash = some aum)
    : parentIn aums hash = aum.previous := by
  rw [parentIn, hf, bind_some]

theorem rankIn_eq (hk : HasState crypto aums cursor state)
    (hf : aums.get? hash = some aum) (previous : aum.previous = some cursor)
    : rankIn crypto aums hash = forkRank state (hash, aum) := by
  rw [rankIn, parentIn_of_stored hf, previous, getD_some, hf, getD_some, hk.stateIn_eq]

section Walk

variable {head : TailscaleAumHash} {final : TailscaleTkaAuthorityState}
  {passed : List TailscaleAumHash}

variable (hl : Extends all aums)

include hl

theorem isBest_of_preferredChild (hk : HasState crypto all cursor state)
    (hr : preferredChild aums state cursor = some (hash, aum))
    : IsBest (parentIn all) (rankIn crypto all) (stored aums) cursor hash := by
  obtain ⟨hf, previous⟩ := preferredChild_stored hr
  refine ⟨⟨aum, hf⟩, (parentIn_of_stored (hl hf)).trans previous, ?_⟩
  rintro other ⟨value, hp⟩ hb
  rw [parentIn_of_stored (hl hp)] at hb
  rw [rankIn_eq hk (hl hf) previous, rankIn_eq hk (hl hp) hb]
  exact preferredChild_least hr hp hb

theorem preferredChild_of_isBest (hk : HasState crypto all cursor state)
    (best : IsBest (parentIn all) (rankIn crypto all) (stored aums) cursor hash)
    : ∃ aum, preferredChild aums state cursor = some (hash, aum) := by
  obtain ⟨value, hp⟩ := best.member
  have hb := best.below
  rw [parentIn_of_stored (hl hp)] at hb
  cases hr : preferredChild aums state cursor with
  | none => exact absurd hb (preferredChild_eq_none_iff.mp hr hash value hp)
  | some child =>
    obtain ⟨_, aum⟩ := child
    have chosenBest := isBest_of_preferredChild hl hk hr
    obtain rfl := chosenBest.unique rankIn_injective best
    exact ⟨aum, rfl⟩

/-- The walk over a store is a greedy path, and its state is that of the update it reached. -/
theorem Active.greedy (active : Active crypto aums cursor state passed head final)
    (hk : HasState crypto aums cursor state)
    : Greedy (parentIn all) (rankIn crypto all) (stored aums) cursor passed
      ∧ head = (cursor :: passed).getLast (cons_ne_nil _ _)
      ∧ HasState crypto aums head final := by
  induction active with
  | leaf childless =>
    refine ⟨.leaf ?_, rfl, hk⟩
    rintro child ⟨aum, hf⟩ hb
    rw [parentIn_of_stored (hl hf)] at hb
    exact preferredChild_eq_none_iff.mp childless child aum hf hb
  | step hp ha _ ih =>
    obtain ⟨hf, previous⟩ := preferredChild_stored hp
    obtain ⟨greedy, last, reached⟩ := ih (hk.step hf previous ha)
    refine ⟨.step (isBest_of_preferredChild hl (hk.of_extends hl) hp) greedy, ?_, reached⟩
    rw [last, getLast_cons (cons_ne_nil _ _)]

/-- Every greedy path over a well-formed store is walked. -/
theorem active_of_greedy {oldest} (hv : StoreValid crypto aums oldest)
    (greedy : Greedy (parentIn all) (rankIn crypto all) (stored aums) cursor passed)
    (hk : HasState crypto aums cursor state)
    : ∃ final, Active crypto aums cursor state passed
      ((cursor :: passed).getLast (cons_ne_nil _ _)) final := by
  induction greedy generalizing state with
  | leaf childless =>
    refine ⟨state, .leaf (preferredChild_eq_none_iff.mpr fun hash aum hf hb => ?_)⟩
    rw [← parentIn_of_stored (hl hf)] at hb
    exact childless hash ⟨aum, hf⟩ hb
  | @step cursor child rest best onward ih =>
    obtain ⟨aum, hp⟩ := preferredChild_of_isBest hl (hk.of_extends hl) best
    obtain ⟨hf, previous⟩ := preferredChild_stored hp
    obtain ⟨_, verified⟩ := hv.verifiedAgainst_of_hasState hf previous hk
    obtain ⟨final, active⟩ := ih (hk.step hf previous verified.applies)
    rw [getLast_cons (cons_ne_nil _ _)]
    exact ⟨final, .step hp verified.applies active⟩

end Walk

end Zay.Tailscale
