import Mathlib.Data.List.Chain
import Mathlib.Data.Set.Basic

/-! Greedy paths in a forest. From every node the path goes on to the child of least rank. Two
sets of nodes that take over each other's path from one node get the same path, although
neither takes over the other set.
-/

namespace Zay.Lib

open List

variable {N R : Type} [LinearOrder R] {parent : N → Option N} {rank : N → R}

/-- The child that a greedy path through `nodes` goes on to. -/
structure IsBest (parent : N → Option N) (rank : N → R) (nodes : Set N) (node child : N)
    : Prop where
  member : child ∈ nodes
  below : parent child = some node
  least : ∀ other ∈ nodes, parent other = some node → rank child ≤ rank other

inductive Greedy (parent : N → Option N) (rank : N → R) (nodes : Set N) : N → List N → Prop
  | leaf {node} (childless : ∀ child ∈ nodes, parent child ≠ some node)
    : Greedy parent rank nodes node []
  | step {node child rest} (best : IsBest parent rank nodes node child)
    (onward : Greedy parent rank nodes child rest)
    : Greedy parent rank nodes node (child :: rest)

/-- A set that contains the parents of its nodes. -/
def ParentClosed (parent : N → Option N) (nodes : Set N) : Prop :=
  ∀ node ∈ nodes, ∀ above, parent node = some above → above ∈ nodes

variable {nodes first second : Set N} {node child : N} {path left right : List N}

theorem IsBest.unique (ranked : Function.Injective rank) {other}
    (one : IsBest parent rank nodes node child) (two : IsBest parent rank nodes node other)
    : child = other :=
  ranked (le_antisymm (one.least other two.member two.below) (two.least child one.member one.below))

theorem IsBest.union (best : IsBest parent rank first node child)
    (others : ∀ other ∈ second, parent other = some node → rank child ≤ rank other)
    : IsBest parent rank (first ∪ second) node child := by
  refine ⟨.inl best.member, best.below, fun other hm hb => ?_⟩
  rcases hm with hm | hm
  · exact best.least other hm hb
  · exact others other hm hb

/-- Fewer nodes have the same path, if its nodes are among them. -/
theorem Greedy.restrict (smaller : second ⊆ first) (greedy : Greedy parent rank first node path)
    (hi : ∀ member ∈ path, member ∈ second)
    : Greedy parent rank second node path := by
  induction greedy with
  | leaf childless => exact .leaf fun child member => childless child (smaller member)
  | step best _ ih =>
    obtain ⟨here, hr⟩ := forall_mem_cons.mp hi
    refine .step ⟨here, best.below, fun other member => ?_⟩ (ih hr)
    exact best.least other (smaller member)

namespace Greedy

variable (greedy : Greedy parent rank nodes node path)
include greedy

theorem mem : ∀ member ∈ path, member ∈ nodes := by
  induction greedy with
  | leaf => simp
  | step best _ ih => exact forall_mem_cons.mpr ⟨best.member, ih⟩

theorem isChain : (node :: path).IsChain fun above hb => parent hb = some above := by
  induction greedy with
  | leaf => exact .singleton _
  | step best _ ih => exact .cons_cons best.below ih

/-- Two forests with the same links between the nodes have the same paths. -/
theorem congr (other : N → Option N)
    (he : ∀ above ∈ nodes, ∀ below ∈ nodes, other below = some above ↔ parent below = some above)
    (hi : node ∈ nodes)
    : Greedy other rank nodes node path := by
  induction greedy with
  | leaf childless =>
    exact .leaf fun child hm link => childless child hm ((he _ hi _ hm).mp link)
  | step best _ ih =>
    refine .step ⟨best.member, (he _ hi _ best.member).mpr best.below, ?_⟩ (ih best.member)
    exact fun sibling hm link => best.least sibling hm ((he _ hi _ hm).mp link)

/-- The part of a path below one of its nodes. -/
theorem drop {front back} (form : node :: path = front ++ child :: back)
    : Greedy parent rank nodes child back := by
  induction greedy generalizing front with
  | leaf childless =>
    cases front with
    | nil =>
      obtain ⟨rfl, rfl⟩ := cons.inj form
      exact .leaf childless
    | cons first front => simp at form
  | step best onward ih =>
    cases front with
    | nil =>
      obtain ⟨rfl, rfl⟩ := cons.inj form
      exact .step best onward
    | cons first front => exact ih (cons.inj form).2

end Greedy

/-- A path lies in every parent-closed set that contains its last node. -/
theorem ParentClosed.mem_of_getLast (hc : ParentClosed parent nodes)
    (chain : path.IsChain fun above hb => parent hb = some above)
    (last : ∀ node ∈ path.getLast?, node ∈ nodes)
    : ∀ node ∈ path, node ∈ nodes := by
  induction chain with
  | nil => simp
  | singleton node => simpa using last
  | @cons_cons above hb rest link _ ih =>
    have hi := ih (by simpa using last)
    rw [forall_mem_cons]
    exact ⟨hc hb (hi hb mem_cons_self) above link, hi⟩

namespace Greedy

/-- Below a node that the second set lacks there is nothing of that set. -/
theorem union_of_notMem (up : ParentClosed parent second)
    (greedy : Greedy parent rank first node path) (missing : node ∉ second)
    : Greedy parent rank (first ∪ second) node path := by
  induction greedy with
  | leaf childless =>
    refine .leaf ?_
    rintro child (hm | hm) hb
    · exact childless child hm hb
    · exact missing (up child hm _ hb)
  | step best _ ih =>
    refine .step (best.union ?_) (ih fun hm => missing (up _ hm _ best.below))
    exact fun other hm hb => absurd (up other hm _ hb) missing

/-- Where the first set has the better child, the union follows its path. -/
theorem union_of_better (up : ParentClosed parent second)
    (best : IsBest parent rank first node child) (onward : Greedy parent rank first child path)
    (better : ∀ other ∈ second, parent other = some node → rank child < rank other)
    : Greedy parent rank (first ∪ second) node (child :: path) := by
  have missing : child ∉ second := fun hm =>
    lt_irrefl _ (better child hm best.below)
  refine .step (best.union ?_) (onward.union_of_notMem up missing)
  exact fun other hm hb => le_of_lt (better other hm hb)

variable (ranked : Function.Injective rank) (upFirst : ParentClosed parent first)
  (upSecond : ParentClosed parent second) (one : Greedy parent rank first node left)
  (two : Greedy parent rank second node right)

include ranked upFirst upSecond one two

/-- The greedy path of the union of two parent-closed sets is the path of one of them. -/
theorem union
    : Greedy parent rank (first ∪ second) node left
      ∨ Greedy parent rank (first ∪ second) node right := by
  induction one generalizing right with
  | leaf childless =>
    cases two with
    | leaf barren =>
      refine .inl (.leaf ?_)
      rintro child (hm | hm)
      · exact childless child hm
      · exact barren child hm
    | step best onward =>
      rw [Set.union_comm]
      exact .inr (onward.union_of_better upFirst best
        fun child hm hb => absurd hb (childless child hm))
  | @step node child rest best onward ih =>
    cases two with
    | leaf barren =>
      exact .inl (onward.union_of_better upSecond best
        fun child hm hb => absurd hb (barren child hm))
    | @step _ rival later bestRival onwardRival =>
      rcases lt_trichotomy (rank child) (rank rival) with better | he | worse
      · exact .inl (onward.union_of_better upSecond best
          fun sibling hm hb => better.trans_le (bestRival.least sibling hm hb))
      · obtain rfl := ranked he
        have both := best.union bestRival.least
        exact (ih onwardRival).imp (.step both) (.step both)
      rw [Set.union_comm]
      exact .inr (onwardRival.union_of_better upFirst bestRival
        fun sibling hm hb => worse.trans_le (best.least sibling hm hb))

/-- Two parent-closed sets that take over each other's greedy path have one greedy path, which
is one of the two.
-/
theorem exchange
    : ∃ path, Greedy parent rank (first ∪ {member | member ∈ right}) node path
      ∧ Greedy parent rank (second ∪ {member | member ∈ left}) node path
      ∧ (path = left ∨ path = right) := by
  have toFirst : first ∪ {member | member ∈ right} ⊆ first ∪ second :=
    Set.union_subset_union_right _ two.mem
  have toSecond : second ∪ {member | member ∈ left} ⊆ first ∪ second := by
    rw [Set.union_comm first]
    exact Set.union_subset_union_right _ one.mem
  rcases Greedy.union ranked upFirst upSecond one two with joint | joint
  · exact ⟨left, joint.restrict toFirst fun member hi => .inl (one.mem member hi),
      joint.restrict toSecond fun _ => .inr, .inl rfl⟩
  exact ⟨right, joint.restrict toFirst fun _ => .inr,
    joint.restrict toSecond fun member hi => .inl (two.mem member hi), .inr rfl⟩

end Greedy

end Zay.Lib
