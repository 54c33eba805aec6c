import Mathlib.Data.Set.Finite.Lemmas
import Zay.Lib.GreedyPath

/-! Paths from the nodes of a forest to the roots. A node has at most one of them, and it has
one exactly when no cycle lies above it.
-/

namespace Zay.Lib

open List

variable {N : Type} {parent other : N → Option N} {nodes : List N}

inductive Ascent (parent : N → Option N) : N → List N → Prop
  | root {node} (top : parent node = none) : Ascent parent node [node]
  | step {node above path} (link : parent node = some above) (onward : Ascent parent above path)
    : Ascent parent node (node :: path)

namespace Ascent

variable {node above below : N} {path left right front back : List N}

theorem unique (one : Ascent parent node left) (two : Ascent parent node right)
    : left = right := by
  induction one generalizing right with
  | root top =>
    cases two with
    | root => rfl
    | step link => rw [top] at link; cases link
  | step link _ ih =>
    cases two with
    | root top => rw [link] at top; cases top
    | step again onward =>
      rw [link] at again
      cases again
      rw [ih onward]

theorem eq_cons (ascent : Ascent parent node path) : ∃ rest, path = node :: rest := by
  cases ascent with
  | root => exact ⟨[], rfl⟩
  | step => exact ⟨_, rfl⟩

/-- From every node of the path on, the rest of it is the path of that node. -/
theorem drop (ascent : Ascent parent node (front ++ below :: back))
    : Ascent parent below (below :: back) := by
  induction front generalizing node with
  | nil =>
    obtain ⟨rest, form⟩ := ascent.eq_cons
    obtain rfl := (cons.inj form).1
    exact ascent
  | cons _ front ih =>
    cases path : front ++ below :: back with
    | nil => simp at path
    | cons _ rest =>
      rw [cons_append, path] at ascent
      cases ascent with
      | step _ onward =>
        rw [← path] at onward
        exact ih onward

theorem link (front : List N) (ascent : Ascent parent node (front ++ below :: above :: back))
    : parent below = some above := by
  cases ascent.drop with
  | step link onward =>
    obtain ⟨_, form⟩ := onward.eq_cons
    rw [(cons.inj form).1]
    exact link

theorem top_of_last (ascent : Ascent parent node (front ++ [above])) : parent above = none := by
  cases ascent.drop with
  | root top => exact top
  | step _ onward => cases onward

section

variable (ascent : Ascent parent node path)

include ascent

theorem nodup : path.Nodup := by
  induction ascent with
  | root => exact nodup_singleton _
  | @step node above path link onward ih =>
    refine nodup_cons.mpr ⟨fun hm => ?_, ih⟩
    obtain ⟨front, back, rfl⟩ := append_of_mem hm
    have same := onward.drop.unique (onward.step link)
    have hl := congrArg length same
    simp only [length_cons, length_append] at hl
    omega

theorem length_le (hi : ∀ member ∈ path, member ∈ nodes) : path.length ≤ nodes.length :=
  (ascent.nodup.subperm hi).length_le

/-- The parent of a node of the path comes right after it. -/
theorem split_of_link (hm : below ∈ path) (link : parent below = some above)
    : ∃ front back, path = front ++ below :: above :: back := by
  obtain ⟨front, back, rfl⟩ := append_of_mem hm
  cases ascent.drop with
  | root top => rw [link] at top; cases top
  | step again onward =>
    rw [link] at again
    cases again
    obtain ⟨rest, rfl⟩ := onward.eq_cons
    exact ⟨front, rest, rfl⟩

end

theorem tail {first} (ascent : Ascent parent node (first :: path)) (more : path ≠ [])
    : ∃ above, parent first = some above ∧ Ascent parent above path := by
  cases ascent with
  | root => exact absurd rfl more
  | step link onward => exact ⟨_, link, onward⟩

/-- Up to any node of the path, the parents of its nodes are on it. -/
theorem parent_mem {last} (front : List N) (ascent : Ascent parent node (front ++ last :: back))
    (hm : below ∈ front)
    : ∃ above, parent below = some above ∧ above ∈ front ++ [last] := by
  obtain ⟨early, late, rfl⟩ := append_of_mem hm
  rw [append_assoc, cons_append] at ascent
  cases late with
  | nil => exact ⟨last, ascent.link early, by simp⟩
  | cons next late => exact ⟨next, ascent.link early, by simp⟩

/-- A node of the path has one child on it. -/
theorem below_unique (front : List N)
    (ascent : Ascent parent node (front ++ below :: above :: back)) {sibling}
    (hm : sibling ∈ front ++ below :: above :: back) (link : parent sibling = some above)
    : sibling = below := by
  have nodup := ascent.nodup
  obtain ⟨before, _, form⟩ := ascent.split_of_link hm link
  rw [append_cons] at nodup
  rw [append_cons front, append_cons before] at form
  obtain ⟨-, hr, ha⟩ := nodup_append.mp nodup
  have early : above ∉ front ++ [below] := fun hi => ha above hi above (by simp) rfl
  obtain ⟨he, -⟩ :=
    (append_cons_inj_of_notMem early (nodup_cons.mp hr).1).mp form
  exact (cons.inj (append_inj' he rfl).2).1.symm

/-- A path down from a root, read upwards. -/
theorem of_isChain (top : parent node = none)
    (chain : (node :: path).IsChain fun above below => parent below = some above)
    : Ascent parent ((node :: path).getLast (cons_ne_nil _ _)) (node :: path).reverse := by
  induction path using reverseRecOn with
  | nil => exact .root top
  | append_singleton path last ih =>
    rw [← cons_append, isChain_append] at chain
    obtain ⟨front, -, link⟩ := chain
    have step := link _ (getLast?_eq_some_getLast (cons_ne_nil _ _)) last rfl
    have longer := Ascent.step step (ih front)
    simpa using longer

variable (ascent : Ascent parent node path)

include ascent

theorem congr (he : ∀ member ∈ path, other member = parent member) : Ascent other node path := by
  induction ascent with
  | root top =>
    refine .root ?_
    rw [he _ mem_cons_self]
    exact top
  | step link _ ih =>
    refine .step ?_ (ih fun member hr => he member (mem_cons_of_mem _ hr))
    rw [he _ mem_cons_self]
    exact link

/-- A set that contains the parents of its nodes contains their paths. -/
theorem mem_of_parentClosed {nodes} (hc : ParentClosed parent nodes) (hi : node ∈ nodes)
    : ∀ member ∈ path, member ∈ nodes := by
  induction ascent with
  | root => simpa using hi
  | step link _ ih =>
    rw [forall_mem_cons]
    exact ⟨hi, ih (hc _ hi _ link)⟩

theorem isChain_reverse : path.reverse.IsChain fun above below => parent below = some above := by
  rw [List.isChain_reverse]
  induction ascent with
  | root => exact .singleton _
  | step link onward ih =>
    obtain ⟨_, rfl⟩ := onward.eq_cons
    exact .cons_cons link ih

end Ascent

/-- A greedy path exists below every node with a path to a root, and is at most as long as the
nodes that are not on that path.
-/
theorem exists_greedy {R : Type} [LinearOrder R] (rank : N → R)
    (hc : ParentClosed parent {node | node ∈ nodes}) {node path} (hi : node ∈ nodes)
    (ascent : Ascent parent node path) {room} (he : nodes.length ≤ path.length + room)
    : ∃ greedy, Greedy parent rank {node | node ∈ nodes} node greedy ∧ greedy.length ≤ room := by
  induction room generalizing node path with
  | zero =>
    refine ⟨[], .leaf fun child hm link => ?_, le_refl _⟩
    have longer := Ascent.step link ascent
    have hb := longer.length_le (longer.mem_of_parentClosed hc hm)
    rw [length_cons] at hb
    omega
  | succ room ih =>
    let children : Set N := {child | child ∈ nodes ∧ parent child = some node}
    have finite : children.Finite := (finite_toSet nodes).subset fun _ hm => hm.1
    rcases children.eq_empty_or_nonempty with none | some
    · refine ⟨[], .leaf fun child hm link => ?_, Nat.zero_le _⟩
      have hp : child ∈ children := ⟨hm, link⟩
      rw [none] at hp
      exact hp
    obtain ⟨child, ⟨hm, link⟩, least⟩ := Set.exists_min_image children rank finite some
    obtain ⟨greedy, onward, hs⟩ := ih hm (ascent.step link) (by
      rw [length_cons]
      omega)
    refine ⟨child :: greedy, .step ⟨hm, link, ?_⟩ onward, Nat.succ_le_succ hs⟩
    exact fun other hp below => least other ⟨hp, below⟩

end Zay.Lib
