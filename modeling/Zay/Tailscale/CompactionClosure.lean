import Mathlib.Data.List.TakeWhile
import Zay.Tailscale.CompactionMarks

/-! What a compaction keeps: with every update its descendants, where it was active or young,
and its path up to the checkpoint that becomes the oldest update. Both work lists come to an
end when fewer updates are stored than the loops may take steps.
-/

namespace Zay.Tailscale

open Lib TailscaleTkaAuthority Marks OrderedMap List Option

variable (authority : TailscaleTkaAuthority)

variable {crypto : TkaPrimitives} {tka : TailscaleTkaAuthority} {cutoff : SystemTime}
  {marks : Marks} {hash parent : TailscaleAumHash} {queue rest : List TailscaleAumHash}

/-- The first entry of a work list that is not done yet. -/
theorem dropWhile_cases (done : TailscaleAumHash → Bool) (queue)
    : queue.dropWhile done = [] ∧ (∀ hash ∈ queue, done hash)
      ∨ ∃ skipped hash rest, queue.dropWhile done = hash :: rest ∧ queue = skipped ++ hash :: rest
        ∧ (∀ hash ∈ skipped, done hash) ∧ done hash = false := by
  cases left : queue.dropWhile done with
  | nil => exact .inl ⟨rfl, dropWhile_eq_nil_iff.mp left⟩
  | cons hash rest =>
    refine .inr ⟨queue.takeWhile done, hash, rest, rfl, ?_, fun _ => mem_takeWhile_imp, ?_⟩
    · rw [← left, takeWhile_append_dropWhile]
    · have first := head_dropWhile_not done (l := queue)
        (by rw [left]; exact cons_ne_nil _ _)
      simpa [left] using first

/-- The number of stored updates outside a list. -/
def unvisited (visited : List TailscaleAumHash) : Nat :=
  (authority.aums.keys.filter fun hash => !visited.contains hash).length

theorem unvisited_nil : unvisited tka [] = tka.aums.len := by
  simp [unvisited, OrderedMap.keys, len]

variable {visited : List TailscaleAumHash} {remaining : Nat}

theorem unvisited_mono {more} (hg : ∀ hash ∈ visited, hash ∈ more)
    : unvisited tka more ≤ unvisited tka visited := by
  refine List.Sublist.length_le (monotone_filter_right _ fun hash ho => ?_)
  rw [Bool.not_eq_true', ← Bool.not_eq_true, contains_iff_mem] at ho ⊢
  exact fun hi => ho (hg hash hi)

theorem unvisited_cons_lt (hi : hash ∈ stored tka.aums) (hn : hash ∉ visited)
    : unvisited tka (hash :: visited) < unvisited tka visited := by
  have split : tka.aums.keys.filter (fun other => !(hash :: visited).contains other)
      = (tka.aums.keys.filter fun other => !visited.contains other).filter (· ≠ hash) := by
    rw [List.filter_filter]
    simp
  rw [unvisited, split]
  refine length_filter_lt_length_iff_exists.mpr ⟨hash, ?_, by simp⟩
  exact mem_filter.mpr ⟨mem_keys_iff.mpr hi, by simpa using hn⟩

/-- There is a step left for an update that was not visited. -/
theorem exists_pred_of_unvisited (hi : hash ∈ stored tka.aums) (hn : hash ∉ visited)
    (he : unvisited tka visited ≤ remaining)
    : ∃ less, remaining = less + 1 ∧ unvisited tka (hash :: visited) ≤ less := by
  have hf := unvisited_cons_lt hi hn
  exact ⟨remaining - 1, by omega, by omega⟩

/-- What a run of the work list adds to the leaves. -/
structure Spread (queue before after : List TailscaleAumHash) : Prop where
  grows : ∀ hash ∈ before, hash ∈ after
  queued : ∀ hash ∈ queue, hash ∈ after
  children : ∀ hash ∈ after, hash ∉ before → ∀ child ∈ stored authority.aums,
    authority.up child = some hash → child ∈ after
  root : authority.oldest ∈ after → authority.oldest ∈ before ∨ authority.oldest ∈ queue

theorem any_leaf : ((marks.verdict tka cutoff).get? hash).any (·.leaf)
    ↔ hash ∈ stored tka.aums ∧ hash ∈ marks.leaves := by
  rw [any_verdict]
  simp [retention]

/-- A step of the work list marks the first update that is not marked, and adds its children. -/
theorem spreadLeaves_cases (marks : Marks) (queue)
    : (∀ hash ∈ queue, hash ∈ marks.leaves)
        ∧ (∀ remaining, tka.spreadLeaves remaining queue (marks.verdict tka cutoff)
          = .ok (marks.verdict tka cutoff))
      ∨ ∃ skipped hash rest, queue = skipped ++ hash :: rest
        ∧ (∀ other ∈ skipped, other ∈ marks.leaves)
        ∧ (hash ∈ stored tka.aums → hash ∉ marks.leaves)
        ∧ (∀ remaining verdict,
          tka.spreadLeaves remaining queue (marks.verdict tka cutoff)
            = .ok verdict → hash ∈ stored tka.aums ∧ ∃ less, remaining = less + 1)
        ∧ (∀ remaining, hash ∈ stored tka.aums →
          tka.spreadLeaves (remaining + 1) queue (marks.verdict tka cutoff)
            = tka.spreadLeaves remaining (rest ++ tka.childHashes hash)
              (({ marks with leaves := hash :: marks.leaves } : Marks).verdict tka
                cutoff)) := by
  rcases dropWhile_cases
      (fun hash => ((marks.verdict tka cutoff).get? hash).any (·.leaf)) queue with
    ⟨ended, done⟩ | ⟨skipped, hash, rest, next, form, done, fresh⟩
  · refine .inl ⟨fun hash hm => (any_leaf.mp (done hash hm)).2, fun remaining => ?_⟩
    cases remaining <;> rw [spreadLeaves, ended]
  refine .inr ⟨skipped, hash, rest, form, fun other hm => (any_leaf.mp (done other hm)).2,
    fun hi leaf => ?_, fun remaining verdict result => ?_, fun remaining hi => ?_⟩
  · rw [any_leaf.mpr ⟨hi, leaf⟩] at fresh
    cases fresh
  · cases remaining with
    | zero =>
      rw [spreadLeaves, next] at result
      dsimp only at result
      split at result <;> cases result
    | succ remaining =>
      rw [spreadLeaves, next] at result
      by_cases hc : (marks.verdict tka cutoff).containsKey hash
      · exact ⟨(marks.containsKey_verdict tka cutoff).mp hc, remaining, rfl⟩
      · simp [hc] at result
  · have hc := (marks.containsKey_verdict tka cutoff).mpr hi
    rw [spreadLeaves, next]
    simp [hc]

section Spreading

variable (hv : StoreValid crypto tka.aums tka.oldest)

include hv

theorem spreadLeaves_eq_ok {verdict}
    (result : tka.spreadLeaves remaining queue (marks.verdict tka cutoff) = .ok verdict)
    : ∃ leaves, verdict = ({ marks with leaves := leaves } : Marks).verdict tka cutoff
      ∧ Spread tka queue marks.leaves leaves := by
  induction remaining using Nat.strong_induction_on generalizing queue marks with
  | _ remaining ih =>
    rcases spreadLeaves_cases marks queue with
      ⟨done, ended⟩ | ⟨skipped, hash, rest, rfl, done, hn, needed, next⟩
    · rw [ended] at result
      cases result
      exact ⟨marks.leaves, rfl, fun _ => id, done, fun _ hm hn => absurd hm hn, .inl⟩
    obtain ⟨hi, less, rfl⟩ := needed _ _ result
    rw [next less hi] at result
    obtain ⟨leaves, rfl, spread⟩ := ih less (Nat.lt_succ_self _) result
    have here : hash ∈ leaves := spread.grows hash mem_cons_self
    refine ⟨leaves, rfl, ?_, ?_, ?_, ?_⟩
    · exact fun other hm => spread.grows other (mem_cons_of_mem _ hm)
    · intro other hm
      rcases mem_append.mp hm with early | hl
      · exact spread.grows other (mem_cons_of_mem _ (done other early))
      rcases mem_cons.mp hl with rfl | hr
      · exact here
      · exact spread.queued other (mem_append_left _ hr)
    · intro other hm new child known link
      by_cases he : other = hash
      · subst he
        refine spread.queued child (mem_append_right _ ?_)
        exact (mem_childHashes_iff hv hi).mpr ⟨known, link⟩
      refine spread.children other hm ?_ child known link
      rw [mem_cons, not_or]
      exact ⟨he, new⟩
    · intro root
      rcases spread.root root with marked | waiting
      · rcases mem_cons.mp marked with he | old
        · exact .inr (by simp [he])
        · exact .inl old
      rcases mem_append.mp waiting with hr | child
      · exact .inr (by simp [hr])
      -- The oldest update is below no other one.
      have link := ((mem_childHashes_iff hv hi).mp child).2
      rw [(up_eq_none_iff hv (oldest_stored hv)).mpr rfl] at link
      cases link

theorem spreadLeaves_terminates (cutoff) (marks : Marks)
    (known : ∀ hash ∈ queue, hash ∈ stored tka.aums) (he : unvisited tka marks.leaves ≤ remaining)
    : ∃ verdict,
      tka.spreadLeaves remaining queue (marks.verdict tka cutoff) = .ok verdict := by
  induction remaining using Nat.strong_induction_on generalizing queue marks with
  | _ remaining ih =>
    rcases spreadLeaves_cases marks queue with
      ⟨done, ended⟩ | ⟨skipped, hash, rest, rfl, done, hn, needed, next⟩
    · exact ⟨_, ended _⟩
    have hi := known hash (by simp)
    obtain ⟨less, rfl, hf⟩ := exists_pred_of_unvisited hi (hn hi) he
    rw [next less hi]
    refine ih less (Nat.lt_succ_self _) _ ?_ hf
    intro other hm
    rcases mem_append.mp hm with hr | child
    · exact known other (by simp [hr])
    · exact ((mem_childHashes_iff hv hi).mp child).1

end Spreading

--------
-- Intersections
--------

theorem any_pathChild : ((marks.verdict tka cutoff).get? hash).any
      (fun retention => retention.candidate && !retention.active)
    ↔ hash ∈ stored tka.aums ∧ hash ∈ marks.candidates ∧ hash ∉ marks.active := by
  rw [any_verdict]
  simp [retention]

/-- The state of the second work list. -/
structure Frontier where
  queue : List TailscaleAumHash
  marks : Marks
  candidate : TailscaleAumHash
  adjusted : Bool

namespace Frontier

def found (cutoff : SystemTime) (frontier : Frontier) : Intersection :=
  ⟨frontier.marks.verdict authority cutoff, frontier.candidate, frontier.adjusted⟩

/-- The marks after the next update was taken off the work list. -/
def visit (frontier : Frontier) (hash : TailscaleAumHash) : Marks :=
  { frontier.marks with ancestors := hash :: frontier.marks.ancestors }

end Frontier

/-- A step of the work list, for an update with a parent. -/
inductive ClimbStep (authority : TailscaleTkaAuthority) (cutoff : SystemTime)
    (frontier : Frontier) (hash parent : TailscaleAumHash) (rest : List TailscaleAumHash)
    : Frontier → Prop
  | kept (kept : (frontier.visit hash).Keeps authority cutoff parent)
    : ClimbStep authority cutoff frontier hash parent rest
      { frontier with queue := rest, marks := frontier.visit hash }
  | moved {lower upper} (free : ¬(frontier.visit hash).Keeps authority cutoff parent)
    (form : frontier.marks.candidates = lower ++ parent :: upper)
    : ClimbStep authority cutoff frontier hash parent rest
      { queue := rest ++ [parent]
        marks :=
          { frontier.marks with
            ancestors := lower ++ parent :: hash :: frontier.marks.ancestors }
        candidate := parent
        adjusted := true }
  | pushed (free : ¬(frontier.visit hash).Keeps authority cutoff parent)
    (outside : parent ∉ frontier.marks.candidates)
    : ClimbStep authority cutoff frontier hash parent rest
      { frontier with queue := rest ++ [parent], marks := frontier.visit hash }

theorem any_ancestor : ((marks.verdict tka cutoff).get? hash).any (·.ancestor)
    ↔ hash ∈ stored tka.aums ∧ hash ∈ marks.ancestors := by
  rw [any_verdict]
  simp [retention]

/-- The candidates are the updates above the one that was chosen first, and none is active. -/
structure CandidatesAbove (chosen : TailscaleAumHash) (marks : Marks) : Prop where
  known : chosen ∈ stored authority.aums
  ascent : Ascent authority.up chosen (chosen :: marks.candidates)
  apart : ∀ hash ∈ marks.candidates, hash ∉ marks.active

variable {after : Frontier}

section Climb

variable {chosen : TailscaleAumHash} {frontier : Frontier}

/-- Every update that is kept has its parent kept or waiting, or waits itself, apart from the
first candidate and the present one. A candidate that was moved is connected to the first one.
-/
structure Climbing (cutoff : SystemTime) (chosen : TailscaleAumHash) (frontier : Frontier)
    : Prop where
  above : CandidatesAbove authority chosen frontier.marks
  connected : ∀ hash ∈ stored authority.aums, frontier.marks.Keeps authority cutoff hash →
    hash = chosen
    ∨ hash ∉ frontier.marks.ancestors ∧ hash ∈ frontier.queue
    ∨ (∃ parent, authority.up hash = some parent
      ∧ (frontier.marks.Keeps authority cutoff parent ∨ parent ∈ frontier.queue))
    ∨ frontier.adjusted = true ∧ hash = frontier.candidate
  unmoved : frontier.adjusted = false → frontier.candidate = chosen
  moved : frontier.adjusted = true →
    ∃ lower upper, frontier.marks.candidates = lower ++ frontier.candidate :: upper
      ∧ ∀ hash ∈ lower ++ [frontier.candidate], hash ∈ frontier.marks.ancestors

variable {more skipped path lower upper : List TailscaleAumHash}

theorem Marks.Keeps.mono (hk : marks.Keeps tka cutoff hash)
    (hg : ∀ hash ∈ marks.ancestors, hash ∈ more)
    : ({ marks with ancestors := more } : Marks).Keeps tka cutoff hash := by
  rcases hk with active | young | leaf | ancestor
  · exact .inl active
  · exact .inr (.inl young)
  · exact .inr (.inr (.inl leaf))
  · exact .inr (.inr (.inr (hg hash ancestor)))

theorem Marks.keeps_or_new (hk : ({ marks with ancestors := more } : Marks).Keeps tka cutoff hash)
    : marks.Keeps tka cutoff hash ∨ hash ∈ more := by
  rcases hk with active | young | leaf | ancestor
  · exact .inl (.inl active)
  · exact .inl (.inr (.inl young))
  · exact .inl (.inr (.inr (.inl leaf)))
  · exact .inr ancestor

namespace Climbing

variable (hc : Climbing tka cutoff chosen frontier)

include hc

/-- On the path of the candidates, what lies below an update that is not marked is marked
before the candidate is moved to it.
-/
theorem candidate_below (adjusted : frontier.adjusted = true)
    (form : frontier.marks.candidates = lower ++ parent :: upper)
    (free : parent ∉ frontier.marks.ancestors)
    : frontier.candidate ∈ lower := by
  obtain ⟨before, _, split, marked⟩ := hc.moved adjusted
  have nodup := (nodup_cons.mp hc.above.ascent.nodup).2
  have hm : frontier.candidate ∈ lower ++ parent :: upper := by
    rw [← form, split]
    simp
  rcases mem_append.mp hm with below | here
  · exact below
  refine absurd ?_ free
  rcases mem_cons.mp here with he | ha
  · rw [← he]
    exact marked _ (by simp)
  obtain ⟨_, _, rfl⟩ := append_of_mem ha
  rw [← cons_append, ← append_assoc] at form
  rw [split] at nodup form
  obtain ⟨-, hr, hne⟩ := nodup_append.mp nodup
  have early : frontier.candidate ∉ before := fun hi =>
    hne _ hi _ mem_cons_self rfl
  have he := ((append_cons_inj_of_notMem early (nodup_cons.mp hr).1).mp form).1
  exact marked parent (by simp [he])

/-- The next update is settled by its parent, which is kept or waits. -/
theorem visit (form : frontier.queue = skipped ++ hash :: rest)
    (done : ∀ other ∈ skipped, other ∈ frontier.marks.ancestors) (link : tka.up hash = some parent)
    (hs : (frontier.visit hash).Keeps tka cutoff parent ∨ parent ∈ more)
    : Climbing tka cutoff chosen
      { frontier with queue := rest ++ more, marks := frontier.visit hash } := by
  refine ⟨{ hc.above with }, fun other known hk => ?_, hc.unmoved, fun ha => ?_⟩
  · by_cases he : other = hash
    · exact .inr (.inr (.inl ⟨parent, he ▸ link, hs.imp_right (mem_append_right _)⟩))
    have old : frontier.marks.Keeps tka cutoff other := by
      rcases keeps_or_new hk with old | new
      · exact old
      · exact .inr (.inr (.inr ((mem_cons.mp new).resolve_left he)))
    rcases hc.connected other known old with
      first | ⟨fresh, waiting⟩ | ⟨above, up, origin⟩ | moved
    · exact .inl first
    · rw [form] at waiting
      rcases mem_append.mp waiting with early | hl
      · exact absurd (done other early) fresh
      · have hr := (mem_cons.mp hl).resolve_left he
        exact .inr (.inl ⟨by simp [Frontier.visit, he, fresh], by simp [hr]⟩)
    · refine .inr (.inr (.inl ⟨above, up, ?_⟩))
      rcases origin with keeps | waiting
      · exact .inl (keeps.mono fun _ => mem_cons_of_mem _)
      rw [form] at waiting
      rcases mem_append.mp waiting with early | hl
      · exact .inl (.inr (.inr (.inr (mem_cons_of_mem _ (done above early)))))
      rcases mem_cons.mp hl with rfl | hr
      · exact .inl (.inr (.inr (.inr mem_cons_self)))
      · exact .inr (mem_append_left _ hr)
    · exact .inr (.inr (.inr moved))
  · obtain ⟨lower, upper, split, marked⟩ := hc.moved ha
    exact ⟨lower, upper, split, fun other hm =>
      mem_cons_of_mem _ (marked other hm)⟩

/-- The candidate moves up to an update that was not marked, and its path is marked. -/
theorem move (split : frontier.marks.candidates = lower ++ parent :: upper)
    (hn : parent ∉ frontier.marks.ancestors)
    : Climbing tka cutoff chosen
      { frontier with
        marks := { frontier.marks with ancestors := lower ++ parent :: frontier.marks.ancestors }
        candidate := parent
        adjusted := true } := by
  have path : ∀ other ∈ lower ++ [parent], other ∈ lower ++ parent :: frontier.marks.ancestors := by
    simp +contextual [or_imp]
  refine ⟨{ hc.above with }, fun other known hk => ?_, fun impossible => ?_,
    fun _ => ⟨lower, upper, split, path⟩⟩
  · by_cases onPath : other ∈ lower
    · have hs := hc.above.ascent
      rw [split] at hs
      obtain ⟨_, -, onward⟩ := hs.tail (by simp)
      obtain ⟨above, up, next⟩ := onward.parent_mem lower onPath
      exact .inr (.inr (.inl ⟨above, up, .inl (.inr (.inr (.inr (path above next))))⟩))
    by_cases atParent : other = parent
    · exact .inr (.inr (.inr ⟨rfl, atParent⟩))
    have old : frontier.marks.Keeps tka cutoff other := by
      rcases keeps_or_new hk with old | new
      · exact old
      refine .inr (.inr (.inr ?_))
      simpa [onPath, atParent] using new
    rcases hc.connected other known old with
      first | ⟨unmarked, waiting⟩ | ⟨above, up, origin⟩ | ⟨adjusted, candidate⟩
    · exact .inl first
    · exact .inr (.inl ⟨by simp [onPath, atParent, unmarked], waiting⟩)
    · refine .inr (.inr (.inl ⟨above, up, origin.imp_left fun keeps => ?_⟩))
      exact keeps.mono fun _ hi => mem_append_right _ (mem_cons_of_mem _ hi)
    rw [candidate] at onPath
    exact absurd (hc.candidate_below adjusted split hn) onPath
  · cases impossible

end Climbing

/-- The oldest update never needs a parent: it is marked where it waits. -/
structure Bounded (frontier : Frontier) : Prop where
  known : ∀ hash ∈ frontier.queue, hash ∈ stored authority.aums
  root : authority.oldest ∈ frontier.queue → authority.oldest ∈ frontier.marks.ancestors
  onPath : authority.oldest ∈ frontier.marks.active ∨ authority.oldest ∈ frontier.marks.candidates

section

variable (step : ClimbStep tka cutoff frontier hash parent rest after)
include step

theorem ClimbStep.climbing (hc : Climbing tka cutoff chosen frontier)
    (form : frontier.queue = skipped ++ hash :: rest)
    (done : ∀ other ∈ skipped, other ∈ frontier.marks.ancestors) (link : tka.up hash = some parent)
    : Climbing tka cutoff chosen after := by
  cases step with
  | kept parentKept =>
    have visited := hc.visit form done link (.inl parentKept : _ ∨ parent ∈ [])
    rwa [append_nil] at visited
  | pushed free _ => exact hc.visit form done link (.inr mem_cons_self)
  | moved free split =>
    exact (hc.visit form done link (.inr mem_cons_self)).move split fun hi =>
      free (.inr (.inr (.inr hi)))

theorem ClimbStep.bounded (hb : Bounded tka frontier)
    (form : frontier.queue = skipped ++ hash :: rest) (hh : parent ∈ stored tka.aums)
    : Bounded tka after := by
  have waiting : ∀ other ∈ rest, other ∈ frontier.queue := fun other hr => by
    simp [form, hr]
  have known : ∀ other ∈ rest ++ [parent], other ∈ stored tka.aums :=
    forall_mem_append.mpr ⟨fun other old => hb.known other (waiting other old),
      forall_mem_singleton.mpr hh⟩
  cases step with
  | kept _ =>
    refine ⟨fun other hr => hb.known other (waiting other hr), fun root => ?_, hb.onPath⟩
    exact mem_cons_of_mem _ (hb.root (waiting _ root))
  | @moved lower upper free split =>
    refine ⟨known, fun root => ?_, hb.onPath⟩
    rcases mem_append.mp root with old | new
    · simp [hb.root (waiting _ old)]
    · simp [mem_singleton.mp new]
  | pushed free outside =>
    refine ⟨known, fun root => ?_, hb.onPath⟩
    rcases mem_append.mp root with old | new
    · exact mem_cons_of_mem _ (hb.root (waiting _ old))
    rw [← mem_singleton.mp new] at free outside
    exact absurd (.inl (hb.onPath.resolve_right outside)) free

end

variable (hv : StoreValid crypto tka.aums tka.oldest) {fuel : Nat}

include hv

/-- Below a candidate the others are marked, down to the child that was chosen first. -/
theorem markPathBelow_eq (cutoff) {chosen next} (marks : Marks)
    (hs : Ascent tka.up chosen (chosen :: (lower ++ next :: upper)))
    (known : chosen ∈ stored tka.aums) (candidates : marks.candidates = lower ++ next :: upper)
    (ha : ∀ hash ∈ marks.candidates, hash ∉ marks.active) (he : lower.length < fuel)
    : tka.markPathBelow fuel (marks.verdict tka cutoff) next
      = ({ marks with ancestors := lower ++ marks.ancestors } : Marks).verdict tka
        cutoff := by
  have hi := mem_stored_of_ascent hv hs known
  have first : chosen ∉ lower ++ next :: upper := (nodup_cons.mp hs.nodup).1
  induction lower using reverseRecOn generalizing next upper marks fuel with
  | nil =>
    obtain ⟨less, rfl⟩ := Nat.exists_eq_succ_of_ne_zero (Nat.ne_of_gt he)
    rw [markPathBelow]
    split
    · rfl
    next child hf =>
      have isPath := find?_some hf
      obtain ⟨-, hb, -⟩ := any_pathChild.mp isPath
      obtain ⟨-, link⟩ := (mem_childHashes_iff hv (hi next (by simp))).mp (mem_of_find?_eq_some hf)
      rw [candidates] at hb
      have heq := hs.below_unique [] (mem_cons_of_mem _ hb) link
      exact absurd (heq ▸ hb) first
  | append_singleton lower child ih =>
    obtain ⟨less, rfl⟩ := Nat.exists_eq_succ_of_ne_zero (Nat.ne_of_gt (Nat.zero_lt_of_lt he))
    rw [append_assoc, singleton_append] at hs candidates hi first
    have hm : child ∈ chosen :: (lower ++ child :: next :: upper) := by simp
    have link : tka.up child = some next := hs.link (chosen :: lower)
    have isCandidate : child ∈ marks.candidates := by
      rw [candidates]
      simp
    rw [markPathBelow]
    split
    next missing =>
      refine absurd ?_ (find?_eq_none.mp missing child ?_)
      · exact any_pathChild.mpr ⟨hi child hm, isCandidate, ha child isCandidate⟩
      · exact (mem_childHashes_iff hv (hi next (by simp))).mpr ⟨hi child hm, link⟩
    next other hf =>
      have isPath := find?_some hf
      obtain ⟨-, hb, -⟩ := any_pathChild.mp isPath
      obtain ⟨-, otherLink⟩ := (mem_childHashes_iff hv (hi next (by simp))).mp
        (mem_of_find?_eq_some hf)
      rw [candidates] at hb
      rw [hs.below_unique (chosen :: lower) (mem_cons_of_mem _ hb) otherLink, mark_setAncestor]
      rw [length_append, length_singleton] at he
      have onward := ih { marks with ancestors := child :: marks.ancestors } hs candidates
        ha (Nat.lt_of_succ_lt_succ he) hi first
      rw [onward, append_assoc]
      rfl

theorem climb_step (ha : CandidatesAbove tka chosen frontier.marks)
    (next : frontier.queue.dropWhile (fun hash =>
      ((frontier.marks.verdict tka cutoff).get? hash).any (·.ancestor)) = hash :: rest)
    (hi : hash ∈ stored tka.aums) (link : tka.up hash = some parent) (remaining : Nat)
    : ∃ after, ClimbStep tka cutoff frontier hash parent rest after
      ∧ tka.climb (remaining + 1) frontier.queue (frontier.found tka cutoff)
        = tka.climb remaining after.queue (after.found tka cutoff) := by
  have hc := (frontier.marks.containsKey_verdict tka cutoff).mpr hi
  have hh := parentClosed_up hv hash hi parent link
  have atParent := (frontier.visit hash).get?_verdict_of_stored tka cutoff hh
  rw [climb, Frontier.found, next]
  simp only [hc, Bool.not_true, Bool.false_eq_true, if_false, mark_setAncestor,
    logicalParent_eq hi, link, bind, Except.bind]
  rw [show ({ frontier.marks with ancestors := hash :: frontier.marks.ancestors } : Marks)
    = frontier.visit hash from rfl, atParent]
  by_cases hk : (frontier.visit hash).Keeps tka cutoff parent
  · refine ⟨_, .kept hk, ?_⟩
    simp only [(masked_iff tka cutoff _).mpr hk, if_true]
    rfl
  have free : ((frontier.visit hash).retention tka cutoff parent).masked = false := by
    rw [← Bool.not_eq_true, masked_iff]
    exact hk
  by_cases candidate : parent ∈ frontier.marks.candidates
  · obtain ⟨lower, upper, form⟩ := append_of_mem candidate
    have hf : ((frontier.visit hash).retention tka cutoff parent).candidate = true :=
      decide_eq_true candidate
    have ascent := ha.ascent
    rw [form] at ascent
    have hr := length_le_len_of_ascent hv ascent ha.known
    have hs : lower.length < tka.aums.len := by
      rw [length_cons, length_append, length_cons] at hr
      omega
    have marked := markPathBelow_eq hv cutoff
      { frontier.marks with ancestors := parent :: hash :: frontier.marks.ancestors }
      ascent ha.known form ha.apart hs
    refine ⟨_, .moved hk form, ?_⟩
    simp only [free, hf, Bool.false_eq_true, if_false, if_true]
    exact congrArg (fun verdict => tka.climb remaining (rest ++ [parent])
      ⟨verdict, parent, true⟩) marked
  · have hf : ((frontier.visit hash).retention tka cutoff parent).candidate = false :=
      decide_eq_false candidate
    refine ⟨_, .pushed hk candidate, ?_⟩
    simp only [free, hf, Bool.false_eq_true, if_false]
    rfl

theorem climb_cases (cutoff) (ha : CandidatesAbove tka chosen frontier.marks)
    : (∀ hash ∈ frontier.queue, hash ∈ frontier.marks.ancestors)
        ∧ (∀ remaining,
          tka.climb remaining frontier.queue (frontier.found tka cutoff)
            = .ok (frontier.found tka cutoff))
      ∨ ∃ skipped hash rest, frontier.queue = skipped ++ hash :: rest
        ∧ (∀ other ∈ skipped, other ∈ frontier.marks.ancestors)
        ∧ (hash ∈ stored tka.aums → hash ∉ frontier.marks.ancestors)
        ∧ (∀ remaining final,
          tka.climb remaining frontier.queue (frontier.found tka cutoff) = .ok final →
          hash ∈ stored tka.aums ∧ tka.up hash ≠ none ∧ ∃ less, remaining = less + 1)
        ∧ (∀ remaining parent, hash ∈ stored tka.aums → tka.up hash = some parent →
          ∃ after, ClimbStep tka cutoff frontier hash parent rest after
            ∧ tka.climb (remaining + 1) frontier.queue (frontier.found tka cutoff)
              = tka.climb remaining after.queue (after.found tka cutoff)) := by
  rcases dropWhile_cases (fun hash =>
      ((frontier.marks.verdict tka cutoff).get? hash).any (·.ancestor)) frontier.queue with
    ⟨ended, done⟩ | ⟨skipped, hash, rest, next, form, done, fresh⟩
  · refine .inl ⟨fun hash hm => (any_ancestor.mp (done hash hm)).2, fun remaining => ?_⟩
    cases remaining <;> rw [climb, Frontier.found, ended]
  refine .inr ⟨skipped, hash, rest, form, fun other hm => (any_ancestor.mp (done other hm)).2,
    fun hi ancestor => ?_, fun remaining final result => ?_,
    fun remaining parent hi link => climb_step hv ha next hi link remaining⟩
  · rw [any_ancestor.mpr ⟨hi, ancestor⟩] at fresh
    cases fresh
  · rw [Frontier.found] at result
    cases remaining with
    | zero =>
      rw [climb, next] at result
      dsimp only at result
      split at result <;> cases result
    | succ remaining =>
      rw [climb, next] at result
      by_cases hc : (frontier.marks.verdict tka cutoff).containsKey hash
      · have hi := (frontier.marks.containsKey_verdict tka cutoff).mp hc
        refine ⟨hi, fun top => ?_, remaining, rfl⟩
        simp [hc, logicalParent_eq hi, top, bind, Except.bind, invalid] at result
      · simp [hc] at result

/-- A work list that came to its end leaves every kept update connected. -/
theorem climb_eq_ok (hc : Climbing tka cutoff chosen frontier) {final}
    (result : tka.climb remaining frontier.queue (frontier.found tka cutoff)
      = .ok final)
    : ∃ after : Frontier, final = after.found tka cutoff
      ∧ (∀ hash ∈ after.queue, hash ∈ after.marks.ancestors)
      ∧ Climbing tka cutoff chosen after
      ∧ ∃ ancestors, after.marks = { frontier.marks with ancestors := ancestors } := by
  induction remaining using Nat.strong_induction_on generalizing frontier with
  | _ remaining ih =>
    rcases climb_cases hv cutoff hc.above with
      ⟨done, ended⟩ | ⟨skipped, hash, rest, form, done, fresh, needed, next⟩
    · rw [ended] at result
      cases result
      exact ⟨frontier, rfl, done, hc, _, rfl⟩
    obtain ⟨hi, exists_up, less, rfl⟩ := needed _ _ result
    obtain ⟨parent, link⟩ := ne_none_iff_exists'.mp exists_up
    obtain ⟨after, step, he⟩ := next less parent hi link
    rw [he] at result
    obtain ⟨last, rfl, ended, climbed, ancestors, marks⟩ :=
      ih less (Nat.lt_succ_self _) (step.climbing hc form done link) result
    refine ⟨last, rfl, ended, climbed, ancestors, ?_⟩
    cases step <;> exact marks

theorem climb_terminates (cutoff) (ha : CandidatesAbove tka chosen frontier.marks)
    (hb : Bounded tka frontier) (he : unvisited tka frontier.marks.ancestors ≤ remaining)
    : ∃ final,
      tka.climb remaining frontier.queue (frontier.found tka cutoff) = .ok final := by
  induction remaining using Nat.strong_induction_on generalizing frontier with
  | _ remaining ih =>
    rcases climb_cases hv cutoff ha with
      ⟨done, ended⟩ | ⟨skipped, hash, rest, form, done, hn, needed, next⟩
    · exact ⟨_, ended _⟩
    have hm : hash ∈ frontier.queue := by simp [form]
    have hi := hb.known hash hm
    obtain ⟨less, rfl, hf⟩ := exists_pred_of_unvisited hi (hn hi) he
    have hr : hash ≠ tka.oldest := by
      rintro rfl
      exact hn hi (hb.root hm)
    obtain ⟨parent, link⟩ := ne_none_iff_exists'.mp (mt (up_eq_none_iff hv hi).mp hr)
    obtain ⟨_, step, heq⟩ := next less parent hi link
    have hh := parentClosed_up hv hash hi parent link
    rw [heq]
    refine ih less (Nat.lt_succ_self _) ?_ (step.bounded hb form hh) ?_
    · cases step <;> exact { ha with }
    · refine Nat.le_trans (unvisited_mono fun _ visited => ?_) hf
      cases step with
      | kept => exact visited
      | moved => exact mem_append_right _ (mem_cons_of_mem _ visited)
      | pushed => exact visited

theorem adjustToCheckpoint_eq (cutoff) (marks : Marks) {cursor}
    (ha : Ascent tka.up cursor path) (hi : cursor ∈ stored tka.aums) (he : path.length ≤ fuel)
    : ∃ front last back, path = front ++ last :: back
      ∧ tka.adjustToCheckpoint fuel (marks.verdict tka cutoff) cursor
        = .ok (({ marks with active := last :: (front.reverse ++ marks.active) } : Marks).verdict
          tka cutoff, last)
      ∧ ∃ aum, tka.aums.get? last = some aum ∧ aum.kind = kindCheckpoint := by
  induction fuel generalizing cursor path marks with
  | zero =>
    obtain ⟨rest, rfl⟩ := ha.eq_cons
    simp at he
  | succ fuel ih =>
    obtain ⟨aum, hf⟩ := hi
    have hi : cursor ∈ stored tka.aums := ⟨aum, hf⟩
    unfold adjustToCheckpoint
    rw [hf, logicalParent_eq hi, mark_setActive]
    by_cases checkpoint : aum.kind = kindCheckpoint
    · obtain ⟨rest, rfl⟩ := ha.eq_cons
      refine ⟨[], cursor, rest, rfl, ?_, aum, hf, checkpoint⟩
      simp [checkpoint]
    cases ha with
    | root top =>
      obtain ⟨root, heq, kind, -⟩ := hv.root
      rw [← (up_eq_none_iff hv hi).mp top, hf] at heq
      cases heq
      exact absurd kind checkpoint
    | @step _ above path link onward =>
      have hh := parentClosed_up hv cursor hi above link
      obtain ⟨front, last, back, rfl, result, kind⟩ :=
        ih { marks with active := cursor :: marks.active } onward hh (Nat.le_of_succ_le_succ he)
      refine ⟨cursor :: front, last, back, rfl, ?_, kind⟩
      rw [link, reverse_cons, append_assoc]
      simp only [bind, Except.bind, if_neg checkpoint]
      exact result

end Climb

--------
-- The kept updates
--------

/-- A set of updates that a compaction may keep, with the checkpoint that all paths lead to. -/
structure Retained (cutoff : SystemTime) (minChain : Nat) (kept : TailscaleAumHash → Prop)
    (oldest : TailscaleAumHash)
    : Prop where
  root : kept oldest
  checkpoint : ∃ aum, authority.aums.get? oldest = some aum ∧ aum.kind = kindCheckpoint
  closed : ∀ hash ∈ stored authority.aums, kept hash → hash ≠ oldest →
    ∃ parent, authority.up hash = some parent ∧ kept parent
  young : ∀ hash, isYoung authority cutoff hash → kept hash
  head : kept authority.head
  chain : ∀ path, Ascent authority.up authority.head path → ∀ hash ∈ path.take minChain, kept hash

/-- When the work list is done, every update has its parent, apart from the two candidates. -/
theorem Climbing.closed {chosen frontier} (hc : Climbing tka cutoff chosen frontier)
    (he : ∀ hash ∈ frontier.queue, hash ∈ frontier.marks.ancestors)
    (known : hash ∈ stored tka.aums) (hk : frontier.marks.Keeps tka cutoff hash)
    : hash = chosen
      ∨ (∃ parent, tka.up hash = some parent
        ∧ frontier.marks.Keeps tka cutoff parent)
      ∨ frontier.adjusted = true ∧ hash = frontier.candidate := by
  rcases hc.connected hash known hk with
    first | ⟨fresh, waiting⟩ | ⟨parent, link, origin⟩ | moved
  · exact .inl first
  · exact absurd (he hash waiting) fresh
  · refine .inr (.inl ⟨parent, link, ?_⟩)
    rcases origin with keeps | waiting
    · exact keeps
    · exact .inr (.inr (.inr (he parent waiting)))
  · exact .inr (.inr moved)

variable {next : TailscaleTkaAuthority} {count : Nat}

section Selected

variable {minChain : Nat} {front back path : List TailscaleAumHash} {chosen : TailscaleAumHash}

namespace Selection

variable (hse : Selection tka cutoff minChain front chosen back)

include hse

theorem head_mem : tka.head ∈ front ++ [chosen] := by
  obtain ⟨_, form⟩ := hse.ascent.eq_cons
  cases front with
  | nil => simp [(cons.inj form).1]
  | cons _ front => simp [(cons.inj form).1]

/-- The last updates of the chain are among those the first pass marks. -/
theorem chain_mem (ha : Ascent tka.up tka.head path) (hm : hash ∈ path.take minChain)
    : hash ∈ front ++ [chosen] := by
  rw [ha.unique hse.ascent] at hm
  rcases hse.long with long | rfl
  · rw [take_append_of_le_length long] at hm
    exact mem_append_left _ (mem_of_mem_take hm)
  · exact mem_of_mem_take hm

theorem candidatesAbove (active : marks.active = front ++ [chosen])
    (candidates : marks.candidates = back)
    : CandidatesAbove tka chosen marks := by
  obtain ⟨aum, hf, -⟩ := hse.checkpoint
  refine ⟨⟨aum, hf⟩, ?_, fun hash ha hb => ?_⟩
  · rw [candidates]
    exact hse.ascent.drop
  · have nodup := hse.ascent.nodup
    rw [append_cons] at nodup
    rw [candidates] at ha
    rw [active] at hb
    exact (nodup_append.mp nodup).2.2 hash hb hash ha rfl

end Selection

/-- The work list starts with what is kept so far, apart from the candidate. -/
def startOf (cutoff : SystemTime) (marks : Marks) (chosen : TailscaleAumHash)
    : Frontier where
  queue := (marks.verdict authority cutoff).hashesWith fun hash retention =>
    decide (hash ≠ chosen) && retention.masked
  marks := marks
  candidate := chosen
  adjusted := false

theorem mem_startOf_queue
    : hash ∈ (startOf tka cutoff marks chosen).queue
      ↔ hash ∈ stored tka.aums ∧ hash ≠ chosen ∧ marks.Keeps tka cutoff hash := by
  rw [startOf, mem_hashesWith, Bool.and_eq_true, decide_eq_true_eq, masked_iff]

theorem climbing_startOf (cutoff) (ha : CandidatesAbove tka chosen marks)
    (unvisited : marks.ancestors = [])
    : Climbing tka cutoff chosen (startOf tka cutoff marks chosen) := by
  refine ⟨ha, fun hash known hk => ?_, fun _ => rfl, fun impossible => ?_⟩
  · by_cases first : hash = chosen
    · exact .inl first
    refine .inr (.inl ⟨?_, mem_startOf_queue.mpr ⟨known, first, hk⟩⟩)
    rw [show (startOf tka cutoff marks chosen).marks = marks from rfl, unvisited]
    exact not_mem_nil
  · cases impossible

/-- From a moved candidate up to its checkpoint, everything is marked. -/
theorem Climbing.retained_of_adjusted (hc : Climbing tka cutoff chosen after)
    (ended : ∀ hash ∈ after.queue, hash ∈ after.marks.ancestors)
    (hse : Selection tka cutoff minChain front chosen back)
    (hs : ∀ hash ∈ front ++ [chosen], hash ∈ after.marks.active)
    (adjusted : after.adjusted = true) {climb last}
    (onward : Ascent tka.up after.candidate (climb ++ last :: rest))
    (checkpoint : ∃ aum, tka.aums.get? last = some aum ∧ aum.kind = kindCheckpoint) {final}
    (finished
      : final = { after.marks with active := last :: (climb.reverse ++ after.marks.active) })
    : Retained tka cutoff minChain (final.Keeps tka cutoff) last := by
  obtain ⟨lower, _, split, marked⟩ := hc.moved adjusted
  have ha := hc.above.ascent
  rw [split] at ha
  have raised : ∀ hash ∈ climb ++ [last], hash ∈ final.active := by
    simp only [finished, forall_mem_append, forall_mem_singleton]
    exact ⟨fun hash early => by simp [early], mem_cons_self⟩
  have keeps : ∀ hash, after.marks.Keeps tka cutoff hash → final.Keeps tka cutoff hash := by
    rw [finished]
    exact fun _ hk => hk.imp (mem_append_right (last :: climb.reverse)) id
  have upward : ∀ hash ∈ climb, ∃ parent, tka.up hash = some parent
      ∧ final.Keeps tka cutoff parent := by
    intro hash hm
    obtain ⟨parent, link, next⟩ := onward.parent_mem climb hm
    exact ⟨parent, link, .inl (raised parent next)⟩
  refine ⟨.inl (raised last (by simp)), checkpoint, fun hash known hk hr => ?_,
    fun hash young => .inr (.inl young), keeps _ (.inl (hs _ hse.head_mem)),
    fun path ha hash hm => keeps _ (.inl (hs _ (hse.chain_mem ha hm)))⟩
  have origin : hash ∈ climb ∨ after.marks.Keeps tka cutoff hash := by
    rw [finished] at hk
    rcases hk with active | others
    · rcases mem_cons.mp active with he | hm
      · exact absurd he hr
      · exact (mem_append.mp hm).imp mem_reverse.mp .inl
    · exact .inr (.inr others)
  rcases origin with onClimb | old
  · exact upward hash onClimb
  rcases hc.closed ended known old with first | ⟨parent, link, connected⟩ | ⟨-, hp⟩
  · -- Above the first candidate, the path to the present one is marked.
    rw [first]
    cases lower <;> exact ⟨_, ha.link [], keeps _ (.inr (.inr (.inr (marked _ mem_cons_self))))⟩
  · exact ⟨parent, link, keeps parent connected⟩
  obtain ⟨others, path⟩ := onward.eq_cons
  cases climb with
  | nil => exact absurd (hp.trans (cons.inj path).1.symm) hr
  | cons first climb =>
    refine upward hash ?_
    rw [hp, ← (cons.inj path).1]
    exact mem_cons_self

variable {oldest : TailscaleAumHash}

/-- The authority without the updates that are not kept. -/
structure CompactedTo (kept : TailscaleAumHash → Prop) (oldest : TailscaleAumHash)
    (next : TailscaleTkaAuthority)
    : Prop where
  head : next.head = authority.head
  state : next.state = authority.state
  oldest : next.oldest = oldest
  aums : ∀ {hash aum}, next.aums.get? hash = some aum
    ↔ authority.aums.get? hash = some aum ∧ kept hash
  times : ∀ {hash time}, next.commitTimes.get? hash = some time
    ↔ authority.commitTimes.get? hash = some time ∧ (hash ∈ stored authority.aums → kept hash)

theorem finishCompaction_eq (cutoff) (marks : Marks) (known : oldest ∈ stored tka.aums)
    : ∃ count next, tka.finishCompaction oldest (marks.verdict tka cutoff)
        = .ok (count, next)
      ∧ CompactedTo tka (marks.Keeps tka cutoff) oldest next := by
  have hc := containsKey_iff.mpr known
  have deleted {hash : TailscaleAumHash}
      : hash ∈ (marks.verdict tka cutoff).hashesWith (fun _ retention => !retention.masked)
        ↔ hash ∈ stored tka.aums ∧ ¬marks.Keeps tka cutoff hash := by
    rw [mem_hashesWith, ← marks.masked_iff tka cutoff, Bool.not_eq_true']
    simp
  refine ⟨_, _, if_neg (by simp [hc]), rfl, rfl, rfl, ?_, ?_⟩
  · intro hash aum
    rw [get?_foldl_erase_eq_some, deleted, not_and, not_not]
    exact and_congr_right fun hf => ⟨fun hk => hk ⟨aum, hf⟩, fun hk _ => hk⟩
  · intro hash time
    rw [get?_foldl_erase_eq_some, deleted, not_and, not_not]

variable (hv : StoreValid crypto tka.aums tka.oldest)
  (hse : Selection tka cutoff minChain front chosen back)

include hv hse

theorem markCompactionIntersections_eq (active : marks.active = front ++ [chosen])
    (candidates : marks.candidates = back) (unvisited : marks.ancestors = []) {found}
    (climbed : tka.climb maxSyncIterations (startOf tka cutoff marks chosen).queue
      ((startOf tka cutoff marks chosen).found tka cutoff) = .ok found)
    : ∃ (final : Marks) (oldest : TailscaleAumHash),
      tka.markCompactionIntersections (marks.verdict tka cutoff) chosen
        = .ok (final.verdict tka cutoff, oldest)
      ∧ Retained tka cutoff minChain (final.Keeps tka cutoff) oldest := by
  have ha := hse.candidatesAbove active candidates
  obtain ⟨after, rfl, ended, hc, _, he⟩ :=
    climb_eq_ok hv (climbing_startOf cutoff ha unvisited) climbed
  have hl : ∀ hash ∈ front ++ [chosen], hash ∈ after.marks.active := by
    intro hash hm
    rw [he, ← active] at *
    exact hm
  cases adjusted : after.adjusted with
  | false =>
    refine ⟨after.marks, chosen, bind_eq_ok.mpr ⟨_, climbed, ?_⟩, .inl (hl _ (by simp)),
      hse.checkpoint, fun hash known hk hr => ?_, fun hash young => .inr (.inl young),
      .inl (hl _ hse.head_mem),
      fun path hs hash hm => .inl (hl _ (hse.chain_mem hs hm))⟩
    · rw [Frontier.found, adjusted, hc.unmoved adjusted]
      rfl
    · rcases hc.closed ended known hk with first | connected | ⟨moved, -⟩
      · exact absurd first hr
      · exact connected
      rw [adjusted] at moved
      cases moved
  | true =>
    obtain ⟨_, upper, split, _⟩ := hc.moved adjusted
    have hs := hc.above.ascent
    rw [split] at hs
    have hi := mem_stored_of_ascent hv hs hc.above.known after.candidate (by simp)
    have onward : Ascent tka.up after.candidate (after.candidate :: upper) := by
      rw [← cons_append] at hs
      exact hs.drop
    obtain ⟨_, last, _, path, moved, checkpoint⟩ := adjustToCheckpoint_eq hv cutoff
      after.marks onward hi (length_le_len_of_ascent hv onward hi)
    rw [path] at onward
    exact ⟨_, last, bind_eq_ok.mpr ⟨_, climbed, (if_pos adjusted).trans moved⟩,
      hc.retained_of_adjusted ended hse hl adjusted onward checkpoint rfl⟩

--------
-- The compacted authority
--------

theorem compactFrom_eq_ok (result : tka.compactFrom
      (({ active := front ++ [chosen], candidates := back } : Marks).verdict tka cutoff)
      chosen = .ok (count, next))
    : ∃ kept oldest, Retained tka cutoff minChain kept oldest
      ∧ CompactedTo tka kept oldest next := by
  obtain ⟨_, spread, hr⟩ := bind_eq_ok.mp result
  obtain ⟨_, rfl, -⟩ := spreadLeaves_eq_ok hv spread
  obtain ⟨_, intersected, finished⟩ := bind_eq_ok.mp hr
  obtain ⟨_, climbed, -⟩ := bind_eq_ok.mp intersected
  obtain ⟨final, oldest, result, retained⟩ :=
    markCompactionIntersections_eq hv hse rfl rfl rfl climbed
  cases intersected.symm.trans result
  obtain ⟨aum, hf, -⟩ := retained.checkpoint
  obtain ⟨_, _, he, compacted⟩ := finishCompaction_eq cutoff final ⟨aum, hf⟩
  cases he.symm.trans finished
  exact ⟨_, oldest, retained, compacted⟩

variable (known : tka.head ∈ stored tka.aums)

include known

theorem Selection.oldest_mem : back = [] ∧ chosen = tka.oldest ∨ tka.oldest ∈ back := by
  have ha := hse.ascent
  rcases eq_nil_or_concat back with rfl | ⟨_, _, rfl⟩
  · exact .inl ⟨rfl, last_eq_oldest hv ha known⟩
  rw [concat_eq_append] at ha ⊢
  rw [← cons_append, ← append_assoc] at ha
  rw [last_eq_oldest hv ha known]
  exact .inr (by simp)

theorem climb_startOf_terminates (active : marks.active = front ++ [chosen])
    (candidates : marks.candidates = back) (visited : marks.ancestors = [])
    (hs : tka.aums.len ≤ maxSyncIterations)
    (root : marks.Keeps tka cutoff tka.oldest → chosen = tka.oldest)
    : ∃ found, tka.climb maxSyncIterations (startOf tka cutoff marks chosen).queue
      ((startOf tka cutoff marks chosen).found tka cutoff) = .ok found := by
  have hb : Bounded tka (startOf tka cutoff marks chosen) := by
    refine ⟨fun _ waiting => (mem_startOf_queue.mp waiting).1, fun waiting => ?_, ?_⟩
    · obtain ⟨-, hne, hk⟩ := mem_startOf_queue.mp waiting
      exact absurd (root hk).symm hne
    · rw [show (startOf tka cutoff marks chosen).marks = marks from rfl, active, candidates]
      refine (hse.oldest_mem hv known).imp ?_ id
      rintro ⟨-, heq⟩
      simp [heq]
  have he : unvisited tka (startOf tka cutoff marks chosen).marks.ancestors
      ≤ maxSyncIterations := by
    rw [show (startOf tka cutoff marks chosen).marks = marks from rfl, visited, unvisited_nil]
    exact hs
  exact climb_terminates hv cutoff (hse.candidatesAbove active candidates) hb he

theorem compactFrom_terminates (hs : tka.aums.len ≤ maxSyncIterations)
    (root : isYoung tka cutoff tka.oldest → chosen = tka.oldest)
    : ∃ count next, tka.compactFrom
      (({ active := front ++ [chosen], candidates := back } : Marks).verdict tka cutoff)
      chosen = .ok (count, next) := by
  generalize start : ({ active := front ++ [chosen], candidates := back } : Marks) = marks
  have queued {hash : TailscaleAumHash}
      : hash ∈ (marks.verdict tka cutoff).hashesWith (fun _ retention => retention.masked)
        ↔ hash ∈ stored tka.aums ∧ marks.Keeps tka cutoff hash := by
    rw [mem_hashesWith, masked_iff]
  have he : unvisited tka marks.leaves ≤ maxSyncIterations := by
    rw [← start, unvisited_nil]
    exact hs
  obtain ⟨_, spread⟩ := spreadLeaves_terminates hv cutoff marks (fun hash hm => (queued.mp hm).1) he
  obtain ⟨leaves, rfl, leafSpread⟩ := spreadLeaves_eq_ok hv spread
  have first : marks.Keeps tka cutoff tka.oldest → chosen = tka.oldest := by
    rw [← start]
    rintro (active | young | leaf | ancestor)
    · rcases hse.oldest_mem hv known with ⟨-, heq⟩ | ha
      · exact heq
      have nodup := hse.ascent.nodup
      rw [append_cons] at nodup
      exact absurd rfl ((nodup_append.mp nodup).2.2 _ active _ ha)
    · exact root young
    · cases leaf
    · cases ancestor
  have still : ({ marks with leaves } : Marks).Keeps tka cutoff tka.oldest →
      chosen = tka.oldest := by
    rintro (active | young | leaf | ancestor)
    · exact first (.inl active)
    · exact root young
    · rcases leafSpread.root leaf with hb | waiting
      · exact first (.inr (.inr (.inl hb)))
      · exact first (queued.mp waiting).2
    · exact first (.inr (.inr (.inr ancestor)))
  subst start
  obtain ⟨_, climbed⟩ := climb_startOf_terminates hv hse known rfl rfl rfl hs still
  obtain ⟨final, _, result, retained⟩ :=
    markCompactionIntersections_eq hv hse rfl rfl rfl climbed
  obtain ⟨aum, hf, -⟩ := retained.checkpoint
  obtain ⟨count, next, finished, -⟩ := finishCompaction_eq cutoff final ⟨aum, hf⟩
  exact ⟨count, next, bind_eq_ok.mpr ⟨_, spread, bind_eq_ok.mpr ⟨_, result, finished⟩⟩⟩

end Selected

section Compacting

variable {options : TailscaleTkaCompactionOptions} {now : SystemTime}

/-- Below a young update everything is young. -/
theorem young_of_ascent (inherited : ∀ hash parent, tka.up hash = some parent →
      isYoung tka cutoff parent → isYoung tka cutoff hash)
    (ha : Ascent tka.up hash path) {top} (hm : top ∈ path) (young : isYoung tka cutoff top)
    : isYoung tka cutoff hash := by
  induction ha with
  | root => rwa [← mem_singleton.mp hm]
  | step link _ ih =>
    rcases mem_cons.mp hm with rfl | hr
    · exact young
    · exact inherited _ _ link (ih hr)

variable (hv : AuthorityValid crypto tka)
include hv

theorem compactAt_eq_ok (hr : Rooted tka) (result : tka.compactAt options now = .ok (count, next))
    : ∃ kept oldest,
      Retained tka (compactionCutoff options now) options.minChain kept oldest
      ∧ CompactedTo tka kept oldest next := by
  by_cases unusable : options.minChain = 0 ∨ options.minAge.nanos = 0
  · rw [compactAt, if_pos unusable] at result
    cases result
  obtain ⟨chain, age⟩ := not_or.mp unusable
  obtain ⟨_, _, _, hse, he⟩ := compactAt_eq hv hr chain age now
  rw [he] at result
  exact compactFrom_eq_ok hv.store hse result

theorem compactAt_terminates (hr : Rooted tka) (chain : options.minChain ≠ 0)
    (age : options.minAge.nanos ≠ 0) (hs : tka.aums.len ≤ maxSyncIterations)
    (inherited : ∀ hash parent, tka.up hash = some parent →
      isYoung tka (compactionCutoff options now) parent →
      isYoung tka (compactionCutoff options now) hash)
    : ∃ count next, tka.compactAt options now = .ok (count, next) := by
  obtain ⟨_, _, _, hse, he⟩ := compactAt_eq hv hr chain age now
  rw [he]
  refine compactFrom_terminates hv.store hse hv.head_stored hs fun young => ?_
  rcases hse.oldest_mem hv.store hv.head_stored with ⟨-, root⟩ | ha
  · exact root
  -- A checkpoint below a young one is young, so that only the oldest update is chosen.
  have hb := young_of_ascent inherited hse.ascent.drop (mem_cons_of_mem _ ha) young
  rcases hse.settled with old | none
  · rw [old] at hb
    cases hb
  rw [none] at ha
  cases ha

end Compacting

end Zay.Tailscale
