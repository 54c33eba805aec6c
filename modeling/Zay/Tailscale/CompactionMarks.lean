import Zay.Lib.Ascent
import Zay.Tailscale.AuthoritySync
import Zay.Tailscale.Compaction

/-! The passes of a compaction, each in terms of the updates that it marks. The store is a tree
below the oldest update, and the passes walk up its paths.
-/

namespace Zay.Tailscale

open Lib TailscaleTkaAuthority OrderedMap List

variable {crypto : TkaPrimitives} {tka : TailscaleTkaAuthority} {cutoff : SystemTime}
  {hash parent cursor : TailscaleAumHash} {path : List TailscaleAumHash}

/-- The parent of an update below the oldest one. -/
def TailscaleTkaAuthority.up (authority : TailscaleTkaAuthority) (hash : TailscaleAumHash)
    : Option TailscaleAumHash :=
  if hash = authority.oldest then none else parentIn authority.aums hash

/-- From every update there is a way up. -/
def Rooted (authority : TailscaleTkaAuthority) : Prop :=
  ∀ hash ∈ stored authority.aums, ∃ path, Ascent authority.up hash path

theorem logicalParent_eq (hi : hash ∈ stored tka.aums)
    : tka.logicalParent hash = .ok (tka.up hash) := by
  obtain ⟨_, hf⟩ := hi
  unfold logicalParent up
  by_cases root : hash = tka.oldest
  · rw [if_pos root, if_pos root]
  · rw [if_neg root, if_neg root, hf, parentIn_of_stored hf]

theorem up_eq_some_iff
    : tka.up hash = some parent
      ↔ hash ≠ tka.oldest ∧ parentIn tka.aums hash = some parent := by
  unfold up
  split
  · simp [*]
  · simp [*]

section Tree

variable (hv : StoreValid crypto tka.aums tka.oldest)

include hv

theorem oldest_stored : tka.oldest ∈ stored tka.aums := by
  obtain ⟨root, hf, -⟩ := hv.root
  exact ⟨root, hf⟩

theorem parentClosed_up : ParentClosed tka.up (stored tka.aums) := by
  rintro hash ⟨aum, hf⟩ ha link
  obtain ⟨hr, link⟩ := up_eq_some_iff.mp link
  rw [parentIn_of_stored hf] at link
  obtain ⟨_, previous, hi⟩ := hv.parent_stored hf hr
  cases previous.symm.trans link
  exact hi

theorem up_eq_none_iff (hi : hash ∈ stored tka.aums)
    : tka.up hash = none ↔ hash = tka.oldest := by
  obtain ⟨aum, hf⟩ := hi
  unfold up
  split
  · simp [*]
  next hr =>
    obtain ⟨_, previous, -⟩ := hv.parent_stored hf hr
    simp [parentIn_of_stored hf, previous, hr]

theorem up_of_previous {aum} (hf : tka.aums.get? hash = some aum)
    (previous : aum.previous = some parent) (hi : parent ∈ stored tka.aums)
    : tka.up hash = some parent := by
  obtain ⟨_, parentFound⟩ := hi
  rw [up, if_neg (hv.ne_oldest hf previous parentFound), parentIn_of_stored hf, previous]

theorem mem_childHashes_iff (hi : parent ∈ stored tka.aums)
    : hash ∈ tka.childHashes parent
      ↔ hash ∈ stored tka.aums ∧ tka.up hash = some parent := by
  simp only [childHashes, mem_map, Prod.exists, exists_and_right, exists_eq_right, mem_childrenOf]
  constructor
  · rintro ⟨aum, hf, previous⟩
    exact ⟨⟨aum, hf⟩, up_of_previous hv hf previous hi⟩
  · rintro ⟨⟨aum, hf⟩, link⟩
    obtain ⟨-, link⟩ := up_eq_some_iff.mp link
    rw [parentIn_of_stored hf] at link
    exact ⟨aum, hf, link⟩

theorem mem_stored_of_ascent (ha : Ascent tka.up hash path) (hi : hash ∈ stored tka.aums)
    : ∀ member ∈ path, member ∈ stored tka.aums :=
  ha.mem_of_parentClosed (parentClosed_up hv) hi

theorem length_le_len_of_ascent (ha : Ascent tka.up hash path) (hi : hash ∈ stored tka.aums)
    : path.length ≤ tka.aums.len := by
  have keys : ∀ member ∈ path, member ∈ tka.aums.keys := fun member hr =>
    mem_keys_iff.mpr (mem_stored_of_ascent hv ha hi member hr)
  simpa [OrderedMap.keys, len] using ha.length_le keys

/-- The path up ends at the oldest update. -/
theorem last_eq_oldest {front last} (ha : Ascent tka.up hash (front ++ [last]))
    (hi : hash ∈ stored tka.aums)
    : last = tka.oldest := by
  have hm := mem_stored_of_ascent hv ha hi last (by simp)
  exact (up_eq_none_iff hv hm).mp ha.top_of_last

end Tree

/-- The updates that carry each mark, apart from those that are young. -/
structure Marks where
  active : List TailscaleAumHash := []
  leaves : List TailscaleAumHash := []
  ancestors : List TailscaleAumHash := []
  candidates : List TailscaleAumHash := []

def isYoung (authority : TailscaleTkaAuthority) (cutoff : SystemTime) (hash : TailscaleAumHash)
    : Bool :=
  (authority.commitTimes.get? hash).any fun committedAt =>
    cutoff.sinceEpoch < committedAt.sinceEpoch

namespace Marks

variable (tka cutoff) (marks : Marks) {next : Marks}

def retention (hash : TailscaleAumHash) : Retention where
  active := decide (hash ∈ marks.active)
  young := isYoung tka cutoff hash
  leaf := decide (hash ∈ marks.leaves)
  ancestor := decide (hash ∈ marks.ancestors)
  candidate := decide (hash ∈ marks.candidates)

def verdict : Verdict :=
  tka.aums.mapWithKey fun hash _ => marks.retention tka cutoff hash

/-- The marks keep the update. -/
def Keeps (hash : TailscaleAumHash) : Prop :=
  hash ∈ marks.active ∨ isYoung tka cutoff hash ∨ hash ∈ marks.leaves
  ∨ hash ∈ marks.ancestors

theorem masked_iff
    : (marks.retention tka cutoff hash).masked ↔ marks.Keeps tka cutoff hash := by
  simp [Retention.masked, retention, Keeps, or_assoc]

theorem get?_verdict (hash)
    : (marks.verdict tka cutoff).get? hash
      = (tka.aums.get? hash).map fun _ => marks.retention tka cutoff hash := by
  rw [verdict, get?_mapWithKey]

theorem get?_verdict_of_stored (hi : hash ∈ stored tka.aums)
    : (marks.verdict tka cutoff).get? hash
      = some (marks.retention tka cutoff hash) := by
  obtain ⟨_, hf⟩ := hi
  rw [get?_verdict, hf, Option.map_some]

theorem containsKey_verdict
    : (marks.verdict tka cutoff).containsKey hash ↔ hash ∈ stored tka.aums := by
  simp [containsKey_iff, get?_verdict, stored]

theorem any_verdict {flag}
    : ((marks.verdict tka cutoff).get? hash).any flag
      ↔ hash ∈ stored tka.aums ∧ flag (marks.retention tka cutoff hash) := by
  rw [get?_verdict]
  cases hf : tka.aums.get? hash with
  | none => simp [stored, hf]
  | some _ => simp [stored, hf]

theorem mem_hashesWith {keep}
    : hash ∈ (marks.verdict tka cutoff).hashesWith keep
      ↔ hash ∈ stored tka.aums ∧ keep hash (marks.retention tka cutoff hash) := by
  simp only [Verdict.hashesWith, mem_map, mem_filter, Prod.exists, exists_and_right,
    exists_eq_right, ← get?_eq_some_iff, get?_verdict, Option.map_eq_some_iff]
  constructor
  · rintro ⟨_, ⟨hk, rfl⟩, kept⟩
    exact ⟨hk, kept⟩
  · rintro ⟨hk, kept⟩
    exact ⟨_, ⟨hk, rfl⟩, kept⟩

theorem mark_eq {flag}
    (here : next.retention tka cutoff hash = flag (marks.retention tka cutoff hash))
    (others : ∀ other ≠ hash,
      next.retention tka cutoff other = marks.retention tka cutoff other)
    : (marks.verdict tka cutoff).mark flag hash = next.verdict tka cutoff := by
  refine ext fun other => ?_
  rw [Verdict.mark, get?_mapValues, get?_verdict, get?_verdict, Option.map_map]
  by_cases he : other = hash
  · simp [Function.comp_def, he, here]
  · simp [Function.comp_def, he, others]

@[simp] theorem mark_setActive
    : (marks.verdict tka cutoff).mark .setActive hash
      = ({ marks with active := hash :: marks.active } : Marks).verdict tka cutoff :=
  mark_eq _ _ _ (by simp [retention, Retention.setActive]) fun _ ha => by simp [retention, ha]

@[simp] theorem mark_setLeaf
    : (marks.verdict tka cutoff).mark .setLeaf hash
      = ({ marks with leaves := hash :: marks.leaves } : Marks).verdict tka cutoff :=
  mark_eq _ _ _ (by simp [retention, Retention.setLeaf]) fun _ ha => by simp [retention, ha]

@[simp] theorem mark_setAncestor
    : (marks.verdict tka cutoff).mark .setAncestor hash
      = ({ marks with ancestors := hash :: marks.ancestors } : Marks).verdict tka cutoff :=
  mark_eq _ _ _ (by simp [retention, Retention.setAncestor]) fun _ ha => by
    simp [retention, ha]

@[simp] theorem mark_setCandidate
    : (marks.verdict tka cutoff).mark .setCandidate hash
      = ({ marks with candidates := hash :: marks.candidates } : Marks).verdict tka
        cutoff :=
  mark_eq _ _ _ (by simp [retention, Retention.setCandidate]) fun _ ha => by
    simp [retention, ha]

/-- Only which updates are marked matters. -/
theorem verdict_congr (active : ∀ hash, hash ∈ marks.active ↔ hash ∈ next.active)
    (leaves : ∀ hash, hash ∈ marks.leaves ↔ hash ∈ next.leaves)
    (ancestors : ∀ hash, hash ∈ marks.ancestors ↔ hash ∈ next.ancestors)
    (candidates : ∀ hash, hash ∈ marks.candidates ↔ hash ∈ next.candidates)
    : marks.verdict tka cutoff = next.verdict tka cutoff := by
  refine ext fun hash => ?_
  rw [get?_verdict, get?_verdict]
  simp [retention, active, leaves, ancestors, candidates]

theorem youngVerdict_eq
    : tka.youngVerdict cutoff = ({} : Marks).verdict tka cutoff := by
  simp [youngVerdict, verdict, retention, isYoung]

end Marks

section Candidate

variable {marks : Marks} (hv : StoreValid crypto tka.aums tka.oldest)

include hv

variable (cutoff : SystemTime) (marks : Marks) {fuel : Nat}

/-- The walk stops after the number of steps, or at the oldest update. -/
theorem markActiveChain_eq (ha : Ascent tka.up cursor path)
    (hi : cursor ∈ stored tka.aums) (steps : Nat)
    : (∃ front next rest, path = front ++ next :: rest ∧ front.length = steps
        ∧ tka.markActiveChain steps (marks.verdict tka cutoff) cursor
          = .ok (({ marks with active := front.reverse ++ marks.active } : Marks).verdict
            tka cutoff, next, false))
      ∨ ∃ front last, path = front ++ [last] ∧ path.length ≤ steps
        ∧ tka.markActiveChain steps (marks.verdict tka cutoff) cursor
          = .ok (({ marks with active := path.reverse ++ marks.active } : Marks).verdict
            tka cutoff, last, true) := by
  induction steps generalizing cursor path marks with
  | zero =>
    obtain ⟨rest, rfl⟩ := ha.eq_cons
    exact .inl ⟨[], cursor, rest, rfl, rfl, rfl⟩
  | succ steps ih =>
    unfold markActiveChain
    rw [Verdict.markKnown, if_pos ((marks.containsKey_verdict tka cutoff).mpr hi),
      logicalParent_eq hi, Marks.mark_setActive]
    cases ha with
    | root top =>
      rw [top]
      exact .inr ⟨[], cursor, rfl, Nat.succ_le_succ (Nat.zero_le _), rfl⟩
    | @step _ above path link onward =>
      rw [link]
      have hh := parentClosed_up hv cursor hi above link
      rcases ih { marks with active := cursor :: marks.active } onward hh with
        ⟨front, next, rest, rfl, length, result⟩ | ⟨front, last, rfl, short, result⟩
      · refine .inl ⟨cursor :: front, next, rest, rfl, by rw [length_cons, length], ?_⟩
        rw [reverse_cons, append_assoc]
        exact result
      refine .inr ⟨cursor :: front, last, rfl, Nat.succ_le_succ short, ?_⟩
      rw [reverse_cons, append_assoc]
      exact result

theorem markToCheckpoint_eq (ha : Ascent tka.up cursor path)
    (hi : cursor ∈ stored tka.aums) (he : path.length ≤ fuel)
    : ∃ front chosen back, path = front ++ chosen :: back
      ∧ tka.markToCheckpoint fuel (marks.verdict tka cutoff) cursor
        = .ok (({ marks with active := chosen :: (front.reverse ++ marks.active) } : Marks).verdict
          tka cutoff, chosen)
      ∧ (∃ aum, tka.aums.get? chosen = some aum ∧ aum.kind = kindCheckpoint)
      ∧ (isYoung tka cutoff chosen = false ∨ back = []) := by
  induction fuel generalizing cursor path marks with
  | zero =>
    obtain ⟨_, rfl⟩ := ha.eq_cons
    simp at he
  | succ fuel ih =>
    obtain ⟨aum, hf⟩ := hi
    have hi : cursor ∈ stored tka.aums := ⟨aum, hf⟩
    unfold markToCheckpoint
    rw [hf, marks.get?_verdict_of_stored tka cutoff hi, logicalParent_eq hi, Marks.mark_setActive]
    cases ha with
    | root top =>
      have checkpoint : aum.kind = kindCheckpoint := by
        obtain ⟨root, heq, checkpoint, -⟩ := hv.root
        rw [← (up_eq_none_iff hv hi).mp top, hf] at heq
        cases heq
        exact checkpoint
      refine ⟨[], cursor, [], rfl, ?_, ⟨aum, hf, checkpoint⟩, .inr rfl⟩
      simp only [top, bind, Except.bind, checkpoint, or_true, and_true, if_true]
      rfl
    | @step _ above path link onward =>
      by_cases chosen : aum.kind = kindCheckpoint ∧ isYoung tka cutoff cursor = false
      · refine ⟨[], cursor, path, rfl, ?_, ⟨aum, hf, chosen.1⟩, .inl chosen.2⟩
        have condition : aum.kind = kindCheckpoint
            ∧ ((marks.retention tka cutoff cursor).young = false
              ∨ tka.up cursor = none) := ⟨chosen.1, .inl chosen.2⟩
        simp only [bind, Except.bind, if_pos condition]
        rfl
      have hh := parentClosed_up hv cursor hi above link
      obtain ⟨front, last, back, rfl, result, kind, hs⟩ :=
        ih { marks with active := cursor :: marks.active } onward hh (Nat.le_of_succ_le_succ he)
      refine ⟨cursor :: front, last, back, rfl, ?_, kind, hs⟩
      have condition : ¬(aum.kind = kindCheckpoint
          ∧ ((marks.retention tka cutoff cursor).young = false
            ∨ some above = none)) := by
        rintro ⟨checkpoint, old | nothing⟩
        · exact chosen ⟨checkpoint, old⟩
        · cases nothing
      rw [link, reverse_cons, append_assoc]
      simp only [bind, Except.bind, if_neg condition]
      exact result

theorem markCandidates_eq {rest} (ha : Ascent tka.up cursor (cursor :: rest))
    (hi : cursor ∈ stored tka.aums) (he : rest.length < fuel)
    : tka.markCandidates fuel (marks.verdict tka cutoff) cursor
      = .ok (({ marks with candidates := rest.reverse ++ marks.candidates } : Marks).verdict
        tka cutoff) := by
  induction fuel generalizing cursor rest marks with
  | zero => omega
  | succ fuel ih =>
    unfold markCandidates
    rw [logicalParent_eq hi]
    cases ha with
    | root top =>
      rw [top]
      rfl
    | @step _ above _ link onward =>
      have hh := parentClosed_up hv cursor hi above link
      obtain ⟨rest, rfl⟩ := onward.eq_cons
      have hk := (marks.containsKey_verdict tka cutoff).mpr hh
      have hr := ih { marks with candidates := above :: marks.candidates } onward
        hh (Nat.lt_of_succ_lt_succ he)
      simp only [link, bind, Except.bind, hk, if_true, Marks.mark_setCandidate, hr]
      rw [reverse_cons, append_assoc]
      rfl

end Candidate

/-- The path up from the head, split at the checkpoint that the first pass chooses. -/
structure Selection (authority : TailscaleTkaAuthority) (cutoff : SystemTime) (minChain : Nat)
    (front : List TailscaleAumHash) (chosen : TailscaleAumHash) (back : List TailscaleAumHash)
    : Prop where
  ascent : Ascent authority.up authority.head (front ++ chosen :: back)
  checkpoint : ∃ aum, authority.aums.get? chosen = some aum ∧ aum.kind = kindCheckpoint
  settled : isYoung authority cutoff chosen = false ∨ back = []
  long : minChain ≤ front.length ∨ back = []

theorem AuthorityValid.head_stored (hv : AuthorityValid crypto tka)
    : tka.head ∈ stored tka.aums := by
  obtain ⟨_, path⟩ := hv.path fun hf => hf
  rw [path.last]
  exact path.members _ (getLast_mem _)

/-- What is left to do after the first pass. -/
def TailscaleTkaAuthority.compactFrom (authority : TailscaleTkaAuthority) (verdict : Verdict)
    (chosen : TailscaleAumHash)
    : Except TailscaleTkaAuthorityError (Nat × TailscaleTkaAuthority) := do
  let verdict ← authority.markCompactionDescendants verdict
  let (verdict, oldest) ← authority.markCompactionIntersections verdict chosen
  authority.finishCompaction oldest verdict

theorem compactAt_eq (hv : AuthorityValid crypto tka) (hr : Rooted tka)
    {options} (chain : options.minChain ≠ 0) (age : options.minAge.nanos ≠ 0) (now)
    : ∃ front chosen back,
      Selection tka (compactionCutoff options now) options.minChain front chosen back
      ∧ tka.compactAt options now
        = tka.compactFrom
          (({ active := front ++ [chosen], candidates := back } : Marks).verdict tka
            (compactionCutoff options now)) chosen := by
  have store := hv.store
  have hi := hv.head_stored
  obtain ⟨_, ha⟩ := hr _ hi
  unfold compactAt
  generalize compactionCutoff options now = cutoff
  rw [if_neg (not_or.mpr ⟨chain, age⟩), Marks.youngVerdict_eq]
  rcases markActiveChain_eq store cutoff {} ha hi options.minChain with
    ⟨front, next, rest, rfl, length, walked⟩ | ⟨front, last, rfl, short, walked⟩
  · have nextInside := mem_stored_of_ascent store ha hi next (by simp)
    obtain ⟨more, chosen, back, form, marked, checkpoint, hs⟩ :=
      markToCheckpoint_eq store cutoff { active := front.reverse ++ [] } ha.drop nextInside
        (length_le_len_of_ascent store ha.drop nextInside)
    rw [form, ← append_assoc] at ha
    have chosenInside := mem_stored_of_ascent store ha hi chosen (by simp)
    have candidates := markCandidates_eq store cutoff
      { active := chosen :: (more.reverse ++ (front.reverse ++ [])) } ha.drop chosenInside
      (length_le_len_of_ascent store ha.drop chosenInside)
    refine ⟨front ++ more, chosen, back, ⟨ha, checkpoint, hs, ?_⟩, ?_⟩
    · rw [length_append, length]
      exact .inl (Nat.le_add_right _ _)
    · simp only [walked, bind, Except.bind, Bool.false_eq_true, if_false, marked, candidates]
      rw [Marks.verdict_congr]
      · rfl
      all_goals simp [or_comm, or_left_comm]
  · have lastInside := mem_stored_of_ascent store ha hi last (by simp)
    have root := last_eq_oldest store ha hi
    have candidates := markCandidates_eq store cutoff
      { active := (front ++ [last]).reverse ++ [] } ha.drop lastInside
      (length_le_len_of_ascent store ha.drop lastInside)
    refine ⟨front, last, [], ⟨ha, ?_, .inr rfl, .inr rfl⟩, ?_⟩
    · obtain ⟨aum, hf, checkpoint, -⟩ := store.root
      exact ⟨aum, root ▸ hf, checkpoint⟩
    · simp only [walked, bind, Except.bind, if_true, pure, Except.pure, candidates]
      rw [Marks.verdict_congr]
      · rfl
      all_goals simp [or_comm]

end Zay.Tailscale
