import Mathlib.Data.Finset.Basic
import Mathlib.Data.List.MinMax

/-! The pool of client sessions. A call that holds the lock reads the flag of a session once, so
a cancellation counts as before the call when it is seen and as after it otherwise. Only
`return_idle` reads the flags before it takes the lock.
-/

namespace Zay.AnyTls

open List

structure IdleSession where
  sequence : Nat
  since : Nat
  deriving DecidableEq

/-- Sessions are named by their sequence. -/
structure PoolState where
  sessions : Finset Nat := ∅
  idle : List IdleSession := []
  cancelled : Finset Nat := ∅
  poolCancelled : Bool := false
  /-- The calls of `return_idle` that wait for the lock. -/
  returning : List Nat := []

structure PoolOptions where
  idleTimeout : Nat
  minIdleSessions : Nat

namespace PoolState

/-- The order of the idle sessions counts nowhere, so `swap_remove` is a removal. -/
def checkoutLoop : Nat → PoolState → Option Nat × PoolState
  | 0, state => (none, state)
  | fuel + 1, state =>
    match state.idle.argmax (·.sequence) with
    | none => (none, state)
    | some found =>
      let next := { state with idle := state.idle.erase found }
      if found.sequence ∈ state.cancelled then
        checkoutLoop fuel { next with sessions := state.sessions.erase found.sequence }
      else (some found.sequence, next)

def checkout (state : PoolState) : Option Nat × PoolState :=
  checkoutLoop state.idle.length state

variable (options : PoolOptions) (now : Nat)

def Expired (idle : IdleSession) : Prop := options.idleTimeout ≤ now - idle.since

def cleanupLoop : List IdleSession → (active : Nat) → PoolState → PoolState
  | [], _, state => state
  | idle :: rest, active, state =>
    if idle.sequence ∈ state.cancelled then
      cleanupLoop rest active { state with sessions := state.sessions.erase idle.sequence }
    else if now - idle.since < options.idleTimeout then
      cleanupLoop rest (active + 1) { state with idle := state.idle ++ [idle] }
    else if active < options.minIdleSessions then
      cleanupLoop rest (active + 1)
        { state with idle := state.idle ++ [{ idle with since := now }] }
    else
      cleanupLoop rest active
        { state with
          cancelled := insert idle.sequence state.cancelled
          sessions := state.sessions.erase idle.sequence }

def cleanup (state : PoolState) : PoolState :=
  cleanupLoop options now (state.idle.mergeSort fun left right => right.sequence ≤ left.sequence) 0
    { state with idle := [] }

end PoolState

inductive PoolStep where
  | register (sequence : Nat)
  | checkout
  | checkReturn (sequence : Nat)
  | returnIdle (sequence now : Nat)
  | remove (sequence : Nat)
  | cleanup (now : Nat)
  | cancel (sequence : Nat)
  | cancelPool

namespace PoolState

def sequences (state : PoolState) : List Nat := state.idle.map (·.sequence)

def step (options : PoolOptions) (state : PoolState) : PoolStep → PoolState
  | .register sequence => { state with sessions := insert sequence state.sessions }
  | .checkout => state.checkout.2
  | .checkReturn sequence =>
    if state.poolCancelled ∨ sequence ∈ state.cancelled then state
    else { state with returning := sequence :: state.returning }
  | .returnIdle sequence now =>
    if sequence ∉ state.returning then state
    else
      let state := { state with returning := state.returning.erase sequence }
      if sequence ∈ state.sessions ∧ sequence ∉ state.sequences then
        { state with idle := state.idle ++ [⟨sequence, now⟩] }
      else state
  | .remove sequence =>
    { state with
      sessions := state.sessions.erase sequence
      idle := state.idle.filter (·.sequence ≠ sequence) }
  | .cleanup now => state.cleanup options now
  | .cancel sequence => { state with cancelled := insert sequence state.cancelled }
  | .cancelPool => { state with poolCancelled := true }

/-- No session is idle twice, and the idle ones are registered. -/
structure Sound (sequences : List Nat) (sessions : Finset Nat) : Prop where
  nodup : sequences.Nodup
  registered : ∀ sequence ∈ sequences, sequence ∈ sessions

variable {options : PoolOptions} {now sequence active : Nat} {state : PoolState}
  {sequences others : List Nat} {sessions : Finset Nat}

theorem Sound.drop (hs : Sound (sequences ++ sequence :: others) sessions)
    : sequence ∉ sequences ++ others ∧ Sound (sequences ++ others) (sessions.erase sequence) := by
  obtain ⟨hn, nodup⟩ := nodup_cons.mp (perm_middle.nodup_iff.mp hs.nodup)
  refine ⟨hn, nodup, fun other hm => ?_⟩
  refine Finset.mem_erase.mpr ⟨ne_of_mem_of_not_mem hm hn, hs.registered other ?_⟩
  exact perm_middle.mem_iff.mpr (mem_cons_of_mem _ hm)

/-- What a checkout hands out, and leaves. -/
structure HandsOut (state : PoolState) (result : Option Nat × PoolState) : Prop where
  sound : Sound result.2.sequences result.2.sessions
  within : ∀ sequence ∈ result.2.sequences, sequence ∈ state.sequences
  highest : ∀ sequence ∈ result.1, sequence ∈ state.sequences ∧ sequence ∉ state.cancelled
    ∧ ∀ other ∈ state.sequences, other ∉ state.cancelled → other ≤ sequence
  taken : ∀ sequence ∈ result.1, sequence ∉ result.2.sequences
  missed : result.1 = none → ∀ sequence ∈ state.sequences, sequence ∈ state.cancelled

/-- What a cleanup of the sessions in `queue` leaves, with those kept before. -/
structure CleansUp (options : PoolOptions) (now : Nat) (queue : List IdleSession) (active : Nat)
    (state after : PoolState) : Prop where
  sound : Sound after.sequences after.sessions
  within : ∀ sequence ∈ after.sequences, sequence ∈ state.sequences ++ queue.map (·.sequence)
  grows : ∀ sequence ∈ state.cancelled, sequence ∈ after.cancelled
  closed : ∀ sequence ∈ after.cancelled, sequence ∉ state.cancelled →
    ∃ idle ∈ queue, idle.sequence = sequence ∧ Expired options now idle
  kept : min options.minIdleSessions (active + queue.countP (·.sequence ∉ state.cancelled))
    ≤ after.idle.length
  live : ∀ sequence ∈ after.sequences, sequence ∈ state.sequences ∨ sequence ∉ after.cancelled
  older : ∀ sequence ∈ after.cancelled, sequence ∉ state.cancelled → ∀ idle ∈ queue,
    Expired options now idle → idle.sequence ≤ sequence → idle.sequence ∈ after.cancelled
  full : options.minIdleSessions ≤ active → ∀ idle ∈ queue, Expired options now idle →
    idle.sequence ∈ after.cancelled

theorem cleanupLoop_spec {queue} (descending : queue.Pairwise (·.sequence > ·.sequence))
    (hs : Sound (state.sequences ++ queue.map (·.sequence)) state.sessions)
    (count : active = state.idle.length)
    : CleansUp options now queue active state (cleanupLoop options now queue active state) := by
  induction queue generalizing active state with
  | nil =>
    rw [map_nil, append_nil] at hs
    refine ⟨hs, ?_, fun _ => id, fun _ hi ho => absurd hi ho, ?_, fun _ => .inl, nofun, nofun⟩
      <;> simp [cleanupLoop, count]
  | cons idle rest ih =>
    obtain ⟨hh, descending⟩ := pairwise_cons.mp descending
    obtain ⟨hn, hd⟩ := hs.drop
    have hm (since : Nat)
        : Sound (sequences { state with
          idle := state.idle ++ [⟨idle.sequence, since⟩] } ++ rest.map (·.sequence))
          state.sessions := by
      simpa [sequences] using hs
    rw [cleanupLoop]
    split
    next cancelled =>
      obtain ⟨hs, hw, hg, hc, hk, hl, older, full⟩ := @ih active
        { state with sessions := state.sessions.erase idle.sequence } descending hd count
      refine ⟨hs, ?_, hg, ?_, ?_, ?_, ?_, ?_⟩ <;> grind [sequences]
    next live =>
    split
    next young =>
      obtain ⟨hs, hw, hg, hc, hk, hl, older, full⟩ := @ih (active + 1)
        { state with idle := state.idle ++ [idle] } descending (hm idle.since) (by simp [count])
      refine ⟨hs, ?_, hg, ?_, ?_, ?_, ?_, ?_⟩ <;> grind [sequences, Expired]
    next old =>
    split
    next few =>
      -- What is closed behind this session is older, by `higher`.
      obtain ⟨hs, hw, hg, hc, hk, hl, older, full⟩ := @ih (active + 1)
        { state with idle := state.idle ++ [{ idle with since := now }] } descending (hm now)
        (by simp [count])
      refine ⟨hs, ?_, hg, ?_, ?_, ?_, ?_, ?_⟩ <;> grind [sequences]
    next he =>
      -- From here on `full` closes all that are expired.
      obtain ⟨hs, hw, hg, hc, hk, hl, older, full⟩ := @ih active { state with
          cancelled := insert idle.sequence state.cancelled
          sessions := state.sessions.erase idle.sequence } descending hd count
      refine ⟨hs, ?_, ?_, ?_, ?_, ?_, ?_, ?_⟩ <;> grind [sequences, Expired]

variable (hs : Sound state.sequences state.sessions)

include hs

theorem checkoutLoop_spec {fuel} (he : state.idle.length ≤ fuel)
    : state.HandsOut (checkoutLoop fuel state) := by
  induction fuel generalizing state with
  | zero =>
    have empty := length_eq_zero_iff.mp (Nat.le_zero.mp he)
    exact ⟨hs, fun _ => id, nofun, nofun, by simp [sequences, empty]⟩
  | succ fuel ih =>
    rw [checkoutLoop]
    cases most : state.idle.argmax (·.sequence) with
    | none =>
      have empty := argmax_eq_none.mp most
      exact ⟨hs, fun _ => id, nofun, nofun, by simp [sequences, empty]⟩
    | some found =>
      have hm := argmax_mem most
      have most : ∀ idle ∈ state.idle, idle.sequence ≤ found.sequence := fun _ hi =>
        le_of_mem_argmax hi most
      have split : state.sequences.Perm
          (found.sequence :: (state.idle.erase found).map (·.sequence)) :=
        (perm_cons_erase hm).map _
      have parted : Sound ([] ++ found.sequence :: _) state.sessions :=
        ⟨split.nodup_iff.mp hs.nodup, fun _ hl =>
          hs.registered _ (split.mem_iff.mpr hl)⟩
      obtain ⟨hn, rest⟩ := parted.drop
      dsimp only
      split
      next cancelled =>
        obtain ⟨hs, hw, highest, ht, missed⟩ := @ih { state with
          idle := state.idle.erase found
          sessions := state.sessions.erase found.sequence } rest
          (by rw [length_erase_of_mem hm]; omega)
        refine ⟨hs, ?_, ?_, ht, ?_⟩ <;> grind [sequences]
      next live =>
        obtain ⟨nodup, registered⟩ := hs
        refine ⟨⟨rest.nodup, ?_⟩, ?_, ?_, ?_, nofun⟩ <;> grind [sequences]

variable (options : PoolOptions)

theorem cleanup_spec (now : Nat)
    : CleansUp options now state.idle 0 { state with idle := [] } (state.cleanup options now) := by
  have perm := mergeSort_perm state.idle fun left right => right.sequence ≤ left.sequence
  have named := perm.map IdleSession.sequence
  have sorted := @pairwise_mergeSort IdleSession
    (fun left right => right.sequence ≤ left.sequence) (by grind) (by grind) state.idle
  have hd := pairwise_map.mp (named.nodup_iff.mpr hs.nodup)
  have descending := (sorted.and hd).imp fun facts =>
    lt_of_le_of_ne (of_decide_eq_true facts.1) facts.2.symm
  obtain ⟨hs, hw, hg, hc, hk, hl, older, full⟩ :=
    @cleanupLoop_spec options now 0 { state with idle := [] } _ descending
      ⟨named.nodup_iff.mpr hs.nodup, fun _ hl =>
        hs.registered _ (named.mem_iff.mp hl)⟩ rfl
  rw [perm.countP_eq] at hk
  simp only [perm.mem_iff] at hc older full
  refine ⟨hs, fun sequence left => ?_, hg, hc, hk, hl, older, full⟩
  exact named.mem_iff.mp (hw sequence left)

/-- A step makes no session idle but the one that it returns. -/
theorem step_spec (step)
    : Sound (state.step options step).sequences (state.step options step).sessions
      ∧ ∀ sequence ∈ (state.step options step).sequences,
        sequence ∈ state.sequences ∨ ∃ now, step = .returnIdle sequence now := by
  cases step with
  | checkout =>
    have spec := checkoutLoop_spec hs (le_refl _)
    exact ⟨spec.sound, fun sequence left => .inl (spec.within sequence left)⟩
  | cleanup now =>
    have spec := cleanup_spec hs options now
    exact ⟨spec.sound, fun sequence left => .inl (spec.within sequence left)⟩
  | _ =>
    obtain ⟨nodup, registered⟩ := hs
    refine ⟨⟨?_, ?_⟩, ?_⟩ <;> grind [step, sequences]

theorem run_spec (steps : List PoolStep)
    : Sound (steps.foldl (step options) state).sequences (steps.foldl (step options) state).sessions
      ∧ ∀ sequence ∈ (steps.foldl (step options) state).sequences,
        sequence ∈ state.sequences ∨ ∃ now, .returnIdle sequence now ∈ steps := by
  induction steps generalizing state with
  | nil => exact ⟨hs, fun _ => .inl⟩
  | cons first _ ih =>
    obtain ⟨next, hw⟩ := step_spec hs options first
    obtain ⟨final, hl⟩ := ih next
    refine ⟨final, fun sequence idle => ?_⟩
    rcases hl sequence idle with he | ⟨now, hr⟩
    · refine (hw sequence he).imp_right ?_
      rintro ⟨now, rfl⟩
      exact ⟨now, mem_cons_self⟩
    · exact .inr ⟨now, mem_cons_of_mem _ hr⟩

end PoolState

open PoolState

/-- What holds of the pool in every state that is reached. -/
theorem client_pool_bookkeeping (options : PoolOptions) (steps : List PoolStep)
    : let state := steps.foldl (step options) {}
      Sound state.sequences state.sessions
      ∧ state.HandsOut state.checkout
      ∧ (∀ sequence ∈ state.checkout.1, ∀ later : List PoolStep,
        (∀ now, .returnIdle sequence now ∉ later) →
        sequence ∉ (later.foldl (step options) state.checkout.2).sequences)
      ∧ ∀ now, CleansUp options now state.idle 0 { state with idle := [] }
        (state.cleanup options now) := by
  intro state
  have sound := (@run_spec {} ⟨.nil, nofun⟩ options steps).1
  have spec := checkoutLoop_spec sound (le_refl _)
  refine ⟨sound, spec, fun sequence out later unreturned idle => ?_,
    fun now => cleanup_spec sound options now⟩
  rcases (run_spec spec.sound options later).2 sequence idle with left | ⟨now, returned⟩
  · exact spec.taken sequence out left
  · exact unreturned now returned

end Zay.AnyTls
