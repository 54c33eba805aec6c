import Mathlib.Data.Fintype.EquivFin
import Zay.Endpoint.FlowNat

/-! The search for a free selector. One sweep looks at as many values of the counter as the
range has selectors, which are all selectors unless the counter starts again on the way.
-/

namespace Zay.Endpoint.FlowWorld

open Net

def InSelectors (start count : Nat) (selector : UInt16) : Prop :=
  start ≤ selector.toNat ∧ selector.toNat < start + count

/-- No flow of the port has the selector for this protocol, server and address of the port. -/
def SelectorFree (world : FlowWorld) (plan : Plan) (selector : UInt16) : Prop :=
  world.state.reverse (plan.port.id, replyKey plan.parsed.protocol plan.portAddress
    plan.routedDestination selector) = none

/-- The counter stays below its end for a whole sweep, or starts again where the range does. -/
def SweepWhole (count : Nat) (counter : UInt32) : Prop :=
  count ∣ 2 ^ 32 ∨ counter.toNat + count < 2 ^ 32 ∨ counter.toNat + 1 = 2 ^ 32

section

variable {free : UInt16 → Bool} {start count rounds residue : Nat} {counter : UInt32}

/-- What is found is free and lies in the range. -/
theorem searchSelector_eq_some {selector}
    (hf : (searchSelector free start count rounds counter).1 = some selector)
    : free selector ∧ ∃ value, selector = UInt16.ofNat (start + value % count) := by
  induction rounds generalizing counter with
  | zero => cases hf
  | succ rounds ih =>
    simp only [searchSelector] at hf
    split at hf
    next isFree =>
      cases hf
      exact ⟨isFree, _, rfl⟩
    · exact ih hf

/-- The search ends without a selector exactly when it has looked at none that is free. -/
theorem searchSelector_eq_none_iff
    : (searchSelector free start count rounds counter).1 = none
      ↔ ∀ step < rounds,
        free (UInt16.ofNat (start + (counter.toNat + 1 + step) % 2 ^ 32 % count)) = false := by
  induction rounds generalizing counter with
  | zero => simp [searchSelector]
  | succ rounds ih =>
    have next : (counter + 1).toNat = (counter.toNat + 1) % 2 ^ 32 := UInt32.toNat_add counter 1
    have shift (step) : ((counter + 1).toNat + 1 + step) % 2 ^ 32
        = (counter.toNat + 1 + (step + 1)) % 2 ^ 32 := by
      rw [next, add_assoc, Nat.mod_add_mod, add_comm 1 step]
    rw [Nat.forall_lt_succ_left, searchSelector, next, add_zero]
    split
    next isFree =>
      rw [isFree]
      simp
    next used =>
      simp only [Bool.not_eq_true] at used
      simp only [used, true_and, ih, shift]

/-- As many steps as there are residues meet each of them. -/
theorem exists_add_mod (hs : residue < count) (first : Nat)
    : ∃ step < count, (first + step) % count = residue := by
  refine ⟨(residue + count - first % count) % count, Nat.mod_lt _ (by omega), ?_⟩
  have hb := Nat.mod_lt first (by omega : 0 < count)
  have hw := Nat.div_add_mod first count
  have sum : first + (residue + count - first % count) = residue + count * (first / count + 1) := by
    rw [mul_add]
    omega
  rw [Nat.add_mod_mod, sum, Nat.add_mul_mod_self_left, Nat.mod_eq_of_lt hs]

/-- Every selector of the range has its turn in a whole sweep. -/
theorem SweepWhole.exists_step (hw : SweepWhole count counter) (few : count ≤ 2 ^ 16)
    (hs : residue < count)
    : ∃ step < count, (counter.toNat + 1 + step) % 2 ^ 32 % count = residue := by
  obtain ⟨step, hi, visited⟩ := exists_add_mod hs (counter.toNat + 1)
  rcases hw with hd | hb | last
  · exact ⟨step, hi, by rw [Nat.mod_mod_of_dvd _ hd, visited]⟩
  · have ahead : counter.toNat + 1 + step < 2 ^ 32 := by omega
    exact ⟨step, hi, by rw [Nat.mod_eq_of_lt ahead, visited]⟩
  have low : residue < 2 ^ 32 := by omega
  refine ⟨residue, hs, ?_⟩
  rw [last, Nat.add_mod_left, Nat.mod_eq_of_lt low, Nat.mod_eq_of_lt hs]

/-- A sweep in which every selector has its turn is whole. No selector has two turns then; if the
counter starts again after the residue `2 ^ 32 - 1`, the residue after that one is still to come,
and so is this one unless it is the last of all.
-/
theorem sweepWhole_of_exists_step (few : count ≤ 2 ^ 16)
    (each : ∀ residue < count,
      ∃ step < count, (counter.toNat + 1 + step) % 2 ^ 32 % count = residue)
    : SweepWhole count counter := by
  rcases Nat.eq_zero_or_pos count with rfl | pos
  · exact .inr (.inl counter.toNat_lt)
  by_contra unswept
  let turn : Fin count → Fin count := fun step =>
    ⟨(counter.toNat + 1 + step) % 2 ^ 32 % count, Nat.mod_lt _ pos⟩
  have injective : Function.Injective turn := Finite.injective_iff_surjective.mpr fun residue => by
    obtain ⟨step, hi, visited⟩ := each residue residue.isLt
    exact ⟨⟨step, hi⟩, Fin.ext visited⟩
  simp only [SweepWhole, not_or, not_lt] at unswept
  obtain ⟨undivided, beyond, notLast⟩ := unswept
  have below := counter.toNat_lt
  obtain ⟨rest, hk⟩ : ∃ rest, counter.toNat + 1 + (rest + 1) = 2 ^ 32 :=
    ⟨2 ^ 32 - 2 - counter.toNat, by omega⟩
  have small : 2 ^ 32 % count < count := Nat.mod_lt _ pos
  have whole := Nat.div_add_mod (2 ^ 32) count
  -- The turns after the counter has started again are those of the first residues.
  have again (step) (hi : step < count) : (counter.toNat + 1 + (rest + 1 + step)) % 2 ^ 32 % count
      = step := by
    rw [← add_assoc, hk, Nat.add_mod_left, Nat.mod_eq_of_lt (by omega : step < 2 ^ 32),
      Nat.mod_eq_of_lt hi]
  have last : (counter.toNat + 1 + rest) % 2 ^ 32 % count = 2 ^ 32 % count - 1 := by
    have value : counter.toNat + 1 + rest
        = count * (2 ^ 32 / count) + (2 ^ 32 % count - 1) := by omega
    rw [Nat.mod_eq_of_lt (by omega : counter.toNat + 1 + rest < 2 ^ 32), value, Nat.mul_add_mod,
      Nat.mod_eq_of_lt (by omega)]
  obtain ⟨step, hi, visited⟩ := each _ small
  have late : rest < step := by
    by_contra early
    rw [Nat.mod_eq_of_lt (by omega : counter.toNat + 1 + step < 2 ^ 32)] at visited
    have apart := Nat.sub_mod_eq_zero_of_mod_eq visited.symm
    rw [Nat.mod_eq_of_lt (by omega)] at apart
    omega
  obtain ⟨turned, rfl⟩ := Nat.exists_eq_add_of_lt late
  rw [show rest + turned + 1 = rest + 1 + turned by omega, again _ (by omega)] at visited
  have twice : turn ⟨rest, by omega⟩ = turn ⟨rest + turned, by omega⟩ := by
    refine Fin.ext (last.trans ?_)
    have first := again (turned - 1) (by omega)
    rw [show rest + 1 + (turned - 1) = rest + turned by omega] at first
    rw [← visited]
    exact first.symm
  have same := Fin.ext_iff.mp (injective twice)
  simp only at same
  omega

theorem sweepWhole_iff (few : count ≤ 2 ^ 16)
    : (∀ residue < count, ∃ step < count, (counter.toNat + 1 + step) % 2 ^ 32 % count = residue)
      ↔ SweepWhole count counter :=
  ⟨sweepWhole_of_exists_step few, fun hw _ hs => hw.exists_step few hs⟩

end

theorem selectorBounds_of_accepted {nat} (ha : nat.selectorRange.2 = 0
      ∨ nat.selectorRange.1.toNat + nat.selectorRange.2.toNat ≤ 65536) (protocol : UInt8)
    : ∃ start count, selectorBounds nat protocol = some (start, count)
      ∧ 0 < count ∧ start + count ≤ 2 ^ 16 := by
  unfold selectorBounds
  split
  · exact ⟨_, _, rfl, by decide, by decide⟩
  next own =>
    rw [not_or, not_or] at own
    have hf := ha.resolve_left own.2.2
    rw [if_pos hf]
    exact ⟨_, _, rfl, Nat.pos_of_ne_zero fun none => own.2.2 (UInt16.toNat_inj.mp none), hf⟩

/-- The world with other entries for answers. -/
def withReverse (world : FlowWorld) (reverse : Nat × FlowKey → Option Nat) : FlowWorld :=
  { world with state := { world.state with reverse } }

/-- A selector that the search looks at: the preferred one, or one that has its turn. -/
def LookedAt (plan : Plan) (start count : Nat) (counter : UInt32) (selector : UInt16) : Prop :=
  plan.parsed.source.port ≠ 0 ∧ plan.parsed.source.port = selector
  ∨ ∃ step < count, start + (counter.toNat + 1 + step) % 2 ^ 32 % count = selector.toNat

section

variable {world : FlowWorld} {plan : Plan} {nat : PortNatState} {start count : Nat}
  (attached : world.state.ports plan.port.id = some nat)
  (bounds : selectorBounds nat plan.parsed.protocol = some (start, count))
  (fits : start + count ≤ 2 ^ 16)

include attached bounds fits

/-- Exhaustion is reported exactly when no selector that is looked at is free. -/
theorem allocateSelector_eq_none_iff
    : (world.allocateSelector plan).1 = none
      ↔ ∀ selector, InSelectors start count selector →
        LookedAt plan start count nat.counter selector → ¬world.SelectorFree plan selector := by
  unfold allocateSelector
  simp only [attached, bounds]
  split
  next preferred =>
    obtain ⟨given, low, high, isFree⟩ := preferred
    refine iff_of_false nofun fun none => ?_
    exact none _ ⟨low, high⟩ (.inl ⟨given, rfl⟩) (Option.isNone_iff_eq_none.mp isFree)
  next other =>
    rw [searchSelector_eq_none_iff]
    constructor
    · rintro none selector inside (⟨given, rfl⟩ | ⟨step, hi, visited⟩) isFree
      · exact other ⟨given, inside.1, inside.2, Option.isNone_iff_eq_none.mpr isFree⟩
      · have used := none step hi
        rw [visited, UInt16.ofNat_toNat, isFree] at used
        cases used
    · intro none step hi
      have small := Nat.mod_lt ((nat.counter.toNat + 1 + step) % 2 ^ 32) (by omega : 0 < count)
      have value := UInt16.toNat_ofNat_of_lt'
        (by rw [UInt16.size]; omega
          : start + (nat.counter.toNat + 1 + step) % 2 ^ 32 % count < UInt16.size)
      have used := none _ (by rw [InSelectors, value]; omega) (.inr ⟨step, hi, value.symm⟩)
      exact Option.isNone_eq_false_iff.mpr (Option.ne_none_iff_isSome.mp used)

/-- Exhaustion means that every selector is in use, whatever the entries for answers, exactly when
every selector is looked at: one that is not may be the only one that is free.
-/
theorem complete_iff_lookedAt
    : (∀ reverse, ((world.withReverse reverse).allocateSelector plan).1 = none →
        ∀ selector, InSelectors start count selector →
          ¬(world.withReverse reverse).SelectorFree plan selector)
      ↔ ∀ selector, InSelectors start count selector →
        LookedAt plan start count nat.counter selector := by
  simp only [fun reverse => @allocateSelector_eq_none_iff (world.withReverse reverse) plan nat start
    count attached bounds fits]
  constructor
  · intro complete selector inside
    by_contra unseen
    refine complete (fun entry => if entry.2.destination.port = selector then none else some 0)
      (fun other _ seen free => ?_) selector inside (if_pos rfl)
    have same : other = selector := by
      by_contra different
      simp [SelectorFree, withReverse, replyKey, different] at free
    exact unseen (same ▸ seen)
  · intro seen reverse none selector inside
    exact none selector inside (seen selector inside)

end

/-- The preferred selector is taken if it is free, and every other choice is free and in range.
Exhaustion means that every selector is in use, whatever the entries for answers, exactly when
every selector other than the preferred one has its turn in the sweep; all selectors have it
exactly in a whole sweep.
-/
theorem selector_allocation_complete (world : FlowWorld) (plan : Plan) {nat : PortNatState}
    (attached : world.state.ports plan.port.id = some nat) (accepted : nat.selectorRange.2 = 0
      ∨ nat.selectorRange.1.toNat + nat.selectorRange.2.toNat ≤ 65536)
    : ∃ start count, selectorBounds nat plan.parsed.protocol = some (start, count)
      ∧ (∀ selector, (world.allocateSelector plan).1 = some selector →
        InSelectors start count selector ∧ world.SelectorFree plan selector)
      ∧ (plan.parsed.source.port ≠ 0 → InSelectors start count plan.parsed.source.port →
        world.SelectorFree plan plan.parsed.source.port →
        (world.allocateSelector plan).1 = some plan.parsed.source.port)
      ∧ ((∀ reverse, ((world.withReverse reverse).allocateSelector plan).1 = none →
          ∀ selector, InSelectors start count selector →
            ¬(world.withReverse reverse).SelectorFree plan selector)
        ↔ ∀ selector, InSelectors start count selector →
          LookedAt plan start count nat.counter selector)
      ∧ ((∀ residue < count,
          ∃ step < count, (nat.counter.toNat + 1 + step) % 2 ^ 32 % count = residue)
        ↔ SweepWhole count nat.counter) := by
  obtain ⟨start, count, bounds, some, fits⟩ :=
    selectorBounds_of_accepted accepted plan.parsed.protocol
  have free (selector : UInt16) : (world.state.reverse (plan.port.id, replyKey plan.parsed.protocol
      plan.portAddress plan.routedDestination selector)).isNone = true
      ↔ world.SelectorFree plan selector := Option.isNone_iff_eq_none
  refine ⟨start, count, bounds, ?_, ?_, complete_iff_lookedAt attached bounds fits,
    sweepWhole_iff (by omega)⟩
  all_goals
    unfold allocateSelector
    simp only [attached, bounds]
    split
  next preferred =>
    rintro _ ⟨⟩
    exact ⟨⟨preferred.2.1, preferred.2.2.1⟩, (free _).mp preferred.2.2.2⟩
  next other =>
    intro selector found
    obtain ⟨isFree, value, rfl⟩ := searchSelector_eq_some found
    refine ⟨?_, (free _).mp isFree⟩
    have small := Nat.mod_lt value some
    rw [InSelectors, UInt16.toNat_ofNat_of_lt' (by rw [UInt16.size]; omega)]
    omega
  next preferred => exact fun _ _ _ => rfl
  next other =>
    intro given inside isFree
    exact absurd ⟨given, inside.1, inside.2, (free _).mpr isFree⟩ other

def examplePlan : Plan :=
  ((ParsedPacket.parse (examplePacket 2)).bind fun parsed =>
    (new 0).planFor parsed (exampleKey 2) exampleVerdict).get (by decide)

/-- Of the selectors 1000 to 1002 only the last is free. -/
def nearlyFull (counter : UInt32) : FlowWorld :=
  { new 0 with state := { (new 0).state with
    reverse := fun entry => if entry.2.destination.port = 1002 then none else some 0
    ports := fun _ => some { alive := true, selectorRange := (1000, 3), counter } } }

theorem selector_allocation_complete_example
    : (nearlyFull 0).SelectorFree examplePlan 1002 := by
  obtain ⟨_, _, -, sound, -⟩ :=
    selector_allocation_complete (nearlyFull 0) examplePlan rfl (.inr (by decide))
  exact (sound 1002 (by decide)).2

/-- The counter starts again in the middle of the sweep, which looks at 1000 twice. -/
theorem selector_allocation_misses
    : ((nearlyFull 4294967294).allocateSelector examplePlan).1 = none
      ∧ InSelectors 1000 3 1002 ∧ (nearlyFull 4294967294).SelectorFree examplePlan 1002 :=
  ⟨by decide, by unfold InSelectors; decide, rfl⟩

end Zay.Endpoint.FlowWorld
