import Mathlib.Algebra.Ring.Nat
import Mathlib.Data.List.Nodup
import Mathlib.Data.List.Range

/-! A queue of uses whose elements go out of date. A key that is used again is queued again
under a new stamp, and of its elements only the one with its current stamp is live. The live
elements are the keys in the order of their last use.
-/

namespace Zay.Lib

open List Option Function

variable {κ σ : Type*} [DecidableEq κ] [DecidableEq σ]

/-- Keys in the order of their last use, after one more use. -/
def useKey (recency : List κ) (key : κ) : List κ := recency.erase key ++ [key]

/-- The keys that were used last. -/
def mostRecent {κ : Type*} (capacity : Nat) (recency : List κ) : List κ :=
  recency.drop (recency.length - capacity)

theorem length_mostRecent_le {κ : Type*} (capacity : Nat) (recency : List κ)
    : (mostRecent capacity recency).length ≤ capacity := by
  rw [mostRecent, length_drop]
  omega

theorem mostRecent_of_le {κ : Type*} {capacity} {recency : List κ} (hs : recency.length ≤ capacity)
    : mostRecent capacity recency = recency := by
  rw [mostRecent, Nat.sub_eq_zero_of_le hs, List.drop_zero]

theorem mostRecent_cons {κ : Type*} {capacity} {key : κ} {recency}
    (large : capacity < (key :: recency).length)
    : mostRecent capacity (key :: recency) = mostRecent capacity recency := by
  rw [length_cons] at large
  rw [mostRecent, length_cons, Nat.succ_sub (Nat.le_of_lt_succ large), drop_succ_cons, mostRecent]

theorem length_useKey_of_mem {recency} {key : κ} (mem : key ∈ recency)
    : (useKey recency key).length = recency.length := by
  have hf := length_pos_of_mem mem
  rw [useKey, length_append, length_erase_of_mem mem, length_singleton]
  omega

theorem length_useKey_of_notMem {recency} {key : κ} (hno : key ∉ recency)
    : (useKey recency key).length = recency.length + 1 := by
  rw [useKey, erase_of_not_mem hno, length_append, length_singleton]

namespace LazyQueue

def isLive (current : κ → Option σ) (element : κ × σ) : Bool :=
  current element.1 = some element.2

def live (current : κ → Option σ) (queue : List (κ × σ)) : List κ :=
  (queue.filter (isLive current)).map Prod.fst

/-- Every key that has a stamp is queued under it. -/
structure Tracks (current : κ → Option σ) (queue : List (κ × σ)) : Prop where
  queued : ∀ key stamp, current key = some stamp → (key, stamp) ∈ queue
  distinct : queue.Nodup

variable {current : κ → Option σ} {queue : List (κ × σ)} {key : κ} {stamp : σ}

section

variable (ht : Tracks current queue)

include ht

omit [DecidableEq κ] in
theorem Tracks.mem_live_iff (key : κ) : key ∈ live current queue ↔ (current key).isSome := by
  simp only [live, List.mem_map, mem_filter, isLive, decide_eq_true_eq, isSome_iff_exists]
  constructor
  · rintro ⟨element, ⟨-, now⟩, rfl⟩
    exact ⟨element.2, now⟩
  · rintro ⟨stamp, now⟩
    exact ⟨(key, stamp), ⟨ht.queued key stamp now, now⟩, rfl⟩

omit [DecidableEq κ] in
theorem Tracks.nodup_live : (live current queue).Nodup := by
  refine List.Nodup.map_on ?_ (ht.distinct.filter _)
  intro left inLeft right inRight he
  have leftNow := of_decide_eq_true (mem_filter.mp inLeft).2
  have rightNow := of_decide_eq_true (mem_filter.mp inRight).2
  rw [he, rightNow] at leftNow
  exact Prod.ext he (some.inj leftNow).symm

/-- A key whose stamp changes to one that is not queued is no longer live. -/
theorem live_update {next} (hn : ∀ stamp, next = some stamp → (key, stamp) ∉ queue)
    : live (Function.update current key next) queue = (live current queue).erase key := by
  rw [ht.nodup_live.erase_eq_filter, live, live, List.filter_map, List.filter_filter]
  congr 1
  refine filter_congr fun element mem => ?_
  simp only [isLive, comp_apply, update_apply]
  by_cases he : element.1 = key
  · have stale : next ≠ some element.2 := fun now =>
      hn element.2 now (he ▸ mem)
    simp [he, stale]
  · simp [he]

omit [DecidableEq σ] in
theorem Tracks.use (hn : (key, stamp) ∉ queue)
    : Tracks (update current key (some stamp)) (queue ++ [(key, stamp)]) where
  queued other found now := by
    rw [update_apply] at now
    rw [mem_append, mem_singleton]
    split at now
    next he =>
      cases now
      exact .inr (Prod.ext he rfl)
    · exact .inl (ht.queued other found now)
  distinct := by
    rw [nodup_append]
    refine ⟨ht.distinct, nodup_singleton _, fun _ mem other last => ?_⟩
    rintro rfl
    exact hn (mem_singleton.mp last ▸ mem)

theorem live_use (hn : (key, stamp) ∉ queue)
    : live (update current key (some stamp)) (queue ++ [(key, stamp)])
      = useKey (live current queue) key := by
  have hno : ∀ other, some stamp = some other → (key, other) ∉ queue := fun _ he =>
    some.inj he ▸ hn
  have hb := live_update ht hno
  rw [useKey, ← hb]
  simp [live, isLive]

omit [DecidableEq σ] in
theorem Tracks.forget
    : Tracks (update current key none) queue where
  queued other found now := by
    rw [update_apply] at now
    split at now
    · cases now
    · exact ht.queued other found now
  distinct := ht.distinct

theorem live_forget
    : live (update current key none) queue = (live current queue).erase key :=
  live_update ht fun _ impossible => nomatch impossible

end

omit [DecidableEq κ] in
/-- An element that is out of date leaves the queue. -/
theorem Tracks.pop_stale (ht : Tracks current ((key, stamp) :: queue))
    (stale : current key ≠ some stamp)
    : Tracks current queue ∧ live current ((key, stamp) :: queue) = live current queue := by
  refine ⟨⟨fun other found now => ?_, (nodup_cons.mp ht.distinct).2⟩, ?_⟩
  · rcases mem_cons.mp (ht.queued other found now) with he | mem
    · cases he
      exact absurd now stale
    · exact mem
  · rw [live, filter_cons_of_neg (by simpa [isLive] using stale), live]

/-- The least recently used key is forgotten. -/
theorem Tracks.pop_live (ht : Tracks current ((key, stamp) :: queue))
    (now : current key = some stamp)
    : Tracks (update current key none) queue
      ∧ live current ((key, stamp) :: queue)
        = key :: live (update current key none) queue := by
  obtain ⟨hno, hd⟩ := nodup_cons.mp ht.distinct
  have others : ∀ element ∈ queue,
      isLive (update current key none) element = isLive current element := by
    intro element mem
    simp only [isLive, update_apply]
    split
    next he =>
      have other : element.2 ≠ stamp := fun stamped => hno (by
        rwa [show element = (key, stamp) from Prod.ext he stamped] at mem)
      rw [he, now]
      simp [other.symm]
    · rfl
  refine ⟨⟨fun other found was => ?_, hd⟩, ?_⟩
  · rw [update_apply] at was
    split at was
    · cases was
    next hne =>
      rcases mem_cons.mp (ht.queued other found was) with he | mem
      · cases he
        exact absurd rfl hne
      · exact mem
  · rw [live, filter_cons_of_pos (by simpa [isLive] using now), live, filter_congr others]
    rfl

/-- The stamps are the last values of a counter that has counted `count` uses. -/
structure Counted (count : Nat) (counter : UInt64) (stamps : List UInt64) : Prop where
  counter : counter = UInt64.ofNat count
  fewer : stamps.length ≤ count
  last : stamps = (List.range' (count + 1 - stamps.length) stamps.length).map UInt64.ofNat

variable {counter : UInt64} {stamps : List UInt64} {count : Nat}

theorem Counted.push (hc : Counted count counter stamps)
    : Counted (count + 1) (counter + 1) (stamps ++ [counter + 1]) := by
  have next : counter + 1 = UInt64.ofNat (count + 1) := by
    rw [hc.counter, UInt64.ofNat_add]
    rfl
  have hf := hc.fewer
  refine ⟨next, ?_, ?_⟩
  · rw [length_append, length_singleton]
    omega
  · rw [length_append, length_singleton, range'_1_concat, map_append,
      Nat.add_sub_add_right, ← hc.last, next,
      Nat.sub_add_cancel (Nat.le_succ_of_le hf)]
    rfl

theorem Counted.pop {stamp} (hc : Counted count counter (stamp :: stamps))
    : Counted count counter stamps := by
  have hf := hc.fewer
  have last := hc.last
  rw [length_cons] at hf
  rw [length_cons, range'_succ, map_cons, cons.injEq] at last
  refine ⟨hc.counter, by omega, ?_⟩
  rw [show count + 1 - stamps.length = count + 1 - (stamps.length + 1) + 1 by omega]
  exact last.2

/-- The next stamp is not in use, as long as not all stamps are. -/
theorem Counted.next_notMem (hc : Counted count counter stamps) (hs : stamps.length < 2 ^ 64)
    : counter + 1 ∉ stamps := by
  intro mem
  have hf := hc.fewer
  rw [hc.last, List.mem_map] at mem
  obtain ⟨place, hw, he⟩ := mem
  rw [mem_range'_1] at hw
  have values := congrArg UInt64.toNat he
  rw [hc.counter, UInt64.toNat_add, UInt64.toNat_ofNat', UInt64.toNat_ofNat'] at values
  rw [show UInt64.toNat 1 = 1 from rfl] at values
  omega

end LazyQueue

end Zay.Lib
