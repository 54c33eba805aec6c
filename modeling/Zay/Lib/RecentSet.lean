import Mathlib.Data.Finset.Card

/-! A set of bounded size that forgets its oldest member when a new one finds no room. The
members are held twice: as a set to look up and as a queue in the order of their entry.
-/

namespace Zay.Lib

open List

structure RecentSet (α : Type*) [DecidableEq α] (capacity : Nat) where
  members : Finset α
  order : List α
  mem_members : ∀ item, item ∈ members ↔ item ∈ order
  nodup : order.Nodup
  length_le : order.length ≤ capacity

namespace RecentSet

variable {α : Type*} [DecidableEq α] {capacity : Nat}

def empty : RecentSet α capacity where
  members := ∅
  order := []
  mem_members := by simp
  nodup := .nil
  length_le := Nat.zero_le _

variable {item : α} {set : RecentSet α capacity} {items : List α} {later : Finset α}

omit [DecidableEq α] in
theorem mem_tail_of_nodup {queue} (hd : queue.Nodup) (hnil : queue ≠ [])
    : item ≠ queue.head hnil ∧ item ∈ queue ↔ item ∈ queue.tail := by
  cases queue with
  | nil => exact absurd rfl hnil
  | cons _ _ =>
    have hno := (nodup_cons.mp hd).1
    rw [head_cons, tail_cons, mem_cons]
    constructor
    · rintro ⟨hk, he | hm⟩
      · exact absurd he hk
      · exact hm
    · intro hm
      exact ⟨fun he => hno (he ▸ hm), .inr hm⟩

theorem nodup_concat (set : RecentSet α capacity) (hn : item ∉ set.members)
    : (set.order ++ [item]).Nodup := by
  rw [set.mem_members] at hn
  simpa using set.nodup.concat hn

/-- The item joins the queue, and the head of the queue leaves when there are too many. -/
def enter (set : RecentSet α capacity) (item : α) (fresh : item ∉ set.members)
    : RecentSet α capacity :=
  if room : set.order.length < capacity then
    { members := insert item set.members
      order := set.order ++ [item]
      mem_members := by simp [set.mem_members, or_comm]
      nodup := set.nodup_concat fresh
      length_le := by simpa using Nat.succ_le_of_lt room }
  else
    { members := (insert item set.members).erase ((set.order ++ [item]).head (by simp))
      order := (set.order ++ [item]).tail
      mem_members := by
        intro other
        have all : other ∈ insert item set.members ↔ other ∈ set.order ++ [item] := by
          simp [set.mem_members, or_comm]
        rw [Finset.mem_erase, all]
        exact mem_tail_of_nodup (set.nodup_concat fresh) (by simp)
      nodup := (set.nodup_concat fresh).tail
      length_le := by
        have := set.length_le
        simp
        omega }

/-- An item that is a member already changes nothing. -/
def offer (set : RecentSet α capacity) (item : α) : RecentSet α capacity :=
  if member : item ∈ set.members then set else set.enter item member

def offerAll (set : RecentSet α capacity) (items : List α) : RecentSet α capacity :=
  items.foldl offer set

theorem order_enter (set : RecentSet α capacity) (item : α) (hn : item ∉ set.members)
    : (set.enter item hn).order
      = (set.order ++ [item]).drop (set.order.length + 1 - capacity) := by
  have hb := set.length_le
  by_cases hr : set.order.length < capacity
  · have none : set.order.length + 1 - capacity = 0 := by omega
    simp [enter, hr, none]
  have one : set.order.length + 1 - capacity = 1 := by omega
  simp [enter, hr, one]

theorem mem_offer {other : α} (hm : other ∈ (set.offer item).members)
    : other ∈ set.members ∨ other = item := by
  unfold offer at hm
  split at hm
  · exact .inl hm
  next hn =>
    rw [mem_members, order_enter] at hm
    have he := mem_of_mem_drop hm
    rw [set.mem_members]
    simpa using he

/-- Nothing is remembered that was not offered. -/
theorem mem_offerAll (hm : item ∈ (set.offerAll items).members)
    : item ∈ set.members ∨ item ∈ items := by
  induction items generalizing set with
  | nil => exact .inl hm
  | cons _ _ ih =>
    rcases ih hm with early | hl
    · rcases mem_offer early with old | he
      · exact .inl old
      · exact .inr (he ▸ mem_cons_self)
    · exact .inr (mem_cons_of_mem _ hl)

/-- `item` is remembered, and all that entered after it is among `later`. -/
def Holds (set : RecentSet α capacity) (item : α) (later : Finset α) : Prop :=
  ∃ older newer, set.order = older ++ item :: newer ∧ ∀ other ∈ newer, other ∈ later

theorem holds_offer (hn : item ∉ set.members) (later) (hr : 0 < capacity)
    : (set.offer item).Holds item later := by
  have he : set.offer item = set.enter item hn := dif_neg hn
  refine ⟨set.order.drop (set.order.length + 1 - capacity), [], ?_, by simp⟩
  rw [he, order_enter, drop_append_of_le_length (by omega)]

section

variable (holds : set.Holds item later)
include holds

theorem Holds.mem : item ∈ set.members := by
  obtain ⟨_, _, order, -⟩ := holds
  rw [mem_members, order]
  simp

/-- As long as fewer than `capacity` other items are ever offered, the oldest that can be
forgotten is older than `item`.
-/
theorem Holds.offer {other : α} (few : (later.erase item).card < capacity) (offered : other ∈ later)
    : (set.offer other).Holds item later := by
  unfold RecentSet.offer
  split
  · exact holds
  next hn =>
    obtain ⟨older, newer, order, hw⟩ := holds
    have hd := set.nodup_concat hn
    rw [order, append_assoc, cons_append] at hd
    obtain ⟨hno, unique⟩ := nodup_cons.mp (List.Nodup.of_append_right hd)
    have hj : ∀ entry ∈ newer ++ [other], entry ∈ later :=
      forall_mem_append.mpr ⟨hw, forall_mem_singleton.mpr offered⟩
    have since : (newer ++ [other]).toFinset ⊆ later.erase item := by
      intro entry hm
      rw [mem_toFinset] at hm
      exact Finset.mem_erase.mpr ⟨fun he => hno (he ▸ hm), hj entry hm⟩
    have count := Finset.card_le_card since
    rw [toFinset_card_of_nodup unique, length_append, length_singleton] at count
    refine ⟨older.drop (set.order.length + 1 - capacity), newer ++ [other], ?_, hj⟩
    have size : set.order.length = older.length + (newer.length + 1) := by simp [order]
    rw [order_enter, order, append_assoc, cons_append,
      drop_append_of_le_length (by rw [← order]; omega), ← order]

theorem Holds.offerAll (items) (few : (later.erase item).card < capacity)
    (offered : ∀ other ∈ items, other ∈ later)
    : (set.offerAll items).Holds item later := by
  induction items generalizing set with
  | nil => exact holds
  | cons first _ ih =>
    exact ih (holds.offer few (offered first mem_cons_self))
      fun other hm => offered other (mem_cons_of_mem _ hm)

end

/-- After `capacity` new items nothing else is remembered. -/
theorem order_offerAll_of_new (hd : items.Nodup) (new : ∀ item ∈ items, item ∉ set.members)
    : (set.offerAll items).order
      = (set.order ++ items).drop (set.order.length + items.length - capacity) := by
  induction items generalizing set with
  | nil =>
    have none : set.order.length - capacity = 0 := by have := set.length_le; omega
    simp [offerAll, none]
  | cons first rest ih =>
    have hn : first ∉ set.members := new first mem_cons_self
    have entered : set.offer first = set.enter first hn := dif_neg hn
    have later : ∀ item ∈ rest, item ∉ (set.offer first).members := by
      intro item hm remembered
      rcases mem_offer remembered with old | he
      · exact new item (mem_cons_of_mem _ hm) old
      · exact (nodup_cons.mp hd).1 (he ▸ hm)
    have size : (set.enter first hn).order.length
        = set.order.length + 1 - (set.order.length + 1 - capacity) := by
      rw [order_enter, length_drop, length_append, length_singleton]
    have rest_eq := ih (nodup_cons.mp hd).2 later
    rw [entered, size, order_enter] at rest_eq
    have hb := set.length_le
    rw [offerAll, foldl_cons, ← offerAll, entered, rest_eq,
      ← drop_append_of_le_length (by simp), drop_drop, append_assoc,
      singleton_append, length_cons]
    congr 1
    omega

theorem forgets (hd : items.Nodup) (new : ∀ other ∈ items, other ∉ set.members)
    (many : items.length = capacity) (hm : item ∈ set.members)
    : item ∉ (set.offerAll items).members := by
  have all : set.order.length + items.length - capacity = set.order.length := by omega
  rw [mem_members, order_offerAll_of_new hd new, all, drop_left]
  exact fun offered => new item offered hm

end RecentSet

end Zay.Lib
