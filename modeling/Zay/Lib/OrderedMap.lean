import Mathlib.Order.Lattice
import Mathlib.Data.List.Nodup

/-! Finite maps ordered by key. The entries stand in strictly increasing key order, so
each key occurs once, iteration order is determined and equal maps have equal entries.
-/

namespace Zay.Lib

open List Option

structure OrderedMap (K V : Type) [LinearOrder K] where
  entries : List (K × V)
  sorted : entries.Pairwise fun left right => left.1 < right.1

namespace OrderedMap

variable {K V : Type} [LinearOrder K]

def empty : OrderedMap K V := ⟨[], .nil⟩

def len (map : OrderedMap K V) : Nat := map.entries.length

def keys (map : OrderedMap K V) : List K := map.entries.map (·.1)

def values (map : OrderedMap K V) : List V := map.entries.map (·.2)

def get? (map : OrderedMap K V) (key : K) : Option V :=
  (map.entries.find? (·.1 = key)).map (·.2)

def containsKey (map : OrderedMap K V) (key : K) : Bool := (map.get? key).isSome

/-- Insertion into an ordered entry list, replacing the value of an existing key. -/
def insertEntry (key : K) (value : V) : List (K × V) → List (K × V)
  | [] => [(key, value)]
  | (other, old) :: rest =>
    if key < other then (key, value) :: (other, old) :: rest
    else if key = other then (key, value) :: rest
    else (other, old) :: insertEntry key value rest

variable {key : K} {value : V} {entries : List (K × V)} {map : OrderedMap K V}

theorem mem_insertEntry {entry} (h : entry ∈ insertEntry key value entries)
    : entry = (key, value) ∨ entry ∈ entries := by
  fun_induction insertEntry key value entries <;> grind

theorem sorted_insertEntry (h : entries.Pairwise fun left right => left.1 < right.1)
    : (insertEntry key value entries).Pairwise fun left right => left.1 < right.1 := by
  fun_induction insertEntry key value entries with
  | case1 => simp
  | case2 other old rest lower =>
    obtain ⟨ha, tail⟩ := pairwise_cons.mp h
    refine pairwise_cons.mpr ⟨?_, h⟩
    intro entry hm
    rcases mem_cons.mp hm with rfl | hr
    · exact lower
    · exact lt_trans lower (ha entry hr)
  | case3 old rest _ => exact pairwise_cons.mpr (pairwise_cons.mp h)
  | case4 other old rest notLower different ih =>
    obtain ⟨ha, tail⟩ := pairwise_cons.mp h
    refine pairwise_cons.mpr ⟨?_, ih tail⟩
    intro entry hm
    rcases mem_insertEntry hm with rfl | hr
    · exact lt_of_le_of_ne (not_lt.mp notLower) (Ne.symm different)
    · exact ha entry hr

def insert (map : OrderedMap K V) (key : K) (value : V) : OrderedMap K V :=
  ⟨insertEntry key value map.entries, sorted_insertEntry map.sorted⟩

def erase (map : OrderedMap K V) (key : K) : OrderedMap K V :=
  ⟨map.entries.filter (·.1 ≠ key), map.sorted.filter _⟩

/-- Rewrites every value in place, as a mutable iteration over the entries does. -/
def mapValues (map : OrderedMap K V) (f : K → V → V) : OrderedMap K V :=
  ⟨map.entries.map fun entry => (entry.1, f entry.1 entry.2), by
    simpa [List.pairwise_map] using map.sorted⟩

/-- Another value for every key. -/
def mapWithKey {W : Type} (map : OrderedMap K V) (f : K → V → W) : OrderedMap K W :=
  ⟨map.entries.map fun entry => (entry.1, f entry.1 entry.2), by
    simpa [List.pairwise_map] using map.sorted⟩

instance instDecidableEq [DecidableEq V] : DecidableEq (OrderedMap K V) := fun left right =>
  decidable_of_iff (left.entries = right.entries) (by cases left; cases right; simp)

theorem get?_eq_some_iff : map.get? key = some value ↔ (key, value) ∈ map.entries := by
  obtain ⟨entries, hs⟩ := map
  simp only [get?]
  induction entries with
  | nil => simp
  | cons entry rest ih =>
    obtain ⟨other, _⟩ := entry
    obtain ⟨ha, tail⟩ := pairwise_cons.mp hs
    by_cases he : other = key
    · subst he
      have hr : (other, value) ∉ rest :=
        fun hm => lt_irrefl other (ha (other, value) hm)
      simp [hr, eq_comm]
    · simp [he, Ne.symm he, ih tail]

theorem keys_nodup (map : OrderedMap K V) : map.keys.Nodup :=
  pairwise_map.mpr (map.sorted.imp fun h => ne_of_lt h)

theorem nodup (map : OrderedMap K V) : map.entries.Nodup := map.keys_nodup.of_map

@[ext] theorem ext {left right : OrderedMap K V} (he : ∀ key, left.get? key = right.get? key)
    : left = right := by
  have members (entry : K × V) : entry ∈ left.entries ↔ entry ∈ right.entries := by
    obtain ⟨key, _⟩ := entry
    rw [← get?_eq_some_iff, ← get?_eq_some_iff, he]
  have entries : left.entries = right.entries :=
    ((perm_ext_iff_of_nodup left.nodup right.nodup).mpr members).eq_of_pairwise
      (fun _ _ _ _ less greater => absurd less (lt_asymm greater)) left.sorted right.sorted
  cases left
  cases right
  cases entries
  rfl

theorem mem_keys_iff : key ∈ map.keys ↔ ∃ value, map.get? key = some value := by
  simp [keys, get?_eq_some_iff]

theorem containsKey_iff : map.containsKey key ↔ ∃ value, map.get? key = some value := by
  rw [containsKey, isSome_iff_exists]

@[simp] theorem get?_empty (key : K) : (empty : OrderedMap K V).get? key = none := rfl

@[simp] theorem get?_insert (map : OrderedMap K V) (key other : K) (value : V)
    : (map.insert key value).get? other
      = if other = key then some value else map.get? other := by
  obtain ⟨entries, hs⟩ := map
  simp only [insert, get?]
  fun_induction insertEntry key value entries with
  | case1 => grind
  | case2 first old rest lower => grind
  | case3 old rest _ => grind
  | case4 first old rest notLower different ih =>
    have tail := ih (pairwise_cons.mp hs).2
    grind

@[simp] theorem get?_erase (map : OrderedMap K V) (key other : K)
    : (map.erase key).get? other = if other = key then none else map.get? other := by
  refine Option.ext fun _ => ?_
  by_cases he : other = key
  · simp [get?_eq_some_iff, erase, he]
  · simp [get?_eq_some_iff, erase, he]

theorem get?_foldl_erase_eq_some {keys : List K}
    : (keys.foldl erase map).get? key = some value ↔ map.get? key = some value ∧ key ∉ keys := by
  induction keys generalizing map with
  | nil => simp
  | cons first keys ih =>
    rw [foldl_cons, ih, get?_erase]
    by_cases he : key = first
    · simp [he]
    · simp [he]

@[simp] theorem get?_mapWithKey {W : Type} (map : OrderedMap K V) (f : K → V → W) (key : K)
    : (map.mapWithKey f).get? key = (map.get? key).map (f key) := by
  refine Option.ext fun _ => ?_
  simp only [get?_eq_some_iff, mapWithKey, List.mem_map, Prod.mk.injEq, Prod.exists,
    map_eq_some_iff]
  constructor
  · rintro ⟨_, old, hm, rfl, rfl⟩
    exact ⟨old, hm, rfl⟩
  · rintro ⟨old, hm, rfl⟩
    exact ⟨key, old, hm, rfl, rfl⟩

@[simp] theorem get?_mapValues (map : OrderedMap K V) (f) (key : K)
    : (map.mapValues f).get? key = (map.get? key).map (f key) :=
  get?_mapWithKey map f key

theorem get?_foldl_insert (hd : (entries.map (·.1)).Nodup) (map : OrderedMap K V) (key : K)
    : (entries.foldl (fun map entry => map.insert entry.1 entry.2) map).get? key
      = (entries.find? (·.1 = key)).elim (map.get? key) fun entry => some entry.2 := by
  induction entries generalizing map with
  | nil => rfl
  | cons entry rest ih =>
    obtain ⟨hn, hd⟩ := nodup_cons.mp hd
    rw [foldl_cons, ih hd, get?_insert]
    by_cases he : entry.1 = key
    · have hno : rest.find? (·.1 = key) = none := by
        refine find?_eq_none.mpr fun other hm => ?_
        rw [decide_eq_true_eq, ← he]
        exact fun heq => hn (mem_map.mpr ⟨other, hm, heq⟩)
      simp [he, hno]
    · simp [he, Ne.symm he]

/-- Inserting the entries of a map in any order gives the map. -/
theorem foldl_insert_of_perm (perm : entries.Perm map.entries)
    : entries.foldl (fun map entry => map.insert entry.1 entry.2) empty = map := by
  have hd : (entries.map (·.1)).Nodup :=
    (perm.map Prod.fst).nodup_iff.mpr map.keys_nodup
  refine ext fun key => Option.ext fun value => ?_
  rw [get?_foldl_insert hd, get?_eq_some_iff, ← perm.mem_iff, get?_empty]
  cases hf : entries.find? (·.1 = key) with
  | none =>
    have hno := find?_eq_none.mp hf (key, value)
    simp only [decide_eq_true_eq, not_true_eq_false, imp_false] at hno
    simp [hno]
  | some entry =>
    have hm := mem_of_find?_eq_some hf
    have he : entry.1 = key := by simpa using find?_some hf
    constructor
    · rintro ⟨⟩
      rwa [← he]
    · intro other
      rw [inj_on_of_nodup_map hd hm other he]
      rfl

/-- The entries of both maps, those of the second one where both have the key. -/
def union (left right : OrderedMap K V) : OrderedMap K V :=
  right.entries.foldl (fun map entry => map.insert entry.1 entry.2) left

theorem get?_union (left right : OrderedMap K V) (key : K)
    : (left.union right).get? key = (right.get? key).or (left.get? key) := by
  rw [union, get?_foldl_insert right.keys_nodup]
  cases hf : right.entries.find? (·.1 = key) with
  | none => simp [get?, hf]
  | some _ => simp [get?, hf]

/-- A key has one entry. -/
theorem filter_key (hf : map.get? key = some value)
    : map.entries.filter (·.1 = key) = [(key, value)] := by
  have members (entry : K × V)
      : entry ∈ map.entries.filter (·.1 = key) ↔ entry ∈ [(key, value)] := by
    obtain ⟨_, _⟩ := entry
    rw [mem_filter, mem_singleton, Prod.mk.injEq, ← get?_eq_some_iff, decide_eq_true_eq]
    constructor
    · rintro ⟨hp, rfl⟩
      exact ⟨rfl, some.inj (hp.symm.trans hf)⟩
    · rintro ⟨rfl, rfl⟩
      exact ⟨hf, rfl⟩
  exact perm_singleton.mp ((perm_ext_iff_of_nodup (map.nodup.filter _)
    (nodup_singleton _)).mpr members)

theorem len_eq_zero_iff : map.len = 0 ↔ ∀ key, map.get? key = none := by
  constructor
  · intro none key
    have nil := length_eq_zero_iff.mp none
    simp [get?, nil]
  · intro none
    refine length_eq_zero_iff.mpr (eq_nil_iff_forall_not_mem.mpr ?_)
    intro entry hm
    have hp := get?_eq_some_iff.mpr hm
    simp [none] at hp

theorem len_erase_lt (h : map.get? key = some value) : (map.erase key).len < map.len := by
  refine length_filter_lt_length_iff_exists.mpr ?_
  exact ⟨_, get?_eq_some_iff.mp h, by simp⟩

end OrderedMap

/-- Ordered sets are ordered maps without values. -/
abbrev OrderedSet (K : Type) [LinearOrder K] := OrderedMap K Unit

end Zay.Lib
