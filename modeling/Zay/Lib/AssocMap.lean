import Mathlib.Data.List.Nodup

/-! Finite maps as lists of entries with distinct keys, for maps whose size is read but whose
order is not.
-/

namespace Zay.Lib

open List Option Function

theorem ne_of_eq_none {K V : Type} {table : K → Option V} {key other value}
    (hno : table key = none) (hp : table other = some value)
    : other ≠ key := by
  rintro rfl
  cases hno.symm.trans hp

/-- A partial function that is changed in one place, as a map. -/
theorem update_eq_some {K V : Type} [DecidableEq K] {table : K → Option V} {key other value entry}
    (hf : update table key value other = some entry)
    : other = key ∧ value = some entry ∨ other ≠ key ∧ table other = some entry := by
  by_cases he : other = key
  · subst he
    exact .inl ⟨rfl, by simpa using hf⟩
  · exact .inr ⟨he, by rwa [update_of_ne he] at hf⟩

structure AssocMap (K V : Type) where
  entries : List (K × V)
  distinct : (entries.map Prod.fst).Nodup

namespace AssocMap

variable {K V : Type} [DecidableEq K]

def empty : AssocMap K V := ⟨[], .nil⟩

def len (map : AssocMap K V) : Nat := map.entries.length

def get? (map : AssocMap K V) (key : K) : Option V :=
  (map.entries.find? (·.1 = key)).map Prod.snd

def erase (map : AssocMap K V) (key : K) : AssocMap K V where
  entries := map.entries.filter (·.1 ≠ key)
  distinct := (filter_sublist.map _).nodup map.distinct

def insert (map : AssocMap K V) (key : K) (value : V) : AssocMap K V where
  entries := (key, value) :: (map.erase key).entries
  distinct := by
    rw [map_cons, nodup_cons]
    refine ⟨fun mem => ?_, (map.erase key).distinct⟩
    obtain ⟨entry, kept, same⟩ := mem_map.mp mem
    exact absurd same (by simpa using (mem_filter.mp kept).2)

@[simp] theorem get?_empty (key : K) : (empty : AssocMap K V).get? key = none := rfl

@[simp] theorem get?_erase (map : AssocMap K V) (key other : K)
    : (map.erase key).get? other = if other = key then none else map.get? other := by
  unfold get? erase
  rw [find?_filter]
  split
  next he =>
    simp only [he, map_eq_none_iff, find?_eq_none]
    simp
  next hne =>
    congr 2
    funext entry
    by_cases hf : entry.1 = other
    · simp [hf, hne]
    · simp [hf]

variable {value : V}

theorem get?_of_erase {map : AssocMap K V} {key other}
    (hf : (map.erase key).get? other = some value)
    : map.get? other = some value := by
  rw [get?_erase] at hf
  split at hf
  · cases hf
  · exact hf

@[simp] theorem get?_insert (map : AssocMap K V) (key other : K) (value : V)
    : (map.insert key value).get? other = if other = key then some value else map.get? other := by
  have rest := map.get?_erase key other
  simp only [get?, insert, find?_cons] at rest ⊢
  by_cases he : key = other
  · simp [he]
  simp only [he, decide_false, Ne.symm he, if_false] at rest ⊢
  exact rest

theorem get?_erase_eq_update (map : AssocMap K V) (key : K)
    : (map.erase key).get? = update map.get? key none := by
  funext other
  rw [get?_erase, update_apply]

theorem get?_insert_eq_update (map : AssocMap K V) (key : K) (value : V)
    : (map.insert key value).get? = update map.get? key (some value) := by
  funext other
  rw [get?_insert, update_apply]

variable {map : AssocMap K V} {key : K}

theorem get?_eq_none_iff : map.get? key = none ↔ ∀ entry ∈ map.entries, entry.1 ≠ key := by
  simp [get?]

theorem mem_entries_iff : (key, value) ∈ map.entries ↔ map.get? key = some value := by
  obtain ⟨entries, hd⟩ := map
  simp only [get?]
  induction entries with
  | nil => simp
  | cons entry entries ih =>
    rw [map_cons, nodup_cons] at hd
    rw [mem_cons, ih hd.2, find?_cons]
    by_cases he : entry.1 = key
    · have hno : entries.find? (·.1 = key) = none := by
        simp only [find?_eq_none, decide_eq_true_eq]
        intro other hm heq
        exact hd.1 (mem_map.mpr ⟨other, hm, heq.trans he.symm⟩)
      simp only [he, hno, decide_true, map_some, some.injEq]
      simp [Prod.ext_iff, ← he, eq_comm]
    have other : (key, value) ≠ entry := fun heq => he (by rw [← heq])
    simp [he, other]

theorem len_erase_le (map : AssocMap K V) (key : K) : (map.erase key).len ≤ map.len :=
  length_filter_le ..

theorem len_insert_le (map : AssocMap K V) (key : K) (value : V)
    : (map.insert key value).len ≤ map.len + 1 :=
  Nat.succ_le_succ (map.len_erase_le key)

/-- A new key adds its entry to the count. -/
theorem countP_insert (hn : map.get? key = none) (value : V) (counts)
    : (map.insert key value).entries.countP counts
      = map.entries.countP counts + if counts (key, value) then 1 else 0 := by
  have hk : (map.erase key).entries = map.entries := by
    apply filter_eq_self.mpr
    intro entry hm
    simpa using get?_eq_none_iff.mp hn entry hm
  show ((key, value) :: (map.erase key).entries).countP counts = _
  rw [hk, countP_cons]

/-- Erasing a key takes its entry from the count. -/
theorem countP_erase (hf : map.get? key = some value) (counts)
    : map.entries.countP counts
      = (map.erase key).entries.countP counts + if counts (key, value) then 1 else 0 := by
  have hm := mem_entries_iff.mpr hf
  obtain ⟨entries, hd⟩ := map
  simp only [erase] at hm ⊢
  clear hf
  induction entries with
  | nil => simp at hm
  | cons entry entries ih =>
    rw [map_cons, nodup_cons] at hd
    rcases mem_cons.mp hm with heq | hr
    · have others : entries.filter (·.1 ≠ key) = entries := by
        apply filter_eq_self.mpr
        intro other hl
        have ha : other.1 ≠ key := fun he => hd.1
          (mem_map.mpr ⟨other, hl, he.trans (by rw [← heq])⟩)
        simpa using ha
      rw [filter_cons_of_neg (by simp [← heq]), others, countP_cons, heq]
    · have ha : entry.1 ≠ key := fun he => hd.1 (mem_map.mpr ⟨_, hr, he.symm⟩)
      rw [filter_cons_of_pos (by simpa using ha), countP_cons, countP_cons, ih hd.2 hr]
      omega

end AssocMap

end Zay.Lib
