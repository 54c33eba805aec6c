import Zay.Tailscale.Authority

/-! What an update can do to the state of an authority. Every update that passes its checks
keeps a state that a checkpoint can hold, except that keys may be added without bound.
-/

namespace Zay.Tailscale

open Lib List Option Except

/-- What `validate_checkpoint_state` checks, besides the parent hash and the number of keys. -/
structure Checkpointable (state : TailscaleTkaAuthorityState) : Prop where
  hasValues : state.disablementValues ≠ []
  fewValues : state.disablementValues.length ≤ maxDisablementValues
  values : ∀ value ∈ state.disablementValues, value.length = 32
  hasKeys : state.keys ≠ []
  keys : ∀ key ∈ state.keys, validateKey key = .ok ()
  distinct : (state.keys.map (·.publicKey)).Nodup

variable {keys : List TailscaleTkaKey}

theorem validateKeys_eq_ok
    : validateKeys keys = .ok () ↔ ∀ key ∈ keys, validateKey key = .ok () := by
  induction keys with
  | nil => simp [validateKeys]
  | cons key _ ih => rw [validateKeys, check_eq_ok, ih, forall_mem_cons]

theorem checkDuplicates_eq_ok : checkDuplicates keys = .ok () ↔ (keys.map (·.publicKey)).Nodup := by
  induction keys with
  | nil => simp [checkDuplicates]
  | cons _ _ ih =>
    rw [checkDuplicates, invalid, guard_eq_ok, ih, map_cons, nodup_cons]
    simp

variable {state : TailscaleTkaAuthorityState}

theorem validateCheckpointState_eq_ok
    : validateCheckpointState state = .ok ()
      ↔ state.lastAumHash = none ∧ state.keys.length ≤ maxKeys ∧ Checkpointable state := by
  simp only [validateCheckpointState, invalid, guard_eq_ok, check_eq_ok, validateKeys_eq_ok,
    checkDuplicates_eq_ok, List.isEmpty_iff, List.any_eq_true, decide_eq_true_eq,
    isSome_iff_ne_none, not_or, not_not, not_exists, not_and, not_lt, gt_iff_lt]
  constructor
  · rintro ⟨root, ⟨hasValues, fewValues, values⟩, ⟨hasKeys, fewKeys⟩, keys, hd⟩
    exact ⟨root, fewKeys, hasValues, fewValues, values, hasKeys, keys, hd⟩
  · rintro ⟨root, fewKeys, hasValues, fewValues, values, hasKeys, keys, hd⟩
    exact ⟨root, ⟨hasValues, fewValues, values⟩, ⟨hasKeys, fewKeys⟩, keys, hd⟩

theorem checkField_eq_ok {α : Type} {check : α → Except TailscaleTkaAuthorityError Unit} {field}
    : checkField check field = .ok () ↔ ∀ value ∈ field, check value = .ok () := by
  cases field with
  | none => simp [checkField]
  | some value => simp [checkField]

/-- The parts of the static checks that updates of the state rest on. -/
structure StaticallyValid (aum : TailscaleAum) : Prop where
  key : ∀ key ∈ aum.key, validateKey key = .ok ()
  state : ∀ state ∈ aum.state, validateCheckpointState state = .ok ()
  checkpoint : aum.kind = kindCheckpoint → aum.state ≠ none
  removal : aum.kind = kindRemoveKey → aum.keyId ≠ none

theorem staticallyValid_of_eq_ok {aum} (hv : aum.staticValidate = .ok ())
    : StaticallyValid aum := by
  simp only [TailscaleAum.staticValidate, check_eq_ok, checkField_eq_ok] at hv
  obtain ⟨key, -, state, kind⟩ := hv
  refine ⟨key, state, ?_, ?_⟩
  · intro checkpoint missing
    simp [TailscaleAum.validateKind, checkpoint, missing, invalid, kindCheckpoint, kindAddKey,
      kindRemoveKey, kindUpdateKey] at kind
  · intro removal missing
    simp [TailscaleAum.validateKind, removal, missing, invalid, kindAddKey, kindRemoveKey] at kind

section Kinds

variable {aum : TailscaleAum} {next : TailscaleTkaAuthorityState}

namespace Checkpointable

variable (hs : Checkpointable state)
include hs

/-- A state with other keys. -/
theorem withKeys (hasKeys : keys ≠ [])
    (hv : ∀ key ∈ keys, validateKey key = .ok ()) (distinct : (keys.map (·.publicKey)).Nodup)
    : Checkpointable { state with keys := keys } :=
  { hs with hasKeys := hasKeys, keys := hv, distinct := distinct }

theorem addKey (hv : ∀ key ∈ aum.key, validateKey key = .ok ()) (ha : addKey aum state = .ok next)
    : Checkpointable next ∧ next.keys.length = state.keys.length + 1 := by
  unfold Tailscale.addKey at ha
  cases given : aum.key with
  | none => simp [given, invalid] at ha
  | some key =>
    simp only [given, invalid, guard_eq_ok, ok.injEq] at ha
    obtain ⟨hn, rfl⟩ := ha
    have keys := forall_mem_append.mpr ⟨hs.keys, forall_mem_singleton.mpr (hv key given)⟩
    refine ⟨hs.withKeys (by simp) keys ?_, by simp⟩
    rw [map_append, map_singleton, nodup_append]
    refine ⟨hs.distinct, by simp, ?_⟩
    intro id old other new he
    obtain ⟨existing, hm, rfl⟩ := mem_map.mp old
    rw [mem_singleton.mp new] at he
    exact hn (any_eq_true.mpr ⟨existing, hm, by simpa using he⟩)

theorem removeKey (named : aum.keyId ≠ none) (removal : aum.kind = kindRemoveKey)
    (hk : ¬RemovesFinalKey aum state) (ha : removeKey aum state = .ok next)
    : Checkpointable next ∧ next.keys.length + 1 = state.keys.length := by
  unfold Tailscale.removeKey at ha
  cases hf : state.keys.findIdx? (·.publicKey = aum.keyId.getD []) with
  | none => simp [hf, invalid] at ha
  | some index =>
    simp only [hf, ok.injEq] at ha
    subst ha
    obtain ⟨hi, sameId, -⟩ := findIdx?_eq_some_iff_getElem.mp hf
    have length := length_eraseIdx_of_lt hi
    refine ⟨hs.withKeys ?_ ?_ ?_, by dsimp only; omega⟩
    · -- The only key would have been the one that may not be removed.
      intro empty
      rw [empty, length_nil] at length
      obtain ⟨key, only⟩ := length_eq_one_iff.mp (by omega : state.keys.length = 1)
      obtain ⟨id, given⟩ := ne_none_iff_exists'.mp named
      refine hk ⟨removal, by omega, ?_⟩
      obtain rfl : index = 0 := by omega
      simp only [only, getElem_cons_zero, given, getD_some, decide_eq_true_eq] at sameId
      simp [only, given, sameId]
    · intro key hm
      exact hs.keys key (mem_of_mem_eraseIdx hm)
    · exact hs.distinct.sublist ((eraseIdx_sublist state.keys index).map _)

end Checkpointable

variable {id : List UInt8} {updated : TailscaleTkaKey}

theorem map_publicKey_replaceKey (he : updated.publicKey = id) (keys)
    : (replaceKey id updated keys).map (·.publicKey) = keys.map (·.publicKey) := by
  induction keys with
  | nil => rfl
  | cons _ _ ih =>
    unfold replaceKey
    split
    next hf =>
      simp [he, hf]
    · simp [ih]

theorem mem_replaceKey {key} (hm : key ∈ replaceKey id updated keys)
    : key = updated ∨ key ∈ keys := by
  induction keys with
  | nil => cases hm
  | cons _ _ ih =>
    unfold replaceKey at hm
    split at hm
    · rcases mem_cons.mp hm with rfl | old
      · exact .inl rfl
      · exact .inr (mem_cons_of_mem _ old)
    rcases mem_cons.mp hm with rfl | hr
    · exact .inr mem_cons_self
    · exact (ih hr).imp_right (mem_cons_of_mem _)

theorem Checkpointable.updateKey (hs : Checkpointable state) (ha : updateKey aum state = .ok next)
    : Checkpointable next ∧ next.keys.length = state.keys.length := by
  unfold Tailscale.updateKey at ha
  cases hf : state.findKey (aum.keyId.getD []) with
  | none => simp [hf, invalid] at ha
  | some key =>
    simp only [hf, check_eq_ok] at ha
    obtain ⟨hv, ha⟩ := ha
    cases ha
    have id : key.publicKey = aum.keyId.getD [] := by simpa using find?_some hf
    have ids := @map_publicKey_replaceKey _ (key.update aum) id state.keys
    have length := congrArg length ids
    rw [length_map, length_map] at length
    refine ⟨hs.withKeys ?_ ?_ (ids ▸ hs.distinct), length⟩
    · intro empty
      rw [empty] at length
      exact hs.hasKeys (length_eq_zero_iff.mp length.symm)
    · intro other hm
      rcases mem_replaceKey hm with rfl | old
      · exact hv
      · exact hs.keys other old

theorem Checkpointable.restoreCheckpoint
    (hv : ∀ state ∈ aum.state, validateCheckpointState state = .ok ())
    (ha : restoreCheckpoint aum state = .ok next)
    : Checkpointable next ∧ next.keys.length ≤ maxKeys := by
  unfold Tailscale.restoreCheckpoint at ha
  cases given : aum.state with
  | none => simp [given, invalid] at ha
  | some checkpoint =>
    simp only [given, invalid, guard_eq_ok, ok.injEq] at ha
    obtain ⟨-, rfl⟩ := ha
    obtain ⟨-, few, hs⟩ := validateCheckpointState_eq_ok.mp (hv checkpoint given)
    exact ⟨hs, few⟩

end Kinds

section Updates

variable {primitives : TkaPrimitives} {aum : TailscaleAum} {next : TailscaleTkaAuthorityState}

theorem applyAum_eq_ok
    : applyAum primitives state aum = .ok next
      ↔ state.lastAumHash = aum.previous
        ∧ ∃ changed, applyKind aum state = .ok changed
          ∧ next = { changed with lastAumHash := some (aum.hash primitives) } := by
  rw [applyAum, invalid, guard_eq_ok, bind_eq_ok, not_not]
  refine and_congr_right fun _ => exists_congr fun changed => and_congr_right fun _ => ?_
  exact ⟨fun he => by cases he; rfl, fun he => by rw [he]; rfl⟩

/-- An update that passes its checks leaves a state for a checkpoint, with no more keys than
before unless it adds one or is a checkpoint itself.
-/
theorem Checkpointable.applyAum (hs : Checkpointable state) (hv : StaticallyValid aum)
    (hk : ¬RemovesFinalKey aum state) (ha : applyAum primitives state aum = .ok next)
    : Checkpointable next
      ∧ (next.keys.length ≤ maxKeys ∨ next.keys.length ≤ state.keys.length
        ∨ aum.kind = kindAddKey ∧ next.keys.length = state.keys.length + 1) := by
  obtain ⟨-, changed, kind, rfl⟩ := applyAum_eq_ok.mp ha
  suffices Checkpointable changed
      ∧ (changed.keys.length ≤ maxKeys ∨ changed.keys.length ≤ state.keys.length
        ∨ aum.kind = kindAddKey ∧ changed.keys.length = state.keys.length + 1) by
    exact ⟨{ this.1 with }, this.2⟩
  unfold applyKind at kind
  split at kind
  · obtain ⟨checkpointable, few⟩ := Checkpointable.restoreCheckpoint hv.state kind
    exact ⟨checkpointable, .inl few⟩
  split at kind
  next adds =>
    obtain ⟨checkpointable, more⟩ := hs.addKey hv.key kind
    exact ⟨checkpointable, .inr (.inr ⟨adds, more⟩)⟩
  split at kind
  next removes =>
    obtain ⟨checkpointable, hf⟩ :=
      hs.removeKey (hv.removal removes) removes hk kind
    exact ⟨checkpointable, .inr (.inl (by omega))⟩
  split at kind
  · obtain ⟨checkpointable, he⟩ := hs.updateKey kind
    exact ⟨checkpointable, .inr (.inl (by omega))⟩
  cases kind
  exact ⟨hs, .inr (.inl (Nat.le_refl _))⟩

end Updates

end Zay.Tailscale
