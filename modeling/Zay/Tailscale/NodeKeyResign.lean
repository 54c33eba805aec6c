import Zay.Tailscale.NodeKeyCodec

/-! When a re-signed node key is accepted again. Trimming counts node keys and the decoder
counts levels, so a chain of sixteen levels is only trimmed when all of them name a key.
-/

namespace Zay.Tailscale

open Lib Lib.Cbor Option

namespace TailscaleNodeKeySignature

/-- The first signature of a chain that is not a rotation. -/
def innermost : TailscaleNodeKeySignature → TailscaleNodeKeySignature
  | single layer => single layer
  | nesting layer nested =>
    if layer.kind = kindRotation then nested.innermost else nesting layer nested

/-- The node keys of the rotations in front of it, the latest first. -/
def rotationKeys : TailscaleNodeKeySignature → List (Option (List UInt8))
  | single _ => []
  | nesting layer nested =>
    if layer.kind = kindRotation then layer.nodeKey :: nested.rotationKeys else []

theorem levels_eq (signature : TailscaleNodeKeySignature)
    : signature.levels = signature.rotationKeys.length + signature.innermost.levels := by
  induction signature with
  | single layer => simp [rotationKeys, innermost]
  | nesting layer nested ih =>
    simp only [rotationKeys, innermost]
    split
    · rw [levels, ih, List.length_cons]
      omega
    · simp

theorem levels_pos (signature : TailscaleNodeKeySignature) : 0 < signature.levels := by
  cases signature <;> exact Nat.succ_pos _

variable {signature : TailscaleNodeKeySignature}

theorem Valid.innermost (hv : signature.Valid) : signature.innermost.Valid := by
  induction signature with
  | single layer => exact hv
  | nesting layer _ ih =>
    simp only [TailscaleNodeKeySignature.innermost]
    split
    · exact ih hv.2
    · exact hv

theorem Fits.innermost (hf : signature.Fits) : signature.innermost.Fits := by
  induction signature with
  | single layer => exact hf
  | nesting layer _ ih =>
    simp only [TailscaleNodeKeySignature.innermost]
    split
    · exact ih hf.2
    · exact hf

theorem innermost_innermost (signature : TailscaleNodeKeySignature)
    : signature.innermost.innermost = signature.innermost
      ∧ signature.innermost.rotationKeys = [] := by
  induction signature with
  | single layer => exact ⟨rfl, rfl⟩
  | nesting layer _ ih =>
    simp only [innermost]
    split
    · exact ih
    next other =>
      simp [innermost, rotationKeys, other]

theorem previousKeys_eq (hv : signature.Valid)
    : (previousKeys signature).2 = some signature.innermost
      ∧ (previousKeys signature).1.map some
        = signature.rotationKeys ++ signature.innermost.layer.nodeKey.toList.map some := by
  induction signature with
  | single layer =>
    have other : layer.kind ≠ kindRotation := fun rotation => by
      simpa using hv.2.1 rotation
    simp [previousKeys, innermost, rotationKeys, other, TailscaleNodeKeySignature.layer]
  | nesting layer _ ih =>
    obtain ⟨⟨-, -, keyed⟩, hi⟩ := hv
    obtain ⟨initial, keys⟩ := ih hi
    by_cases rotation : layer.kind = kindRotation
    · obtain ⟨_, named⟩ := isSome_iff_exists.mp (keyed (by rw [rotation]; decide))
      simp [previousKeys, innermost, rotationKeys, rotation, initial, keys, named]
    · simp [previousKeys, innermost, rotationKeys, rotation, TailscaleNodeKeySignature.layer]

theorem previousKeys_fit (hf : signature.Fits)
    : ∀ key ∈ (previousKeys signature).1, key.length < 256 ^ 8 := by
  have own {layer : SignatureLayer} (hf : LayerFits layer)
      : ∀ key ∈ layer.nodeKey.toList, key.length < 256 ^ 8 := fun key mem =>
    hf.nodeKey key (mem_toList.mp mem)
  induction signature with
  | single layer => exact own hf
  | nesting layer _ ih =>
    simp only [previousKeys]
    split
    · exact own hf.1
    · exact List.forall_mem_append.mpr ⟨own hf.1, ih hf.2⟩

end TailscaleNodeKeySignature

open TailscaleNodeKeySignature

section Rotate

variable (blake2s : List UInt8 → Digest) (sign : Signer) {nodeKey : List UInt8}
  {old : TailscaleNodeKeySignature}

theorem fits_rotate (hs : nodeKey.length < 256 ^ 8) (hf : old.Fits)
    : (rotate blake2s sign nodeKey old).Fits := by
  refine ⟨⟨?_, ?_, ?_, ?_⟩, hf⟩
  all_goals rintro value ⟨⟩
  · exact hs
  · rw [Vector.length_toList]
    decide

theorem valid_rotate (hv : old.Valid) : (rotate blake2s sign nodeKey old).Valid :=
  ⟨⟨.inr (.inl rfl), fun _ => rfl, fun _ => rfl⟩, hv⟩

/-- A list of rotations in front of a chain. -/
theorem foldr_rotate {base} (hf : base.Fits) (hv : base.Valid) {keys : List (List UInt8)}
    (hs : ∀ key ∈ keys, key.length < 256 ^ 8)
    : (keys.foldr (rotate blake2s sign) base).Fits
      ∧ (keys.foldr (rotate blake2s sign) base).Valid
      ∧ (keys.foldr (rotate blake2s sign) base).levels = keys.length + base.levels
      ∧ (keys.foldr (rotate blake2s sign) base).innermost = base.innermost
      ∧ (keys.foldr (rotate blake2s sign) base).rotationKeys
        = keys.map some ++ base.rotationKeys := by
  induction keys with
  | nil => exact ⟨hf, hv, by simp, rfl, rfl⟩
  | cons key keys ih =>
    obtain ⟨first, others⟩ := List.forall_mem_cons.mp hs
    obtain ⟨fits', valid', count, inner, rotations⟩ := ih others
    refine ⟨fits_rotate blake2s sign first fits', valid_rotate blake2s sign valid', ?_, ?_, ?_⟩
    · rw [List.foldr_cons, rotate, levels, count, List.length_cons]
      omega
    · rw [List.foldr_cons, rotate, innermost, if_pos rfl, inner]
    · rw [List.foldr_cons, rotate, rotationKeys, if_pos rfl, rotations]
      rfl

end Rotate

/-- What re-signing `bytes`, the form of `old`, has to give. The layers below the new key
name the latest keys of the old chain; at least `kept` of them are there.
-/
structure Resigned (skip : Reader CborError Unit) (bytes : List UInt8)
    (old : TailscaleNodeKeySignature) (key resigned : List UInt8) : Prop where
  accepted
    : ∃ result, decode skip resigned = .ok result
      ∧ result.layer.nodeKey = some key
      ∧ result.innermost = old.innermost
      ∧ if old.layer.nodeKey = some key then resigned = bytes
        else ∃ kept, maximumPreviousNodeKeys - 1 ≤ kept
          ∧ result.rotationKeys = some key :: old.rotationKeys.take kept

section Resign

variable {skip : Reader CborError Unit} (blake2s : List UInt8 → Digest) (sign : Signer)
  {old : TailscaleNodeKeySignature}

theorem kind_of_long_previousKeys (hl : maximumPreviousNodeKeys < (previousKeys old).1.length)
    : old.layer.kind = kindRotation := by
  have hb : maximumPreviousNodeKeys = 15 := rfl
  cases old with
  | single layer =>
    have hs : layer.nodeKey.toList.length ≤ 1 := length_toList_le
    simp only [previousKeys] at hl
    omega
  | nesting layer nested =>
    have hs : layer.nodeKey.toList.length ≤ 1 := length_toList_le
    by_contra other
    simp only [previousKeys, TailscaleNodeKeySignature.layer] at hl other
    simp only [if_pos other] at hl
    omega

theorem trimRotationChain_short (hs : ¬ maximumPreviousNodeKeys < (previousKeys old).1.length)
    : trimRotationChain blake2s sign old = .ok old := by
  simp only [trimRotationChain]
  split
  · rfl
  · rw [if_pos (by omega)]

theorem trimRotationChain_long (hv : old.Valid)
    (hl : maximumPreviousNodeKeys < (previousKeys old).1.length)
    : trimRotationChain blake2s sign old
      = .ok (((previousKeys old).1.take (maximumPreviousNodeKeys - 1)).foldr
          (rotate blake2s sign) old.innermost) := by
  simp only [trimRotationChain, kind_of_long_previousKeys hl, (previousKeys_eq hv).1]
  rw [if_neg (by simp), if_neg (by omega)]

variable {nodeKey : Vector UInt8 32} {trimmed : TailscaleNodeKeySignature} {bytes : List UInt8}

theorem resign_eq (ha : decode skip bytes = .ok old)
    (other : old.layer.nodeKey ≠ some (nodeKeyBinary nodeKey))
    (trims : trimRotationChain blake2s sign old = .ok trimmed)
    : resignTailscaleNodeKeySignature blake2s sign skip nodeKey bytes
      = .ok (rotate blake2s sign (nodeKeyBinary nodeKey) trimmed).encode := by
  simp [resignTailscaleNodeKeySignature, ha, bind, Except.bind, other, trims, pure, Except.pure]

theorem length_nodeKeyBinary (nodeKey : Vector UInt8 32)
    : (nodeKeyBinary nodeKey).length < 256 ^ 8 := by
  rw [nodeKeyBinary, List.length_append, Vector.length_toList]
  decide

/-- A rotation in front of `trimmed` is what re-signing has to give, as long as it is
accepted.
-/
theorem resigned_rotate_iff (other : old.layer.nodeKey ≠ some (nodeKeyBinary nodeKey))
    (hf : trimmed.Fits) (hv : trimmed.Valid) (heq : trimmed.innermost = old.innermost)
    (recent : ∃ kept, maximumPreviousNodeKeys - 1 ≤ kept
      ∧ trimmed.rotationKeys = old.rotationKeys.take kept)
    : Resigned skip bytes old (nodeKeyBinary nodeKey)
        (rotate blake2s sign (nodeKeyBinary nodeKey) trimmed).encode
      ↔ trimmed.levels < 16 := by
  have hd (result : TailscaleNodeKeySignature)
      : decode skip (rotate blake2s sign (nodeKeyBinary nodeKey) trimmed).encode = .ok result
        ↔ result = rotate blake2s sign (nodeKeyBinary nodeKey) trimmed
          ∧ trimmed.levels + 1 ≤ 16 :=
    decode_encode_iff (fits_rotate blake2s sign (length_nodeKeyBinary nodeKey) hf)
      (valid_rotate blake2s sign hv) result
  constructor
  · rintro ⟨result, ha, -⟩
    exact ((hd result).mp ha).2
  · intro hs
    obtain ⟨kept, he, keys⟩ := recent
    refine ⟨_, (hd _).mpr ⟨rfl, hs⟩, rfl, heq, ?_⟩
    rw [if_neg other]
    refine ⟨kept, he, ?_⟩
    rw [← keys]
    rfl

/-- Re-signing gives a valid chain exactly when the key is the same, or the old chain has
fewer than sixteen levels, or it names more than fifteen keys and is trimmed.
-/
theorem resign_valid_iff (nodeKey : Vector UInt8 32) {bytes : List UInt8}
    {old : TailscaleNodeKeySignature} (accepted : decode skip bytes = .ok old)
    : (∃ resigned,
        resignTailscaleNodeKeySignature blake2s sign skip nodeKey bytes = .ok resigned
        ∧ Resigned skip bytes old (nodeKeyBinary nodeKey) resigned)
      ↔ old.layer.nodeKey = some (nodeKeyBinary nodeKey) ∨ old.levels < 16
        ∨ maximumPreviousNodeKeys < (previousKeys old).1.length := by
  obtain ⟨fits, few, valid⟩ := decode_eq_ok accepted
  by_cases same : old.layer.nodeKey = some (nodeKeyBinary nodeKey)
  · refine iff_of_true ⟨bytes, ?_, old, accepted, same, rfl, by rw [if_pos same]⟩ (.inl same)
    simp [resignTailscaleNodeKeySignature, accepted, bind, Except.bind, same, pure, Except.pure]
  simp only [same, false_or]
  by_cases long : maximumPreviousNodeKeys < (previousKeys old).1.length
  · refine iff_of_true ⟨_, resign_eq blake2s sign accepted same
      (trimRotationChain_long blake2s sign valid long), ?_⟩ (.inr long)
    -- Only a chain of fifteen rotations around a single signature with a key is trimmed.
    obtain ⟨rotations, single⟩ : old.rotationKeys.length = 15 ∧ old.innermost.levels = 1 := by
      have keys := congrArg List.length (previousKeys_eq valid).2
      have last : old.innermost.layer.nodeKey.toList.length ≤ 1 := length_toList_le
      have positive := old.innermost.levels_pos
      rw [List.length_map, List.length_append, List.length_map] at keys
      rw [levels_eq] at few
      have bound : maximumPreviousNodeKeys = 15 := rfl
      omega
    obtain ⟨fits', valid', count, inner, keys⟩ :=
      foldr_rotate blake2s sign fits.innermost valid.innermost
        fun key (mem : key ∈ (previousKeys old).1.take (maximumPreviousNodeKeys - 1)) =>
          previousKeys_fit fits key (List.mem_of_mem_take mem)
    refine (resigned_rotate_iff blake2s sign same fits' valid'
      (inner.trans old.innermost_innermost.1) ⟨14, Nat.le_refl _, ?_⟩).mpr ?_
    · rw [keys, old.innermost_innermost.2, List.append_nil, List.map_take,
        (previousKeys_eq valid).2]
      exact List.take_append_of_le_length (by rw [rotations]; decide)
    · rw [count, single, List.length_take]
      have bound : maximumPreviousNodeKeys = 15 := rfl
      omega
  · have resigned := resign_eq blake2s sign accepted same
      (trimRotationChain_short blake2s sign long)
    simp only [resigned, Except.ok.injEq, exists_eq_left', long, or_false]
    refine resigned_rotate_iff blake2s sign same fits valid rfl
      ⟨max 14 old.rotationKeys.length, Nat.le_max_left .., ?_⟩
    exact (List.take_of_length_le (Nat.le_max_right ..)).symm

end Resign

/-- A credential, which may be without a node key, in front of `count` rotations. -/
def rotatedCredential : (count : Nat) → TailscaleNodeKeySignature
  | 0 =>
    .single
      { kind := kindCredential, nodeKey := none, keyId := none, signature := none,
        wrappingPublicKey := none }
  | count + 1 =>
    .nesting
      { kind := kindRotation, nodeKey := some [UInt8.ofNat count], keyId := none,
        signature := none, wrappingPublicKey := none }
      (rotatedCredential count)

theorem resign_valid_fourteenRotations
    : decode (.fail .typeMismatch) (rotatedCredential 14).encode = .ok (rotatedCredential 14)
      ∧ ∃ resigned,
        resignTailscaleNodeKeySignature (fun _ => .replicate 32 0) (fun _ => .replicate 64 0)
          (.fail .typeMismatch) (.replicate 32 1) (rotatedCredential 14).encode = .ok resigned
        ∧ Resigned (.fail .typeMismatch) (rotatedCredential 14).encode (rotatedCredential 14)
          (nodeKeyBinary (.replicate 32 1)) resigned := by
  have accepted : decode (.fail .typeMismatch) (rotatedCredential 14).encode
      = .ok (rotatedCredential 14) := by decide +kernel
  exact ⟨accepted, (resign_valid_iff _ _ _ accepted).mpr (.inr (.inl (by decide)))⟩

/-- Fifteen rotations name fifteen keys, so the chain of sixteen levels is not trimmed and
the re-signed one is rejected.
-/
theorem resign_rejected_fifteenRotations
    : decode (.fail .typeMismatch) (rotatedCredential 15).encode = .ok (rotatedCredential 15)
      ∧ ∀ (blake2s : List UInt8 → Digest) (sign : Signer), ∃ resigned,
        resignTailscaleNodeKeySignature blake2s sign (.fail .typeMismatch) (.replicate 32 1)
          (rotatedCredential 15).encode = .ok resigned
        ∧ decode (.fail .typeMismatch) resigned = .error .nestingExceeds16Levels := by
  have accepted : decode (.fail .typeMismatch) (rotatedCredential 15).encode
      = .ok (rotatedCredential 15) := by decide +kernel
  refine ⟨accepted, fun blake2s sign => ⟨_, resign_eq blake2s sign accepted (by decide)
    (trimRotationChain_short blake2s sign (by decide)), ?_⟩⟩
  have fits := (decode_eq_ok accepted).1
  rw [decode_encode (fits_rotate blake2s sign (length_nodeKeyBinary _) fits)]
  rfl

end Zay.Tailscale
