import Zay.Lib.Checks
import Zay.Tailscale.NodeKeySignature

/-! The CBOR form of node-key signatures: what is decoded is what was encoded, and what the
decoder accepts.
-/

namespace Zay.Tailscale

open Lib Lib.Cbor Lib.Reader List

namespace TailscaleNodeKeySignature

variable {skip : Reader CborError Unit}

/-- The length of a byte string fits into its head. -/
def FieldFits (field : Option (List UInt8)) : Prop :=
  ∀ value ∈ field, value.length < 256 ^ 8

structure LayerFits (layer : SignatureLayer) : Prop where
  nodeKey : FieldFits layer.nodeKey
  keyId : FieldFits layer.keyId
  signature : FieldFits layer.signature
  wrappingPublicKey : FieldFits layer.wrappingPublicKey

def Fits : TailscaleNodeKeySignature → Prop
  | single layer => LayerFits layer
  | nesting layer nested => LayerFits layer ∧ nested.Fits

section RoundTrip

variable {one : Reader CborError TailscaleNodeKeySignature} {remaining : Nat} {parts final : Parts}
  (next : Parts) {front back : List UInt8}

variable {next} in
theorem reads_decodeEntries_succ (entry : Reads (decodeEntry skip one parts) front next)
    (others : Reads (decodeEntries skip one false remaining next) back final)
    : Reads (decodeEntries skip one false (remaining + 1) parts) (front ++ back) final :=
  (Reads.pure false).bind (entry.bind others)

/-- A byte string that may be missing. -/
theorem reads_decodeEntries_field {key field} (hno : field = none → next = parts)
    (hp : ∀ value, field = some value →
      Reads (decodeEntry skip one parts) (unsigned key.toNat ++ byteString value) next)
    (others : Reads (decodeEntries skip one false remaining next) back final)
    : Reads (decodeEntries skip one false (remaining + field.isSome.toNat) parts)
      (encodeField key field ++ back) final := by
  cases field with
  | none =>
    rw [hno rfl] at others
    exact others
  | some value => exact reads_decodeEntries_succ (hp value rfl) others

variable {nested : Option TailscaleNodeKeySignature} {depth : Nat}
  {signature : TailscaleNodeKeySignature}

/-- A nested signature that may be missing. -/
theorem reads_decodeEntries_nested
    (inner : ∀ signature ∈ nested, Reads one signature.encode signature)
    (others : Reads (decodeEntries skip one false remaining (parts.1, nested)) back final)
    (missing : parts.2 = none)
    : Reads (decodeEntries skip one false (remaining + nested.isSome.toNat) parts)
      ((nested.map encode).elim [] (unsigned 5 ++ ·) ++ back) final := by
  obtain ⟨_, _⟩ := parts
  cases nested with
  | none =>
    cases missing
    exact others
  | some signature =>
    refine reads_decodeEntries_succ ?_ others
    exact (reads_readU8 5).bind ((inner signature rfl).map _)

variable {layer : SignatureLayer}

/-- All entries of a layer, when its nested signature can be read. -/
theorem reads_decodeEntries (hf : LayerFits layer)
    (inner : ∀ signature ∈ nested, Reads one signature.encode signature)
    : Reads (decodeEntries skip one false (fieldCount layer nested.isSome) emptyParts)
      (encodeEntries layer (nested.map encode)) (layer, nested) := by
  obtain ⟨kind, nodeKey, keyId, signature, wrappingPublicKey⟩ := layer
  have count : fieldCount ⟨kind, nodeKey, keyId, signature, wrappingPublicKey⟩ nested.isSome
      = 0 + wrappingPublicKey.isSome.toNat + nested.isSome.toNat + signature.isSome.toNat
        + keyId.isSome.toNat + nodeKey.isSome.toNat + 1 := by
    unfold fieldCount
    dsimp only
    omega
  have entries : encodeEntries ⟨kind, nodeKey, keyId, signature, wrappingPublicKey⟩
        (nested.map encode)
      = (unsigned 1 ++ unsigned kind.toNat) ++ (encodeField 2 nodeKey ++ (encodeField 3 keyId
        ++ (encodeField 4 signature ++ ((nested.map encode).elim [] (unsigned 5 ++ ·)
        ++ (encodeField 6 wrappingPublicKey ++ []))))) := by
    simp [encodeEntries]
  rw [count, entries]
  -- The entries come in the order of their keys, so each one is added to those before it.
  refine reads_decodeEntries_succ ((reads_readU8 1).bind ((reads_readU8 kind).map _)) ?_
  refine reads_decodeEntries_field (⟨kind, nodeKey, none, none, none⟩, none) ?_ ?_
    (reads_decodeEntries_field (⟨kind, nodeKey, keyId, none, none⟩, none) ?_ ?_
      (reads_decodeEntries_field (⟨kind, nodeKey, keyId, signature, none⟩, none) ?_ ?_
        (reads_decodeEntries_nested inner (reads_decodeEntries_field
            (⟨kind, nodeKey, keyId, signature, wrappingPublicKey⟩, nested) ?_ ?_
            (Reads.pure _)) rfl)))
  · rintro rfl
    rfl
  · rintro value rfl
    exact (reads_readU8 2).bind ((reads_readBytes (hf.nodeKey _ rfl)).map _)
  · rintro rfl
    rfl
  · rintro value rfl
    exact (reads_readU8 3).bind ((reads_readBytes (hf.keyId _ rfl)).map _)
  · rintro rfl
    rfl
  · rintro value rfl
    exact (reads_readU8 4).bind ((reads_readBytes (hf.signature _ rfl)).map _)
  · rintro rfl
    rfl
  · rintro value rfl
    exact (reads_readU8 6).bind ((reads_readBytes (hf.wrappingPublicKey _ rfl)).map _)

theorem fieldCount_le (layer nested) : fieldCount layer nested ≤ 6 := by
  have one (present : Bool) : present.toNat ≤ 1 := by cases present <;> decide
  have a := one layer.nodeKey.isSome
  have b := one layer.keyId.isSome
  have c := one layer.signature.isSome
  have d := one nested
  have e := one layer.wrappingPublicKey.isSome
  unfold fieldCount
  omega

/-- The number of signatures in the chain. -/
def levels : TailscaleNodeKeySignature → Nat
  | single _ => 1
  | nesting _ nested => nested.levels + 1

theorem reads_decodeSignature_succ (hf : LayerFits layer) (nested)
    (inner : ∀ signature ∈ nested, Reads (decodeSignature skip depth) signature.encode signature)
    : Reads (decodeSignature skip (depth + 1))
      (mapHead (fieldCount layer nested.isSome) ++ encodeEntries layer (nested.map encode))
      (ofParts layer nested) := by
  have few := fieldCount_le layer nested.isSome
  refine (reads_readMap (by omega)).bind ?_
  exact (reads_decodeEntries hf inner).map fun parts => ofParts parts.1 parts.2

theorem reads_decodeSignature (hf : signature.Fits) (he : signature.levels ≤ depth)
    : Reads (decodeSignature skip depth) signature.encode signature := by
  induction signature generalizing depth with
  | single layer =>
    obtain ⟨less, rfl⟩ := Nat.exists_eq_add_of_le' he
    exact reads_decodeSignature_succ hf none (by simp)
  | nesting layer nested ih =>
    obtain ⟨less, rfl⟩ := Nat.exists_eq_add_of_le' he
    refine reads_decodeSignature_succ hf.1 (some nested) ?_
    rintro signature ⟨⟩
    exact ih hf.2 (Nat.le_add_left ..)

theorem length_head_pos (major argument : Nat) : 0 < (head major argument).length := by
  obtain ⟨_, _, -, form⟩ := head_eq_cons major argument
  rw [form]
  exact Nat.succ_pos _

theorem levels_le_length_encode (signature : TailscaleNodeKeySignature)
    : signature.levels ≤ signature.encode.length := by
  induction signature with
  | single layer =>
    have first := length_head_pos 5 (fieldCount layer false)
    rw [levels, encode, mapHead, length_append]
    omega
  | nesting layer nested ih =>
    have first := length_head_pos 5 (fieldCount layer true)
    simp only [levels, encode, mapHead, encodeEntries, Option.elim, length_append]
    omega

/-- A signature is decoded from its encoding, whenever it is valid. -/
theorem decode_encode (hf : signature.Fits)
    : decode skip signature.encode
      = (do
          validate 0 signature
          return signature) := by
  have read : decodeSignature skip signature.encode.length (signature.encode ++ [])
      = .ok (signature, []) :=
    reads_decodeSignature hf signature.levels_le_length_encode []
  rw [append_nil] at read
  rw [decode, read]

end RoundTrip

def PartsFit (parts : Parts) : Prop :=
  LayerFits parts.1 ∧ ∀ nested ∈ parts.2, nested.Fits

variable {one : Reader CborError TailscaleNodeKeySignature} {parts : Parts}
  {signature : TailscaleNodeKeySignature}

theorem yields_decodeEntry (nested : Yields one Fits) (fit : PartsFit parts)
    : Yields (decodeEntry skip one parts) PartsFit := by
  refine (yields_any _).bind fun _ _ => ?_
  have bytes (build : List UInt8 → Parts)
      (hf : ∀ value : List UInt8, value.length < 256 ^ 8 → PartsFit (build value))
      : Yields (readBytes >>= fun value => pure (build value)) PartsFit :=
    yields_readBytes.bind fun value hb => Yields.pure (hf value hb)
  have given {value : List UInt8} (hb : value.length < 256 ^ 8) : FieldFits value := by
    rintro _ ⟨⟩
    exact hb
  obtain ⟨layer, inner⟩ := fit
  split
  · exact (yields_any _).bind fun _ _ => Yields.pure ⟨{ layer with }, inner⟩
  · exact bytes _ fun value hb => ⟨{ layer with nodeKey := given hb }, inner⟩
  · exact bytes _ fun value hb => ⟨{ layer with keyId := given hb }, inner⟩
  · exact bytes _ fun value hb => ⟨{ layer with signature := given hb }, inner⟩
  · exact nested.bind fun signature hf => Yields.pure ⟨layer, by rintro _ ⟨⟩; exact hf⟩
  · exact bytes _ fun value hb => ⟨{ layer with wrappingPublicKey := given hb }, inner⟩
  · exact (yields_any _).bind fun _ _ => Yields.pure ⟨layer, inner⟩

theorem yields_decodeEntries (nested : Yields one Fits) (indefinite : Bool) (remaining : Nat)
    (fit : PartsFit parts)
    : Yields (decodeEntries skip one indefinite remaining parts) PartsFit := by
  induction remaining generalizing parts with
  | zero => exact Yields.pure fit
  | succ remaining ih =>
    refine (yields_any _).bind fun _ _ => ?_
    split
    · exact (yields_any _).bind fun _ _ => Yields.pure fit
    · exact (yields_decodeEntry nested fit).bind fun _ => ih

/-- The decoder only returns byte strings whose length fits into a head. -/
theorem yields_decodeSignature (depth : Nat) : Yields (decodeSignature skip depth) Fits := by
  induction depth with
  | zero => exact yields_fail _ _
  | succ depth ih =>
    have start : PartsFit emptyParts := by
      refine ⟨⟨?_, ?_, ?_, ?_⟩, ?_⟩
      all_goals rintro _ ⟨⟩
    refine (yields_any _).bind fun _ _ => ?_
    refine (yields_decodeEntries ih _ _ start).bind fun parts fit => Yields.pure ?_
    obtain ⟨_, nested⟩ := parts
    cases nested with
    | none => exact fit.1
    | some nested => exact ⟨fit.1, fit.2 nested rfl⟩

/-- What `validate` asks of a layer. -/
def LayerValid (layer : SignatureLayer) (nested : Bool) : Prop :=
  (layer.kind = kindDirect ∨ layer.kind = kindRotation ∨ layer.kind = kindCredential)
  ∧ (layer.kind = kindRotation → nested)
  ∧ (layer.kind ≠ kindCredential → layer.nodeKey.isSome)

def Valid : TailscaleNodeKeySignature → Prop
  | single layer => LayerValid layer false
  | nesting layer nested => LayerValid layer true ∧ nested.Valid

theorem validateLayer_iff (depth layer nested)
    : validateLayer depth layer nested = .ok () ↔ depth < 16 ∧ LayerValid layer nested := by
  have hk (kind : UInt8) : ¬(kind ≠ kindDirect ∧ kind ≠ kindRotation ∧ kind ≠ kindCredential)
      ↔ kind = kindDirect ∨ kind = kindRotation ∨ kind = kindCredential := by
    simp only [not_and_or, not_not]
  rw [validateLayer, guard_eq_ok, guard_eq_ok, guard_eq_ok, guard_eq_ok, hk, LayerValid]
  simp [Option.isSome_iff_ne_none]

theorem validate_iff (depth signature)
    : validate depth signature = .ok () ↔ depth + signature.levels ≤ 16 ∧ signature.Valid := by
  induction signature generalizing depth with
  | single layer =>
    rw [validate, validateLayer_iff]
    exact Iff.rfl
  | nesting layer nested ih =>
    have hpos : 0 < nested.levels := by cases nested <;> exact Nat.succ_pos _
    rw [validate, check_eq_ok, validateLayer_iff, ih, levels, Valid]
    constructor
    · rintro ⟨⟨-, here⟩, hb, hi⟩
      exact ⟨by omega, here, hi⟩
    · rintro ⟨hb, here, hi⟩
      exact ⟨⟨by omega, here⟩, by omega, hi⟩

theorem decode_eq_ok {bytes} (ha : decode skip bytes = .ok signature)
    : signature.Fits ∧ signature.levels ≤ 16 ∧ signature.Valid := by
  unfold decode at ha
  split at ha
  · cases ha
  next decoded rest read =>
    obtain ⟨hc, ⟨⟩⟩ := check_eq_ok.mp ha
    obtain ⟨few, hv⟩ := (validate_iff 0 signature).mp hc
    exact ⟨yields_decodeSignature _ _ _ _ read, by omega, hv⟩

theorem decode_encode_iff (hf : signature.Fits) (hv : signature.Valid) (result)
    : decode skip signature.encode = .ok result ↔ result = signature ∧ signature.levels ≤ 16 := by
  rw [decode_encode hf, check_eq_ok, validate_iff, zero_add, and_comm, eq_comm]
  simp [hv, pure, Except.pure]

end TailscaleNodeKeySignature

end Zay.Tailscale
