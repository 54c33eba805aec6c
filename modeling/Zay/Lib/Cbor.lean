import Zay.Lib.Reader

/-! The part of CBOR that definite maps and arrays of unsigned integers, byte strings and texts
need: heads in their shortest form, and a decoder that accepts any form.
-/

namespace Zay.Lib.Cbor

open List Reader

inductive CborError where
  | endOfInput
  | typeMismatch
  | overflow
  | utf8
  deriving Repr, DecidableEq

/-- The head of an item, with its argument in the shortest form. -/
def head (major argument : Nat) : List UInt8 :=
  if argument < 24 then [UInt8.ofNat (32 * major + argument)]
  else if argument < 256 then UInt8.ofNat (32 * major + 24) :: toBigEndian 1 argument
  else if argument < 256 ^ 2 then UInt8.ofNat (32 * major + 25) :: toBigEndian 2 argument
  else if argument < 256 ^ 4 then UInt8.ofNat (32 * major + 26) :: toBigEndian 4 argument
  else UInt8.ofNat (32 * major + 27) :: toBigEndian 8 argument

def unsigned (value : Nat) : List UInt8 := head 0 value

def byteString (bytes : List UInt8) : List UInt8 := head 2 bytes.length ++ bytes

/-- The UTF-8 bytes of a text. -/
def utf8 (text : String) : List UInt8 := text.toByteArray.data.toList

def textString (text : String) : List UInt8 := head 3 (utf8 text).length ++ utf8 text

def arrayHead (count : Nat) : List UInt8 := head 4 count

def mapHead (count : Nat) : List UInt8 := head 5 count

def nullByte : UInt8 := 0xf6

def readArgument (info : Nat) : Reader CborError Nat :=
  match info with
  | 24 => .bigEndian 1 .endOfInput
  | 25 => .bigEndian 2 .endOfInput
  | 26 => .bigEndian 4 .endOfInput
  | 27 => .bigEndian 8 .endOfInput
  | info => if info < 24 then pure info else .fail .typeMismatch

/-- The argument of an item of one major type. -/
def readHead (major : Nat) : Reader CborError Nat := do
  let first ← byte .endOfInput
  if first.toNat / 32 = major then readArgument (first.toNat % 32) else .fail .typeMismatch

def readU8 : Reader CborError UInt8 := do
  let value ← readHead 0
  if value < 256 then return UInt8.ofNat value else .fail .overflow

def readU64 : Reader CborError UInt64 := do
  return UInt64.ofNat (← readHead 0)

/-- Only byte strings of definite length. -/
def readBytes : Reader CborError (List UInt8) := do
  let length ← readHead 2
  .take length .endOfInput

/-- Only texts of definite length. -/
def readText : Reader CborError String := do
  let length ← readHead 3
  let bytes ← .take length .endOfInput
  match String.fromUTF8? ⟨bytes.toArray⟩ with
  | some text => return text
  | none => .fail .utf8

/-- The number of items of an array, unless its length is indefinite. -/
def readArray : Reader CborError (Option Nat) := do
  if (← peek .endOfInput) = 0x9f then
    let _ ← byte .endOfInput
    return none
  else
    return some (← readHead 4)

/-- The number of entries of a map, unless its length is indefinite. -/
def readMap : Reader CborError (Option Nat) := do
  if (← peek .endOfInput) = 0xbf then
    let _ ← byte .endOfInput
    return none
  else
    return some (← readHead 5)

/-- An item, or nothing where null stands in its place. -/
def readNullable {α : Type} (item : Reader CborError α) : Reader CborError (Option α) := do
  if (← peek .endOfInput) = nullByte then
    let _ ← byte .endOfInput
    return none
  else
    return some (← item)

def breakByte : UInt8 := 0xff

open Reader CborError

theorem readArgument_of_lt {info} (hs : info < 24) : readArgument info = pure info := by
  unfold readArgument
  split
  all_goals first
    | exact absurd hs (by decide)
    | rw [if_pos hs]

variable {major argument : Nat} {bytes : List UInt8}

theorem reads_readHead_cons {info} (hs : major < 8) (hv : info < 32)
    (tail : Reads (readArgument info) bytes argument)
    : Reads (readHead major) (UInt8.ofNat (32 * major + info) :: bytes) argument := by
  have value : (UInt8.ofNat (32 * major + info)).toNat = 32 * major + info := by
    rw [UInt8.toNat_ofNat']
    omega
  refine (reads_byte endOfInput _).bind ?_
  rw [value, if_pos (by omega), show (32 * major + info) % 32 = info by omega]
  exact tail

theorem reads_readHead (hs : major < 8) (hb : argument < 256 ^ 8)
    : Reads (readHead major) (head major argument) argument := by
  unfold head
  split
  next hlt =>
    refine reads_readHead_cons hs (by omega) ?_
    rw [readArgument_of_lt hlt]
    exact Reads.pure argument
  split
  next one =>
    exact reads_readHead_cons hs (by decide) (reads_bigEndian endOfInput one)
  split
  next two =>
    exact reads_readHead_cons hs (by decide) (reads_bigEndian endOfInput two)
  split
  next four =>
    exact reads_readHead_cons hs (by decide) (reads_bigEndian endOfInput four)
  exact reads_readHead_cons hs (by decide) (reads_bigEndian endOfInput hb)

theorem reads_readU8 (value : UInt8) : Reads readU8 (unsigned value.toNat) value := by
  have hb := value.toNat_lt
  have argument : Reads (readHead 0) (head 0 value.toNat) value.toNat :=
    reads_readHead (by omega) (by omega)
  have hw : Reads readU8 (head 0 value.toNat ++ []) value := by
    refine argument.bind ?_
    rw [if_pos (by omega), UInt8.ofNat_toNat]
    exact Reads.pure value
  rwa [append_nil] at hw

theorem reads_readBytes (hb : bytes.length < 256 ^ 8)
    : Reads readBytes (byteString bytes) bytes :=
  (reads_readHead (by omega) hb).bind (reads_take _ bytes)

theorem head_of_lt (hs : argument < 24)
    : head major argument = [UInt8.ofNat (32 * major + argument)] :=
  if_pos hs

theorem head_eq_cons (major argument : Nat)
    : ∃ info bytes, info < 28
      ∧ head major argument = UInt8.ofNat (32 * major + info) :: bytes := by
  unfold head
  split
  · exact ⟨argument, [], by omega, rfl⟩
  split
  · exact ⟨24, _, by decide, rfl⟩
  split
  · exact ⟨25, _, by decide, rfl⟩
  split
  · exact ⟨26, _, by decide, rfl⟩
  · exact ⟨27, _, by decide, rfl⟩

variable {marker : UInt8} {α : Type} {count : Nat}

/-- Items whose place a marker can take. -/
theorem reads_unmarked (hs : major < 8) (beyond : 32 * major + 28 ≤ marker.toNat)
    (hno : Reader CborError (Option α)) {item tail} {value : α}
    (read : Reads item (head major argument ++ tail) value)
    : Reads
      (do
        if (← peek .endOfInput) = marker then hno
        else return some (← item))
      (head major argument ++ tail) (some value) := by
  intro rest
  -- What starts with a head does not start with a byte beyond the heads of its major type.
  obtain ⟨info, bytes, hlt, form⟩ := head_eq_cons major argument
  have other : UInt8.ofNat (32 * major + info) ≠ marker := by
    rw [Ne, ← UInt8.toNat_inj, UInt8.toNat_ofNat']
    omega
  rw [bind_apply, form]
  simp only [cons_append, peek, other, if_false]
  rw [← cons_append, ← cons_append, ← form]
  exact read.map some rest

theorem reads_readMap (hb : count < 256 ^ 8) : Reads readMap (mapHead count) (some count) := by
  have read : Reads (readHead 5) (head 5 count ++ []) count := by
    rw [append_nil]
    exact reads_readHead (by decide) hb
  rw [mapHead, ← append_nil (head 5 count)]
  exact reads_unmarked (by decide) (by decide) _ read

theorem reads_readArray (hb : count < 256 ^ 8)
    : Reads readArray (arrayHead count) (some count) := by
  have read : Reads (readHead 4) (head 4 count ++ []) count := by
    rw [append_nil]
    exact reads_readHead (by decide) hb
  rw [arrayHead, ← append_nil (head 4 count)]
  exact reads_unmarked (by decide) (by decide) _ read

theorem reads_readNullable_null (item : Reader CborError α)
    : Reads (readNullable item) [nullByte] none :=
  fun _ => rfl

theorem reads_readNullable_bytes (hb : bytes.length < 256 ^ 8)
    : Reads (readNullable readBytes) (byteString bytes) (some bytes) :=
  reads_unmarked (by decide) (by decide) _ (reads_readBytes hb)

theorem reads_readU64 (value : UInt64) : Reads readU64 (unsigned value.toNat) value := by
  have read : Reads (readHead 0) (head 0 value.toNat) value.toNat :=
    reads_readHead (by decide) (Nat.lt_of_lt_of_le value.toNat_lt (by decide))
  have number := read.map UInt64.ofNat
  rwa [UInt64.ofNat_toNat] at number

theorem fromUTF8?_utf8 (text) : String.fromUTF8? ⟨(utf8 text).toArray⟩ = some text :=
  dif_pos text.isValidUTF8

theorem reads_readText {text} (hb : (utf8 text).length < 256 ^ 8)
    : Reads readText (textString text) text := by
  refine (reads_readHead (by decide) hb).bind ?_
  intro rest
  rw [bind_apply, reads_take]
  simp only [fromUTF8?_utf8]
  rfl

theorem yields_readArgument (info : Nat) : Yields (readArgument info) (· < 256 ^ 8) := by
  have wider {width : Nat} (h : width ≤ 8)
      : Yields (bigEndian width endOfInput) (· < 256 ^ 8) := by
    intro input value rest read
    exact Nat.lt_of_lt_of_le (yields_bigEndian _ _ _ _ _ read) (Nat.pow_le_pow_right (by decide) h)
  unfold readArgument
  split
  · exact wider (by decide)
  · exact wider (by decide)
  · exact wider (by decide)
  · exact wider (by decide)
  split
  · exact Yields.pure (by omega)
  · exact yields_fail _ _

theorem yields_readHead (major : Nat) : Yields (readHead major) (· < 256 ^ 8) := by
  refine (yields_any _).bind fun _ _ => ?_
  split
  · exact yields_readArgument _
  · exact yields_fail _ _

theorem yields_readBytes : Yields readBytes fun bytes => bytes.length < 256 ^ 8 := by
  refine (yields_readHead 2).bind fun length bounded => ?_
  intro input bytes rest read
  rw [yields_take length _ _ _ _ read]
  exact bounded

end Zay.Lib.Cbor
