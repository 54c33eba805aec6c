import Zay.Lib.Reader

/-! Frames that are read off a stream field by field. A read that is given up has taken the
bytes it saw off the stream, and the next one begins behind them.
-/

namespace Zay.Lib

open List Option Bool

namespace Reader

variable {ε α β : Type} {short : ε} {reader : Reader ε α} {next : α → Reader ε β}

/-- The reader takes a front part of its input, whatever follows, and on less than that part it
waits for more.
-/
def Fielded (short : ε) (reader : Reader ε α) : Prop :=
  ∀ input value rest, reader input = .ok (value, rest) →
    ∃ used, input = used ++ rest ∧ Reads reader used value
      ∧ ∀ part more, used = part ++ more → more ≠ [] → reader part = .error short

theorem Fielded.pure (value : α) : Fielded short (Pure.pure value : Reader ε α) := by
  rintro input _ _ ⟨⟩
  refine ⟨[], rfl, Reads.pure value, fun _ _ none left => ?_⟩
  exact absurd (append_eq_nil_iff.mp none.symm).2 left

theorem fielded_fail (error : ε) : Fielded short (fail error : Reader ε α) := by
  rintro input _ _ ⟨⟩

theorem fielded_refuse (refused : Bool) (error : ε) : Fielded short (refuse refused error) := by
  cases refused with
  | false => exact .pure ()
  | true => exact fielded_fail error

theorem fielded_take (count : Nat) : Fielded short (take count short) := by
  intro input value rest read
  unfold take at read
  split at read
  next he =>
    cases read
    have length : (input.take count).length = count := length_take_of_le he
    have reads := reads_take short (input.take count)
    rw [length] at reads
    refine ⟨input.take count, (take_append_drop ..).symm, reads, ?_⟩
    intro part more split left
    rw [split, length_append] at length
    have := length_pos_iff.mpr left
    exact if_neg (by omega)
  · cases read

theorem fielded_byte : Fielded short (byte short) := by
  rintro (_ | ⟨first, tail⟩) _ _ ⟨⟩
  refine ⟨[first], rfl, reads_byte short first, ?_⟩
  rintro (_ | ⟨other, part⟩) more split left
  · rfl
  · exact absurd (append_eq_nil_iff.mp (cons.inj split).2.symm).2 left

theorem Fielded.bind (head : Fielded short reader) (tail : ∀ value, Fielded short (next value))
    : Fielded short (reader >>= next) := by
  intro input value rest read
  rw [bind_apply] at read
  split at read
  next first between ht =>
    obtain ⟨front, rfl, reads, waits⟩ := head _ _ _ ht
    obtain ⟨back, rfl, hr, waitsLater⟩ := tail first _ _ _ read
    refine ⟨front ++ back, (append_assoc ..).symm, reads.bind hr, ?_⟩
    intro part more split left
    rw [bind_apply]
    rcases append_eq_append_iff.mp split with ⟨begun, rfl, form⟩ | ⟨missing, form, rfl⟩
    · rw [reads begun]
      exact waitsLater begun more form left
    by_cases hc : missing = []
    · subst hc
      rw [append_nil] at form
      have hw := reads []
      rw [append_nil, form] at hw
      rw [hw]
      exact waitsLater [] back rfl left
    · rw [waits part missing form hc]
  · cases read

theorem fielded_bigEndian (width : Nat) : Fielded short (bigEndian width short) :=
  (fielded_take width).bind fun _ => .pure _

end Reader

/-- How far the frames of a stream are read. The `mode` stays when a read is given up; the bytes
`consumed` of a frame do not.
-/
structure FrameReader (μ ε α : Type) where
  mode : μ
  consumed : List UInt8 := []
  read : List α := []
  failed : Option ε := none
  deriving DecidableEq

namespace FrameReader

variable {μ ε α : Type} (short : ε) (frame : μ → Reader ε (μ × Option α))

/-- The next byte arrives. -/
def feed [DecidableEq ε] (state : FrameReader μ ε α) (byte : UInt8) : FrameReader μ ε α :=
  if state.failed.isSome then state
  else
    match frame state.mode (state.consumed ++ [byte]) with
    | .ok ((mode, value), _) =>
      { state with mode, consumed := [], read := state.read ++ value.toList }
    | .error error =>
      if error = short then { state with consumed := state.consumed ++ [byte] }
      else { state with failed := some error }

/-- The read is dropped before it returns. -/
def giveUp (state : FrameReader μ ε α) : FrameReader μ ε α := { state with consumed := [] }

/-- The values of whole frames, and the mode behind them. -/
def decodeFrames : μ → List (List UInt8) → Option (μ × List α)
  | mode, [] => some (mode, [])
  | mode, bytes :: frames =>
    match frame mode bytes with
    | .ok ((mode, value), []) =>
      (decodeFrames mode frames).map fun later => (later.1, value.toList ++ later.2)
    | _ => none

/-- The bytes to come are the frames of the values that are not read yet. -/
structure Aligned (last : μ) (values : List α) (state : FrameReader μ ε α) (rest : List UInt8)
    : Prop where
  unfailed : state.failed = none
  framed
    : ∃ frames later, state.consumed ++ rest = frames.flatten
      ∧ decodeFrames frame state.mode frames = some (last, later) ∧ state.read ++ later = values
      ∧ ∀ bytes ∈ frames.head?, state.consumed.length < bytes.length

variable {short frame} {last mode : μ} {values : List α} {state : FrameReader μ ε α}
  {rest : List UInt8} {frames : List (List UInt8)}

theorem length_pos_of_decodeFrames (waits : ∀ mode, frame mode [] = .error short)
    (hd : decodeFrames frame mode frames = some (last, values))
    : ∀ bytes ∈ frames.head?, 0 < bytes.length := by
  cases frames with
  | nil => simp
  | cons bytes frames =>
    rintro _ ⟨⟩
    refine length_pos_iff.mpr fun none => ?_
    rw [decodeFrames, none, waits] at hd
    cases hd

theorem Aligned.start (waits : ∀ mode, frame mode [] = .error short)
    (hd : decodeFrames frame mode frames = some (last, values))
    : Aligned frame last values ({ mode } : FrameReader μ ε α) frames.flatten :=
  ⟨rfl, frames, values, rfl, hd, rfl, length_pos_of_decodeFrames waits hd⟩

section

variable (fielded : ∀ mode, Reader.Fielded short (frame mode))
include fielded

variable (waits : ∀ mode, frame mode [] = .error short)
include waits

theorem Aligned.feed [DecidableEq ε] {byte}
    (aligned : Aligned frame last values state (byte :: rest))
    : Aligned frame last values (state.feed short frame byte) rest := by
  obtain ⟨unfailed, frames, _, stream, hd, whole, hw⟩ := aligned
  obtain _ | ⟨bytes, frames⟩ := frames
  · simp at stream
  have hs := hw bytes rfl
  -- the byte is one of the first frame
  have form : (state.consumed ++ [byte]) ++ rest = bytes ++ frames.flatten := by
    simpa using stream
  obtain ⟨more, split⟩ : state.consumed ++ [byte] <+: bytes :=
    prefix_of_prefix_length_le ⟨_, form⟩ ⟨_, rfl⟩ (by simpa using Nat.succ_le_of_lt hs)
  rw [← split, append_assoc (state.consumed ++ [byte]), append_cancel_left_eq] at form
  have ht := hd
  rw [decodeFrames] at ht
  split at ht
  next mode value ha =>
    obtain ⟨⟨_, others⟩, remaining, ⟨⟩⟩ := map_eq_some_iff.mp ht
    by_cases hc : more = []
    · subst hc
      rw [append_nil] at split
      simp only [FrameReader.feed, unfailed, isSome_none, false_eq_true, if_false,
        split, ha]
      exact ⟨rfl, frames, others, form, remaining, by simpa using whole,
        length_pos_of_decodeFrames waits remaining⟩
    obtain ⟨_, all, -, waiting⟩ := fielded _ _ _ _ ha
    rw [append_nil] at all
    simp only [FrameReader.feed, unfailed, isSome_none, false_eq_true, if_false,
      if_true, waiting _ more (all.symm.trans split.symm) hc]
    refine ⟨rfl, bytes :: frames, _, by simpa using stream, hd, whole, ?_⟩
    rintro _ ⟨⟩
    have length := congrArg length split
    rw [length_append] at length
    exact length ▸ Nat.lt_add_of_pos_right (length_pos_iff.mpr hc)
  · cases ht

theorem Aligned.foldl [DecidableEq ε] {chunk} (ha : Aligned frame last values state (chunk ++ rest))
    : Aligned frame last values (chunk.foldl (FrameReader.feed short frame) state) rest := by
  induction chunk generalizing state with
  | nil => exact ha
  | cons _ chunk ih => exact ih (ha.feed fielded waits)

end

/-- To give up a read that has seen nothing is harmless. -/
theorem giveUp_of_consumed (clean : state.consumed = []) : state.giveUp = state := by
  rw [giveUp, ← clean]

theorem Aligned.read_front (ha : Aligned frame last values state rest)
    : state.read <+: values := by
  obtain ⟨-, -, later, -, -, hw, -⟩ := ha
  exact ⟨later, hw⟩

theorem Aligned.read_eq (ha : Aligned frame last values state [])
    : state.read = values ∧ state.consumed = [] := by
  obtain ⟨-, frames, later, stream, hd, whole, hw⟩ := ha
  cases frames with
  | nil =>
    cases hd
    exact ⟨by simpa using whole, by simpa using stream⟩
  | cons bytes frames =>
    have hs := hw bytes rfl
    have length := congrArg length stream
    simp at length
    omega

end FrameReader

end Zay.Lib
