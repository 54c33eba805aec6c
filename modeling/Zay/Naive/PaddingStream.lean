import Zay.Lib.MachineInt

/-! The padding of NaiveProxy streams (`protocol/naive.rs`): the first eight writes become frames
with padding, what follows them is sent as it is. A poll calls the inner stream until it can
return, and the inner stream may be pending at each call.
-/

namespace Zay.Naive

open Lib List

def paddingCount : Nat := 8
def maxPaddingChunkSize : Nat := 65535

/-- `readHeader` are the bytes of `read_header` that have been read. -/
structure PaddingStream where
  readPadding : Nat
  readHeader : List UInt8
  readRemaining : Nat
  paddingRemaining : Nat
  writePadding : Nat
  writePending : Option (List UInt8 × Nat × Nat)
  deriving Repr, DecidableEq

namespace PaddingStream

def new : PaddingStream := ⟨0, [], 0, 0, 0, none⟩

section

variable (stream : PaddingStream)

/-- How much a poll with room for `room` bytes asks of the inner stream. -/
def asked (room : Nat) : Nat :=
  if 0 < stream.readRemaining then min stream.readRemaining room
  else if 0 < stream.paddingRemaining then min stream.paddingRemaining 256
  else if paddingCount ≤ stream.readPadding then room
  else 1

/-- The inner stream has given some bytes, or none because it is at its end. -/
def pollRead (bytes : List UInt8) : PaddingStream × Except String (List UInt8) :=
  if 0 < stream.readRemaining then
    if bytes = [] then (stream, .error "truncated NaiveProxy payload")
    else ({ stream with readRemaining := stream.readRemaining - bytes.length }, .ok bytes)
  else if 0 < stream.paddingRemaining then
    if bytes = [] then (stream, .error "truncated NaiveProxy padding")
    else ({ stream with paddingRemaining := stream.paddingRemaining - bytes.length }, .ok [])
  else if paddingCount ≤ stream.readPadding then (stream, .ok bytes)
  else if bytes = [] then (stream, .error "truncated NaiveProxy padding header")
  else
    match stream.readHeader ++ bytes with
    | [high, low, padding] =>
      ({ stream with
        readPadding := stream.readPadding + 1
        readHeader := []
        readRemaining := ofBigEndian [high, low]
        paddingRemaining := padding.toNat }, .ok [])
    | readHeader => ({ stream with readHeader }, .ok [])

def frame (payload : List UInt8) (random : UInt8) : List UInt8 :=
  toBigEndian 2 payload.length ++ random :: payload ++ replicate random.toNat 0

/-- The inner stream takes up to `count` bytes of a frame. With the last of them the write is
done.
-/
def writeFrame (count : Nat) : List UInt8 × Nat × Nat → PaddingStream × List UInt8 × Option Nat
  | (frame, offset, length) =>
    let sent := (frame.drop offset).take count
    if offset + sent.length = frame.length then
      ({ stream with writePending := none, writePadding := stream.writePadding + 1 }, sent,
        some length)
    else
      ({ stream with writePending := some (frame, offset + sent.length, length) }, sent, none)

def pollWrite (input : List UInt8) (random : UInt8) (count : Nat)
    : PaddingStream × List UInt8 × Option Nat :=
  match stream.writePending with
  | some pending => stream.writeFrame count pending
  | none =>
    if paddingCount ≤ stream.writePadding then
      (stream, input.take count, if count = 0 then none else some (min count input.length))
    else if input = [] then (stream, [], some 0)
    else
      let length := min input.length maxPaddingChunkSize
      stream.writeFrame count (frame (input.take length) random, 0, length)

end

/-- What is read off the bytes that are left, and how reading ended. A call has room for some
bytes and is given up to some number of them; when that is zero the inner stream is pending.
-/
def readAll (stream : PaddingStream)
    : (calls : List (Nat × Nat)) → (wire : List UInt8) → List UInt8 × Option (Except String Unit)
  | [], _ => ([], none)
  | (room, given) :: calls, wire =>
    if room = 0 ∨ given = 0 then stream.readAll calls wire
    else
      let bytes := wire.take (min given (stream.asked room))
      match stream.pollRead bytes with
      | (_, .error error) => ([], some (.error error))
      | (next, .ok output) =>
        if bytes = [] then ([], some (.ok ()))
        else
          let (rest, ended) := next.readAll calls (wire.drop bytes.length)
          (output ++ rest, ended)

/-- A write that has sent some bytes is polled until it returns. The inner stream takes up to so
many bytes at a call.
-/
def write (stream : PaddingStream) (input : List UInt8) (random : UInt8) (sent : List UInt8)
    : (counts : List Nat) → PaddingStream × List UInt8 × Option Nat
  | [] => (stream, sent, none)
  | count :: counts =>
    match stream.pollWrite input random count with
    | (next, more, none) => next.write input random (sent ++ more) counts
    | (next, more, some length) => (next, sent ++ more, some length)

/-- What is sent, and what of the inputs was written, if every write returns. -/
def writeAll (stream : PaddingStream)
    : List (List UInt8 × UInt8 × List Nat) → Option (PaddingStream × List UInt8 × List UInt8)
  | [] => some (stream, [], [])
  | (input, random, counts) :: writes =>
    match stream.write input random [] counts with
    | (next, sent, some count) => (next.writeAll writes).map fun (last, wire, written) =>
      (last, sent ++ wire, input.take count ++ written)
    | _ => none

--------
-- Reading byte by byte
--------

/-- What a byte does. -/
def feed (stream : PaddingStream) (byte : UInt8) : PaddingStream × List UInt8 :=
  (stream.pollRead [byte]).map id fun output => output.toOption.getD []

def feedAll (stream : PaddingStream) : List UInt8 → PaddingStream × List UInt8
  | [] => (stream, [])
  | byte :: bytes =>
    (((stream.feed byte).1.feedAll bytes).1,
      (stream.feed byte).2 ++ ((stream.feed byte).1.feedAll bytes).2)

variable {stream next last : PaddingStream} {bytes rest input sent wire written : List UInt8}
  {random : UInt8} {room count length : Nat} {counts : List Nat}

theorem feedAll_append
    : stream.feedAll (bytes ++ rest)
      = (((stream.feedAll bytes).1.feedAll rest).1,
        (stream.feedAll bytes).2 ++ ((stream.feedAll bytes).1.feedAll rest).2) := by
  induction bytes generalizing stream with
  | nil => rfl
  | cons _ bytes ih => simp [feedAll, ih]

theorem feedAll_payload (hi : bytes.length ≤ stream.readRemaining)
    : stream.feedAll bytes
      = ({ stream with readRemaining := stream.readRemaining - bytes.length }, bytes) := by
  induction bytes generalizing stream with
  | nil => rfl
  | cons byte bytes ih =>
    have first : stream.feed byte
        = ({ stream with readRemaining := stream.readRemaining - 1 }, [byte]) := by
      simp [feed, pollRead, Nat.zero_lt_of_lt hi, Except.toOption]
    rw [feedAll, first, ih (Nat.le_sub_of_add_le hi)]
    simp [Nat.sub_sub, Nat.add_comm]

theorem feedAll_padding (done : stream.readRemaining = 0)
    (hi : bytes.length ≤ stream.paddingRemaining)
    : stream.feedAll bytes
      = ({ stream with paddingRemaining := stream.paddingRemaining - bytes.length }, []) := by
  induction bytes generalizing stream with
  | nil => rfl
  | cons byte bytes ih =>
    have first : stream.feed byte
        = ({ stream with paddingRemaining := stream.paddingRemaining - 1 }, []) := by
      simp [feed, pollRead, done, Nat.zero_lt_of_lt hi, Except.toOption]
    rw [feedAll, first, ih (by exact done) (Nat.le_sub_of_add_le hi)]
    simp [Nat.sub_sub, Nat.add_comm]

theorem feedAll_plain (done : stream.readRemaining = 0) (skipped : stream.paddingRemaining = 0)
    (plain : paddingCount ≤ stream.readPadding)
    : stream.feedAll bytes = (stream, bytes) := by
  induction bytes with
  | nil => rfl
  | cons byte bytes ih =>
    have first : stream.feed byte = (stream, [byte]) := by
      simp [feed, pollRead, done, skipped, plain, Except.toOption]
    rw [feedAll, first, ih]
    rfl

/-- However many bytes come at a time. -/
theorem pollRead_eq (given : bytes ≠ []) (hs : bytes.length ≤ stream.asked room)
    : stream.pollRead bytes = ((stream.feedAll bytes).1, .ok (stream.feedAll bytes).2) := by
  unfold asked at hs
  by_cases hi : 0 < stream.readRemaining
  · rw [if_pos hi] at hs
    rw [feedAll_payload (by omega), pollRead, if_pos hi, if_neg given]
  rw [if_neg hi] at hs
  by_cases padding : 0 < stream.paddingRemaining
  · rw [if_pos padding] at hs
    rw [feedAll_padding (by omega) (by omega), pollRead, if_neg hi, if_pos padding, if_neg given]
  rw [if_neg padding] at hs
  by_cases plain : paddingCount ≤ stream.readPadding
  · rw [feedAll_plain (by omega) (by omega) plain, pollRead, if_neg hi, if_neg padding,
      if_pos plain]
  rw [if_neg plain] at hs
  obtain ⟨_, rfl⟩ := length_eq_one_iff.mp (hs.antisymm (length_pos_iff.mpr given))
  simp only [feedAll, feed, pollRead, if_neg hi, if_neg padding, if_neg plain, if_neg given]
  split <;> rfl

/-- A reader that has read so many frames. -/
def readerAt (count : Nat) : PaddingStream := { new with readPadding := count }

def writerAt (count : Nat) : PaddingStream := { new with writePadding := count }

theorem feedAll_frame (few : count < paddingCount) (hs : input.length ≤ maxPaddingChunkSize)
    (random : UInt8)
    : (readerAt count).feedAll (frame input random) = (readerAt (count + 1), input) := by
  let begun : PaddingStream := { readerAt (count + 1) with
    readRemaining := input.length, paddingRemaining := random.toNat }
  have header : (readerAt count).feedAll (toBigEndian 2 input.length ++ [random])
      = (begun, []) := by
    have length : ofBigEndian (toBigEndian 2 input.length) = input.length :=
      ofBigEndian_toBigEndian (Nat.lt_succ_of_le hs)
    simp only [toBigEndian, nil_append, cons_append] at length ⊢
    simp [feedAll, feed, pollRead, readerAt, begun, new, Nat.not_le_of_lt few, length,
      Except.toOption]
  have payload : begun.feedAll input = ({ begun with readRemaining := 0 }, input) := by
    rw [feedAll_payload (Nat.le_refl _), Nat.sub_self]
  have padding : ({ begun with readRemaining := 0 } : PaddingStream).feedAll
      (replicate random.toNat 0) = (readerAt (count + 1), []) := by
    rw [feedAll_padding rfl (by simp [begun])]
    simp [begun, readerAt, new]
  rw [frame, append_cons, feedAll_append, feedAll_append, header, payload, padding]
  simp

--------
-- Writing
--------

variable {offset taken : Nat} {before whole : List UInt8}

/-- A frame is sent whole, whatever the inner stream takes at a time. -/
theorem write_pending (hr : PaddingStream.write { writerAt count with
      writePending := some (whole, offset, length) } input random before counts
      = (next, sent, some taken))
    : sent = before ++ whole.drop offset ∧ taken = length ∧ next = writerAt (count + 1) := by
  induction counts generalizing offset before with
  | nil => cases hr
  | cons most counts ih =>
    rw [write, pollWrite] at hr
    by_cases hc : offset + ((whole.drop offset).take most).length = whole.length
    · simp only [writeFrame, if_pos hc] at hr
      cases hr
      rw [take_of_length_le]
      · exact ⟨rfl, rfl, rfl⟩
      · simp at hc ⊢
        omega
    · simp only [writeFrame, if_neg hc] at hr
      obtain ⟨rest, he⟩ := ih hr
      refine ⟨?_, he⟩
      rw [rest, ← drop_drop, append_assoc, prefix_iff_eq_append.mp ( take_prefix ..)]

/-- A reader gets what a write has sent. -/
theorem feedAll_write
    (hr : (writerAt count).write input random [] counts = (next, sent, some taken))
    : ∃ after, next = writerAt after
      ∧ (readerAt count).feedAll sent = (readerAt after, input.take taken) := by
  by_cases plain : paddingCount ≤ count
  · induction counts with
    | nil => cases hr
    | cons most counts ih =>
      rw [write, pollWrite] at hr
      by_cases hw : most = 0
      · simp only [writerAt, new, if_pos plain, hw, take_zero] at hr
        exact ih hr
      · simp only [writerAt, new, if_pos plain, if_neg hw] at hr
        cases hr
        exact ⟨count, rfl, by simp [feedAll_plain, readerAt, new, plain]⟩
  obtain _ | ⟨most, counts⟩ := counts
  · cases hr
  rw [write, pollWrite] at hr
  by_cases given : input = []
  · simp only [writerAt, new, if_neg plain, if_pos given] at hr
    cases hr
    exact ⟨count, rfl, rfl⟩
  simp only [writerAt, new, if_neg plain, if_neg given] at hr
  have hb : PaddingStream.write { writerAt count with
      writePending := some (frame (input.take _) random, 0, _) } input random [] (most :: counts)
      = (next, sent, some taken) := hr
  obtain ⟨rfl, rfl, rfl⟩ := write_pending hb
  exact ⟨count + 1, rfl, feedAll_frame (Nat.lt_of_not_le plain) (by simp) random⟩

theorem feedAll_writeAll {writes}
    (done : (writerAt count).writeAll writes = some (last, wire, written))
    : (readerAt count).feedAll wire = (readerAt last.writePadding, written) := by
  induction writes generalizing count wire written with
  | nil =>
    cases done
    rfl
  | cons first writes ih =>
    rw [writeAll] at done
    split at done
    next returned =>
      obtain ⟨_, rfl, first⟩ := feedAll_write returned
      obtain ⟨_, hr, ⟨⟩⟩ := Option.map_eq_some_iff.mp done
      rw [feedAll_append, first, ih hr]
    · cases done

--------
-- Whole connections
--------

/-- Calls in which the inner stream can give something. -/
def ready (call : Nat × Nat) : Bool := 0 < call.1 ∧ 0 < call.2

/-- Reading goes on or has ended so, and it has ended after as many calls as there are bytes. -/
def ReadsBack (stream : PaddingStream) (calls : List (Nat × Nat)) (wire written : List UInt8)
    (ended : Except String Unit)
    : Prop :=
  (stream.readAll calls wire).1 <+: written
  ∧ ((stream.readAll calls wire).2 = some ended ∧ (stream.readAll calls wire).1 = written
    ∨ (stream.readAll calls wire).2 = none ∧ calls.countP ready ≤ wire.length)

/-- A reader that waits for another header is cut off. -/
theorem readsBack (calls) (feeds : stream.feedAll wire = (readerAt count, written))
    : stream.ReadsBack calls wire written (if paddingCount ≤ count then .ok ()
      else .error "truncated NaiveProxy padding header") := by
  unfold ReadsBack
  induction calls generalizing stream wire written with
  | nil => exact ⟨ nil_prefix, .inr ⟨rfl, Nat.zero_le _⟩⟩
  | cons call calls ih =>
    obtain ⟨room, given⟩ := call
    by_cases hw : room = 0 ∨ given = 0
    · rw [readAll, if_pos hw, countP_cons_of_neg (by simp [ready]; omega)]
      exact ih feeds
    rw [countP_cons_of_pos (by simp [ready]; omega)]
    by_cases empty : wire = []
    · subst empty
      cases feeds
      by_cases plain : paddingCount ≤ count <;>
        simp [readAll, hw, pollRead, readerAt, new, plain]
    have asks : 0 < min given (stream.asked room) := by
      unfold asked
      grind
    generalize amount : min given (stream.asked room) = most at asks
    have taken := prefix_iff_eq_append.mp ( take_prefix most wire)
    have some : wire.take most ≠ [] := by
      simp [empty]
      omega
    have hs : (wire.take most).length ≤ stream.asked room :=
      (length_take_le most wire).trans (amount ▸ min_le_right ..)
    simp only [readAll, if_neg hw, amount, pollRead_eq some hs, if_neg some]
    generalize wire.take most = bytes at *
    rw [← taken, feedAll_append] at feeds
    obtain ⟨next, rfl⟩ := Prod.mk.inj feeds
    obtain ⟨front, he⟩ := ih (Prod.ext next rfl)
    refine ⟨(prefix_append_right_inj _).mpr front, he.imp ?_ ?_⟩
    · rintro ⟨clean, all⟩
      exact ⟨clean, congrArg _ all⟩
    · rintro ⟨goesOn, left⟩
      refine ⟨goesOn, ?_⟩
      rw [← taken, length_append]
      exact (Nat.succ_le_succ left).trans (by have := length_pos_iff.mpr some; omega)

end PaddingStream

open PaddingStream

/-- The reader gets what was written and the end of it exactly after eight padded writes. -/
theorem padding_stream_transparent {writes : List (List UInt8 × UInt8 × List Nat)}
    {writer : PaddingStream} {wire written : List UInt8}
    (done : new.writeAll writes = some (writer, wire, written))
    : paddingCount ≤ writer.writePadding
      ↔ ∀ calls : List (Nat × Nat), new.ReadsBack calls wire written (.ok ()) := by
  have reads : ∀ calls, new.ReadsBack calls wire written _ := fun calls =>
    readsBack calls (feedAll_writeAll done)
  constructor
  · intro eight calls
    simpa only [if_pos eight] using reads calls
  intro clean
  by_contra few
  simp only [if_neg few] at reads
  -- With more calls than bytes the end is reached, and there is one way to end.
  have enough : ¬(replicate (wire.length + 1) (1, 1)).countP ready ≤ wire.length := by
    simp [countP_replicate, ready]
  obtain ⟨ended, -⟩ := (clean _).2.resolve_right fun goesOn => enough goesOn.2
  obtain ⟨failed, -⟩ := (reads _).2.resolve_right fun goesOn => enough goesOn.2
  cases ended.symm.trans failed

theorem padding_stream_transparent_example
    : ∃ wire, new.writeAll (replicate 8 ([7], 1, [2, 0, 3]))
        = some (writerAt 8, wire, replicate 8 7)
      ∧ (new.readAll (replicate 41 (1, 1)) wire).1 = replicate 8 7 := by
  have done : new.writeAll (replicate 8 ([7], 1, [2, 0, 3])) = some (writerAt 8,
      (replicate 8 [0, 1, 1, 7, 0]).flatten, replicate 8 7) := rfl
  rcases ((padding_stream_transparent done).mp (le_refl _) (replicate 41 (1, 1))).2
    with ⟨-, all⟩ | ⟨-, few⟩
  · exact ⟨_, done, all⟩
  · exact absurd few (by decide)

/-- One write, and the end. -/
theorem padding_stream_truncated
    : ∃ wire, new.writeAll [([7], 0, [4])] = some (writerAt 1, wire, [7])
      ∧ new.readAll (replicate 5 (1, 1)) wire
        = ([7], some (.error "truncated NaiveProxy padding header")) :=
  ⟨_, rfl, rfl⟩

end Zay.Naive
