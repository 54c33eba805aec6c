import Zay.AnyTls.ClientWriter

/-! When the server reads what the client wrote. Records, buffers and waste frames never
matter; the padding behind the password hash does, because its length is sent in sixteen
bits.
-/

namespace Zay.AnyTls

open Lib Lib.Reader ClientWriter AnyTls.Frame List Except

def Frame.isPayload (frame : Frame) : Bool := frame.command ≠ cmdWaste

theorem fits_wasteFrame {length} (hs : length ≤ maximumData) : (wasteFrame length).Fits := by
  rw [Fits, wasteFrame, length_replicate]
  exact hs

/-- Records only add waste frames behind the data. -/
theorem padRecords_eq (sizes data)
    : ∃ wastes : List Frame, padRecords sizes data = data ++ wastes.flatMap bytes
      ∧ ∀ frame ∈ wastes, frame.Fits ∧ frame.isPayload = false := by
  have waste {length : Nat} (hs : length ≤ maximumData) {wastes : List Frame}
      (more : ∀ frame ∈ wastes, frame.Fits ∧ frame.isPayload = false)
      : ∀ frame ∈ wasteFrame length :: wastes, frame.Fits ∧ frame.isPayload = false :=
    forall_mem_cons.mpr ⟨⟨fits_wasteFrame hs, rfl⟩, more⟩
  induction sizes generalizing data with
  | nil => exact ⟨[], by simp [padRecords], by simp⟩
  | cons size sizes ih =>
    obtain ⟨later, behind, quiet⟩ := ih []
    cases size with
    | check =>
      rw [padRecords]
      split
      next empty =>
        rw [isEmpty_iff.mp empty]
        exact ⟨[], rfl, by simp⟩
      · exact ih data
    | exact size =>
      rw [padRecords]
      split
      · obtain ⟨wastes, rest, wasted⟩ := ih (data.drop size)
        refine ⟨wastes, ?_, wasted⟩
        rw [rest, ← append_assoc, take_append_drop]
      split
      · dsimp only
        split
        · refine ⟨wasteFrame (min (size - (data.length + 7)) maximumData) :: later, ?_,
            waste (min_le_right ..) quiet⟩
          rw [behind, flatMap_cons, append_assoc, nil_append]
        refine ⟨later, ?_, quiet⟩
        rw [behind, append_nil, nil_append]
      next empty =>
        refine ⟨wasteFrame (min size maximumData) :: later, ?_, waste (min_le_right ..) quiet⟩
        rw [behind, flatMap_cons, nil_append,
          length_eq_zero_iff.mp (Nat.eq_zero_of_not_pos empty), nil_append]

/-- The frames of a step, in order. -/
def WriterStep.frames : WriterStep → List Frame
  | .write command streamId data _ => framesOf command streamId data
  | .stopBuffering => []
  | .updatePaddingScheme _ => []

variable {frames : List Frame}

namespace ClientWriter

/-- Behind the preamble, the wire and the buffer are whole frames, and without the waste they
are the written ones.
-/
structure Carries (writer : ClientWriter) (preamble : List UInt8) (written : List Frame)
    : Prop where
  frames
    : ∃ sent held : List Frame, writer.wire = preamble ++ sent.flatMap bytes
      ∧ writer.buffer = held.flatMap bytes
      ∧ (∀ frame ∈ sent, frame.Fits) ∧ (∀ frame ∈ held, frame.Fits)
      ∧ (sent ++ held).filter isPayload = written.filter isPayload

variable {writer : ClientWriter} {preamble : List UInt8} {written : List Frame}

theorem Carries.start (empty : writer.buffer = []) : writer.Carries writer.wire [] :=
  ⟨[], [], by simp, empty, by simp, by simp, rfl⟩

namespace Carries

variable (hc : writer.Carries preamble written) {frame : Frame}

include hc

theorem congr (next : ClientWriter) (wire : next.wire = writer.wire)
    (buffer : next.buffer = writer.buffer)
    : next.Carries preamble written := by
  obtain ⟨sent, held, onWire, buffered, rest⟩ := hc
  exact ⟨sent, held, wire.trans onWire, buffer.trans buffered, rest⟩

/-- The new frame is held back. -/
theorem push (hf : frame.Fits)
    : { writer with buffer := writer.buffer ++ frame.bytes : ClientWriter }.Carries preamble
      (written ++ [frame]) := by
  obtain ⟨sent, held, onWire, buffered, sentFit, heldFit, he⟩ := hc
  refine ⟨sent, held ++ [frame], onWire, ?_, sentFit, ?_, ?_⟩
  · simp [buffered]
  · exact forall_mem_append.mpr ⟨heldFit, forall_mem_singleton.mpr hf⟩
  · rw [← append_assoc, filter_append, he, filter_append]

/-- The frames that were held back go out, with waste behind them. -/
theorem flush {next : ClientWriter} (wastes : List Frame)
    (quiet : ∀ frame ∈ wastes, frame.Fits ∧ frame.isPayload = false)
    (wire : next.wire = writer.wire ++ (writer.buffer ++ wastes.flatMap bytes))
    (buffer : next.buffer = [])
    : next.Carries preamble written := by
  obtain ⟨sent, held, onWire, buffered, sentFit, heldFit, he⟩ := hc
  refine ⟨sent ++ held ++ wastes, [], ?_, buffer, ?_, by simp, ?_⟩
  · simp [wire, onWire, buffered]
  · exact forall_mem_append.mpr ⟨forall_mem_append.mpr ⟨sentFit, heldFit⟩,
      fun frame mem => (quiet frame mem).1⟩
  · have none : wastes.filter isPayload = [] :=
      filter_eq_nil_iff.mpr fun other mem => by simp [(quiet other mem).2]
    rw [append_nil, filter_append, he, none, append_nil]

theorem writePayload (hf : frame.Fits) (draws)
    : (writer.writePayload frame.bytes draws).Carries preamble (written ++ [frame]) := by
  have pushed := hc.push hf
  unfold ClientWriter.writePayload
  split
  · exact pushed
  dsimp only
  split
  · exact pushed.flush [] (by simp) (by simp) rfl
  split
  · exact pushed.flush [] (by simp) (by simp) rfl
  obtain ⟨wastes, padded, quiet⟩ := padRecords_eq
    (writer.padding.generate (writer.packetCounter + 1) draws)
    (writer.buffer ++ frame.bytes)
  exact pushed.flush wastes quiet (by rw [← padded]) rfl

end Carries

variable (library : SchemeReader)

theorem updatePaddingScheme_eq (writer : ClientWriter) (raw)
    : ∃ padding, writer.updatePaddingScheme library raw = { writer with padding } := by
  unfold updatePaddingScheme
  split
  · exact ⟨_, rfl⟩
  · exact ⟨writer.padding, rfl⟩

theorem foldl_updatePaddingScheme_eq (writer) (pushed : List (List UInt8))
    : ∃ padding,
      pushed.foldl (updatePaddingScheme library) writer = { writer with padding } := by
  induction pushed generalizing writer with
  | nil => exact ⟨writer.padding, rfl⟩
  | cons raw pushed ih =>
    obtain ⟨padding, next⟩ := updatePaddingScheme_eq library writer raw
    obtain ⟨last, final⟩ := ih { writer with padding }
    exact ⟨last, by rw [foldl_cons, next, final]⟩

theorem Carries.writePayloads (hc : writer.Carries preamble written)
    (hf : ∀ frame ∈ frames, frame.Fits) (context)
    : (writer.writePayloads library frames context).Carries preamble (written ++ frames) := by
  induction frames generalizing writer written context with
  | nil => rwa [append_nil]
  | cons frame frames ih =>
    obtain ⟨first, others⟩ := forall_mem_cons.mp hf
    obtain ⟨padding, updated⟩ :=
      foldl_updatePaddingScheme_eq library writer (context 0).pushed
    rw [writePayloads]
    have next := (hc.congr { writer with padding } rfl rfl).writePayload first (context 0).draws
    rw [updated]
    have rest := ih next others fun index => context (index + 1)
    rwa [append_assoc] at rest

/-- A writer that is buffering leaves the wire alone. -/
theorem writePayloads_of_buffering (buffering : writer.buffering) (frames context)
    : (writer.writePayloads library frames context).wire = writer.wire := by
  induction frames generalizing writer context with
  | nil => rfl
  | cons _ frames ih =>
    obtain ⟨_, updated⟩ :=
      foldl_updatePaddingScheme_eq library writer (context 0).pushed
    rw [writePayloads, updated, writePayload, if_pos buffering]
    refine (ih ?_ _).trans ?_
    · exact buffering
    · rfl

theorem Carries.step (hc : writer.Carries preamble written) (next)
    : (writer.step library next).Carries preamble (written ++ next.frames) := by
  cases next with
  | write _ _ _ context =>
    exact hc.writePayloads library (fun _ => fits_of_mem_framesOf) context
  | stopBuffering =>
    rw [WriterStep.frames, append_nil]
    exact hc.congr _ rfl rfl
  | updatePaddingScheme raw =>
    rw [WriterStep.frames, append_nil, ClientWriter.step]
    obtain ⟨_, updated⟩ := updatePaddingScheme_eq library writer raw
    rw [updated]
    exact hc.congr _ rfl rfl

theorem Carries.run (hc : writer.Carries preamble written) (steps : List WriterStep)
    : (steps.foldl (ClientWriter.step library) writer).Carries preamble
      (written ++ steps.flatMap WriterStep.frames) := by
  induction steps generalizing writer written with
  | nil => rwa [flatMap_nil, append_nil]
  | cons next steps ih =>
    rw [flatMap_cons, ← append_assoc]
    exact ih (hc.step library next)

end ClientWriter

/-- Seven zeros are an empty waste frame. -/
theorem readFrames_zeros (count : Nat) (hf : ∀ frame ∈ frames, frame.Fits) {left error}
    (hi : readFrame left = .error error)
    : readFrames (replicate (7 * count) 0 ++ (frames.flatMap bytes ++ left))
      = (replicate count (wasteFrame 0) ++ frames, left) := by
  have one : (wasteFrame 0).bytes = replicate 7 0 := by decide
  have zeros : replicate (7 * count) (0 : UInt8)
      = (replicate count (wasteFrame 0)).flatMap bytes := by
    rw [flatMap_replicate, one, flatten_replicate_replicate, mul_comm]
  have all : ∀ frame ∈ replicate count (wasteFrame 0) ++ frames, frame.Fits := by
    refine forall_mem_append.mpr ⟨fun frame mem => ?_, hf⟩
    rw [eq_of_mem_replicate mem]
    exact fits_wasteFrame (by decide)
  rw [zeros, ← append_assoc, ← flatMap_append, readFrames_flatMap all hi]

/-- The server is between two frames, and without the waste it has read what was written, up
to what the client still holds back.
-/
def InSync (users : List UInt8 → Option String) (user : String) (writer : ClientWriter)
    (written : List Frame) : Prop :=
  ∃ frames held, serverReads users writer.wire = .ok (user, frames, [])
    ∧ readFrames writer.buffer = (held, [])
    ∧ (frames ++ held).filter isPayload = written.filter isPayload

section Session

variable {users : List UInt8 → Option String} {passwordHash : List UInt8} {user : String}
  (known : users passwordHash = some user) (length : passwordHash.length = 32)
include known length

/-- The server passes over the padding that it knows of. -/
theorem serverPreamble_clientPreamble (padding rest)
    : serverPreamble users (clientPreamble passwordHash padding ++ rest)
      = .ok (user, replicate (65536 * (padding / 65536)) 0 ++ rest) := by
  have sent : toBigEndian 2 padding = toBigEndian 2 (padding % 65536) :=
    (toBigEndian_mod 2 padding).symm
  have zeros : replicate padding (0 : UInt8)
      = replicate (padding % 65536) 0 ++ replicate (65536 * (padding / 65536)) 0 := by
    rw [replicate_append_replicate, Nat.mod_add_div]
  have hash := reads_take unexpectedEof passwordHash
  rw [length] at hash
  have size : Reads (bigEndian 2 unexpectedEof) (toBigEndian 2 (padding % 65536))
      (padding % 65536) :=
    reads_bigEndian unexpectedEof (Nat.mod_lt _ (by decide))
  have skipped : Reads (take (padding % 65536) unexpectedEof)
      (replicate (padding % 65536) 0) (replicate (padding % 65536) 0) := by
    have all := reads_take unexpectedEof (replicate (padding % 65536) (0 : UInt8))
    rwa [length_replicate] at all
  have hw : Reads (serverPreamble users) (passwordHash ++ (toBigEndian 2 (padding % 65536)
        ++ replicate (padding % 65536) 0)) user := by
    refine hash.bind ?_
    rw [known]
    refine size.bind ?_
    split
    · exact skipped.map fun _ => user
    next empty =>
      rw [Nat.eq_zero_of_not_pos empty]
      exact Reads.pure user
  rw [clientPreamble, sent, zeros]
  simpa only [append_assoc] using hw (replicate (65536 * (padding / 65536)) 0 ++ rest)

theorem serverReads_clientPreamble (padding rest)
    : serverReads users (clientPreamble passwordHash padding ++ rest)
      = .ok (user, readFrames (replicate (65536 * (padding / 65536)) 0 ++ rest)) := by
  rw [serverReads, serverPreamble_clientPreamble known length]
  rfl

variable {padding : Nat} {writer : ClientWriter}

/-- Padding that the server takes for whole waste frames does no harm. -/
theorem inSync_of_carries (hw : padding / 65536 % 7 = 0) {written}
    (hc : writer.Carries (clientPreamble passwordHash padding) written)
    : InSync users user writer written := by
  obtain ⟨sent, held, onWire, buffered, sentFit, heldFit, he⟩ := hc
  have zeros : 65536 * (padding / 65536) = 7 * (65536 * (padding / 65536) / 7) := by omega
  have empty : readFrame [] = .error unexpectedEof := rfl
  refine ⟨replicate (65536 * (padding / 65536) / 7) (wasteFrame 0) ++ sent, held, ?_, ?_, ?_⟩
  · have read := readFrames_zeros (65536 * (padding / 65536) / 7) sentFit empty
    rw [append_nil, ← zeros] at read
    rw [onWire, serverReads_clientPreamble known length, read]
  · have read := readFrames_flatMap heldFit empty
    rwa [append_nil, ← buffered] at read
  · have waste : (replicate (65536 * (padding / 65536) / 7) (wasteFrame 0)).filter isPayload = [] :=
      filter_replicate_of_neg (by decide)
    rw [append_assoc, filter_append, waste, nil_append, he]

/-- Other padding leaves the server in the middle of a frame. -/
theorem not_inSync_of_partial (torn : padding / 65536 % 7 ≠ 0)
    (wire : writer.wire = clientPreamble passwordHash padding) (written)
    : ¬ InSync users user writer written := by
  rintro ⟨frames, held, read, -, -⟩
  rw [wire, ← append_nil (clientPreamble passwordHash padding),
    serverReads_clientPreamble known length, append_nil] at read
  have left := congrArg Prod.snd (Prod.mk.inj (ok.inj read)).2
  have zeros : 65536 * (padding / 65536)
      = 7 * (65536 * (padding / 65536) / 7) + 65536 * (padding / 65536) % 7 := by omega
  have hs : ∀ count < 7, readFrame (replicate count 0) = .error unexpectedEof := by
    decide
  have read := readFrames_zeros (65536 * (padding / 65536) / 7) (forall_mem_nil _)
    (hs (65536 * (padding / 65536) % 7) (Nat.mod_lt _ (by decide)))
  rw [flatMap_nil, nil_append] at read
  rw [zeros, ← replicate_append_replicate, read] at left
  have none := congrArg List.length left
  rw [length_replicate, length_nil] at none
  omega

end Session

variable {factory : PaddingFactory} {draws : Nat → Nat}

theorem createSession_of_lt (library passwordHash metadata context)
    (hs : initialPadding factory draws < 2 ^ 63)
    : createSession library factory passwordHash metadata draws context
      = some (writeClientLocked library
          { padding := factory, packetCounter := 0, sendPadding := true, buffering := true,
            buffer := [], wire := clientPreamble passwordHash (initialPadding factory draws) }
          cmdSettings 0 (settingsText metadata factory.md5).toUTF8.toList context) :=
  if_neg (Nat.not_le_of_lt hs)

theorem createSession_eq_some {library passwordHash metadata context writer}
    (hc : createSession library factory passwordHash metadata draws context = some writer)
    : initialPadding factory draws < 2 ^ 63
      ∧ writer.wire = clientPreamble passwordHash (initialPadding factory draws)
      ∧ writer.Carries (clientPreamble passwordHash (initialPadding factory draws))
        (framesOf cmdSettings 0 (settingsText metadata factory.md5).toUTF8.toList) := by
  unfold createSession at hc
  dsimp only at hc
  split at hc
  · cases hc
  next hs =>
    cases hc
    exact ⟨Nat.lt_of_not_le hs, writePayloads_of_buffering library rfl _ _,
      (Carries.start rfl).writePayloads library (fun _ => fits_of_mem_framesOf) context⟩

/-- The scheme that only has a fixed initial padding. -/
def initialOnly (size : Nat) : PaddingFactory where
  rules := Function.update (fun _ => none) 0 (some [.exact size])
  stop := 1
  md5 := ""

def openStream : List WriterStep :=
  [.stopBuffering, .write cmdSyn 1 [] fun _ => ⟨[], fun _ => 0⟩]

theorem new_thirtyBytes
    : PaddingFactory.new asciiSchemes "stop=1\n0=30-30".toUTF8.toList
      = .ok (initialOnly 30) := by
  have bytes : "stop=1\n0=30-30".toUTF8.toList
      = [115, 116, 111, 112, 61, 49, 10, 48, 61, 51, 48, 45, 51, 48] := by decide +kernel
  rw [bytes]
  rfl

theorem new_sixteenBits
    : PaddingFactory.new asciiSchemes "stop=1\n0=65536-65536".toUTF8.toList
      = .ok (initialOnly 65536) := by
  have bytes : "stop=1\n0=65536-65536".toUTF8.toList
      = [115, 116, 111, 112, 61, 49, 10, 48, 61, 54, 53, 53, 51, 54, 45, 54, 53, 53, 51, 54] := by
    decide +kernel
  rw [bytes]
  rfl

/-- What a session without metadata sends before its first data. -/
def openingFrames : List UInt8 :=
  [4, 0, 0, 0, 0, 0, 24, 118, 61, 50, 10, 99, 108, 105, 101, 110, 116, 61, 10, 112, 97, 100,
    100, 105, 110, 103, 45, 109, 100, 53, 61, 1, 0, 0, 0, 1, 0, 0]

theorem wire_sixteenBits
    : ∃ writer, createSession asciiSchemes (initialOnly 65536) (replicate 32 0) ""
        (fun _ => 0) (fun _ => ⟨[], fun _ => 0⟩) = some writer
      ∧ (openStream.foldl (step asciiSchemes) writer).wire
        = clientPreamble (replicate 32 0) 65536 ++ openingFrames := by
  have text : (settingsText "" (initialOnly 65536).md5).toUTF8.toList
      = [118, 61, 50, 10, 99, 108, 105, 101, 110, 116, 61, 10, 112, 97, 100, 100, 105, 110, 103,
        45, 109, 100, 53, 61] := by decide +kernel
  refine ⟨_, createSession_of_lt _ _ _ _ (by decide), ?_⟩
  rw [text]
  rfl

end Zay.AnyTls
