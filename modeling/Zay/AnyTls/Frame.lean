import Zay.Error
import Zay.Lib.Assembly
import Zay.Lib.Reader

/-! Frames of an AnyTLS session (`protocol/anytls.rs`): seven bytes of header, then at most
65535 bytes of data.
-/

namespace Zay.AnyTls

open Lib List

def cmdWaste : UInt8 := 0

def cmdSyn : UInt8 := 1

def cmdPsh : UInt8 := 2

def cmdFin : UInt8 := 3

def cmdSettings : UInt8 := 4

def cmdAlert : UInt8 := 5

def cmdUpdatePaddingScheme : UInt8 := 6

def cmdSynAck : UInt8 := 7

def cmdHeartRequest : UInt8 := 8

def cmdHeartResponse : UInt8 := 9

def cmdServerSettings : UInt8 := 10

structure Frame where
  command : UInt8
  streamId : UInt32
  data : List UInt8
  deriving Repr, DecidableEq

def unexpectedEof : IoError where
  kind := .unexpectedEof
  message := "early eof"

def readFrame : Reader IoError Frame := do
  let command ← Reader.byte unexpectedEof
  let streamId ← Reader.bigEndian 4 unexpectedEof
  let length ← Reader.bigEndian 2 unexpectedEof
  let data ← Reader.take length unexpectedEof
  return { command, streamId := UInt32.ofNat streamId, data }

/-- One frame on the wire. The length is cut to sixteen bits. -/
def Frame.bytes (frame : Frame) : List UInt8 :=
  [frame.command] ++ toBigEndian 4 frame.streamId.toNat ++ toBigEndian 2 frame.data.length
  ++ frame.data

def maximumData : Nat := 65535

/-- The frames that `write_frame` and `write_client_locked` cut their data into. -/
def framesOf (command : UInt8) (streamId : UInt32) (data : List UInt8) : List Frame :=
  if data.isEmpty then [{ command, streamId, data := [] }]
  else (chunks maximumData data).map fun data => { command, streamId, data }

/-- The frames that a reader of the whole input gets, and what is left when the next frame is
incomplete.
-/
def readFramesFrom : (fuel : Nat) → (input : List UInt8) → List Frame × List UInt8
  | 0, input => ([], input)
  | fuel + 1, input =>
    match readFrame input with
    | .ok (frame, rest) =>
      let (frames, left) := readFramesFrom fuel rest
      (frame :: frames, left)
    | .error _ => ([], input)

def readFrames (input : List UInt8) : List Frame × List UInt8 :=
  readFramesFrom input.length input

open Reader

/-- The length of the data fits into the header. -/
def Frame.Fits (frame : Frame) : Prop := frame.data.length ≤ maximumData

theorem reads_readFrame {frame} (hf : frame.Fits) : Reads readFrame frame.bytes frame := by
  have id : frame.streamId.toNat < 256 ^ 4 := frame.streamId.toNat_lt
  have size : frame.data.length < 256 ^ 2 := Nat.lt_succ_of_le hf
  have hw : Reads readFrame ([frame.command] ++ (toBigEndian 4 frame.streamId.toNat
        ++ (toBigEndian 2 frame.data.length ++ frame.data)))
      { frame with streamId := UInt32.ofNat frame.streamId.toNat } :=
    (reads_byte unexpectedEof frame.command).bind ((reads_bigEndian unexpectedEof id).bind
        ((reads_bigEndian unexpectedEof size).bind ((reads_take unexpectedEof frame.data).map _)))
  rw [UInt32.ofNat_toNat] at hw
  simpa only [Frame.bytes, append_assoc] using hw

variable {left data : List UInt8} {error : IoError} {fuel : Nat} {frames : List Frame}

theorem readFramesFrom_flatMap (hf : ∀ frame ∈ frames, frame.Fits)
    (hi : readFrame left = .error error) (he : frames.length ≤ fuel)
    : readFramesFrom fuel (frames.flatMap Frame.bytes ++ left) = (frames, left) := by
  induction frames generalizing fuel with
  | nil =>
    cases fuel with
    | zero => rfl
    | succ fuel => simp [readFramesFrom, hi]
  | cons frame frames ih =>
    obtain ⟨first, others⟩ := forall_mem_cons.mp hf
    cases fuel with
    | zero => simp at he
    | succ fuel =>
      rw [flatMap_cons, append_assoc, readFramesFrom,
        reads_readFrame first (frames.flatMap Frame.bytes ++ left)]
      simp [ih others (Nat.le_of_succ_le_succ he)]

theorem length_le_length_flatMap (frames : List Frame)
    : frames.length ≤ (frames.flatMap Frame.bytes).length := by
  induction frames with
  | nil => exact le_refl _
  | cons frame frames ih =>
    simp only [flatMap_cons, length_cons, length_append, Frame.bytes]
    omega

/-- Whole frames are read back, up to an incomplete one. -/
theorem readFrames_flatMap (hf : ∀ frame ∈ frames, frame.Fits) (hi : readFrame left = .error error)
    : readFrames (frames.flatMap Frame.bytes ++ left) = (frames, left) := by
  refine readFramesFrom_flatMap hf hi ?_
  rw [length_append]
  exact (length_le_length_flatMap frames).trans (Nat.le_add_right _ _)

theorem fits_of_mem_framesOf {command streamId frame} (mem : frame ∈ framesOf command streamId data)
    : frame.Fits := by
  unfold framesOf at mem
  split at mem
  · rw [mem_singleton.mp mem]
    exact Nat.zero_le _
  obtain ⟨_, hl, rfl⟩ := mem_map.mp mem
  exact length_chunksFrom_le hl

end Zay.AnyTls
