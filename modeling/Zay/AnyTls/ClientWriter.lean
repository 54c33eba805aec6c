import Zay.AnyTls.Frame
import Zay.AnyTls.Padding

/-! The writing half of an AnyTLS client session and the reading half of the server, in
`protocol/anytls.rs`. The connection itself delivers every byte in order, and the random
source does not fail.
-/

namespace Zay.AnyTls

open Lib

structure ClientWriter where
  padding : PaddingFactory
  packetCounter : UInt32
  sendPadding : Bool
  buffering : Bool
  buffer : List UInt8
  /-- All that was written to the connection. -/
  wire : List UInt8

def wasteFrame (length : Nat) : Frame where
  command := cmdWaste
  streamId := 0
  data := List.replicate length 0

/-- What happens around one payload: the schemes that the server pushes before it, and what
the random source gives for its sizes.
-/
structure PayloadContext where
  pushed : List (List UInt8)
  draws : Nat → Nat

/-- The loop over the sizes, with the data that is not written yet. -/
def padRecords : (sizes : List ResolvedSize) → (data : List UInt8) → List UInt8
  | [], data => data
  | .check :: sizes, data => if data.isEmpty then [] else padRecords sizes data
  | .exact size :: sizes, data =>
    if size < data.length then data.take size ++ padRecords sizes (data.drop size)
    else if 0 < data.length then
      let paddingLength := min (size - (data.length + 7)) maximumData
      let waste := if 0 < paddingLength then (wasteFrame paddingLength).bytes else []
      data ++ waste ++ padRecords sizes []
    else (wasteFrame (min size maximumData)).bytes ++ padRecords sizes []

variable (library : SchemeReader) (writer : ClientWriter)

namespace ClientWriter

def writePayload (data : List UInt8) (draws : Nat → Nat) : ClientWriter :=
  if writer.buffering then { writer with buffer := writer.buffer ++ data }
  else
    let data := writer.buffer ++ data
    let writer := { writer with buffer := [] }
    if !writer.sendPadding then { writer with wire := writer.wire ++ data }
    else
      let packetCounter := writer.packetCounter + 1
      if writer.padding.stop ≤ packetCounter then
        { writer with packetCounter, sendPadding := false, wire := writer.wire ++ data }
      else
        let sizes := writer.padding.generate packetCounter draws
        { writer with packetCounter, wire := writer.wire ++ padRecords sizes data }

def updatePaddingScheme (raw : List UInt8) : ClientWriter :=
  match PaddingFactory.new library raw with
  | .ok padding => { writer with padding }
  | .error _ => writer

/-- The payloads of several frames in turn. The receive loop does not need the lock of the
writer to change the scheme, so it may do so before any of them.
-/
def writePayloads (library : SchemeReader)
    : (writer : ClientWriter) → List Frame → (context : Nat → PayloadContext) → ClientWriter
  | writer, [], _ => writer
  | writer, frame :: frames, context =>
    let writer := (context 0).pushed.foldl (updatePaddingScheme library) writer
    writePayloads library (writer.writePayload frame.bytes (context 0).draws) frames
      fun index => context (index + 1)

def writeClientLocked (command : UInt8) (streamId : UInt32) (data : List UInt8)
    (context : Nat → PayloadContext)
    : ClientWriter :=
  writer.writePayloads library (framesOf command streamId data) context

end ClientWriter

/-- The size of the padding behind the password hash. -/
def initialPadding (factory : PaddingFactory) (draws : Nat → Nat) : Nat :=
  match (factory.generate 0 draws).head? with
  | some (.exact size) => size
  | _ => 0

def settingsText (metadata md5 : String) : String :=
  "v=2\nclient=" ++ metadata ++ "\npadding-md5=" ++ md5

/-- The password hash and the padding of `create_session`. Only sixteen bits of the length
are sent.
-/
def clientPreamble (passwordHash : List UInt8) (padding : Nat) : List UInt8 :=
  passwordHash ++ toBigEndian 2 padding ++ List.replicate padding 0

/-- `create_session`, as far as it writes: there is no vector of `2 ^ 63` bytes or more. -/
def createSession (factory : PaddingFactory) (passwordHash : List UInt8) (metadata : String)
    (draws : Nat → Nat) (context : Nat → PayloadContext)
    : Option ClientWriter :=
  let padding := initialPadding factory draws
  if 2 ^ 63 ≤ padding then none
  else
    let writer : ClientWriter :=
      { padding := factory, packetCounter := 0, sendPadding := true, buffering := true,
        buffer := [], wire := clientPreamble passwordHash padding }
    some (writer.writeClientLocked library cmdSettings 0
      (settingsText metadata factory.md5).toUTF8.toList context)

/-- What happens to the writer of a session. -/
inductive WriterStep where
  | write (command : UInt8) (streamId : UInt32) (data : List UInt8)
      (context : Nat → PayloadContext)
  /-- `open_stream` ends the buffering. -/
  | stopBuffering
  | updatePaddingScheme (raw : List UInt8)

def ClientWriter.step
    : WriterStep → ClientWriter
  | .write command streamId data context =>
    writer.writeClientLocked library command streamId data context
  | .stopBuffering => { writer with buffering := false }
  | .updatePaddingScheme raw => writer.updatePaddingScheme library raw

/-- `users` maps the hashes of passwords, which have 32 bytes. -/
def serverPreamble (users : List UInt8 → Option String) : Reader IoError String := do
  let hash ← Reader.take 32 unexpectedEof
  match users hash with
  | none => .fail { kind := .permissionDenied, message := "unknown AnyTLS password" }
  | some user =>
    let paddingLength ← Reader.bigEndian 2 unexpectedEof
    if 0 < paddingLength then
      let _ ← Reader.take paddingLength unexpectedEof
    return user

/-- What `serve_connection` reads: the user, the frames, and what is left of the input when
the next frame is incomplete.
-/
def serverReads (users : List UInt8 → Option String) (input : List UInt8)
    : IoResult (String × List Frame × List UInt8) := do
  let (user, rest) ← serverPreamble users input
  return (user, readFrames rest)

end Zay.AnyTls
