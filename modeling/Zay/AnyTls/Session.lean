import Zay.AnyTls.Frame
import Zay.AnyTls.Padding

/-! The receiving loops of both ends of an AnyTLS session (`serve_connection` and
`client_receive_loop` in `protocol/anytls.rs`). Every logical stream has a pipe to its
application, and a loop writes into the pipes in turn: it waits while a pipe is full and
ends when one is closed. Failures of the connection itself are left out, and so is what the
applications send.
-/

namespace Zay.AnyTls

/-- What the application of a stream does: it reads, or it holds its end of the pipe without
reading, with room for some more bytes, or it has dropped its end.
-/
inductive Application where
  | reading
  | stopped (room : Nat)
  | gone
  deriving Repr, DecidableEq

def pipeCapacity : Nat := 64 * 1024

/-- The writing half of a `tokio::io::duplex`, with all that was written into it. -/
structure Pipe where
  delivered : List UInt8
  application : Application
  deriving Repr, DecidableEq

/-- Why a loop has ended. -/
inductive Ending where
  | alert (message : List UInt8)
  | synBeforeSettings
  | brokenPipe
  deriving Repr, DecidableEq

inductive LoopState where
  | running
  /-- The loop waits for room in the pipe of a stream. -/
  | waiting (streamId : UInt32) (rest : List UInt8)
  | ended (ending : Ending)
  deriving Repr, DecidableEq

/-- `write_all` on a pipe. Writing nothing succeeds on a closed one, too. -/
def Pipe.writeAll (pipe : Pipe) (streamId : UInt32) (data : List UInt8) : Pipe × LoopState :=
  match pipe.application with
  | .reading => ({ pipe with delivered := pipe.delivered ++ data }, .running)
  | .stopped room =>
    if data.length ≤ room then
      ({ delivered := pipe.delivered ++ data
         application := .stopped (room - data.length) }, .running)
    else
      ({ delivered := pipe.delivered ++ data.take room, application := .stopped 0 },
        .waiting streamId (data.drop room))
  | .gone => if data.isEmpty then (pipe, .running) else (pipe, .ended .brokenPipe)

/-- The map from stream ids to pipes, with what the pipes that have left it were given. -/
structure StreamTable where
  current : UInt32 → Option Pipe
  finished : UInt32 → List (List UInt8)

namespace StreamTable

def empty : StreamTable where
  current _ := none
  finished _ := []

variable (table : StreamTable)

/-- What the pipe in the table was given, if there is one. -/
def held (streamId : UInt32) : List (List UInt8) :=
  (table.current streamId).toList.map Pipe.delivered

/-- Puts a pipe in place of the one that is there. -/
def replace (streamId : UInt32) (pipe : Option Pipe) : StreamTable where
  current := Function.update table.current streamId pipe
  finished :=
    Function.update table.finished streamId (table.finished streamId ++ table.held streamId)

def insertNew (streamId : UInt32) : StreamTable :=
  table.replace streamId (some { delivered := [], application := .reading })

def remove (streamId : UInt32) : StreamTable :=
  table.replace streamId none

def clear : StreamTable where
  current _ := none
  finished streamId := table.finished streamId ++ table.held streamId

def setPipe (streamId : UInt32) (pipe : Pipe) : StreamTable :=
  { table with current := Function.update table.current streamId (some pipe) }

end StreamTable

/-- What the application of the stream in the table can do. -/
inductive ApplicationStep where
  | resumes
  | stops (unread : Nat)
  | goes
  deriving Repr, DecidableEq

/-- What the loops of both ends have in common. -/
structure Receiver where
  streams : StreamTable
  loop : LoopState

namespace Receiver

def start : Receiver where
  streams := .empty
  loop := .running

variable (receiver : Receiver)

/-- The end of a loop drops the map of streams. -/
def finish (ending : Ending) : Receiver where
  streams := receiver.streams.clear
  loop := .ended ending

/-- The `CMD_PSH` arm. -/
def push (streamId : UInt32) (data : List UInt8) : Receiver :=
  match receiver.streams.current streamId with
  | none => receiver
  | some pipe =>
    match pipe.writeAll streamId data with
    | (_, .ended ending) => receiver.finish ending
    | (pipe, loop) => { streams := receiver.streams.setPipe streamId pipe, loop }

/-- The bytes that the loop still has to write for a stream. -/
def waitingFor (streamId : UInt32) : Option (List UInt8) :=
  match receiver.loop with
  | .waiting waited rest => if waited = streamId then some rest else none
  | _ => none

/-- A waiting write goes on when the application reads, and fails when it goes. -/
def application (receiver : Receiver) (streamId : UInt32) (step : ApplicationStep)
    : Receiver :=
  match receiver.streams.current streamId with
  | none => receiver
  | some pipe =>
    let set (pipe : Pipe) : Receiver :=
      { receiver with streams := receiver.streams.setPipe streamId pipe }
    match pipe.application, step with
    | .gone, _ => receiver
    | _, .goes =>
      if (receiver.waitingFor streamId).isSome then receiver.finish .brokenPipe
      else set { pipe with application := .gone }
    | _, .resumes =>
      match receiver.waitingFor streamId with
      | some rest =>
        { set { delivered := pipe.delivered ++ rest, application := .reading } with
          loop := .running }
      | none => set { pipe with application := .reading }
    | .reading, .stops unread =>
      set { pipe with application := .stopped (pipeCapacity - unread) }
    | .stopped _, .stops _ => receiver

end Receiver

/-- `log` are the frames that the loop has handled, and `replies` those it has sent. -/
structure ServerSession where
  receiver : Receiver
  receivedSettings : Bool
  peerVersion : Nat
  replies : List Frame
  log : List Frame

namespace ServerSession

def start : ServerSession where
  receiver := .start
  receivedSettings := false
  peerVersion := 0
  replies := []
  log := []

variable (library : SchemeReader) (paddingScheme : List UInt8) (session : ServerSession)

/-- The `CMD_SETTINGS` arm. -/
def applySettings (data : List UInt8) : ServerSession :=
  let settings := parseSettings (library.fromUtf8Lossy data)
  let update :=
    if settings.lookup "padding-md5".toList = some (library.md5 paddingScheme).toList then []
    else framesOf cmdUpdatePaddingScheme 0 paddingScheme
  let modern := ((settings.lookup "v".toList).bind (parseUnsigned 256)).any (2 ≤ ·)
  { session with
    receivedSettings := true
    peerVersion := if modern then 2 else session.peerVersion
    replies :=
      session.replies ++ update
      ++ if modern then framesOf cmdServerSettings 0 "v=2".toUTF8.toList else [] }

/-- The `CMD_SYN` arm after the settings. The id of an open stream is not opened again. -/
def openStream (streamId : UInt32) : ServerSession :=
  if (session.receiver.streams.current streamId).isSome then session
  else
    { session with
      receiver :=
        { session.receiver with streams := session.receiver.streams.insertNew streamId } }

def refuseSyn : ServerSession :=
  { session with
    receiver := session.receiver.finish .synBeforeSettings
    replies := session.replies
      ++ framesOf cmdAlert 0 "client did not send its settings".toUTF8.toList }

/-- One round of the loop. -/
def readFrame (frame : Frame) : ServerSession :=
  if frame.command = cmdSyn ∧ !session.receivedSettings then session.refuseSyn
  else
    let session := { session with log := session.log ++ [frame] }
    if frame.command = cmdSettings then
      session.applySettings library paddingScheme frame.data
    else if frame.command = cmdSyn then session.openStream frame.streamId
    else if frame.command = cmdPsh then
      { session with receiver := session.receiver.push frame.streamId frame.data }
    else if frame.command = cmdFin then
      { session with
        receiver :=
          { session.receiver with
            streams := session.receiver.streams.remove frame.streamId } }
    else if frame.command = cmdHeartRequest then
      { session with
        replies := session.replies ++ framesOf cmdHeartResponse frame.streamId [] }
    else if frame.command = cmdAlert then
      { session with receiver := session.receiver.finish (.alert frame.data) }
    else session

end ServerSession

inductive ServerStep where
  | frame (frame : Frame)
  | application (streamId : UInt32) (step : ApplicationStep)

/-- A frame is only read while the loop runs. -/
def ServerSession.step (library : SchemeReader) (paddingScheme : List UInt8)
    (session : ServerSession) : ServerStep → ServerSession
  | .frame frame =>
    if session.receiver.loop = .running then session.readFrame library paddingScheme frame
    else session
  | .application streamId step =>
    { session with receiver := session.receiver.application streamId step }

/-- What the client's loop has handled and `open_stream` has opened. -/
inductive ClientRecord where
  | opened (streamId : UInt32)
  | received (frame : Frame)
  deriving Repr, DecidableEq

def ClientRecord.streamId : ClientRecord → UInt32
  | opened streamId => streamId
  | received frame => frame.streamId

structure ClientSession where
  receiver : Receiver
  nextStreamId : UInt32
  padding : PaddingFactory
  replies : List Frame
  log : List ClientRecord

namespace ClientSession

def start (padding : PaddingFactory) : ClientSession where
  receiver := .start
  nextStreamId := 0
  padding
  replies := []
  log := []

/-- `open_stream`. The counter wraps around, and an entry of the same id is replaced. -/
def openStream (session : ClientSession) : ClientSession :=
  let streamId := session.nextStreamId + 1
  { session with
    receiver :=
      { session.receiver with streams := session.receiver.streams.insertNew streamId }
    nextStreamId := streamId
    log := session.log ++ [.opened streamId] }

/-- One round of the loop. -/
def readFrame (library : SchemeReader) (session : ClientSession) (frame : Frame)
    : ClientSession :=
  let session := { session with log := session.log ++ [.received frame] }
  if frame.command = cmdPsh then
    { session with receiver := session.receiver.push frame.streamId frame.data }
  else if frame.command = cmdFin ∨ frame.command = cmdSynAck ∧ frame.data ≠ [] then
    { session with
      receiver :=
        { session.receiver with
          streams := session.receiver.streams.remove frame.streamId } }
  else if frame.command = cmdHeartRequest then
    { session with replies := session.replies ++ framesOf cmdHeartResponse frame.streamId [] }
  else if frame.command = cmdUpdatePaddingScheme then
    match PaddingFactory.new library frame.data with
    | .ok padding => { session with padding }
    | .error _ => session
  else if frame.command = cmdAlert then
    { session with receiver := session.receiver.finish (.alert frame.data) }
  else session

end ClientSession

inductive ClientStep where
  | openStream
  | frame (frame : Frame)
  | application (streamId : UInt32) (step : ApplicationStep)

/-- While the loop writes into a pipe it holds the lock of the table, so no stream can be
opened; after its end the session is cancelled.
-/
def ClientSession.step (library : SchemeReader) (session : ClientSession)
    : ClientStep → ClientSession
  | .openStream => if session.receiver.loop = .running then session.openStream else session
  | .frame frame =>
    if session.receiver.loop = .running then session.readFrame library frame else session
  | .application streamId step =>
    { session with receiver := session.receiver.application streamId step }

end Zay.AnyTls
