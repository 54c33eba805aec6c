import Zay.AnyTls.Session
import Zay.Lib.Runs

/-! When the streams of an AnyTLS session do not disturb each other. What a stream is given
should follow from the frames of its own id. It does as long as no loop has to write more
into a pipe than its application takes: a loop ends at the pipe of an application that has
gone, and waits at the full pipe of one that has stopped reading.
-/

namespace Zay.AnyTls

open Lib StreamTable ServerSession ClientSession Function

/-- What the streams of one id ought to be given: those that have ended, and those that are
open.
-/
structure Account where
  finished : List (List UInt8)
  opened : List (List UInt8)
  deriving Repr, DecidableEq

inductive StreamEvent where
  | opens
  | pushes (data : List UInt8)
  | closes
  deriving Repr, DecidableEq

namespace Account

def empty : Account where
  finished := []
  opened := []

def after (account : Account) : Option StreamEvent → Account
  | none => account
  | some .opens => { account with opened := account.opened ++ [[]] }
  | some (.pushes data) => { account with opened := account.opened.map (· ++ data) }
  | some .closes => { finished := account.finished ++ account.opened, opened := [] }

end Account

/-- What a frame means for the server. A `CMD_SYN` for an open stream means nothing. -/
def serverEvent (account : Account) (frame : Frame) : Option StreamEvent :=
  if frame.command = cmdSyn then if account.opened = [] then some .opens else none
  else if frame.command = cmdPsh then some (.pushes frame.data)
  else if frame.command = cmdFin then some .closes
  else none

/-- The account of an id from the frames of that id alone. -/
def serverAccount (log : List Frame) (streamId : UInt32) : Account :=
  (log.filter (·.streamId = streamId)).foldl
    (fun account frame => account.after (serverEvent account frame)) .empty

def clientEvent : ClientRecord → Option StreamEvent
  | .opened _ => some .opens
  | .received frame =>
    if frame.command = cmdPsh then some (.pushes frame.data)
    else if frame.command = cmdFin ∨ frame.command = cmdSynAck ∧ frame.data ≠ [] then
      some .closes
    else none

def clientAccount (log : List ClientRecord) (streamId : UInt32) : Account :=
  (log.filter (·.streamId = streamId)).foldl
    (fun account record => account.after (clientEvent record)) .empty

theorem account_concat {α : Type} (streamId : α → UInt32) (next : Account → α → Account) (log)
    (item : α)
    : (fun id => ((log ++ [item]).filter (streamId · = id)).foldl next .empty)
      = update (fun id => (log.filter (streamId · = id)).foldl next .empty)
          (streamId item) (next ((log.filter (streamId · = streamId item)).foldl next .empty)
            item) := by
  funext id
  by_cases he : id = streamId item
  · subst he
    simp
  rw [update_of_ne he]
  simp [Ne.symm he]

theorem serverAccount_concat (log) (frame : Frame)
    : serverAccount (log ++ [frame])
      = update (serverAccount log) frame.streamId
          ((serverAccount log frame.streamId).after
            (serverEvent (serverAccount log frame.streamId) frame)) :=
  account_concat Frame.streamId _ log frame

theorem clientAccount_concat (log record)
    : clientAccount (log ++ [record])
      = update (clientAccount log) record.streamId
          ((clientAccount log record.streamId).after (clientEvent record)) :=
  account_concat ClientRecord.streamId _ log record

/-- The pipe takes all of the data at once. -/
def Pipe.Takes (pipe : Pipe) (data : List UInt8) : Prop :=
  match pipe.application with
  | .reading => True
  | .stopped room => data.length ≤ room
  | .gone => data = []

variable {event : Option StreamEvent} {frame : Frame}

namespace Receiver

/-- The streams were given what they ought to be, and the loop goes on or was ended by the
peer.
-/
structure Agrees (receiver : Receiver) (account : UInt32 → Account) : Prop where
  given
    : ∀ streamId, receiver.streams.finished streamId ++ receiver.streams.held streamId
      = (account streamId).finished ++ (account streamId).opened
  held
    : receiver.loop = .running →
      ∀ streamId, receiver.streams.held streamId = (account streamId).opened
  alive
    : receiver.loop = .running
      ∨ ∃ ending, receiver.loop = .ended ending ∧ ending ≠ .brokenPipe

/-- All of the data fits into the pipe of the stream, if there is one. -/
def Takes (receiver : Receiver) (streamId : UInt32) (data : List UInt8) : Prop :=
  ∀ pipe ∈ receiver.streams.current streamId, pipe.Takes data

variable {receiver : Receiver} {account : UInt32 → Account} {streamId other : UInt32} {pipe : Pipe}
  {data : List UInt8} (table : StreamTable)

theorem held_replace (streamId pipe)
    : (table.replace streamId pipe).held streamId = pipe.toList.map Pipe.delivered := by
  simp [held, replace]

theorem replace_of_ne (pipe) (hne : other ≠ streamId)
    : (table.replace streamId pipe).finished other = table.finished other
      ∧ (table.replace streamId pipe).held other = table.held other := by
  simp [held, replace, hne]

theorem setPipe_of_ne (pipe : Pipe) (hne : other ≠ streamId)
    : (table.setPipe streamId pipe).finished other = table.finished other
      ∧ (table.setPipe streamId pipe).held other = table.held other := by
  simp [held, setPipe, hne]

theorem writeAll_of_takes (takes : pipe.Takes data) (streamId : UInt32)
    : (pipe.writeAll streamId data).2 = .running
      ∧ (pipe.writeAll streamId data).1.delivered = pipe.delivered ++ data := by
  obtain ⟨_, application⟩ := pipe
  cases application with
  | reading => exact ⟨rfl, rfl⟩
  | stopped room =>
    have he : data.length ≤ room := takes
    simp [Pipe.writeAll, he]
  | gone =>
    have empty : data = [] := takes
    simp [Pipe.writeAll, empty]

/-- A write that leaves the loop running, or ended by the peer, went into a pipe that takes it. -/
theorem takes_of_writeAll (alive : (pipe.writeAll streamId data).2 = .running
      ∨ ∃ ending, (pipe.writeAll streamId data).2 = .ended ending ∧ ending ≠ .brokenPipe)
    : pipe.Takes data := by
  by_contra refuses
  obtain ⟨_, application⟩ := pipe
  cases application with
  | reading => exact refuses trivial
  | stopped room =>
    have full : ¬ data.length ≤ room := refuses
    simp [Pipe.writeAll, full] at alive
  | gone =>
    have hnil : data ≠ [] := refuses
    simp [Pipe.writeAll, hnil] at alive

theorem loop_push (hp : receiver.streams.current streamId = some pipe)
    : (receiver.push streamId data).loop = (pipe.writeAll streamId data).2 := by
  simp only [Receiver.push, hp]
  split
  next he =>
    rw [he]
    rfl
  next outcome =>
    rw [outcome]

theorem takes_of_agrees_push {after : Receiver} (pushed : after = receiver.push streamId data)
    (ha : after.Agrees account)
    : receiver.Takes streamId data := by
  intro pipe hp
  have alive := ha.alive
  rw [pushed, loop_push hp] at alive
  exact takes_of_writeAll alive

variable (ha : receiver.Agrees account)
include ha

namespace Agrees

theorem still
    : receiver.Agrees (update account streamId ((account streamId).after none)) := by
  rw [Account.after, update_eq_self]
  exact ha

theorem finish {ending} (peer : ending ≠ .brokenPipe)
    : (receiver.finish ending).Agrees account where
  given streamId := by
    rw [← ha.given streamId]
    simp [Receiver.finish, StreamTable.clear, StreamTable.held]
  held := by simp [Receiver.finish]
  alive := .inr ⟨ending, rfl, peer⟩

theorem setPipe {next} (hp : receiver.streams.current streamId = some pipe)
    (he : next.delivered = pipe.delivered)
    : Agrees { receiver with streams := receiver.streams.setPipe streamId next } account := by
  have held (other : UInt32)
      : (receiver.streams.setPipe streamId next).held other = receiver.streams.held other := by
    by_cases here : other = streamId
    · subst here
      simp [StreamTable.held, StreamTable.setPipe, hp, he]
    · exact (setPipe_of_ne _ _ here).2
  exact {
    given := fun other => by
      rw [← ha.given other, held other]
      rfl
    held := fun hr other => (held other).trans (ha.held hr other)
    alive := ha.alive }

theorem waitingFor (streamId : UInt32) : receiver.waitingFor streamId = none := by
  unfold Receiver.waitingFor
  rcases ha.alive with hr | ⟨_, he, -⟩
  · rw [hr]
  · rw [he]

/-- Whatever an application does, as long as the loop does not wait for it. -/
theorem application (streamId step) : (receiver.application streamId step).Agrees account := by
  have idle := ha.waitingFor streamId
  unfold Receiver.application
  split
  · exact ha
  next pipe hp =>
    split
    · exact ha
    · rw [if_neg (by simp [idle])]
      exact ha.setPipe hp rfl
    · rw [idle]
      exact ha.setPipe hp rfl
    · exact ha.setPipe hp rfl
    · exact ha

variable (hr : receiver.loop = .running)
include hr

theorem finished (streamId : UInt32)
    : receiver.streams.finished streamId = (account streamId).finished := by
  have all := ha.given streamId
  rw [ha.held hr] at all
  exact List.append_cancel_right all

/-- A running loop after the table has changed for one stream only. -/
theorem update {streams} (others : ∀ other, other ≠ streamId →
      streams.finished other = receiver.streams.finished other
      ∧ streams.held other = receiver.streams.held other)
    (hf : streams.finished streamId = ((account streamId).after event).finished)
    (held : streams.held streamId = ((account streamId).after event).opened)
    : Agrees { streams, loop := .running }
      (update account streamId ((account streamId).after event)) := by
  have both (other : UInt32)
      : streams.finished other
          = (Function.update account streamId ((account streamId).after event) other).finished
        ∧ streams.held other
          = (Function.update account streamId ((account streamId).after event) other).opened := by
    by_cases he : other = streamId
    · subst he
      rw [update_self]
      exact ⟨hf, held⟩
    rw [update_of_ne he, (others other he).1, (others other he).2]
    exact ⟨ha.finished hr other, ha.held hr other⟩
  exact {
    given := fun other => by rw [(both other).1, (both other).2]
    held := fun _ other => (both other).2
    alive := .inl rfl }

theorem insertNew (hno : receiver.streams.current streamId = none)
    : Agrees { receiver with streams := receiver.streams.insertNew streamId }
      (Function.update account streamId ((account streamId).after (some .opens))) := by
  rw [hr]
  have empty : receiver.streams.held streamId = [] := by simp [StreamTable.held, hno]
  have none : (account streamId).opened = [] := (ha.held hr streamId).symm.trans empty
  refine ha.update hr (fun _ => replace_of_ne _ _) ?_ ?_
  · simp [StreamTable.insertNew, StreamTable.replace, empty, Account.after, ha.finished hr]
  · rw [StreamTable.insertNew, held_replace]
    simp [Account.after, none]

theorem remove
    : Agrees { receiver with streams := receiver.streams.remove streamId }
      (Function.update account streamId ((account streamId).after (some .closes))) := by
  rw [hr]
  refine ha.update hr (fun _ => replace_of_ne _ _) ?_ ?_
  · simp [StreamTable.remove, StreamTable.replace, Account.after, ha.finished hr, ha.held hr]
  · rw [StreamTable.remove, held_replace]
    simp [Account.after]

theorem push (takes : receiver.Takes streamId data)
    : (receiver.push streamId data).Agrees
      (Function.update account streamId ((account streamId).after (some (.pushes data)))) := by
  have held := ha.held hr streamId
  cases hp : receiver.streams.current streamId with
  | none =>
    have none : (account streamId).opened = [] := by
      rw [← held]
      simp [StreamTable.held, hp]
    have he : receiver.push streamId data
        = { streams := receiver.streams, loop := .running } := by
      simp only [Receiver.push, hp]
      rw [← hr]
    rw [he]
    refine ha.update hr (fun _ _ => ⟨rfl, rfl⟩) ?_ ?_
    · simp [Account.after, ha.finished hr]
    · simp [Account.after, none, held]
  | some pipe =>
    obtain ⟨goesOn, delivered⟩ := writeAll_of_takes (takes pipe hp) streamId
    have next : receiver.push streamId data
        = { streams := receiver.streams.setPipe streamId (pipe.writeAll streamId data).1
            loop := .running } := by
      simp only [Receiver.push, hp]
      split
      next ended =>
        rw [ended] at goesOn
        cases goesOn
      next written loop _ outcome =>
        rw [outcome] at goesOn ⊢
        obtain rfl : loop = .running := goesOn
        rfl
    rw [next]
    refine ha.update hr (fun _ => setPipe_of_ne _ _) ?_ ?_
    · simp [Account.after, StreamTable.setPipe, ha.finished hr]
    · simp only [Account.after]
      rw [← held]
      simp [StreamTable.held, StreamTable.setPipe, hp, delivered]

end Agrees

end Receiver

variable {receiver : Receiver}

namespace ServerSession

def Isolated (session : ServerSession) : Prop :=
  session.receiver.Agrees (serverAccount session.log)

/-- Data is only read for a stream whose pipe takes it. -/
def Unhindered (session : ServerSession) : ServerStep → Prop
  | .frame frame =>
    session.receiver.loop = .running → frame.command = cmdPsh →
      session.receiver.Takes frame.streamId frame.data
  | .application _ _ => True

variable {library : SchemeReader} {paddingScheme : List UInt8} {session : ServerSession}

theorem isolated_start : start.Isolated where
  given _ := rfl
  held _ _ := rfl
  alive := .inl rfl

/-- The account after a frame, once its meaning is known. -/
theorem agrees_concat {log} (meaning : serverEvent (serverAccount log frame.streamId) frame = event)
    (ha : receiver.Agrees (update (serverAccount log) frame.streamId
      ((serverAccount log frame.streamId).after event)))
    : receiver.Agrees (serverAccount (log ++ [frame])) := by
  rw [serverAccount_concat, meaning]
  exact ha

theorem Isolated.readFrame (hi : session.Isolated)
    (hr : session.receiver.loop = .running) (unhindered : session.Unhindered (.frame frame))
    : (session.readFrame library paddingScheme frame).Isolated := by
  have ha : session.receiver.Agrees (serverAccount session.log) := hi
  unfold ServerSession.readFrame
  split
  · exact ha.finish (by decide)
  split
  next settings =>
    exact agrees_concat (by rw [serverEvent, settings]; rfl) ha.still
  split
  next syn =>
    unfold openStream
    dsimp only
    have ho := ha.held hr frame.streamId
    split
    next hp =>
      obtain ⟨_, entry⟩ := Option.isSome_iff_exists.mp hp
      refine agrees_concat ?_ ha.still
      simp [serverEvent, syn, ← ho, held, entry]
    next hno =>
      have entry := Option.not_isSome_iff_eq_none.mp hno
      refine agrees_concat ?_ (ha.insertNew hr entry)
      simp [serverEvent, syn, ← ho, held, entry]
  · split
    next psh =>
      refine agrees_concat ?_ (ha.push hr (unhindered hr psh))
      rw [serverEvent, psh]
      rfl
    split
    next fin =>
      refine agrees_concat ?_ (ha.remove hr)
      rw [serverEvent, fin]
      rfl
    next notSettings notSyn notPsh notFin =>
      have nothing : serverEvent (serverAccount session.log frame.streamId) frame
          = none := by
        rw [serverEvent, if_neg notSyn, if_neg notPsh, if_neg notFin]
      split
      · exact agrees_concat nothing ha.still
      split
      · exact agrees_concat nothing (ha.finish (by simp)).still
      · exact agrees_concat nothing ha.still

theorem exact_unhindered
    : Exact (step library paddingScheme) (fun session (_ : List ServerStep) => session.Isolated)
      Isolated Unhindered where
  sound_of_valid _ _ hi := hi
  valid_step session next _ hi unhindered := by
    cases next with
    | frame frame =>
      rw [step]
      split
      next hr =>
        exact hi.readFrame hr unhindered
      · exact hi
    | application streamId next => exact Receiver.Agrees.application hi streamId next
  admits_of_sound session next _ hi hs := by
    cases next with
    | application streamId next => exact trivial
    | frame frame =>
      intro hr psh
      refine Receiver.takes_of_agrees_push ?_ hs
      rw [step, if_pos hr, readFrame, psh]
      rfl

end ServerSession

namespace ClientSession

def Isolated (session : ClientSession) : Prop :=
  session.receiver.Agrees (clientAccount session.log)

/-- Data is only read for a stream whose pipe takes it, and a new stream gets an id that is
not in the table.
-/
def Unhindered (session : ClientSession) : ClientStep → Prop
  | .openStream =>
    session.receiver.loop = .running →
      session.receiver.streams.current (session.nextStreamId + 1) = none
  | .frame frame =>
    session.receiver.loop = .running → frame.command = cmdPsh →
      session.receiver.Takes frame.streamId frame.data
  | .application _ _ => True

variable {library : SchemeReader} {session : ClientSession}

theorem isolated_start (padding) : (start padding).Isolated where
  given _ := rfl
  held _ _ := rfl
  alive := .inl rfl

theorem agrees_concat {log record} (meaning : clientEvent record = event)
    (ha : receiver.Agrees (update (clientAccount log) record.streamId
      ((clientAccount log record.streamId).after event)))
    : receiver.Agrees (clientAccount (log ++ [record])) := by
  rw [clientAccount_concat, meaning]
  exact ha

theorem Isolated.readFrame (hi : session.Isolated)
    (hr : session.receiver.loop = .running) (unhindered : session.Unhindered (.frame frame))
    : (session.readFrame library frame).Isolated := by
  have ha : session.receiver.Agrees (clientAccount session.log) := hi
  unfold ClientSession.readFrame
  split
  next psh =>
    refine agrees_concat ?_ (ha.push hr (unhindered hr psh))
    rw [clientEvent, if_pos psh]
  next notPsh =>
    split
    next closing =>
      refine agrees_concat ?_ (ha.remove hr)
      rw [clientEvent, if_neg notPsh, if_pos closing]
    next notClosing =>
      have nothing : clientEvent (.received frame) = none := by
        rw [clientEvent, if_neg notPsh, if_neg notClosing]
      split
      · exact agrees_concat nothing ha.still
      split
      · split <;> exact agrees_concat nothing ha.still
      split
      · exact agrees_concat nothing (ha.finish (by simp)).still
      · exact agrees_concat nothing ha.still

/-- A second stream under an id cuts the first one off. -/
theorem absent_of_isolated_openStream (hi : session.Isolated)
    (hr : session.receiver.loop = .running) (hs : session.openStream.Isolated)
    : session.receiver.streams.current (session.nextStreamId + 1) = none := by
  have hb := congrArg List.length (hi.held hr (session.nextStreamId + 1))
  have after := congrArg List.length (hs.held hr (session.nextStreamId + 1))
  simp only [openStream] at after
  rw [clientAccount_concat] at after
  simp only [ClientRecord.streamId, update_self, clientEvent, Account.after,
    insertNew, Receiver.held_replace, List.length_append, Option.toList_some,
    List.map_cons, List.map_nil, List.length_cons, List.length_nil] at after
  have none : (session.receiver.streams.held (session.nextStreamId + 1)).length = 0 := by
    omega
  rw [held, List.length_map, Option.length_toList_eq_zero_iff] at none
  exact none

theorem exact_unhindered
    : Exact (step library) (fun session (_ : List ClientStep) => session.Isolated)
      Isolated Unhindered where
  sound_of_valid _ _ hi := hi
  valid_step session next _ hi unhindered := by
    cases next with
    | openStream =>
      rw [step]
      split
      next hr =>
        exact agrees_concat rfl (Receiver.Agrees.insertNew hi hr (unhindered hr))
      · exact hi
    | frame frame =>
      rw [step]
      split
      next hr =>
        exact hi.readFrame hr unhindered
      · exact hi
    | application streamId next => exact Receiver.Agrees.application hi streamId next
  admits_of_sound session next _ hi hs := by
    cases next with
    | application streamId next => exact trivial
    | openStream =>
      intro hr
      rw [step, if_pos hr] at hs
      exact absent_of_isolated_openStream hi hr hs
    | frame frame =>
      intro hr psh
      refine Receiver.takes_of_agrees_push ?_ hs
      rw [step, if_pos hr, readFrame, psh]
      rfl

end ClientSession

/-- On both ends, every stream is given the data of its own frames along a run, and the
session goes on, exactly when the loop never reads data for a pipe that does not take it at
once and the client never opens a stream under an id that is still in its table.
-/
theorem anytls_isolated_iff (library : SchemeReader) (paddingScheme : List UInt8)
    (padding : PaddingFactory)
    : (∀ steps : List ServerStep,
        (∀ done, done <+: steps →
          (done.foldl (step library paddingScheme) .start).Isolated)
        ↔ ∀ done next, done ++ [next] <+: steps →
          (done.foldl (step library paddingScheme) .start).Unhindered next)
      ∧ ∀ steps : List ClientStep,
        (∀ done, done <+: steps →
          (done.foldl (step library) (.start padding)).Isolated)
        ↔ ∀ done next, done ++ [next] <+: steps →
          (done.foldl (step library) (.start padding)).Unhindered next :=
  ⟨fun _ => exact_unhindered.forall_sound_iff isolated_start,
    fun _ => exact_unhindered.forall_sound_iff (isolated_start padding)⟩

/-- The application of stream 1 goes before the last data for it has arrived, and stream 2
is still in use.
-/
def lateServerData : List ServerStep :=
  [.frame ⟨cmdSettings, 0, []⟩, .frame ⟨cmdSyn, 1, []⟩, .frame ⟨cmdSyn, 2, []⟩,
    .application 1 .goes, .frame ⟨cmdPsh, 1, [7]⟩, .frame ⟨cmdPsh, 2, [8]⟩]

def lateClientData : List ClientStep :=
  [.openStream, .openStream, .application 1 .goes, .frame ⟨cmdPsh, 1, [7]⟩,
    .frame ⟨cmdPsh, 2, [8]⟩]

/-- Late data for stream 1 ends the session on either side, and stream 2 gets nothing. -/
theorem anytls_ended_by_late_data
    : ((lateServerData.foldl (step asciiSchemes []) .start).receiver.loop
          = .ended .brokenPipe
        ∧ (lateServerData.foldl (step asciiSchemes [])
          .start).receiver.streams.finished 2 = [[]])
      ∧ (lateClientData.foldl (step asciiSchemes)
          (.start ⟨fun _ => none, 0, ""⟩)).receiver.loop = .ended .brokenPipe
        ∧ (lateClientData.foldl (step asciiSchemes)
          (.start ⟨fun _ => none, 0, ""⟩)).receiver.streams.finished 2 = [[]] := by
  decide +kernel

end Zay.AnyTls
