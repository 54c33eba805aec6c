import Mathlib.Data.List.Forall2
import Zay.Lib.Runs
import Zay.Net.SocksAddr

/-! The sending half of `Hysteria2ObfsSocket`. A transmit becomes several datagrams, and those that
the inner socket refuses are kept for the next call. The encoder is left open: it may give other
datagrams each time.
-/

namespace Zay.Hysteria2

open Lib Net List

inductive EcnCodepoint where
  | ect0
  | ect1
  | ce
  deriving DecidableEq

/-- A transmit, borrowed or owned. -/
structure OwnedTransmit where
  destination : SocketAddr
  ecn : Option EcnCodepoint
  contents : List UInt8
  srcIp : Option IpAddr
  deriving DecidableEq

inductive SendError where
  | wouldBlock
  | other (message : String)
  deriving DecidableEq

structure ObfsSendState where
  original : Option (SocketAddr × List UInt8) := none
  pending : List OwnedTransmit := []

structure SendOutcome where
  result : Except SendError Unit
  accepted : List OwnedTransmit
  state : ObfsSendState

abbrev Encoder := List UInt8 → Except String (List (List UInt8))

/-- The loop over the new packets. The inner socket takes `room` of them and refuses the next. -/
def sendPackets (state : ObfsSendState) (transmit : OwnedTransmit) (packets : List (List UInt8))
    (room : Nat) (refusal : SendError)
    : SendOutcome :=
  let datagrams := packets.map fun contents => { transmit with contents }
  match datagrams.drop room with
  | [] => { result := .ok (), accepted := datagrams, state }
  | packet :: rest =>
    { result := .error refusal
      accepted := datagrams.take room
      state := if refusal = .wouldBlock then
          { original := some (transmit.destination, transmit.contents)
            pending := state.pending ++ packet :: rest }
        else state }

/-- The inner socket takes `room` datagrams during the call and refuses the next. -/
def trySend (encode : Encoder) (state : ObfsSendState) (transmit : OwnedTransmit) (room : Nat)
    (refusal : SendError)
    : SendOutcome :=
  match state.pending.drop room with
  | packet :: rest =>
    { result := .error refusal
      accepted := state.pending.take room
      state := { state with pending := packet :: rest } }
  | [] =>
    if state.pending ≠ [] ∧ state.original = some (transmit.destination, transmit.contents) then
      { result := .ok (), accepted := state.pending, state := {} }
    else
      let flushed := if state.pending = [] then state else {}
      match encode transmit.contents with
      | .error message =>
        { result := .error (.other message), accepted := state.pending, state := flushed }
      | .ok packets =>
        let sent := sendPackets flushed transmit packets (room - state.pending.length) refusal
        { sent with accepted := state.pending ++ sent.accepted }

/-- The socket with what the inner one has accepted and the transmits that returned `Ok`. -/
structure ObfsSocket where
  state : ObfsSendState := {}
  calls : Nat := 0
  accepted : List OwnedTransmit := []
  returned : List OwnedTransmit := []
  /-- What each connection has to send again. -/
  blocked : Nat → Option OwnedTransmit := fun _ => none

structure SendCall where
  connection : Nat
  transmit : OwnedTransmit
  room : Nat

namespace ObfsSocket

variable (encoder : Nat → Encoder) (socket : ObfsSocket) (call : SendCall)

def step : ObfsSocket :=
  let outcome := trySend (encoder socket.calls) socket.state call.transmit call.room .wouldBlock
  { state := outcome.state
    calls := socket.calls + 1
    accepted := socket.accepted ++ outcome.accepted
    returned := match outcome.result with
      | .ok _ => socket.returned ++ [call.transmit]
      | .error _ => socket.returned
    blocked := fun connection =>
      if connection = call.connection then
        if outcome.result = .error .wouldBlock then some call.transmit else none
      else socket.blocked connection }

/-- A connection whose call was blocked calls with the same transmit. -/
def Retries : Prop := ∀ transmit ∈ socket.blocked call.connection, call.transmit = transmit

/-- A call that flushes all pending datagrams is for the transmit that they belong to. -/
def Resumes : Prop :=
  socket.state.pending.length ≤ call.room → ∀ packet ∈ socket.state.pending,
    socket.state.original = some (call.transmit.destination, call.transmit.contents)
    ∧ packet = { call.transmit with contents := packet.contents }

/-- The datagrams are what some call of the encoder makes of the transmit. -/
def IsEncoding (transmit : OwnedTransmit) (datagrams : List OwnedTransmit) : Prop :=
  ∃ call packets, encoder call transmit.contents = .ok packets
    ∧ datagrams = packets.map fun contents => { transmit with contents }

/-- One encoding of each transmit that returned is accepted, and apart from these only what is
not pending of the one that is blocked. -/
def ExactlyOnce : Prop :=
  ∃ groups sent, List.Forall₂ (IsEncoding encoder) socket.returned groups
    ∧ socket.accepted.Perm (groups.flatten ++ sent)
    ∧ (socket.state.pending = [] ∧ sent = [] ∨ socket.state.pending ≠ []
      ∧ ∃ transmit, socket.state.original = some (transmit.destination, transmit.contents)
        ∧ IsEncoding encoder transmit (sent ++ socket.state.pending))

variable {encoder} {socket} {call}

variable (once : socket.ExactlyOnce encoder)
include once

/-- A call with nothing pending sends an encoding of its own or the beginning of one. -/
theorem ExactlyOnce.step_idle (idle : socket.state.pending = [])
    : (socket.step encoder call).ExactlyOnce encoder := by
  obtain ⟨groups, _, encodings, perm, ⟨-, rfl⟩ | ⟨busy, -⟩⟩ := once
  case inr => exact absurd idle busy
  rw [append_nil] at perm
  simp only [ObfsSocket.step, trySend, idle, drop_nil, ne_eq, not_true_eq_false, false_and,
    if_false, if_true, length_nil, Nat.sub_zero, nil_append]
  cases encoded : encoder socket.calls call.transmit.contents with
  | error _ => exact ⟨groups, [], encodings, by simpa using perm, .inl ⟨idle, rfl⟩⟩
  | ok packets =>
    have encoding : IsEncoding encoder call.transmit _ := ⟨_, packets, encoded, rfl⟩
    simp only [sendPackets]
    generalize packets.map (fun contents => { call.transmit with contents }) = datagrams at encoding
    cases left : datagrams.drop call.room with
    | nil =>
      refine ⟨groups ++ [datagrams], [], rel_append encodings (.cons encoding .nil), ?_,
        .inl ⟨idle, rfl⟩⟩
      simpa using perm.append_right _
    | cons _ _ =>
      refine ⟨groups, _, encodings, perm.append_right _, .inr ⟨?_, call.transmit, rfl, ?_⟩⟩
      · simp
      · simpa [idle, ← left] using encoding

/-- A call sends more of the encoding, or its rest if it resumes. -/
theorem ExactlyOnce.step_resumes (busy : socket.state.pending ≠ []) (hr : socket.Resumes call)
    : (socket.step encoder call).ExactlyOnce encoder := by
  obtain ⟨groups, sent, encodings, perm, ⟨idle, -⟩ | ⟨-, transmit, original, encoding⟩⟩ := once
  case inl => exact absurd idle busy
  simp only [ObfsSocket.step, trySend]
  cases left : socket.state.pending.drop call.room with
  | cons packet _ =>
    refine ⟨groups, sent ++ socket.state.pending.take call.room, encodings, ?_,
      .inr ⟨cons_ne_nil _ _, _, original, ?_⟩⟩
    · simpa using perm.append_right _
    · simpa [← left] using encoding
  | nil =>
    obtain ⟨packet, pending⟩ := exists_mem_of_ne_nil _ busy
    obtain ⟨he, resumed⟩ := hr (drop_eq_nil_iff.mp left) packet pending
    obtain rfl : transmit = call.transmit := by
      obtain ⟨_, packets, -, datagrams⟩ := encoding
      have own := mem_append_right sent pending
      rw [datagrams, mem_map] at own
      obtain ⟨contents, -, rfl⟩ := own
      rw [original] at he
      cases transmit
      simp_all
    simp only [if_pos (And.intro busy original)]
    refine ⟨groups ++ [sent ++ socket.state.pending], [],
      rel_append encodings (.cons encoding .nil), ?_, .inl ⟨rfl, rfl⟩⟩
    simpa using perm.append_right _

end ObfsSocket

open ObfsSocket

/-- Each transmit that returned is sent exactly once as long as no call for another one flushes all
that is pending. -/
theorem obfs_sends_once (encoder : Nat → Encoder) (calls : List SendCall)
    (resumes : AllAdmitted (step encoder) Resumes {} calls)
    : (calls.foldl (step encoder) {}).ExactlyOnce encoder := by
  refine resumes.run (fun socket _ => socket.ExactlyOnce encoder) ?_ ?_
  · intro socket call rest once resumes
    by_cases idle : socket.state.pending = []
    · exact once.step_idle idle
    · exact once.step_resumes idle resumes
  · exact ⟨[], [], .nil, .rfl, .inl ⟨rfl, rfl⟩⟩

def bytewise (_ : Nat) : Encoder := fun contents => .ok (contents.map ([·]))

def callOf (connection : Nat) (contents : List UInt8) (room : Nat) : SendCall where
  connection
  transmit := { destination := ⟨.v4 0, 443⟩, ecn := none, contents, srcIp := none }
  room

theorem obfs_sends_once_retried
    : (foldl (step bytewise) {} [callOf 0 [1, 2, 3] 1, callOf 1 [4] 1,
        callOf 0 [1, 2, 3] 1]).ExactlyOnce bytewise := by
  refine obfs_sends_once bytewise _ ⟨?_, ?_, ?_, trivial⟩
  all_goals
    unfold Resumes
    decide

/-- The second connection flushes what the first one has pending, which then sends all again. -/
theorem obfs_sends_twice
    : let calls := [callOf 0 [1, 2] 1, callOf 1 [3] 2, callOf 0 [1, 2] 2]
      AllAdmitted (step bytewise) Retries {} calls
      ∧ (∀ connection, (calls.foldl (step bytewise) {}).blocked connection = none)
      ∧ ¬(calls.foldl (step bytewise) {}).ExactlyOnce bytewise := by
  refine ⟨?_, ?_, ?_⟩
  · unfold AllAdmitted AllAdmitted AllAdmitted AllAdmitted Retries
    decide
  · rintro (_ | _ | _) <;> rfl
  · rintro ⟨groups, sent, encodings, perm, ⟨-, rfl⟩ | ⟨busy, -⟩⟩
    · obtain _ | ⟨⟨_, _, ⟨⟩, rfl⟩, _ | ⟨⟨_, _, ⟨⟩, rfl⟩, ⟨⟩⟩⟩ := encodings
      exact absurd perm.length_eq (by decide)
    · exact busy rfl

end Zay.Hysteria2
