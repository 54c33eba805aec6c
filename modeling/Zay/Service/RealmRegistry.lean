import Zay.Lib.AssocMap

/-! The rendezvous service of Hysteria realms (`service/hysteria_realm.rs`): servers register
realms and hold sessions, clients ask for a realm and wait for the server's answer.

Requests run in parallel. Each action below is what one task does between two points where
others may run: a section under a lock, or the work between two suspensions. Sessions are
shared by reference and identified by a number; what lies behind a lock of a session is its
cell. Times are counted in seconds.
-/

namespace Zay.Service

open Lib Function

def sessionTtl : Nat := 60

def maxAddresses : Nat := 8

def nonceHexLength : Nat := 32

def obfsHexLength : Nat := 64

def eventChannelSize : Nat := 16

def maxPendingAttempts : Nat := 16

def connectResponseTimeout : Nat := 10

structure HysteriaRealmUser where
  name : String
  token : String
  maxRealms : Int
  deriving Repr, DecidableEq

structure RealmUser where
  name : String
  maxRealms : Int
  deriving Repr, DecidableEq

structure ConnectRequest where
  addresses : List String
  nonce : String
  obfs : String
  deriving Repr, DecidableEq

inductive RealmEvent where
  | heartbeatAck (ttl : Nat)
  | punch (request : ConnectRequest)
  deriving Repr, DecidableEq

/-- The fields of a session that never change. -/
structure RealmSession where
  token : String
  realmId : String
  username : String
  deriving Repr, DecidableEq

/-- How far the removal of a session has come. Only one call of `remove` gets past the
registry.
-/
inductive RealmLife where
  | registered
  | unlinked
  | cancelled
  | cleared
  deriving Repr, DecidableEq

/-- The fields of a session behind locks; `pending` maps a nonce to the attempt that holds the
other end of the sender.
-/
structure SessionCell where
  addresses : List String
  expires : Nat
  events : List RealmEvent
  pending : AssocMap String Nat
  life : RealmLife

/-- Whether the token `done` is cancelled. -/
def SessionCell.done (cell : SessionCell) : Bool :=
  cell.life = .cancelled || cell.life = .cleared

inductive RealmReply where
  | registered (sessionId : String)
  | deregistered
  | heartbeat (session : Nat)
  | connected (addresses : List String) (request : ConnectRequest)
  | posted
  | error (status : Nat) (code message : String)
  deriving Repr, DecidableEq

def invalidToken (kind : String) : RealmReply :=
  .error 401 "invalid_token" s!"invalid {kind} token"

def badRequest (message : String) : RealmReply :=
  .error 400 "bad_request" message

/-- Why the body of a request could not be read. -/
inductive BodyError where
  | tooLarge
  | invalidJson
  deriving Repr, DecidableEq

def BodyError.reply : BodyError → RealmReply
  | tooLarge => .error 413 "bad_request" "request body too large"
  | invalidJson => badRequest "invalid json"

def realmNotFound : RealmReply :=
  .error 404 "realm_not_found" "realm not registered"

def rateLimited (message : String) : RealmReply :=
  .error 503 "rate_limited" message

variable (isAddress : String → Bool)

/-- `isAddress` is `str::parse::<SocketAddr>`. -/
def validateAddresses (addresses : List String) : Except String Unit :=
  if addresses.isEmpty then .error "at least one address required"
  else if addresses.length > maxAddresses then
    .error s!"too many addresses (max {maxAddresses})"
  else
    match addresses.find? fun address => !isAddress address with
    | some address => .error s!"invalid address: {address}"
    | none => .ok ()

def isHexDigit (char : Char) : Bool :=
  char.isDigit || 'a' ≤ char && char ≤ 'f' || 'A' ≤ char && char ≤ 'F'

def validateHex (name value : String) (length : Nat) : Except String Unit :=
  if value.utf8ByteSize ≠ length then .error s!"{name} must be {length} hex characters"
  else if value.toList.all isHexDigit then .ok ()
  else .error s!"{name} must be valid hex"

/-- A heartbeat that has found its session: it reads its body, prolongs the session and
answers.
-/
inductive HeartbeatTask where
  | reading (session : Nat)
  | prolonged (session : Nat)
  | answered
  deriving Repr, DecidableEq

/-- The session of a heartbeat that has not been answered. -/
def HeartbeatTask.session : HeartbeatTask → Option Nat
  | reading session | prolonged session => some session
  | answered => none

/-- A posted response that has found its session and reads its body. -/
inductive ResponseTask where
  | reading (session : Nat) (nonce : String)
  | answered
  deriving Repr, DecidableEq

/-- What has become of the sender that an attempt waits for. -/
inductive Inbox where
  | waiting
  | received (addresses : List String)
  | closed
  deriving Repr, DecidableEq

/-- Why an attempt ended. -/
inductive Outcome where
  | responded (addresses : List String)
  | timedOut (since now : Nat)
  | gone
  | unannounced
  | abandoned
  deriving Repr, DecidableEq

/-- An attempt finds its session, enters its nonce, announces itself by an event and waits.
Once it is decided, its guard still has to take the nonce out again.
-/
inductive AttemptPhase where
  | found
  | refused
  | entered
  | waiting (since : Nat)
  | decided (outcome : Outcome)
  | finished (outcome : Outcome)
  deriving Repr, DecidableEq

structure Attempt where
  session : Nat
  request : ConnectRequest
  serverAddresses : List String
  phase : AttemptPhase
  inbox : Inbox
  deriving Repr, DecidableEq

variable (attempt : Attempt)

/-- The sender is dropped. -/
def Attempt.close : Attempt :=
  if attempt.inbox = .waiting then { attempt with inbox := .closed } else attempt

/-- The sender is dropped if it stands in the map of the session. -/
def Attempt.sweep (id session : Nat) (pending : AssocMap String Nat) : Attempt :=
  if attempt.session = session ∧ pending.get? attempt.request.nonce = some id then attempt.close
  else attempt

/-- The sender is used. -/
def Attempt.deliver (addresses : List String) : Attempt :=
  { attempt with inbox := .received addresses }

def Attempt.answer : Outcome → Option RealmReply
  | .responded addresses =>
    some (.connected (if addresses.isEmpty then attempt.serverAddresses else addresses)
      attempt.request)
  | .timedOut _ _ => some (.connected attempt.serverAddresses attempt.request)
  | .gone => some realmNotFound
  | .unannounced => some (rateLimited "server event buffer full")
  | .abandoned => none

/-- A response that was handed to an attempt. -/
structure Posting where
  attempt : Nat
  session : Nat
  nonce : String
  addresses : List String
  deriving Repr, DecidableEq

structure RealmWorld where
  users : String → Option RealmUser
  realms : String → Option Nat
  sessions : AssocMap String Nat
  userCounts : String → Option Int
  heap : Nat → Option RealmSession
  cells : Nat → SessionCell
  /-- The calls of `remove` that have not reached the registry yet. -/
  removeCalls : List Nat
  heartbeats : Nat → Option HeartbeatTask
  responses : Nat → Option ResponseTask
  attempts : Nat → Option Attempt
  /-- Every response that was handed to an attempt, for the record. -/
  postings : List Posting

/-- The checks of `RealmState::new`; a token that occurs twice is that of the later user. -/
def realmUsers : (index : Nat) → List HysteriaRealmUser → (String → Option RealmUser) →
    Except String (String → Option RealmUser)
  | _, [], users => .ok users
  | index, user :: rest, users =>
    if user.name.isEmpty then .error s!"missing name for user[{index}]"
    else if user.token.isEmpty then .error s!"missing token for user[{index}]"
    else
      realmUsers (index + 1) rest (update users user.token
        (some { name := user.name, maxRealms := user.maxRealms }))

namespace RealmWorld

def new (users : List HysteriaRealmUser) : Except String RealmWorld :=
  if users.isEmpty then .error "missing users"
  else do
    let users ← realmUsers 0 users fun _ => none
    return {
      users
      realms := fun _ => none
      sessions := .empty
      userCounts := fun _ => none
      heap := fun _ => none
      cells := fun _ =>
        { addresses := [], expires := 0, events := [], pending := .empty, life := .registered }
      removeCalls := []
      heartbeats := fun _ => none
      responses := fun _ => none
      attempts := fun _ => none
      postings := [] }

variable (world : RealmWorld)

def modifyCell (session : Nat) (change : SessionCell → SessionCell) : RealmWorld :=
  { world with cells := update world.cells session (change (world.cells session)) }

def setAttempt (id : Nat) (attempt : Attempt) : RealmWorld :=
  { world with attempts := update world.attempts id (some attempt) }

def callRemove (session : Nat) : RealmWorld :=
  { world with removeCalls := session :: world.removeCalls }

/-- `RealmState::session`: the session of a token, if it is that of the realm. An expired one
is removed instead.
-/
def session (bearer : Option String) (realmId : String) (now : Nat) : RealmWorld × Option Nat :=
  match bearer.bind world.sessions.get? with
  | none => (world, none)
  | some id =>
    if (world.heap id).all (·.realmId ≠ realmId) then (world, none)
    else if now > (world.cells id).expires then (world.callRemove id, none)
    else (world, some id)

/-- `RealmState::realm`. -/
def realm (realmId : String) (now : Nat) : RealmWorld × Option Nat :=
  match world.realms realmId with
  | none => (world, none)
  | some id =>
    if now > (world.cells id).expires then (world.callRemove id, none)
    else (world, some id)

/-- Addition on `i32`. -/
def addInt32 (count step : Int) : Int := (count + step).bmod 4294967296

/-- The section of `register` under the lock, and the cell of the new session. -/
def insertSession (id : Nat) (session : RealmSession) (addresses : List String) (now : Nat)
    : RealmWorld :=
  { world with
    realms := update world.realms session.realmId (some id)
    sessions := world.sessions.insert session.token id
    userCounts := update world.userCounts session.username
      (some (addInt32 ((world.userCounts session.username).getD 0) 1))
    heap := update world.heap id (some session)
    cells := update world.cells id {
      addresses
      expires := now + sessionTtl
      events := []
      pending := .empty
      life := .registered } }

/-- The request to register, once its body is read; `id` is the new session and `token` its
random token. The user table never changes, so that its earlier look-up may count as made here.
-/
def register (world : RealmWorld) (id : Nat) (bearer : Option String) (realmId : String)
    (body : Except BodyError (List String)) (token : Option String) (now : Nat)
    : RealmWorld × RealmReply :=
  match bearer.bind world.users, body with
  | none, _ => (world, invalidToken "realm")
  | some _, .error error => (world, error.reply)
  | some user, .ok addresses =>
    match validateAddresses isAddress addresses, token with
    | .error message, _ => (world, badRequest message)
    | .ok (), none => (world, .error 500 "internal" "entropy failure")
    | .ok (), some token =>
      if (world.realms realmId).isSome then
        (world, .error 409 "realm_taken" "realm already registered")
      else if user.maxRealms > 0
          ∧ (world.userCounts user.name).getD 0 ≥ user.maxRealms then
        (world, .error 429 "realm_limit_reached" "per-user realm limit reached")
      else
        (world.insertSession id { token, realmId, username := user.name } addresses now,
          .registered token)

/-- The count of a user goes down, and is dropped at zero. -/
def discount (counts : String → Option Int) (name : String) : String → Option Int :=
  match counts name with
  | none => counts
  | some count =>
    let count := addInt32 count (-1)
    update counts name (if count ≤ 0 then none else some count)

/-- What is left of the registry without the session. -/
def withoutSession (id : Nat) (session : RealmSession) : RealmWorld :=
  { world with
    sessions := world.sessions.erase session.token
    realms :=
      if world.realms session.realmId = some id then
        update world.realms session.realmId none
      else world.realms
    userCounts := discount world.userCounts session.username }

/-- The section of `remove` under the lock: a session that is no longer the one of its token
is left alone.
-/
def unlink (id : Nat) : RealmWorld :=
  match world.heap id with
  | none => world
  | some session =>
    if world.sessions.get? session.token = some id then
      (world.withoutSession id session).modifyCell id fun cell => { cell with life := .unlinked }
    else world

/-- A call of `remove` reaches the registry. -/
def remove (id : Nat) : RealmWorld :=
  if id ∈ world.removeCalls then
    { world with removeCalls := world.removeCalls.erase id }.unlink id
  else world

/-- `done.cancel()`, after the session was unlinked. -/
def cancel (id : Nat) : RealmWorld :=
  if (world.cells id).life = .unlinked then
    world.modifyCell id fun cell => { cell with life := .cancelled }
  else world

/-- `pending.clear()`: every sender is dropped. -/
def clear (id : Nat) : RealmWorld :=
  if (world.cells id).life = .cancelled then
    { world with
      attempts := fun other =>
        (world.attempts other).map fun (attempt : Attempt) =>
          attempt.sweep other id (world.cells id).pending }.modifyCell id
      fun cell => { cell with pending := .empty, life := .cleared }
  else world

def deregister (bearer : Option String) (realmId : String) (now : Nat) : RealmWorld × RealmReply :=
  match world.session bearer realmId now with
  | (world, none) => (world, invalidToken "session")
  | (world, some id) => (world.callRemove id, .deregistered)

/-- The expiry task of a session wakes up. -/
def expire (id : Nat) (now : Nat) : RealmWorld :=
  if (world.heap id).isSome ∧ (world.cells id).expires ≤ now then world.callRemove id
  else world

def closeAll : RealmWorld :=
  { world with
    removeCalls := world.sessions.entries.map (·.2) ++ world.removeCalls }

/-- An event goes into the channel of the session unless that is full. -/
def trySend (cell : SessionCell) (event : RealmEvent) : Option SessionCell :=
  if cell.events.length < eventChannelSize then
    some { cell with events := cell.events ++ [event] }
  else none

/-- The stream of `events` takes an event out. -/
def takeEvent (id : Nat) : RealmWorld :=
  world.modifyCell id fun cell => { cell with events := cell.events.drop 1 }

def setHeartbeat (task : Nat) (state : HeartbeatTask) : RealmWorld :=
  { world with heartbeats := update world.heartbeats task (some state) }

def heartbeat (task : Nat) (bearer : Option String) (realmId : String) (now : Nat)
    : RealmWorld × Option RealmReply :=
  match world.session bearer realmId now with
  | (world, none) => (world, some (invalidToken "session"))
  | (world, some id) => (world.setHeartbeat task (.reading id), none)

/-- What a heartbeat changes in its session. -/
def prolong (cell : SessionCell) (addresses : Option (List String)) (now : Nat) : SessionCell :=
  let cell :=
    { cell with expires := now + sessionTtl, addresses := addresses.getD cell.addresses }
  (trySend cell (.heartbeatAck sessionTtl)).getD cell

/-- The body of the heartbeat has been read; it may name new addresses. The session is not
looked up again.
-/
def heartbeatBody (world : RealmWorld) (task : Nat) (body : Except BodyError (Option (List String)))
    (now : Nat)
    : RealmWorld × Option RealmReply :=
  match world.heartbeats task, body with
  | some (.reading _), .error error => (world.setHeartbeat task .answered, some error.reply)
  | some (.reading id), .ok addresses =>
    match addresses.elim (.ok ()) (validateAddresses isAddress) with
    | .error message => (world.setHeartbeat task .answered, some (badRequest message))
    | .ok () =>
      ((world.modifyCell id (prolong · addresses now)).setHeartbeat task (.prolonged id),
        none)
  | _, _ => (world, none)

def heartbeatAnswer (task : Nat) : RealmWorld × Option RealmReply :=
  match world.heartbeats task with
  | some (.prolonged id) => (world.setHeartbeat task .answered, some (.heartbeat id))
  | _ => (world, none)

def validateConnect (request : ConnectRequest) : Except String Unit := do
  validateAddresses isAddress request.addresses
  validateHex "nonce" request.nonce nonceHexLength
  validateHex "obfs" request.obfs obfsHexLength

/-- The request to connect, once its body is read. -/
def connect (world : RealmWorld) (id : Nat) (bearer : Option String) (realmId : String)
    (body : Except BodyError ConnectRequest) (now : Nat)
    : RealmWorld × Option RealmReply :=
  match bearer.bind world.users, body with
  | none, _ => (world, some (invalidToken "realm"))
  | some _, .error error => (world, some error.reply)
  | some _, .ok request =>
    match validateConnect isAddress request with
    | .error message => (world, some (badRequest message))
    | .ok () =>
      match world.realm realmId now with
      | (world, none) => (world, some realmNotFound)
      | (world, some session) =>
        (world.setAttempt id {
          session
          request
          serverAddresses := (world.cells session).addresses
          phase := .found
          inbox := .waiting }, none)

/-- The section under the lock of `pending`. -/
def enter (id : Nat) : RealmWorld × Option RealmReply :=
  match world.attempts id with
  | some attempt =>
    if attempt.phase ≠ .found then (world, none)
    else
      let pending := (world.cells attempt.session).pending
      if pending.len ≥ maxPendingAttempts ∨ (pending.get? attempt.request.nonce).isSome then
        (world.setAttempt id { attempt with phase := .refused },
          some (rateLimited "too many in-flight connect attempts"))
      else
        ((world.modifyCell attempt.session fun cell =>
            { cell with pending := cell.pending.insert attempt.request.nonce id }).setAttempt id
          { attempt with phase := .entered }, none)
  | none => (world, none)

/-- The event for the server. From here on the attempt waits. -/
def announce (id : Nat) (now : Nat) : RealmWorld :=
  match world.attempts id with
  | some attempt =>
    if attempt.phase ≠ .entered then world
    else
      match trySend (world.cells attempt.session) (.punch attempt.request) with
      | some cell =>
        (world.modifyCell attempt.session fun _ => cell).setAttempt id
          { attempt with phase := .waiting now }
      | none => world.setAttempt id { attempt with phase := .decided .unannounced }
  | none => world

/-- A waiting attempt may see its response or the loss of its sender, its timeout, or the end
of its session; or its client goes away. If several are due, any of them may come first.
-/
inductive Wakeup where
  | inbox
  | timer (now : Nat)
  | sessionDone
  | dropped
  deriving Repr, DecidableEq

def Wakeup.outcome (wakeup : Wakeup) (attempt : Attempt) (since : Nat) (done : Bool)
    : Option Outcome :=
  match wakeup with
  | .inbox =>
    match attempt.inbox with
    | .waiting => none
    | .received addresses => some (.responded addresses)
    | .closed => some .gone
  | .timer now => if since + connectResponseTimeout ≤ now then some (.timedOut since now) else none
  | .sessionDone => if done then some .gone else none
  | .dropped => some .abandoned

def wake (id : Nat) (wakeup : Wakeup) : RealmWorld :=
  match world.attempts id with
  | some attempt =>
    match attempt.phase with
    | .waiting since =>
      match wakeup.outcome attempt since (world.cells attempt.session).done with
      | some outcome => world.setAttempt id { attempt with phase := .decided outcome }
      | none => world
    | _ => world
  | none => world

/-- The sender under a nonce is taken out of the map and dropped. -/
def dropSender (session : Nat) (nonce : String) : RealmWorld :=
  match (world.cells session).pending.get? nonce with
  | none => world
  | some other =>
    let world := world.modifyCell session fun cell =>
      { cell with pending := cell.pending.erase nonce }
    match world.attempts other with
    | some attempt => world.setAttempt other attempt.close
    | none => world

/-- The end of an attempt: its guard takes out whatever stands under its nonce. -/
def release (id : Nat) : RealmWorld × Option RealmReply :=
  match world.attempts id with
  | some attempt =>
    match attempt.phase with
    | .decided outcome =>
      let world := world.setAttempt id { attempt with phase := .finished outcome }
      (world.dropSender attempt.session attempt.request.nonce, attempt.answer outcome)
    | _ => (world, none)
  | none => (world, none)

def setResponse (task : Nat) (state : ResponseTask) : RealmWorld :=
  { world with responses := update world.responses task (some state) }

def connectResponse (task : Nat) (bearer : Option String) (realmId nonce : String) (now : Nat)
    : RealmWorld × Option RealmReply :=
  match world.session bearer realmId now with
  | (world, none) => (world, some (invalidToken "session"))
  | (world, some id) =>
    match validateHex "nonce" nonce nonceHexLength with
    | .error message => (world, some (badRequest message))
    | .ok () => (world.setResponse task (.reading id nonce), none)

/-- The sender under a nonce is taken out of the map and used. -/
def useSender (session : Nat) (nonce : String) (addresses : List String)
    : RealmWorld × RealmReply :=
  match (world.cells session).pending.get? nonce with
  | none => (world, .error 404 "attempt_not_found" "no pending attempt for nonce")
  | some other =>
    let world := world.modifyCell session fun cell =>
      { cell with pending := cell.pending.erase nonce }
    match world.attempts other with
    | some attempt =>
      ({ world.setAttempt other (attempt.deliver addresses) with
        postings := world.postings
          ++ [{ attempt := other, session, nonce, addresses }] }, .posted)
    | none => (world, .posted)

def connectResponseBody (world : RealmWorld) (task : Nat) (body : Except BodyError (List String))
    : RealmWorld × Option RealmReply :=
  match world.responses task, body with
  | some (.reading _ _), .error error => (world.setResponse task .answered, some error.reply)
  | some (.reading id nonce), .ok addresses =>
    match validateAddresses isAddress addresses with
    | .error message => (world.setResponse task .answered, some (badRequest message))
    | .ok () =>
      let (world, reply) := world.useSender id nonce addresses
      (world.setResponse task .answered, some reply)
  | _, _ => (world, none)

end RealmWorld

/-- One step of one task. New sessions, tasks and attempts bring a number of their own. -/
inductive RealmAction where
  | register (id : Nat) (bearer : Option String) (realmId : String)
      (body : Except BodyError (List String)) (token : Option String) (now : Nat)
  | deregister (bearer : Option String) (realmId : String) (now : Nat)
  | heartbeat (task : Nat) (bearer : Option String) (realmId : String) (now : Nat)
  | heartbeatBody (task : Nat) (body : Except BodyError (Option (List String))) (now : Nat)
  | heartbeatAnswer (task : Nat)
  | connect (id : Nat) (bearer : Option String) (realmId : String)
      (body : Except BodyError ConnectRequest) (now : Nat)
  | enter (id : Nat)
  | announce (id : Nat) (now : Nat)
  | wake (id : Nat) (wakeup : RealmWorld.Wakeup)
  | release (id : Nat)
  | connectResponse (task : Nat) (bearer : Option String) (realmId nonce : String) (now : Nat)
  | connectResponseBody (task : Nat) (body : Except BodyError (List String))
  | expire (id : Nat) (now : Nat)
  | closeAll
  | remove (id : Nat)
  | cancel (id : Nat)
  | clear (id : Nat)
  | takeEvent (id : Nat)

def RealmWorld.step (world : RealmWorld)
    : RealmAction → RealmWorld × Option RealmReply
  | .register id bearer realmId body token now =>
    if (world.heap id).isSome then (world, none)
    else
      let (world, reply) := world.register isAddress id bearer realmId body token now
      (world, some reply)
  | .deregister bearer realmId now =>
    let (world, reply) := world.deregister bearer realmId now
    (world, some reply)
  | .heartbeat task bearer realmId now => world.heartbeat task bearer realmId now
  | .heartbeatBody task body now => world.heartbeatBody isAddress task body now
  | .heartbeatAnswer task => world.heartbeatAnswer task
  | .connect id bearer realmId body now =>
    if (world.attempts id).isSome then (world, none)
    else world.connect isAddress id bearer realmId body now
  | .enter id => world.enter id
  | .announce id now => (world.announce id now, none)
  | .wake id wakeup => (world.wake id wakeup, none)
  | .release id => world.release id
  | .connectResponse task bearer realmId nonce now =>
    world.connectResponse task bearer realmId nonce now
  | .connectResponseBody task body => world.connectResponseBody isAddress task body
  | .expire id now => (world.expire id now, none)
  | .closeAll => (world.closeAll, none)
  | .remove id => (world.remove id, none)
  | .cancel id => (world.cancel id, none)
  | .clear id => (world.clear id, none)
  | .takeEvent id => (world.takeEvent id, none)

end Zay.Service
