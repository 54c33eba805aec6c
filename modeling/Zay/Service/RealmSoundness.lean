import Zay.Lib.Checks
import Zay.Lib.PairedIndex
import Zay.Lib.Runs
import Zay.Service.RealmRegistry

/-! What holds of the realm registry in every interleaving. The maps of realms and sessions
and the counts of the users always agree. A heartbeat may answer for a session that is gone,
and the guard of an attempt may take out the sender of another one with the same nonce; short
of that, every attempt ends for a reason of its own.
-/

namespace Zay.Service

open Lib RealmWorld AssocMap List Option Function

variable {world start : RealmWorld}

namespace RealmWorld

/-- The session is the one that the registry has under its token. -/
def Current (world : RealmWorld) (id : Nat) : Prop :=
  ∃ session, world.heap id = some session ∧ world.sessions.get? session.token = some id

/-- The session was registered once and is not any more. -/
def Ended (world : RealmWorld) (id : Nat) : Prop :=
  ∃ session, world.heap id = some session ∧ world.sessions.get? session.token ≠ some id

/-- A heartbeat is between the look-up of the session and its answer. -/
def Heard (world : RealmWorld) (id : Nat) : Prop :=
  ∃ task state, world.heartbeats task = some state ∧ state.session = some id

/-- The number of sessions of a user. -/
def sessionsOf (world : RealmWorld) (name : String) : Nat :=
  world.sessions.entries.countP fun entry => (world.heap entry.2).any (·.username = name)

/-- The maps agree, so that a registered realm has exactly one session, and the counts are
right and within their limits.
-/
structure Consistent (world : RealmWorld) : Prop where
  keyed
    : ∀ token id, world.sessions.get? token = some id →
      ∃ session, world.heap id = some session ∧ session.token = token
  realms_iff
    : ∀ realmId id, world.realms realmId = some id ↔
      ∃ session, world.heap id = some session ∧ session.realmId = realmId
        ∧ world.sessions.get? session.token = some id
  counted : ∀ name, (world.userCounts name).getD 0 = world.sessionsOf name
  limited
    : ∀ token user, world.users token = some user → 0 < user.maxRealms →
      world.sessionsOf user.name ≤ user.maxRealms

/-- Why an attempt may end: a response that was posted for it, its timeout, or the end of its
session. An attempt that was not announced never waited, and one whose client went away gets
no answer.
-/
def Justified (world : RealmWorld) (id : Nat) (attempt : Attempt) : Outcome → Prop
  | .responded addresses =>
    { attempt := id, session := attempt.session, nonce := attempt.request.nonce, addresses }
      ∈ world.postings
  | .timedOut since now => since + connectResponseTimeout ≤ now
  | .gone => world.Ended attempt.session
  | .unannounced => True
  | .abandoned => True

/-- What holds of one attempt: its sender was used only for a posting to it, and dropped only
when it was over or its session was.
-/
structure Accountable (world : RealmWorld) (id : Nat) (attempt : Attempt) : Prop where
  housed : (world.heap attempt.session).isSome
  delivered
    : ∀ addresses, attempt.inbox = .received addresses →
      world.Justified id attempt (.responded addresses)
  deserted
    : attempt.inbox = .closed →
      (∃ outcome, attempt.phase = .finished outcome) ∨ world.Ended attempt.session
  justified
    : ∀ outcome, attempt.phase = .decided outcome ∨ attempt.phase = .finished outcome →
      world.Justified id attempt outcome

structure Attended (world : RealmWorld) : Prop where
  accountable : ∀ id attempt, world.attempts id = some attempt → world.Accountable id attempt
  owned
    : ∀ session nonce id, (world.cells session).pending.get? nonce = some id →
      ∃ attempt, world.attempts id = some attempt ∧ attempt.session = session
        ∧ attempt.request.nonce = nonce
  doomed : ∀ id, (world.cells id).life ≠ .registered → world.Ended id

/-- Users of one name share their limit: the count goes by the name. -/
def Uniform (users : String → Option RealmUser) : Prop :=
  ∀ token user token' other, users token = some user → users token' = some other →
    user.name = other.name → 0 < user.maxRealms → other.maxRealms = user.maxRealms

structure Sound (world : RealmWorld) : Prop where
  consistent : world.Consistent
  attended : world.Attended
  bounded : world.sessions.len ≤ 2147483647
  uniform : Uniform world.users
  heard : ∀ id, world.Heard id → world.Current id

/-- The conditions on a step: a new token is not in use and the counts do not overflow; no
session is removed while a heartbeat of it is under way; the guard of an attempt finds its own
sender or none.
-/
def Admissible (world : RealmWorld) : RealmAction → Prop
  | .register _ _ _ _ token _ =>
    (∀ value, token = some value → world.sessions.get? value = none)
    ∧ world.sessions.len < 2147483647
  | .remove id => id ∈ world.removeCalls → world.Current id → ¬world.Heard id
  | .release id =>
    ∀ attempt other, world.attempts id = some attempt →
      (world.cells attempt.session).pending.get? attempt.request.nonce = some other →
      other = id
  | _ => True

--------
-- The registry
--------

/-- Where the maps of sessions and realms list a session. -/
def ends (world : RealmWorld) (id : Nat) : Option (String × String) :=
  (world.heap id).map fun session => (session.token, session.realmId)

theorem ends_eq_some {id token realmId}
    : world.ends id = some (token, realmId) ↔
      ∃ session, world.heap id = some session ∧ session.token = token
        ∧ session.realmId = realmId := by
  simp [ends]

theorem Consistent.paired (hc : world.Consistent)
    : Paired world.sessions.get? world.realms world.ends := by
  constructor
  · intro token id hf
    obtain ⟨session, stored, rfl⟩ := hc.keyed token id hf
    exact ⟨_, ends_eq_some.mpr ⟨session, stored, rfl, rfl⟩,
      (hc.realms_iff _ _).mpr ⟨session, stored, rfl, hf⟩⟩
  · intro realmId id hf
    obtain ⟨session, stored, realm, current⟩ := (hc.realms_iff _ _).mp hf
    exact ⟨_, ends_eq_some.mpr ⟨session, stored, rfl, realm⟩, current⟩

theorem Consistent.of_paired (paired : Paired world.sessions.get? world.realms world.ends)
    (counted : ∀ name, (world.userCounts name).getD 0 = world.sessionsOf name)
    (limited : ∀ token user, world.users token = some user → 0 < user.maxRealms →
      world.sessionsOf user.name ≤ user.maxRealms)
    : world.Consistent where
  keyed token id hf := by
    obtain ⟨realmId, own, -⟩ := paired.answered hf
    obtain ⟨session, stored, same, -⟩ := ends_eq_some.mp own
    exact ⟨session, stored, same⟩
  realms_iff realmId id := by
    constructor
    · intro hf
      obtain ⟨token, own, current⟩ := paired.listed hf
      obtain ⟨session, stored, rfl, realm⟩ := ends_eq_some.mp own
      exact ⟨session, stored, realm, current⟩
    · rintro ⟨session, stored, rfl, current⟩
      exact (paired.answer_eq current (ends_eq_some.mpr ⟨session, stored, rfl, rfl⟩)).2
  counted
  limited

theorem sessionsOf_le_len (world : RealmWorld) (name)
    : world.sessionsOf name ≤ world.sessions.len :=
  countP_le_length

theorem addInt32_of_small {count step} (low : -2147483648 ≤ count + step)
    (high : count + step < 2147483648)
    : addInt32 count step = count + step := by
  apply Int.bmod_eq_of_le
  · exact low
  · exact high

section Register

variable {id : Nat} {session : RealmSession} {addresses : List String} {now : Nat}

theorem heap_insertSession_of_ne {other} (ha : other ≠ id)
    : (world.insertSession id session addresses now).heap other = world.heap other :=
  update_of_ne ha ..

theorem sessionsOf_insertSession (hc : world.Consistent) (new : world.heap id = none)
    (hn : world.sessions.get? session.token = none) (name)
    : (world.insertSession id session addresses now).sessionsOf name
      = world.sessionsOf name + if session.username = name then 1 else 0 := by
  show (world.sessions.insert session.token id).entries.countP _ = _
  have old : world.sessions.entries.countP (fun entry =>
        (update world.heap id (some session) entry.2).any (·.username = name))
      = world.sessionsOf name := by
    apply countP_congr
    intro entry hm
    obtain ⟨_, hf, -⟩ := hc.keyed entry.1 entry.2 (mem_entries_iff.mp hm)
    rw [update_of_ne (ne_of_eq_none new hf)]
  rw [countP_insert hn, insertSession, old]
  simp

/-- There is room for a session under its token and realm, and for one more of its user. -/
structure Admits (world : RealmWorld) (session : RealmSession) : Prop where
  fresh : world.sessions.get? session.token = none
  free : world.realms session.realmId = none
  small : world.sessions.len < 2147483647
  within
    : ∀ token user, world.users token = some user → user.name = session.username →
      0 < user.maxRealms → (world.sessionsOf session.username : Int) + 1 ≤ user.maxRealms

theorem Consistent.insertSession (hc : world.Consistent) (new : world.heap id = none)
    (admits : world.Admits session)
    : (world.insertSession id session addresses now).Consistent := by
  obtain ⟨hn, free, hs, hw⟩ := admits
  refine .of_paired ?_ (fun name => ?_) fun token user hl hpos => ?_
  · show Paired (world.sessions.insert session.token id).get? _ _
    rw [get?_insert_eq_update]
    have hr : Paired world.sessions.get? world.realms
        (world.insertSession id session addresses now).ends := by
      refine hc.paired.extend fun other place own => ?_
      obtain ⟨held, stored, -⟩ := map_eq_some_iff.mp own
      rw [ends, heap_insertSession_of_ne (ne_of_eq_none new stored)]
      exact own
    refine hr.insert (ends_eq_some.mpr ⟨session, update_self .., rfl, rfl⟩) ?_
    intro token held realmId hf own
    have ht := (hr.answer_eq hf own).2
    constructor
    · rintro rfl
      cases hn.symm.trans hf
    · rintro rfl
      cases free.symm.trans ht
  · rw [sessionsOf_insertSession hc new hn]
    show (update world.userCounts session.username _ name).getD 0 = _
    have hb := world.sessionsOf_le_len session.username
    by_cases own : name = session.username
    · subst own
      rw [update_self, hc.counted]
      rw [getD_some, if_pos rfl, addInt32_of_small (by omega) (by omega)]
      omega
    rw [update_of_ne own, if_neg (Ne.symm own), Nat.add_zero]
    exact hc.counted name
  · rw [sessionsOf_insertSession hc new hn]
    by_cases own : session.username = user.name
    · have room := hw token user hl own.symm hpos
      rw [if_pos own, ← own]
      simpa using room
    rw [if_neg own, Nat.add_zero]
    exact hc.limited token user hl hpos

end Register

section Unlink

variable {id : Nat} {session : RealmSession}

theorem sessionsOf_withoutSession (stored : world.heap id = some session)
    (current : world.sessions.get? session.token = some id) (name)
    : world.sessionsOf name
      = (world.withoutSession id session).sessionsOf name
        + if session.username = name then 1 else 0 := by
  have counts := countP_erase current fun entry =>
    (world.heap entry.2).any (·.username = name)
  simp only [stored, any_some, decide_eq_true_eq] at counts
  exact counts

/-- The number under a name goes down by one; at zero there is none. -/
theorem discount_eq {counts : String → Option Int} {name count}
    (hc : (counts name).getD 0 = (count + 1 : Nat)) (hs : count < 2147483647) (other)
    : (discount counts name other).getD 0
      = if other = name then (count : Int) else (counts other).getD 0 := by
  cases held : counts name with
  | none =>
    rw [held] at hc
    simp only [getD_none] at hc
    omega
  | some value =>
    rw [held, getD_some] at hc
    have lower : addInt32 value (-1) = count := by
      rw [addInt32_of_small (by omega) (by omega)]
      omega
    simp only [discount, held, lower]
    by_cases own : other = name
    · subst own
      rw [update_self, if_pos rfl]
      split
      · rw [getD_none]
        omega
      · rw [getD_some]
    · rw [update_of_ne own, if_neg own]

theorem Consistent.withoutSession (consistent : world.Consistent)
    (stored : world.heap id = some session) (current : world.sessions.get? session.token = some id)
    (hs : world.sessions.len ≤ 2147483647)
    : (world.withoutSession id session).Consistent := by
  have own : world.ends id = some (session.token, session.realmId) :=
    ends_eq_some.mpr ⟨session, stored, rfl, rfl⟩
  refine .of_paired ?_ ?_ ?_
  · show Paired (world.sessions.erase session.token).get? (if _ then _ else _) _
    rw [get?_erase_eq_update, if_pos (consistent.paired.answer_eq current own).2]
    exact consistent.paired.erase current own
  · intro name
    have total := sessionsOf_withoutSession stored current session.username
    rw [if_pos rfl] at total
    have hb := world.sessionsOf_le_len session.username
    have hc := consistent.counted session.username
    rw [total] at hc
    have lower := discount_eq hc (by omega) name
    refine lower.trans ?_
    by_cases own : name = session.username
    · rw [if_pos own, own]
    have he := sessionsOf_withoutSession stored current name
    rw [if_neg (Ne.symm own), Nat.add_zero] at he
    rw [if_neg own, consistent.counted, he]
  · intro token user hl hpos
    have hf := sessionsOf_withoutSession stored current user.name
    have hr := consistent.limited token user hl hpos
    omega

end Unlink

/-- What stays true of the sessions and the postings. -/
structure Later (world next : RealmWorld) : Prop where
  stored : ∀ id session, world.heap id = some session → next.heap id = some session
  ended : ∀ id, world.Ended id → next.Ended id
  posted : ∀ posting ∈ world.postings, posting ∈ next.postings

variable {id : Nat} {attempt : Attempt} {change : SessionCell → SessionCell} {phase : AttemptPhase}
  {isAddress : String → Bool} {next : RealmWorld}

theorem later_of_same (sessions : next.sessions = world.sessions) (heap : next.heap = world.heap)
    (posted : ∀ posting ∈ world.postings, posting ∈ next.postings)
    : Later world next where
  stored id session held := heap ▸ held
  ended id ceased := by
    obtain ⟨session, held, away⟩ := ceased
    exact ⟨session, heap ▸ held, sessions ▸ away⟩
  posted

variable {outcome : Outcome} {action : RealmAction}

theorem Justified.later (hr : Later world next) (hj : world.Justified id attempt outcome)
    : next.Justified id attempt outcome := by
  cases outcome with
  | responded _ => exact hr.posted _ hj
  | timedOut _ _ => exact hj
  | gone => exact hr.ended _ hj
  | unannounced => trivial
  | abandoned => trivial

theorem Accountable.later (hr : Later world next) (ha : world.Accountable id attempt)
    : next.Accountable id attempt where
  housed := by
    obtain ⟨_, held⟩ := isSome_iff_exists.mp ha.housed
    rw [hr.stored _ _ held]
    rfl
  delivered addresses received := .later hr (ha.delivered addresses received)
  deserted closed := (ha.deserted closed).imp_right (hr.ended _)
  justified outcome decided := .later hr (ha.justified outcome decided)

theorem Attended.later (ha : world.Attended) (hr : Later world next)
    (attempts : next.attempts = world.attempts) (cells : next.cells = world.cells)
    : next.Attended := by
  refine ⟨fun id attempt hf => ?_, ?_, fun id changed => hr.ended id ?_⟩
  · exact (ha.accountable id attempt (attempts ▸ hf)).later hr
  · rw [attempts, cells]
    exact ha.owned
  · exact ha.doomed id (cells ▸ changed)

theorem later_insertSession {session addresses now} (new : world.heap id = none)
    : Later world (world.insertSession id session addresses now) where
  stored other held hf :=
    (heap_insertSession_of_ne (ne_of_eq_none new hf)).trans hf
  ended other ceased := by
    obtain ⟨held, hf, away⟩ := ceased
    have ha := ne_of_eq_none new hf
    refine ⟨held, (heap_insertSession_of_ne ha).trans hf, ?_⟩
    show (world.sessions.insert session.token id).get? held.token ≠ some other
    rw [get?_insert]
    split
    · exact fun own => ha (some.inj own).symm
    · exact away
  posted _ member := member

theorem later_withoutSession {session} : Later world (world.withoutSession id session) where
  stored _ _ held := held
  ended other ceased := by
    obtain ⟨held, hf, away⟩ := ceased
    refine ⟨held, hf, ?_⟩
    show (world.sessions.erase session.token).get? held.token ≠ some other
    rw [get?_erase]
    split
    · exact (some_ne_none other).symm
    · exact away
  posted _ member := member

theorem Accountable.close (ha : world.Accountable id attempt)
    (ceased : (∃ outcome, attempt.phase = .finished outcome) ∨ world.Ended attempt.session)
    : world.Accountable id attempt.close := by
  unfold Attempt.close
  split
  · refine ⟨ha.housed, ?_, fun _ => ceased, ha.justified⟩
    intro addresses impossible
    cases impossible
  · exact ha

theorem same_close (attempt : Attempt)
    : attempt.close.session = attempt.session ∧ attempt.close.request = attempt.request := by
  unfold Attempt.close
  split <;> exact ⟨rfl, rfl⟩

theorem Accountable.sweep (ha : world.Accountable id attempt) {session}
    (ceased : world.Ended session) (pending)
    : world.Accountable id (attempt.sweep id session pending) := by
  unfold Attempt.sweep
  split
  next chosen =>
    exact ha.close (.inr (chosen.1 ▸ ceased))
  · exact ha

theorem pending_trySend {cell next event} (sent : trySend cell event = some next)
    : next.pending = cell.pending ∧ next.life = cell.life := by
  unfold trySend at sent
  split at sent
  · cases sent
    exact ⟨rfl, rfl⟩
  · cases sent

theorem pending_prolong (cell addresses now)
    : (prolong cell addresses now).pending = cell.pending
      ∧ (prolong cell addresses now).life = cell.life := by
  unfold prolong
  simp only
  generalize sent : trySend _ (.heartbeatAck sessionTtl) = result
  cases result with
  | none => exact ⟨rfl, rfl⟩
  | some _ =>
    obtain ⟨pending, life⟩ := pending_trySend sent
    exact ⟨pending, life⟩

/-- The attempts pending in a cell are those of its session. -/
def Owns (world : RealmWorld) (session : Nat) (cell : SessionCell) : Prop :=
  ∀ nonce id, cell.pending.get? nonce = some id → ∃ attempt, world.attempts id = some attempt
    ∧ attempt.session = session ∧ attempt.request.nonce = nonce

section

variable (ho : world.Sound)

include ho

namespace Sound

theorem modifyCell {session} (owned : world.Owns session (change (world.cells session)))
    (doomed : (change (world.cells session)).life ≠ .registered → world.Ended session)
    : (world.modifyCell session change).Sound := by
  refine { ho with consistent := { ho.consistent with }, attended := ⟨?_, ?_, ?_⟩ }
  · exact fun id attempt hf => { ho.attended.accountable id attempt hf with }
  · exact (forall_update_iff world.cells world.Owns).mpr
      ⟨owned, fun other _ => ho.attended.owned other⟩
  · exact (forall_update_iff world.cells fun id cell =>
      cell.life ≠ .registered → world.Ended id).mpr
      ⟨doomed, fun id _ => ho.attended.doomed id⟩

/-- A change that leaves `pending` and the removal alone. -/
theorem modifyCell_of_same {session}
    (pending : (change (world.cells session)).pending = (world.cells session).pending)
    (life : (change (world.cells session)).life = (world.cells session).life)
    : (world.modifyCell session change).Sound := by
  apply ho.modifyCell
  · rw [Owns, pending]
    exact ho.attended.owned session
  · rw [life]
    exact ho.attended.doomed session

theorem setAttempt (ha : world.Accountable id attempt) (he : ∀ old, world.attempts id = some old →
      old.session = attempt.session ∧ old.request = attempt.request)
    : (world.setAttempt id attempt).Sound := by
  refine { ho with
    consistent := { ho.consistent with }
    attended := ⟨fun other next hf => ?_, fun session nonce other hf => ?_, ho.attended.doomed⟩ }
  · rcases update_eq_some hf with ⟨rfl, ⟨⟩⟩ | ⟨-, hf⟩
    · exact { ha with }
    · exact { ho.attended.accountable other next hf with }
  · obtain ⟨old, held, place, name⟩ := ho.attended.owned session nonce other hf
    show ∃ next, update world.attempts id (some attempt) other = some next ∧ _
    by_cases own : other = id
    · subst own
      obtain ⟨sessionSame, requestSame⟩ := he old held
      rw [update_self]
      exact ⟨attempt, rfl, sessionSame ▸ place, requestSame ▸ name⟩
    rw [update_of_ne own]
    exact ⟨old, held, place, name⟩

/-- Calls under way and requests that read their body touch nothing. -/
theorem withTasks (removeCalls heartbeats responses)
    (heard : ∀ id, { world with heartbeats }.Heard id → world.Current id)
    : { world with removeCalls, heartbeats, responses }.Sound :=
  { ho with
    consistent := { ho.consistent with }
    attended := {
      ho.attended with
      accountable := fun id attempt hf =>
        { ho.attended.accountable id attempt hf with } }
    heard }

theorem callRemove (id : Nat) : (world.callRemove id).Sound :=
  ho.withTasks (id :: world.removeCalls) world.heartbeats world.responses ho.heard

variable (addresses : List String) (isAddress) (task : Nat) (bearer : Option String)
  (realmId : String) (now : Nat)

theorem setHeartbeat {state : HeartbeatTask}
    (current : ∀ id, state.session = some id → world.Current id)
    : (world.setHeartbeat task state).Sound := by
  refine ho.withTasks world.removeCalls (update world.heartbeats task (some state)) world.responses
    ?_
  rintro id ⟨other, held, stored, own⟩
  rcases update_eq_some stored with ⟨-, ⟨⟩⟩ | ⟨-, stored⟩
  · exact current id own
  · exact ho.heard id ⟨other, held, stored, own⟩

theorem setResponse (state) : (world.setResponse task state).Sound :=
  ho.withTasks world.removeCalls world.heartbeats (update world.responses task (some state))
    ho.heard

/-- A look-up removes at most an expired session, and finds one that is registered. -/
theorem session
    : (world.session bearer realmId now).1.Sound
      ∧ ∀ id, (world.session bearer realmId now).2 = some id →
        (world.session bearer realmId now).1.Current id := by
  unfold RealmWorld.session
  cases hf : bearer.bind world.sessions.get? with
  | none => exact ⟨ho, by simp⟩
  | some id =>
    simp only
    split
    · exact ⟨ho, by simp⟩
    split
    · exact ⟨ho.callRemove _, by simp⟩
    refine ⟨ho, ?_⟩
    rintro other ⟨⟩
    obtain ⟨token, -, listed⟩ := bind_eq_some_iff.mp hf
    obtain ⟨session, stored, rfl⟩ := ho.consistent.keyed token id listed
    exact ⟨session, stored, listed⟩

theorem realm
    : (world.realm realmId now).1.Sound
      ∧ ∀ id, (world.realm realmId now).2 = some id →
        ((world.realm realmId now).1.heap id).isSome := by
  unfold RealmWorld.realm
  cases hf : world.realms realmId with
  | none => exact ⟨ho, by simp⟩
  | some id =>
    simp only
    split
    · exact ⟨ho.callRemove _, by simp⟩
    refine ⟨ho, ?_⟩
    rintro other ⟨⟩
    obtain ⟨_, held, -⟩ := (ho.consistent.realms_iff _ _).mp hf
    rw [held]
    rfl

--------
-- Registering and removing
--------

theorem insertSession {session} (new : world.heap id = none) (admits : world.Admits session)
    : (world.insertSession id session addresses now).Sound := by
  have hr : Later world (world.insertSession id session addresses now) :=
    later_insertSession new
  refine ⟨ho.consistent.insertSession new admits, ⟨?_, ?_, ?_⟩, ?_, ho.uniform,
    fun other heard => ?_⟩
  · exact fun other attempt hf => (ho.attended.accountable other attempt hf).later hr
  · exact (forall_update_iff world.cells world.Owns).mpr
      ⟨by simp [Owns], fun other _ => ho.attended.owned other⟩
  · exact (forall_update_iff world.cells fun other cell =>
      cell.life ≠ .registered → (world.insertSession id session addresses now).Ended other).mpr
      ⟨absurd rfl, fun other _ changed => hr.ended other (ho.attended.doomed other changed)⟩
  · have size : (world.insertSession id session addresses now).sessions.len
        ≤ world.sessions.len + 1 :=
      len_insert_le ..
    have := admits.small
    omega
  · obtain ⟨held, stored, listed⟩ := ho.heard other heard
    refine ⟨held, hr.stored other held stored, ?_⟩
    show (world.sessions.insert session.token id).get? held.token = some other
    rw [get?_insert, if_neg fun same => ?_]
    · exact listed
    · rw [same, admits.fresh] at listed
      cases listed

theorem register (new : world.heap id = none) (bearer realmId body) {token} (now)
    (hn : ∀ value, token = some value → world.sessions.get? value = none)
    (hs : world.sessions.len < 2147483647)
    : (world.register isAddress id bearer realmId body token now).1.Sound := by
  unfold RealmWorld.register
  cases hl : bearer.bind world.users with
  | none => exact ho
  | some user =>
    obtain ⟨secret, -, hk⟩ := bind_eq_some_iff.mp hl
    cases body with
    | error reply => exact ho
    | ok addresses =>
      simp only
      cases validateAddresses isAddress addresses with
      | error message => exact ho
      | ok _ =>
        cases token with
        | none => exact ho
        | some token =>
          simp only
          split
          · exact ho
          next free =>
            split
            · exact ho
            next hr =>
              refine ho.insertSession addresses now new ⟨hn token rfl, ?_, hs, ?_⟩
              · simpa using free
              · intro other limit hf name hpos
                have he := ho.uniform other limit secret user hf hk name hpos
                have hb : ¬(user.maxRealms > 0
                    ∧ (world.userCounts user.name).getD 0 ≥ user.maxRealms) := hr
                rw [ho.consistent.counted, he] at hb
                show (world.sessionsOf user.name : Int) + 1 ≤ limit.maxRealms
                omega

/-- The attempts of a session that is taken out may end with it. -/
theorem unlink (unheard : world.Current id → ¬world.Heard id) : (world.unlink id).Sound := by
  unfold RealmWorld.unlink
  cases stored : world.heap id with
  | none => exact ho
  | some session =>
    simp only
    split
    next current =>
      have hr : Later world (world.withoutSession id session) := later_withoutSession
      have ha := ho.attended.later hr rfl rfl
      have ceased : (world.withoutSession id session).Ended id := by
        refine ⟨session, stored, ?_⟩
        show (world.sessions.erase session.token).get? session.token ≠ some id
        rw [get?_erase, if_pos rfl]
        exact (some_ne_none id).symm
      have removed : (world.withoutSession id session).Sound := by
        refine ⟨ho.consistent.withoutSession stored current ho.bounded, ha,
          Nat.le_trans (len_erase_le ..) ho.bounded, ho.uniform, fun other heard => ?_⟩
        obtain ⟨held, kept, listed⟩ := ho.heard other heard
        refine ⟨held, kept, ?_⟩
        show (world.sessions.erase session.token).get? held.token = some other
        rw [get?_erase, if_neg fun same => ?_]
        · exact listed
        · rw [same, current] at listed
          cases listed
          exact unheard ⟨session, stored, current⟩ heard
      exact removed.modifyCell (ha.owned id) fun _ => ceased
    · exact ho

/-- No heartbeat has found the session and is still to answer. -/
theorem remove (unheard : world.Admissible (.remove id)) : (world.remove id).Sound := by
  unfold RealmWorld.remove
  split
  next called =>
    refine (ho.withTasks (world.removeCalls.erase id) world.heartbeats world.responses
      ho.heard).unlink ?_
    exact unheard called
  · exact ho

theorem cancel (id : Nat) : (world.cancel id).Sound := by
  unfold RealmWorld.cancel
  split
  next unlinked =>
    have ceased := ho.attended.doomed id (by rw [unlinked]; decide)
    exact ho.modifyCell (ho.attended.owned id) fun _ => ceased
  · exact ho

theorem clear (id : Nat) : (world.clear id).Sound := by
  unfold RealmWorld.clear
  split
  next cancelled =>
    have ceased := ho.attended.doomed id (by rw [cancelled]; decide)
    generalize swept : (fun other => (world.attempts other).map
      (·.sweep other id (world.cells id).pending)) = attempts
    have gone : { world with attempts }.Sound := by
      subst swept
      refine { ho with
        consistent := { ho.consistent with }
        attended := ⟨?_, ?_, ho.attended.doomed⟩ }
      · intro other next hf
        obtain ⟨attempt, held, rfl⟩ := map_eq_some_iff.mp hf
        exact { (ho.attended.accountable other attempt held).sweep ceased _ with }
      · intro session nonce other hf
        obtain ⟨attempt, held, place, name⟩ := ho.attended.owned session nonce other hf
        refine ⟨_, map_eq_some_iff.mpr ⟨attempt, held, rfl⟩, ?_⟩
        unfold Attempt.sweep
        split
        · obtain ⟨sameSession, sameRequest⟩ := same_close attempt
          rw [sameSession, sameRequest]
          exact ⟨place, name⟩
        · exact ⟨place, name⟩
    refine gone.modifyCell (fun nonce other impossible => ?_) fun _ => ceased
    cases impossible
  · exact ho

theorem deregister : (world.deregister bearer realmId now).1.Sound := by
  have hl := (ho.session bearer realmId now).1
  unfold RealmWorld.deregister
  generalize world.session bearer realmId now = hf at hl ⊢
  obtain ⟨_, _ | id⟩ := hf
  · exact hl
  · exact hl.callRemove id

theorem expire (id now : Nat) : (world.expire id now).Sound := by
  unfold RealmWorld.expire
  split
  · exact ho.callRemove id
  · exact ho

theorem closeAll : world.closeAll.Sound :=
  ho.withTasks (world.sessions.entries.map (·.2) ++ world.removeCalls) world.heartbeats
    world.responses ho.heard

theorem takeEvent (id : Nat) : (world.takeEvent id).Sound := by
  exact ho.modifyCell_of_same rfl rfl

theorem heartbeat : (world.heartbeat task bearer realmId now).1.Sound := by
  obtain ⟨hl, found⟩ := ho.session bearer realmId now
  unfold RealmWorld.heartbeat
  generalize world.session bearer realmId now = hf at hl found ⊢
  obtain ⟨_, _ | id⟩ := hf
  · exact hl
  · exact hl.setHeartbeat task found

theorem heartbeatBody (body now) : (world.heartbeatBody isAddress task body now).1.Sound := by
  unfold RealmWorld.heartbeatBody
  split
  · exact ho.setHeartbeat task nofun
  next id addresses read =>
    split
    · exact ho.setHeartbeat task nofun
    obtain ⟨pending, life⟩ := pending_prolong (world.cells id) addresses now
    have prolonged : (world.modifyCell id (prolong · addresses now)).Sound :=
      ho.modifyCell_of_same pending life
    exact prolonged.setHeartbeat task fun _ own => ho.heard _ ⟨task, _, read, own⟩
  · exact ho

theorem heartbeatAnswer : (world.heartbeatAnswer task).1.Sound := by
  unfold RealmWorld.heartbeatAnswer
  split
  · exact ho.setHeartbeat task nofun
  · exact ho

theorem connectResponse (realmId nonce now)
    : (world.connectResponse task bearer realmId nonce now).1.Sound := by
  have hl := (ho.session bearer realmId now).1
  unfold RealmWorld.connectResponse
  generalize world.session bearer realmId now = hf at hl ⊢
  obtain ⟨_, _ | id⟩ := hf
  · exact hl
  · simp only
    split
    · exact hl
    · exact hl.setResponse task (.reading id nonce)

/-- The response goes to the attempt that it names. -/
theorem useSender (session nonce addresses)
    : (world.useSender session nonce addresses).1.Sound := by
  unfold RealmWorld.useSender
  cases hf : (world.cells session).pending.get? nonce with
  | none => exact ho
  | some other =>
    obtain ⟨attempt, held, place, name⟩ := ho.attended.owned session nonce other hf
    generalize posted : world.postings ++ [{ attempt := other, session, nonce, addresses }]
      = postings
    have hr : Later world { world with postings } :=
      later_of_same rfl rfl fun _ hm => posted ▸ mem_append_left _ hm
    have base : { world with postings }.Sound :=
      { ho with
        consistent := { ho.consistent with }, attended := ho.attended.later hr rfl rfl }
    have ht : ({ world with postings }.modifyCell session fun cell =>
        { cell with pending := cell.pending.erase nonce }).Sound :=
      base.modifyCell (fun key id entry => base.attended.owned session key id (get?_of_erase entry))
        (base.attended.doomed session)
    have hb := ht.attended.accountable other attempt held
    simp only [RealmWorld.modifyCell, held]
    subst posted
    refine ht.setAttempt ⟨hb.housed, ?_, fun hc => ?_, hb.justified⟩ ?_
    · rintro _ ⟨⟩
      rw [← place, ← name]
      exact mem_append_right _ (mem_singleton_self _)
    · cases hc
    · intro old hf
      cases held.symm.trans hf
      exact ⟨rfl, rfl⟩

theorem connectResponseBody (body) : (world.connectResponseBody isAddress task body).1.Sound := by
  unfold RealmWorld.connectResponseBody
  split
  · exact ho.setResponse task .answered
  · split
    · exact ho.setResponse task .answered
    · exact (ho.useSender _ _ _).setResponse task .answered
  · exact ho

--------
-- Attempts to connect
--------

theorem connect (new : world.attempts id = none) (bearer realmId body now)
    : (world.connect isAddress id bearer realmId body now).1.Sound := by
  unfold RealmWorld.connect
  split
  · exact ho
  · exact ho
  split
  · exact ho
  obtain ⟨hl, stored⟩ := ho.realm realmId now
  have he : (world.realm realmId now).1.attempts = world.attempts := by
    unfold RealmWorld.realm
    split
    · rfl
    · split <;> rfl
  generalize world.realm realmId now = hf at hl stored he ⊢
  obtain ⟨_, _ | session⟩ := hf
  · exact hl
  · refine hl.setAttempt ⟨stored session rfl, by simp, by simp, by simp⟩ ?_
    intro old held
    rw [he, new] at held
    cases held

theorem setPhase (held : world.attempts id = some attempt)
    (hu : ∀ outcome, attempt.phase ≠ .finished outcome)
    (hj : ∀ outcome, phase = .decided outcome ∨ phase = .finished outcome →
      world.Justified id attempt outcome)
    : (world.setAttempt id { attempt with phase }).Sound := by
  have ha := ho.attended.accountable id attempt held
  refine ho.setAttempt ⟨ha.housed, ha.delivered, fun hc => ?_, hj⟩ ?_
  · exact .inr ((ha.deserted hc).resolve_left fun ⟨outcome, finished⟩ =>
      hu outcome finished)
  intro old hf
  cases held.symm.trans hf
  exact ⟨rfl, rfl⟩

theorem enter (id : Nat) : (world.enter id).1.Sound := by
  unfold RealmWorld.enter
  split
  next attempt held =>
    split
    · exact ho
    next hb =>
      have hf : attempt.phase = .found := by simpa using hb
      have hu : ∀ outcome, attempt.phase ≠ .finished outcome := by simp [hf]
      simp only
      split
      · exact ho.setPhase held hu (by simp)
      have he : (world.modifyCell attempt.session fun cell =>
          { cell with pending := cell.pending.insert attempt.request.nonce id }).Sound := by
        refine ho.modifyCell (fun nonce other => ?_) (ho.attended.doomed _)
        rw [get?_insert]
        split
        next own =>
          rintro ⟨⟩
          exact ⟨attempt, held, rfl, own.symm⟩
        · exact ho.attended.owned attempt.session nonce other
      exact he.setPhase held hu (by simp)
  · exact ho

theorem announce (id now : Nat) : (world.announce id now).Sound := by
  unfold RealmWorld.announce
  split
  next attempt held =>
    split
    · exact ho
    next hb =>
      have he : attempt.phase = .entered := by simpa using hb
      have hu : ∀ outcome, attempt.phase ≠ .finished outcome := by simp [he]
      split
      next cell sent =>
        obtain ⟨pending, life⟩ := pending_trySend sent
        have announced : (world.modifyCell attempt.session fun _ => cell).Sound :=
          ho.modifyCell_of_same pending life
        exact announced.setPhase held hu (by simp)
      refine ho.setPhase held hu ?_
      rintro outcome (⟨⟨⟩⟩ | impossible)
      · trivial
      · cases impossible
  · exact ho

/-- Whatever wakes a waiting attempt is a reason for it to end. -/
theorem justified_outcome (held : world.attempts id = some attempt) {since}
    (hw : attempt.phase = .waiting since) {wakeup : Wakeup}
    (woken : wakeup.outcome attempt since (world.cells attempt.session).done = some outcome)
    : world.Justified id attempt outcome := by
  have ha := ho.attended.accountable id attempt held
  cases wakeup with
  | inbox =>
    simp only [Wakeup.outcome] at woken
    cases box : attempt.inbox with
    | waiting =>
      rw [box] at woken
      cases woken
    | received addresses =>
      rw [box] at woken
      cases woken
      exact ha.delivered addresses box
    | closed =>
      rw [box] at woken
      cases woken
      rcases ha.deserted box with ⟨_, hf⟩ | ceased
      · rw [hw] at hf
        cases hf
      · exact ceased
  | timer _ =>
    simp only [Wakeup.outcome] at woken
    split at woken
    next hl =>
      cases woken
      exact hl
    · cases woken
  | sessionDone =>
    simp only [Wakeup.outcome] at woken
    split at woken
    next done =>
      cases woken
      refine ho.attended.doomed attempt.session ?_
      intro registered
      rw [SessionCell.done, registered] at done
      cases done
    · cases woken
  | dropped =>
    cases woken
    trivial

theorem wake (id wakeup) : (world.wake id wakeup).Sound := by
  unfold RealmWorld.wake
  split
  next attempt held =>
    split
    next since hw =>
      split
      next outcome woken =>
        refine ho.setPhase held (by simp [hw]) ?_
        rintro result (⟨⟨⟩⟩ | impossible)
        · exact ho.justified_outcome held hw woken
        · cases impossible
      · exact ho
    · exact ho
  · exact ho

/-- The guard of a finished attempt drops no other sender than its own. -/
theorem dropSender (held : world.attempts id = some attempt)
    (finished : attempt.phase = .finished outcome)
    (own : ∀ other, (world.cells attempt.session).pending.get? attempt.request.nonce
      = some other → other = id)
    : (world.dropSender attempt.session attempt.request.nonce).Sound := by
  unfold RealmWorld.dropSender
  cases hf : (world.cells attempt.session).pending.get? attempt.request.nonce with
  | none => exact ho
  | some other =>
    obtain rfl := own other hf
    have ht : (world.modifyCell attempt.session fun cell =>
        { cell with pending := cell.pending.erase attempt.request.nonce }).Sound :=
      ho.modifyCell (fun nonce id entry => ho.attended.owned _ nonce id (get?_of_erase entry))
        (ho.attended.doomed _)
    simp only [RealmWorld.modifyCell, held]
    obtain ⟨sameSession, sameRequest⟩ := same_close attempt
    refine ht.setAttempt
      ((ht.attended.accountable other attempt held).close (.inl ⟨outcome, finished⟩)) ?_
    intro old hf
    cases held.symm.trans hf
    exact ⟨sameSession.symm, sameRequest.symm⟩

theorem release (own : world.Admissible (.release id)) : (world.release id).1.Sound := by
  unfold RealmWorld.release
  split
  next attempt held =>
    split
    next outcome decided =>
      have he : (world.setAttempt id { attempt with phase := .finished outcome }).Sound := by
        refine ho.setPhase held (by simp [decided]) ?_
        rintro result (impossible | ⟨⟨⟩⟩)
        · cases impossible
        · exact (ho.attended.accountable id attempt held).justified outcome (.inl decided)
      have here : (world.setAttempt id { attempt with phase := .finished outcome }).attempts id
          = some { attempt with phase := .finished outcome } :=
        update_self ..
      exact (he.dropSender here rfl fun other hf => own attempt other held hf :)
    · exact ho
  · exact ho

theorem step (ha : world.Admissible action) : (world.step isAddress action).1.Sound := by
  cases action with
  | register id bearer realmId body _ now =>
    simp only [RealmWorld.step]
    split
    · exact ho
    next new =>
      exact ho.register isAddress (by simpa using new) bearer realmId body now ha.1 ha.2
  | deregister bearer realmId now => exact ho.deregister bearer realmId now
  | heartbeat task bearer realmId now => exact ho.heartbeat task bearer realmId now
  | heartbeatBody task body now => exact ho.heartbeatBody isAddress task body now
  | heartbeatAnswer task => exact ho.heartbeatAnswer task
  | connect id bearer realmId body now =>
    simp only [RealmWorld.step]
    split
    · exact ho
    next new =>
      exact ho.connect isAddress (by simpa using new) bearer realmId body now
  | enter id => exact ho.enter id
  | announce id now => exact ho.announce id now
  | wake id wakeup => exact ho.wake id wakeup
  | release id => exact ho.release ha
  | connectResponse task bearer realmId nonce now =>
    exact ho.connectResponse task bearer realmId nonce now
  | connectResponseBody task body => exact ho.connectResponseBody isAddress task body
  | expire id now => exact ho.expire id now
  | closeAll => exact ho.closeAll
  | remove id => exact ho.remove ha
  | cancel id => exact ho.cancel id
  | clear id => exact ho.clear id
  | takeEvent id => exact ho.takeEvent id

end Sound

end

/-- Only the last step of a heartbeat answers as a heartbeat. -/
theorem prolonged_of_answer {session}
    (answered : (world.step isAddress action).2 = some (.heartbeat session))
    : ∃ task, action = .heartbeatAnswer task
      ∧ world.heartbeats task = some (.prolonged session) := by
  have error : ∀ error : BodyError, error.reply ≠ .heartbeat session := by
    rintro (_ | _) impossible <;> cases impossible
  cases action with
  | heartbeatAnswer task =>
    simp only [step, heartbeatAnswer] at answered
    split at answered
    next id held =>
      cases answered
      exact ⟨task, rfl, held⟩
    · cases answered
  | release id =>
    simp only [step, release] at answered
    split at answered
    · split at answered
      next outcome _ =>
        cases outcome <;> cases answered
      · cases answered
    · cases answered
  | announce | wake | expire | closeAll | remove | cancel | clear | takeEvent => cases answered
  | register | deregister | heartbeat | heartbeatBody | connect | enter | connectResponse
  | connectResponseBody =>
    simp only [step, register, deregister, heartbeat,
      heartbeatBody, connect, enter, connectResponse,
      connectResponseBody, useSender] at answered
    repeat' split at answered
    all_goals first | cases answered | exact absurd (some.inj answered) (error _)

/-- The states that admissible steps lead to. -/
inductive Reachable (isAddress : String → Bool) (start : RealmWorld) : RealmWorld → Prop where
  | start : Reachable isAddress start start
  | step {world : RealmWorld} (earlier : Reachable isAddress start world) (action : RealmAction)
      (admissible : world.Admissible action)
      : Reachable isAddress start (world.step isAddress action).1

theorem sound_new {users} (created : new users = .ok start) (hu : Uniform start.users)
    : start.Sound := by
  obtain ⟨-, hc⟩ := guard_eq_ok.mp created
  obtain ⟨_, -, built⟩ := bind_eq_ok.mp hc
  cases built
  refine ⟨⟨nofun, fun _ id => ?_, fun _ => rfl, fun _ _ _ => Int.le_of_lt⟩,
    ⟨nofun, nofun, fun id changed => absurd rfl changed⟩, Nat.zero_le _, hu, nofun⟩
  constructor
  · exact nofun
  · rintro ⟨_, impossible, -⟩
    cases impossible

theorem Reachable.sound (hr : Reachable isAddress start world) (hb : start.Sound)
    : world.Sound := by
  induction hr with
  | start => exact hb
  | step _ _ admissible ih => exact ih.step isAddress admissible

end RealmWorld

/-- In every state that admissible steps lead to, the registry is consistent, no heartbeat is
answered for a session that is gone, and every attempt has ended for a reason of its own.
-/
theorem realm_registry_truthful {users : List HysteriaRealmUser} {start world : RealmWorld}
    (created : new users = .ok start) (uniform : Uniform start.users)
    {isAddress : String → Bool} (reachable : Reachable isAddress start world)
    : world.Consistent
      ∧ (∀ action session, (world.step isAddress action).2 = some (.heartbeat session) →
        world.Current session)
      ∧ ∀ id attempt outcome, world.attempts id = some attempt →
        attempt.phase = .decided outcome ∨ attempt.phase = .finished outcome →
        world.Justified id attempt outcome := by
  have sound := reachable.sound (sound_new created uniform)
  refine ⟨sound.consistent, ?_, ?_⟩
  · intro action session answered
    obtain ⟨task, -, prolonged⟩ := prolonged_of_answer answered
    exact sound.heard session ⟨task, _, prolonged, rfl⟩
  · intro id attempt outcome held decided
    exact (sound.attended.accountable id attempt held).justified outcome decided

namespace RealmWorld

instance decidableCurrent (world : RealmWorld) (id : Nat) : Decidable (world.Current id) :=
  decidable_of_iff
    ((world.heap id).any fun session => world.sessions.get? session.token = some id) (by
      simp [Current, Option.any_eq_true])

def run (isAddress : String → Bool) (world : RealmWorld) (actions : List RealmAction)
    : RealmWorld :=
  actions.foldl (fun world action => (world.step isAddress action).1) world

end RealmWorld

def exampleUsers : List HysteriaRealmUser :=
  [{ name := "alice", token := "secret", maxRealms := 1 }]

def exampleWorld : RealmWorld :=
  (new exampleUsers).toOption.get rfl

def exampleRequest : ConnectRequest where
  addresses := ["192.0.2.7:443"]
  nonce := "00112233445566778899aabbccddeeff"
  obfs := "00112233445566778899aabbccddeeff00112233445566778899aabbccddeeff"

def exampleRegister : RealmAction :=
  .register 0 (some "secret") "home" (.ok ["198.51.100.1:443"]) (some "session") 0

/-- The session is deregistered while a heartbeat reads its body. -/
def lateHeartbeat : List RealmAction :=
  [exampleRegister, .heartbeat 0 (some "session") "home" 1,
    .deregister (some "session") "home" 1, .remove 0, .heartbeatBody 0 (.ok none) 2]

/-- An attempt is entered and waits. -/
def attemptActions (id : Nat) : List RealmAction :=
  [.connect id (some "secret") "home" (.ok exampleRequest) 1, .enter id, .announce id 1]

/-- The server answers the attempt that waits. -/
def responseActions : List RealmAction :=
  [.connectResponse 0 (some "session") "home" exampleRequest.nonce 2,
    .connectResponseBody 0 (.ok ["198.51.100.2:443"]), .wake 0 .inbox]

/-- A second attempt with the nonce of the first is entered when the first is answered but
not over.
-/
def repeatedNonce : List RealmAction :=
  [exampleRegister] ++ attemptActions 0 ++ responseActions ++ attemptActions 1
  ++ [.release 0, .wake 1 .inbox]

/-- A heartbeat and an attempt that is answered. -/
def exampleActions : List RealmAction :=
  [exampleRegister, .heartbeat 0 (some "session") "home" 1, .heartbeatBody 0 (.ok none) 1,
    .heartbeatAnswer 0] ++ attemptActions 0 ++ responseActions ++ [.release 0]

theorem exampleWorld_uniform : RealmWorld.Uniform exampleWorld.users := by
  have only : ∀ token user, exampleWorld.users token = some user → user.maxRealms = 1 := by
    intro token user hl
    by_cases he : token = "secret"
    · subst he
      cases hl
      rfl
    have table : exampleWorld.users
        = update (fun _ => none) "secret" (some ⟨"alice", 1⟩) := rfl
    rw [table, update_of_ne he] at hl
    cases hl
  intro token user token' other hl listed' _ _
  rw [only token user hl, only token' other listed']

theorem realm_registry_truthful_example
    : (exampleWorld.run (fun _ => true) exampleActions).Consistent
      ∧ ∃ attempt, (exampleWorld.run (fun _ => true) exampleActions).attempts 0 = some attempt
        ∧ (exampleWorld.run (fun _ => true) exampleActions).Justified 0 attempt
          (.responded ["198.51.100.2:443"]) := by
  have reachable : Reachable (fun _ => true) exampleWorld
      (exampleWorld.run (fun _ => true) exampleActions) := by
    refine AllAdmitted.run (?_ : AllAdmitted _ Admissible _ _) (fun world _ => Reachable _ _ world)
      (fun _ action _ hr => .step hr action) .start
    refine ⟨⟨?_, by decide +kernel⟩, trivial, trivial, trivial, trivial, trivial, trivial, trivial,
      trivial, trivial, ?_, trivial⟩
    · decide +kernel
    · rintro attempt other ⟨⟩ found
      cases found
  obtain ⟨consistent, -, justified⟩ := realm_registry_truthful (rfl : new exampleUsers
    = .ok exampleWorld) exampleWorld_uniform reachable
  exact ⟨consistent, _, rfl, justified 0 _ _ rfl (.inr rfl)⟩

theorem realm_answers_untruthfully
    : new exampleUsers = .ok exampleWorld
      ∧ ((exampleWorld.run (fun _ => true) lateHeartbeat).step (fun _ => true)
        (.heartbeatAnswer 0)).2 = some (.heartbeat 0)
      ∧ ¬(exampleWorld.run (fun _ => true) lateHeartbeat).Current 0
      ∧ ((exampleWorld.run (fun _ => true) repeatedNonce).attempts 1).map (·.phase)
        = some (.decided .gone)
      ∧ ((exampleWorld.run (fun _ => true) repeatedNonce).attempts 1).map (·.session) = some 0
      ∧ (exampleWorld.run (fun _ => true) repeatedNonce).Current 0 := by
  refine ⟨rfl, ?_, ?_, ?_, ?_, ?_⟩
  all_goals decide +kernel

end Zay.Service
