import Zay.OpenVpn.DataKeyRing

/-! When the ring of data keys retains its outbound key. Pruning, promoting and discarding
never lose it. Staging does when it reuses the outbound key id or pushes the outbound entry
out of the scan window.
-/

namespace Zay.OpenVpn

open Lib RingStep List

namespace OpenVpnDataKeyRing

variable {T : Type}

/-- The invariant of a run, with the steps that are still to come. -/
structure Valid (ring : OpenVpnDataKeyRing T) (rest : List (RingStep T)) : Prop where
  send : ∃ entry ∈ ring.receive, ring.isSend entry ∧ entry.expiresAt = none
  limited : ring.receive.length ≤ ring.scanSize
  distinct : (ring.receive.map (·.keyId)).Nodup
  sorted : ring.receive.Pairwise fun left right => left.sequence ≤ right.sequence
  ordered : (rest.filterMap staged?).Pairwise (· < ·)
  older
    : ∀ entry ∈ ring.receive, ∀ sequence ∈ rest.filterMap staged?,
      entry.sequence ≤ sequence

theorem isSend_iff {ring : OpenVpnDataKeyRing T} {entry}
    : ring.isSend entry = true
      ↔ entry.keyId = ring.sendKeyId ∧ entry.sequence = ring.sendSequence := by
  simp [isSend]

variable {ring : OpenVpnDataKeyRing T} {rest : List (RingStep T)}

/-- With distinct key ids, `current_send` finds the outbound entry wherever it stands. -/
theorem currentSend_iff (hd : (ring.receive.map (·.keyId)).Nodup)
    : (∃ entry, ring.currentSend = some entry ∧ entry.expiresAt = none)
      ↔ ∃ entry ∈ ring.receive, ring.isSend entry ∧ entry.expiresAt = none := by
  constructor
  · rintro ⟨entry, hf, hn⟩
    exact ⟨entry, mem_of_find?_eq_some hf, find?_some hf, hn⟩
  · rintro ⟨entry, mem, send, hn⟩
    obtain ⟨first, hf⟩ : ∃ first, ring.currentSend = some first :=
      Option.isSome_iff_exists.mp (find?_isSome.mpr ⟨entry, mem, send⟩)
    have he : first = entry := by
      have first_send : ring.isSend first = true := find?_some hf
      refine inj_on_of_nodup_map hd (mem_of_find?_eq_some hf) mem ?_
      rw [(isSend_iff.mp first_send).1, (isSend_iff.mp send).1]
    exact ⟨first, hf, he ▸ hn⟩

theorem Valid.retainsSend (hv : ring.Valid rest) : ring.RetainsSend :=
  ⟨(currentSend_iff hv.distinct).mpr hv.send, hv.limited, hv.distinct⟩

/-- A sorted ring is only cut at the front. -/
theorem sortAndLimit_eq
    (hs : ring.receive.Pairwise fun left right => left.sequence ≤ right.sequence)
    : ring.sortAndLimit
      = { ring with
          receive := ring.receive.drop (ring.receive.length - ring.scanSize) } := by
  simp [sortAndLimit, List.Pairwise.insertionSort_eq hs]

/-- What identifies an entry. -/
def stamp (entry : OpenVpnReceiveKeyState T) : UInt8 × Nat :=
  (entry.keyId, entry.sequence)

theorem Valid.tail {step} (hv : ring.Valid (step :: rest)) : ring.Valid rest :=
  have hf := (sublist_cons_self step rest).filterMap staged?
  { hv with
    ordered := hv.ordered.sublist hf
    older := fun entry mem sequence hr =>
      hv.older entry mem sequence (hf.subset hr) }

theorem receive_prune (now)
    (sorted : ring.receive.Pairwise fun left right => left.sequence ≤ right.sequence)
    (limited : ring.receive.length ≤ ring.scanSize)
    : (ring.prune now).receive
      = ring.receive.filter fun entry => entry.expiresAt.all (now < ·) := by
  have hs : (ring.receive.filter fun entry => entry.expiresAt.all (now < ·)).length
      ≤ ring.scanSize := (length_filter_le _ _).trans limited
  rw [prune, sortAndLimit_eq (sorted.filter _)]
  simp [Nat.sub_eq_zero_of_le hs]

/-- Only expiries change when the outbound key goes over. -/
theorem stamps_handOver (ring : OpenVpnDataKeyRing T) (keyId sequence index expiry)
    : (ring.handOver keyId sequence index expiry).receive.map stamp
      = ring.receive.map stamp := by
  have demoted : (ring.receive.map fun entry =>
      if ring.isSend entry then { entry with expiresAt := some expiry } else entry).map stamp
      = ring.receive.map stamp := by
    rw [map_map]
    refine map_congr_left fun entry _ => ?_
    simp only [Function.comp_apply]
    split <;> rfl
  have hn (entries : List (OpenVpnReceiveKeyState T))
      : (entries.modify index fun entry => { entry with expiresAt := none }).map stamp
        = entries.map stamp := by
    refine ext_getElem? fun place => ?_
    rw [getElem?_map, getElem?_map, getElem?_modify]
    cases entries[place]? with
    | none => rfl
    | some entry => simp only [Option.map_some]; split <;> rfl
  simp only [handOver]
  rw [hn, demoted]

namespace Valid

variable (hv : ring.Valid rest)
include hv

/-- Fewer entries make no difference as long as the outbound one stays. -/
theorem of_sublist {next : OpenVpnDataKeyRing T}
    (fewer : (next.receive.map stamp).Sublist (ring.receive.map stamp))
    (send : ∃ entry ∈ next.receive, next.isSend entry ∧ entry.expiresAt = none)
    (size : next.scanSize = ring.scanSize)
    : next.Valid rest where
  send
  limited := by
    have hs := fewer.length_le
    rw [length_map, length_map] at hs
    exact size ▸ hs.trans hv.limited
  distinct := by
    have ids := fewer.map Prod.fst
    rw [map_map, map_map] at ids
    exact ids.nodup hv.distinct
  sorted := by
    have sequences := fewer.map Prod.snd
    rw [map_map, map_map] at sequences
    exact pairwise_map.mp ((pairwise_map.mpr hv.sorted).sublist sequences)
  ordered := hv.ordered
  older entry mem sequence later := by
    obtain ⟨other, hl, he⟩ := mem_map.mp (fewer.subset (mem_map_of_mem mem))
    rw [← (Prod.mk.inj he).2]
    exact hv.older other hl sequence later

/-- Pruning keeps the outbound entry, which has no expiry. -/
theorem prune (now) : (ring.prune now).Valid rest := by
  have hk := receive_prune now hv.sorted hv.limited
  refine hv.of_sublist (hk ▸ filter_sublist.map _) ?_ rfl
  obtain ⟨entry, mem, send, hn⟩ := hv.send
  exact ⟨entry, hk ▸ mem_filter.mpr ⟨mem, by simp [hn]⟩, send, hn⟩

theorem discard (keyId : UInt8) (sequence : Nat) : (ring.discard keyId sequence).Valid rest := by
  unfold OpenVpnDataKeyRing.discard
  split
  · exact hv
  next other =>
    refine hv.of_sublist (filter_sublist.map _) ?_ rfl
    obtain ⟨entry, mem, send, hn⟩ := hv.send
    obtain ⟨sameId, sameSequence⟩ := isSend_iff.mp send
    refine ⟨entry, mem_filter.mpr ⟨mem, ?_⟩, send, hn⟩
    rw [sameId, sameSequence]
    by_contra gone
    simp only [Bool.or_eq_true, bne_iff_ne, not_or, not_not] at gone
    exact other ⟨gone.1.symm, gone.2.symm⟩

/-- The staged entry that is promoted has no expiry any more. -/
theorem handOver {keyId sequence index} (hf : ring.receive.findIdx? (fun entry =>
      entry.keyId = keyId && entry.sequence = sequence) = some index) (expiry)
    : (ring.handOver keyId sequence index expiry).Valid rest := by
  have stamps := ring.stamps_handOver keyId sequence index expiry
  refine hv.of_sublist (stamps ▸ .refl _) ?_ rfl
  obtain ⟨hb, hm, -⟩ := findIdx?_eq_some_iff_getElem.mp hf
  simp only [Bool.and_eq_true, decide_eq_true_eq] at hm
  have hw : index < (ring.handOver keyId sequence index expiry).receive.length := by
    have hl := congrArg length stamps
    rw [length_map, length_map] at hl
    exact hl ▸ hb
  refine ⟨(ring.handOver keyId sequence index expiry).receive[index], getElem_mem hw, ?_, ?_⟩
  · have he := congrArg (·[index]?) stamps
    simp only [getElem?_map, getElem?_eq_getElem hw,
      getElem?_eq_getElem hb, Option.map_some, Option.some.injEq] at he
    obtain ⟨sameId, sameSequence⟩ := Prod.mk.inj he
    rw [isSend_iff]
    exact ⟨sameId.trans hm.1, sameSequence.trans hm.2⟩
  · simp [OpenVpnDataKeyRing.handOver]

theorem step_promote (keyId sequence now)
    : (ring.step (.promote keyId sequence now)).Valid rest := by
  simp only [step]
  split
  next promoted next outcome =>
    simp only [promote, validateSoftResetKeyId] at outcome
    split at outcome
    · simp only [bind, Except.bind] at outcome
      split at outcome
      · cases outcome
        exact hv
      split at outcome
      · cases outcome
      next index hf =>
        cases outcome
        exact (hv.handOver hf _).prune now
    · cases outcome
  · exact hv

end Valid

/-- The entries that staging `keyId` leaves in place. -/
def others (ring : OpenVpnDataKeyRing T) (keyId : UInt8) : List (OpenVpnReceiveKeyState T) :=
  ring.receive.filter (·.keyId ≠ keyId)

/-- An element that occurs once survives a cut at the front exactly when it fits into the
rest together with all that follows it.
-/
theorem mem_drop_iff {α : Type} {front back} {entry : α} (hb : entry ∉ front)
    (after : entry ∉ back) (size : Nat)
    : entry ∈ (front ++ entry :: back).drop ((front ++ entry :: back).length - size)
      ↔ back.length < size := by
  have he (count : Nat) : entry ∉ front.drop count := fun mem =>
    hb (mem_of_mem_drop mem)
  have hl (count : Nat) : entry ∉ back.drop count := fun mem =>
    after (mem_of_mem_drop mem)
  rw [length_append, length_cons, drop_append, mem_append]
  cases cut : front.length + (back.length + 1) - size - front.length with
  | zero =>
    simp only [drop_zero, mem_cons_self, or_true, true_iff]
    omega
  | succ more =>
    simp only [drop_succ_cons, he, hl, or_self, false_iff]
    omega

section Stage

variable {keyId : UInt8} {sequence : Nat} {session : SessionManager} {value : T} {now : Instant}

theorem step_stage (ha : 1 ≤ keyId ∧ keyId ≤ 7)
    (hv : ring.Valid (.stage keyId sequence session value now :: rest))
    : ∃ staged,
      staged.keyId = keyId ∧ staged.sequence = sequence ∧ staged.expiresAt ≠ none
      ∧ (ring.others keyId ++ [staged]).Pairwise (fun left right => left.sequence ≤ right.sequence)
      ∧ ring.step (.stage keyId sequence session value now)
        = { ring with
            receive := (ring.others keyId ++ [staged]).drop
              ((ring.others keyId ++ [staged]).length - ring.scanSize) } := by
  let staged : OpenVpnReceiveKeyState T :=
    { keyId, sequence, session, value, expiresAt := some (now + ring.transitionWindow) }
  have hs : (ring.others keyId ++ [staged]).Pairwise
      fun left right => left.sequence ≤ right.sequence := by
    refine pairwise_append.mpr ⟨hv.sorted.filter _, pairwise_singleton _ _, ?_⟩
    intro entry mem other last
    rw [mem_singleton.mp last]
    exact hv.older entry (mem_of_mem_filter mem) sequence (by simp [staged?])
  refine ⟨staged, rfl, rfl, by simp, hs, ?_⟩
  simp only [step, stage, validateSoftResetKeyId, if_pos ha, bind, Except.bind]
  exact sortAndLimit_eq hs

variable {staged : OpenVpnReceiveKeyState T}

/-- The staged entries have distinct key ids. -/
theorem distinct_stage (hd : (ring.receive.map (·.keyId)).Nodup) (he : staged.keyId = keyId)
    : ((ring.others keyId ++ [staged]).map (·.keyId)).Nodup := by
  rw [map_append, nodup_append]
  refine ⟨(filter_sublist.map _).nodup hd, by simp, ?_⟩
  intro id mem other last
  obtain ⟨entry, hl, rfl⟩ := mem_map.mp mem
  have hne : entry.keyId ≠ keyId := by simpa using (mem_filter.mp hl).2
  rw [map_singleton, mem_singleton] at last
  rw [last, he]
  exact hne

/-- Among the staged entries only the previous outbound one can send. -/
theorem send_stage_iff (he : staged.keyId = keyId) (expires : staged.expiresAt ≠ none)
    (hd : (ring.receive.map (·.keyId)).Nodup)
    (send : ∃ entry ∈ ring.receive, ring.isSend entry ∧ entry.expiresAt = none)
    : (∃ entry ∈ (ring.others keyId ++ [staged]).drop
          ((ring.others keyId ++ [staged]).length - ring.scanSize),
        ring.isSend entry ∧ entry.expiresAt = none)
      ↔ keyId ≠ ring.sendKeyId
        ∧ ((ring.others keyId).dropWhile (!ring.isSend ·)).length < ring.scanSize := by
  obtain ⟨entry, mem, sends, hn⟩ := send
  obtain ⟨sendId, -⟩ := isSend_iff.mp sends
  have only {other : OpenVpnReceiveKeyState T} (hl : other ∈ ring.receive)
      (sends' : ring.isSend other) : other = entry :=
    inj_on_of_nodup_map hd hl mem ((isSend_iff.mp sends').1.trans sendId.symm)
  by_cases reused : keyId = ring.sendKeyId
  · -- The outbound entry is replaced by one that expires.
    refine ⟨?_, fun hr => absurd reused hr.1⟩
    rintro ⟨other, hl, sends', fresh'⟩
    rcases mem_append.mp (mem_of_mem_drop hl) with hk | last
    · have hne : other.keyId ≠ keyId := by simpa using (mem_filter.mp hk).2
      exact absurd ((isSend_iff.mp sends').1.trans reused.symm) hne
    rw [mem_singleton.mp last] at fresh'
    exact absurd fresh' expires
  · have hk : entry ∈ ring.others keyId :=
      mem_filter.mpr ⟨mem, by simpa [sendId] using Ne.symm reused⟩
    obtain ⟨front, back, split⟩ := append_of_mem hk
    have once : (front ++ entry :: back).Nodup := by
      rw [← split]
      exact (List.Nodup.of_map _ hd).filter _
    have hb : entry ∉ front := fun early =>
      (nodup_append.mp once).2.2 entry early entry mem_cons_self rfl
    have after : entry ∉ back ++ [staged] := by
      rw [mem_append, mem_singleton]
      rintro (late | rfl)
      · exact (nodup_cons.mp (nodup_append.mp once).2.1).1 late
      · exact expires hn
    have behind : (ring.others keyId).dropWhile (!ring.isSend ·) = entry :: back := by
      rw [split, dropWhile_append_of_pos, dropWhile_cons_of_neg (by simp [sends])]
      intro other early
      have hl : other ∈ ring.others keyId := split ▸ mem_append_left _ early
      by_contra sends'
      have he : other = entry := only (mem_of_mem_filter hl) (by simpa using sends')
      exact hb (he ▸ early)
    have hw : ring.others keyId ++ [staged] = front ++ entry :: (back ++ [staged]) := by
      rw [split, append_assoc, cons_append]
    have survives := mem_drop_iff hb after ring.scanSize
    rw [← hw, show (back ++ [staged]).length = back.length + 1 by simp] at survives
    rw [behind, length_cons]
    constructor
    · rintro ⟨other, hl, sends', fresh'⟩
      refine ⟨reused, survives.mp ?_⟩
      rcases mem_append.mp (mem_of_mem_drop hl) with kept' | last
      · rwa [← only (mem_of_mem_filter kept') sends']
      rw [mem_singleton.mp last] at fresh'
      exact absurd fresh' expires
    · rintro ⟨-, hr⟩
      exact ⟨entry, survives.mpr hr, sends, hn⟩

theorem Valid.step_stage (hv : ring.Valid (.stage keyId sequence session value now :: rest))
    (room : ring.HasRoom (.stage keyId sequence session value now))
    : (ring.step (.stage keyId sequence session value now)).Valid rest := by
  by_cases ha : 1 ≤ keyId ∧ keyId ≤ 7
  · obtain ⟨staged, sameId, sameSequence, he, sorted, next⟩ :=
      OpenVpnDataKeyRing.step_stage ha hv
    have entries : ∀ entry ∈ ring.others keyId ++ [staged], entry.sequence ≤ sequence := by
      refine forall_mem_append.mpr ⟨fun entry hk => ?_, forall_mem_singleton.mpr sameSequence.le⟩
      exact hv.older entry (mem_of_mem_filter hk) sequence (by simp [staged?])
    have ordered : (sequence :: rest.filterMap staged?).Pairwise (· < ·) :=
      hv.ordered
    rw [pairwise_cons] at ordered
    rw [next]
    exact {
      send := (send_stage_iff sameId he hv.distinct hv.send).mpr (room ha)
      limited := by
        simp only [length_drop]
        omega
      distinct :=
        ((drop_sublist _ _).map _).nodup (distinct_stage hv.distinct sameId)
      sorted := sorted.sublist (drop_sublist _ _)
      ordered := ordered.2
      older := fun entry mem hr hl =>
        (entries entry (mem_of_mem_drop mem)).trans (ordered.1 hr hl).le }
  · simp only [step, stage, validateSoftResetKeyId, if_neg ha, bind, Except.bind]
    exact hv.tail

end Stage

/-- A step keeps the outbound key exactly when there is room for it. -/
theorem exact_step
    : Exact (step (T := T)) Valid RetainsSend HasRoom where
  sound_of_valid _ _ hv := hv.retainsSend
  valid_step ring next rest hv hr := by
    cases next with
    | stage keyId sequence session value now => exact hv.step_stage hr
    | promote keyId sequence now => exact hv.tail.step_promote keyId sequence now
    | discard keyId sequence => exact hv.tail.discard keyId sequence
    | prune now => exact hv.tail.prune now
    | selectReceive keyId now => exact hv.tail.prune now
  admits_of_sound ring next rest hv hs := by
    cases next with
    | stage keyId sequence session value now =>
      intro ha
      obtain ⟨_, sameId, -, he, -, next⟩ := step_stage ha hv
      rw [next] at hs
      exact (send_stage_iff sameId he hv.distinct hv.send).mp
        ((currentSend_iff hs.distinct).mp hs.send)
    | promote keyId sequence now => trivial
    | discard keyId sequence => trivial
    | prune now => trivial
    | selectReceive keyId now => trivial

end OpenVpnDataKeyRing

open OpenVpnDataKeyRing in
/-- Along every sequence of calls with strictly increasing staging sequences, the ring
retains an outbound key without an expiry, and at most `scan_size` keys of distinct ids,
exactly when each staging call leaves the outbound entry its place.
-/
theorem dataKeyRing_retainsSend_iff {T : Type} (keyId : UInt8) (session : SessionManager)
    (value : T) (transitionWindow : Duration) (scanSize : Nat) (steps : List (RingStep T))
    (increasing : (steps.filterMap staged?).Pairwise (· < ·))
    : (∀ done, done <+: steps →
        ((withLimits keyId session value transitionWindow scanSize).run done).RetainsSend)
      ↔ ∀ done next, done ++ [next] <+: steps →
        ((withLimits keyId session value transitionWindow scanSize).run done).HasRoom next :=
  exact_step.forall_sound_iff {
    send := ⟨_, mem_singleton_self _, by simp [isSend, withLimits], rfl⟩
    limited := Nat.le_max_right _ _
    distinct := nodup_singleton _
    sorted := pairwise_singleton _ _
    ordered := increasing
    older := fun _ mem _ _ => by
      rw [mem_singleton.mp mem]
      exact Nat.zero_le _ }

/-- Soft resets that are negotiated before one of them is promoted. -/
def stagedResets : List (RingStep Nat) :=
  [1, 2, 3].map fun key =>
    .stage (UInt8.ofNat key) key (.withLocalId (Vector.replicate 8 0)) key 0

theorem dataKeyRing_retainsSend_twoResets
    : ((stagedResets.take 2).filterMap staged?).Pairwise (· < ·)
      ∧ ∀ done, done <+: stagedResets.take 2 →
        ((OpenVpnDataKeyRing.withLimits 0 (.withLocalId (Vector.replicate 8 0)) 0 3600 3).run
          done).RetainsSend := by
  refine ⟨by decide, (dataKeyRing_retainsSend_iff 0 _ 0 3600 3 (stagedResets.take 2)
    (by decide)).mpr ?_⟩
  intro done next early
  rcases done with _ | ⟨_, _ | ⟨_, _⟩⟩
  · obtain ⟨rfl, -⟩ := cons_prefix_cons.mp early
    exact fun _ => by decide +kernel
  · obtain ⟨rfl, later⟩ := cons_prefix_cons.mp early
    obtain ⟨rfl, -⟩ := cons_prefix_cons.mp later
    exact fun _ => by decide +kernel
  have short := early.length_le
  simp [stagedResets] at short

/-- The third key pushes the outbound one, the oldest, out of the ring of three. -/
theorem dataKeyRing_loses_send
    : (stagedResets.filterMap staged?).Pairwise (· < ·)
      ∧ ((OpenVpnDataKeyRing.withLimits 0 (.withLocalId (Vector.replicate 8 0)) 0 3600 3).run
        stagedResets).currentSend = none := by
  decide +kernel

end Zay.OpenVpn
