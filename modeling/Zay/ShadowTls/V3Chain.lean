import Zay.ShadowTls.V3Record

/-! What an attacker on the path can make of authenticated records. The tag of a record covers
one string of bytes, in which nothing says where a payload ends and a tag begins: records that
follow each other can be presented as one, but in no other way can what was written be changed.
-/

namespace Zay.ShadowTls

open Lib List

namespace V3RecordCodec

/-- The records of the payloads that `encode` takes. -/
def sent (mac : Mac) : V3RecordCodec → List (List UInt8) → List Record
  | _, [] => []
  | codec, payload :: payloads =>
    match codec.encode mac payload with
    | (.ok _, next) => codec.record mac payload :: next.sent mac payloads
    | (.error _, next) => next.sent mac payloads

/-- The records that `decode` takes before the first error. -/
def accepted (mac : Mac) : V3RecordCodec → List (List UInt8) → List Record
  | _, [] => []
  | codec, frame :: frames =>
    match codec.decode mac frame with
    | (.ok payload, next) =>
      { payload, tag := (frame.drop tlsHeaderSize).take v3HmacSize }
      :: next.accepted mac frames
    | (.error _, _) => []

/-- What the tags of some records are tags of. -/
def inputs (codec : V3RecordCodec) : List Record → List (List UInt8)
  | [] => []
  | record :: records =>
    (codec.chain ++ record.payload) :: (codec.advance record).inputs records

/-- No tag is guessed: a record with the right tag is presented only where the tag is that of
a string that has been tagged.
-/
def Unguessed (mac : Mac) (tagged : List (List UInt8))
    : V3RecordCodec → List (List UInt8) → Prop
  | _, [] => True
  | codec, frame :: frames =>
    match codec.decode mac frame with
    | (.ok payload, next) =>
      codec.chain ++ payload ∈ tagged ∧ Unguessed mac tagged next frames
    | (.error _, _) => True

instance decidableUnguessed (mac : Mac) (tagged : List (List UInt8))
    : ∀ codec frames, Decidable (Unguessed mac tagged codec frames)
  | _, [] => isTrue trivial
  | codec, frame :: frames => by
    unfold Unguessed
    exact match codec.decode mac frame with
      | (.ok _, next) =>
        haveI := decidableUnguessed mac tagged next frames
        inferInstanceAs (Decidable (_ ∧ _))
      | (.error _, _) => isTrue trivial

def links (records : List Record) : List UInt8 := records.flatMap Record.link

def payloads (records : List Record) : List UInt8 := records.flatMap Record.payload

variable {mac : Mac}

/-- The tags of the records are those of their places. -/
def Chained (mac : Mac) (codec : V3RecordCodec) : List Record → Prop
  | [] => True
  | record :: records =>
    record = codec.record mac record.payload ∧ Chained mac (codec.advance record) records

theorem chained_sent (codec written) : Chained mac codec (codec.sent mac written) := by
  induction written generalizing codec with
  | nil => trivial
  | cons _ written ih =>
    unfold sent encode
    split
    next ht =>
      split at ht
      · cases ht
      cases ht
      exact ⟨rfl, ih _⟩
    next hr =>
      split at hr
      · cases hr
        exact ih _
      · cases hr

variable {codec : V3RecordCodec} {records : List Record} {input : List UInt8}

theorem decode_eq_ok {next frame payload} (hd : codec.decode mac frame = (.ok payload, next))
    : (frame.drop tlsHeaderSize).take v3HmacSize = mac.tag (codec.chain ++ payload)
      ∧ next = codec.advance (codec.record mac payload) := by
  unfold decode at hd
  split at hd
  · cases hd
  split at hd
  · cases hd
  simp only at hd
  split at hd
  · cases hd
  next he =>
    have tag := not_not.mp he
    cases hd
    refine ⟨tag, ?_⟩
    rw [tag]
    rfl

/-- The codec after some records. -/
def advanceAll (codec : V3RecordCodec) (records : List Record) : V3RecordCodec where
  chain := codec.chain ++ links records

theorem advanceAll_cons (codec : V3RecordCodec) (record records)
    : codec.advanceAll (record :: records) = (codec.advance record).advanceAll records := by
  simp [advanceAll, advance, links]

theorem chained_append {before after}
    : Chained mac codec (before ++ after)
      ↔ Chained mac codec before ∧ Chained mac (codec.advanceAll before) after := by
  induction before generalizing codec with
  | nil => simp [Chained, advanceAll, links]
  | cons _ before ih =>
    rw [cons_append, Chained, Chained, ih, and_assoc, advanceAll_cons]

theorem inputs_append (codec : V3RecordCodec) (before after)
    : codec.inputs (before ++ after)
      = codec.inputs before ++ (codec.advanceAll before).inputs after := by
  induction before generalizing codec with
  | nil => simp [inputs, advanceAll, links]
  | cons _ before ih =>
    rw [cons_append, inputs, inputs, ih, advanceAll_cons, cons_append]

/-- A tagged string goes on from the chain with the next records, the last one without its
tag.
-/
theorem split_of_input (hm : input ∈ codec.inputs records)
    : ∃ merged last rest, records = merged ++ last :: rest
      ∧ input = codec.chain ++ (links merged ++ last.payload) := by
  induction records generalizing codec with
  | nil => cases hm
  | cons record records ih =>
    rcases mem_cons.mp hm with first | hr
    · exact ⟨[], record, records, rfl, first⟩
    obtain ⟨merged, last, rest, split, he⟩ := ih hr
    refine ⟨record :: merged, last, rest, by rw [split]; rfl, ?_⟩
    rw [he]
    simp [advance, links]

section

variable (chained : Chained mac codec records)
include chained

theorem length_tag_of_chained {record} (hm : record ∈ records)
    : record.tag.length = v3HmacSize := by
  induction records generalizing codec with
  | nil => cases hm
  | cons _ records ih =>
    rcases mem_cons.mp hm with rfl | hr
    · rw [chained.1]
      exact mac.size _
    · exact ih chained.2 hr

/-- What has been tagged is shorter than the chain that has the tags. -/
theorem length_input_lt (hm : input ∈ codec.inputs records)
    : input.length < (codec.advanceAll records).chain.length := by
  obtain ⟨merged, last, rest, rfl, rfl⟩ := split_of_input hm
  have tagged : last.tag.length = 4 := length_tag_of_chained chained (by simp)
  simp only [advanceAll, links, flatMap_append, flatMap_cons, Record.link, length_append]
  omega

/-- Each accepted record is made of records that were written next to each other. -/
theorem accepted_split {earlier frames}
    (older : ∀ input ∈ earlier, input.length < codec.chain.length)
    (unguessed : Unguessed mac (earlier ++ codec.inputs records) codec frames)
    : ∃ count, links (codec.accepted mac frames) = links (records.take count)
      ∧ (codec.accepted mac frames).length ≤ count
      ∧ ((codec.accepted mac frames).length = count →
        codec.accepted mac frames = records.take count) := by
  induction frames generalizing codec records earlier with
  | nil => exact ⟨0, by simp [accepted], le_refl _, fun _ => by simp [accepted]⟩
  | cons frame frames ih =>
    unfold accepted
    unfold Unguessed at unguessed
    split
    next payload next hd =>
      rw [hd] at unguessed
      obtain ⟨hm, hr⟩ := unguessed
      obtain ⟨tag, rfl⟩ := decode_eq_ok hd
      have new : codec.chain ++ payload ∈ codec.inputs records := by
        refine (mem_append.mp hm).resolve_left fun old => ?_
        have hs := older _ old
        simp only [length_append] at hs
        omega
      obtain ⟨merged, last, rest, rfl, heq⟩ := split_of_input new
      obtain rfl := append_cancel_left heq
      have hj : merged ++ last :: rest = (merged ++ [last]) ++ rest := by simp
      obtain ⟨-, placed, -⟩ := chained_append.mp chained
      have own : mac.tag (codec.chain ++ (links merged ++ last.payload)) = last.tag := by
        rw [placed]
        simp [record, advanceAll]
      have hl : links merged ++ last.payload
            ++ mac.tag (codec.chain ++ (links merged ++ last.payload))
          = links (merged ++ [last]) := by
        rw [own]
        simp [links, Record.link]
      have next : codec.advance (codec.record mac (links merged ++ last.payload))
          = codec.advanceAll (merged ++ [last]) := by
        rw [advance, advanceAll, ← hl]
        rfl
      rw [next] at hr ⊢
      rw [hj] at chained hr
      obtain ⟨hb, after⟩ := chained_append.mp chained
      rw [inputs_append, ← append_assoc] at hr
      have olderStill : ∀ input ∈ earlier ++ codec.inputs (merged ++ [last]),
          input.length < (codec.advanceAll (merged ++ [last])).chain.length := by
        intro input hk
        rcases mem_append.mp hk with old | recent
        · have hs := older input old
          simp only [advanceAll, length_append]
          omega
        · exact length_input_lt hb recent
      obtain ⟨count, sameLinks, he, unmerged⟩ := ih after olderStill hr
      have ht : (merged ++ last :: rest).take (merged.length + 1 + count)
          = merged ++ last :: rest.take count := by
        have more : merged.length + 1 + count - merged.length = count + 1 := by omega
        rw [take_append, take_of_length_le (by omega), more, take_succ_cons]
      rw [tag]
      refine ⟨merged.length + 1 + count, ?_, ?_, ?_⟩
      · rw [ht, links, flatMap_cons, ← links, sameLinks]
        show links merged ++ last.payload ++ mac.tag _ ++ _ = _
        rw [hl]
        simp [links]
      · rw [length_cons]
        omega
      · intro all
        rw [length_cons] at all
        have alone : merged = [] := length_eq_zero_iff.mp (by omega)
        subst alone
        rw [unmerged (by omega), ht, own]
        rfl
    · exact ⟨0, by simp, le_refl _, fun _ => by simp⟩

end

theorem payloads_sent (mac : Mac) (codec : V3RecordCodec) (written)
    : payloads (codec.sent mac written)
      = (written.filter (·.length ≤ tlsMaxPlaintext)).flatten := by
  induction written generalizing codec with
  | nil => rfl
  | cons payload written ih =>
    unfold sent encode
    by_cases hl : tlsMaxPlaintext < payload.length
    · rw [if_pos hl, filter_cons_of_neg (by simpa using hl)]
      exact ih _
    rw [if_neg hl, filter_cons_of_pos (by simpa using hl), flatten_cons,
      ← ih (codec.advance (codec.record mac payload))]
    rfl

end V3RecordCodec

/-- A hash of no strength. -/
def exampleMac : Mac where
  tag input := toBigEndian 4 (input.foldl (fun sum byte => sum * 31 + byte.toNat) 7)
  size _ := length_toBigEndian 4 _

def exampleCodec : V3RecordCodec where
  chain := replicate 32 0 ++ ['C'.toUInt8]

/-- The records of the payloads `1` and `2`, presented as one. -/
def mergedRecord : Record where
  payload := [1] ++ (exampleCodec.record exampleMac [1]).tag ++ [2]
  tag := ((exampleCodec.advance (exampleCodec.record exampleMac [1])).record exampleMac [2]).tag

end Zay.ShadowTls
