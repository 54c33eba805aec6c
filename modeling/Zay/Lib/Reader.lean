import Zay.Lib.MachineInt

/-! Readers of byte strings. `Reads` says what a reader makes of an encoding, whatever
follows it; `Yields` what holds of anything a reader returns.
-/

namespace Zay.Lib

open List

abbrev Reader (ε α : Type) := StateT (List UInt8) (Except ε) α

variable {ε α β : Type} (short : ε)

namespace Reader

def fail (error : ε) : Reader ε α := fun _ => .error error

def refuse (refused : Bool) (error : ε) : Reader ε Unit :=
  if refused then fail error else pure ()

def byte (short : ε) : Reader ε UInt8 := fun input =>
  match input with
  | [] => .error short
  | first :: rest => .ok (first, rest)

/-- The next byte, which stays in the input. -/
def peek (short : ε) : Reader ε UInt8 := fun input =>
  match input with
  | [] => .error short
  | first :: rest => .ok (first, first :: rest)

def take (count : Nat) (short : ε) : Reader ε (List UInt8) := fun input =>
  if count ≤ input.length then .ok (input.take count, input.drop count) else .error short

def bigEndian (width : Nat) (short : ε) : Reader ε Nat := do
  return ofBigEndian (← take width short)

/-- `count` items in a row. -/
def times (item : Reader ε α) : (count : Nat) → Reader ε (List α)
  | 0 => pure []
  | count + 1 => do
    let first ← item
    return first :: (← times item count)

/-- Runs `body` `count` times, each time on the result of the run before. -/
def loop (body : α → Reader ε α) : (count : Nat) → (state : α) → Reader ε α
  | 0, state => pure state
  | count + 1, state => do loop body count (← body state)

/-- The same reader with its errors converted. -/
def mapError {δ : Type} (convert : ε → δ) (reader : Reader ε α) : Reader δ α := fun input =>
  (reader input).mapError convert

/-- In front of any other input, `bytes` are read as `value`. -/
def Reads (reader : Reader ε α) (bytes : List UInt8) (value : α) : Prop :=
  ∀ rest, reader (bytes ++ rest) = .ok (value, rest)

theorem bind_apply (reader) (next : α → Reader ε β) (input)
    : (reader >>= next) input
      = match reader input with
        | .ok (value, rest) => next value rest
        | .error error => .error error := by
  cases played : reader input <;> simp [bind, StateT.bind, Except.bind, played]

theorem Reads.pure (value : α) : Reads (Pure.pure value : Reader ε α) [] value :=
  fun _ => rfl

variable {reader : Reader ε α} {next : α → Reader ε β} {front back bytes : List UInt8}
  {value state : α} {body : α → Reader ε α} {first : α} {second : β} {present : Bool} {count : Nat}

theorem Reads.bind (head : Reads reader front first) (tail : Reads (next first) back second)
    : Reads (reader >>= next) (front ++ back) second := by
  intro rest
  rw [bind_apply, append_assoc, head]
  exact tail rest

/-- A continuation that reads nothing. -/
theorem Reads.bind_last (head : Reads reader bytes first) (tail : Reads (next first) [] second)
    : Reads (reader >>= next) bytes second := by
  intro rest
  rw [bind_apply, head]
  exact tail rest

/-- A reader whose result is only converted. -/
theorem Reads.map (reads : Reads reader bytes value) (convert : α → β)
    : Reads (reader >>= fun value => Pure.pure (convert value)) bytes (convert value) := by
  intro rest
  rw [bind_apply, reads]
  rfl

theorem reads_byte (value : UInt8) : Reads (byte short) [value] value :=
  fun _ => rfl

theorem reads_take (bytes) : Reads (take bytes.length short) bytes bytes := by
  intro rest
  simp [take]

theorem reads_bigEndian {width value} (hb : value < 256 ^ width)
    : Reads (bigEndian width short) (toBigEndian width value) value := by
  have bytes := reads_take short (toBigEndian width value)
  rw [length_toBigEndian] at bytes
  have number := bytes.map ofBigEndian
  rwa [ofBigEndian_toBigEndian hb] at number

theorem Reads.mapError {δ : Type} (reads : Reads reader bytes value) (convert : ε → δ)
    : Reads (reader.mapError convert) bytes value := by
  intro rest
  rw [Reader.mapError, reads]
  rfl

theorem reads_times {item : Reader ε α} {encode values}
    (one : ∀ value ∈ values, Reads item (encode value) value)
    : Reads (times item values.length) (values.flatMap encode) values := by
  induction values with
  | nil => exact Reads.pure []
  | cons value _ ih =>
    have others := ih fun other hm => one other (mem_cons_of_mem _ hm)
    exact (one value mem_cons_self).bind (others.map (value :: ·))

/-- The next entry of a loop. -/
theorem Reads.loop_succ {next final : α} (first : Reads (body state) front next)
    (others : Reads (loop body count next) back final)
    : Reads (loop body (count + 1) state) (front ++ back) final :=
  first.bind others

/-- The next entry of a loop, which may be missing. -/
theorem Reads.loop_optional {next final : α} (hno : present = false → front = [] ∧ next = state)
    (given : present = true → Reads (body state) front next)
    (others : Reads (loop body count next) back final)
    : Reads (loop body (count + present.toNat) state) (front ++ back) final := by
  cases present with
  | false =>
    obtain ⟨rfl, rfl⟩ := hno rfl
    exact others
  | true => exact (given rfl).loop_succ others

theorem Reads.loop_end {next : α} (hno : present = false → bytes = [] ∧ next = state)
    (given : present = true → Reads (body state) bytes next)
    : Reads (loop body present.toNat state) bytes next := by
  have done : Reads (loop body 0 next) [] next := Reads.pure next
  have hw := Reads.loop_optional hno given done
  rwa [Nat.zero_add, append_nil] at hw

def Yields (reader : Reader ε α) (property : α → Prop) : Prop :=
  ∀ input value rest, reader input = .ok (value, rest) → property value

theorem Yields.pure {property : α → Prop} (hh : property value)
    : Yields (Pure.pure value : Reader ε α) property := by
  rintro input other rest ⟨⟩
  exact hh

theorem Yields.bind {first : α → Prop} {second : β → Prop} (head : Yields reader first)
    (tail : ∀ value, first value → Yields (next value) second)
    : Yields (reader >>= next) second := by
  intro input value rest read
  rw [bind_apply] at read
  split at read
  next between remaining outcome =>
    exact tail between (head _ _ _ outcome) _ _ _ read
  · cases read

theorem yields_any (reader : Reader ε α) : Yields reader fun _ => True :=
  fun _ _ _ _ => trivial

theorem yields_fail (error : ε) (property : α → Prop) : Yields (fail error) property := by
  rintro input value rest ⟨⟩

theorem yields_take (count : Nat) (short : ε)
    : Yields (take count short) fun bytes => bytes.length = count := by
  intro input bytes rest read
  simp only [take] at read
  split at read
  · cases read
    exact length_take_of_le (by assumption)
  · cases read

theorem yields_bigEndian (width : Nat) (short : ε)
    : Yields (bigEndian width short) (· < 256 ^ width) :=
  (yields_take width short).bind fun bytes length =>
    Yields.pure (length ▸ ofBigEndian_lt bytes)

end Reader

end Zay.Lib
