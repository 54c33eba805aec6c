import Mathlib.Data.List.Forall2

/-! Comments of a configuration are blanked character by character. A character of more than one
byte becomes a single blank, so byte positions are kept exactly where the comments are ASCII.
-/

namespace Zay.Common

open List

inductive State where
  | code | string | escape | lineComment | blockComment | blockCommentStar
  deriving DecidableEq

namespace State

/-- A character inside a block comment. -/
def blank (ch : Char) : Char := if ch = '\n' ∨ ch = '\r' then ch else ' '

/-- What is pushed for a character and the state that follows. -/
def step : State → Char → Char × State
  | code, ch => (ch, if ch = '"' then string else code)
  | string, ch => (ch, if ch = '\\' then escape else if ch = '"' then code else string)
  | escape, ch => (ch, string)
  | lineComment, ch => if ch = '\n' then (ch, code) else (' ', lineComment)
  | blockComment, ch => (blank ch, if ch = '*' then blockCommentStar else blockComment)
  | blockCommentStar, ch =>
    (blank ch, if ch = '/' then code else if ch = '*' then blockCommentStar else blockComment)

/-- The comment that a character and the next one open. -/
def opens (state : State) (ch peek : Char) : Option State :=
  if state = code ∧ ch = '/' then
    if peek = '/' then some lineComment else if peek = '*' then some blockComment else none
  else none

/-- The loop: the characters that are pushed and the state at the end. -/
def strip : State → List Char → List Char × State
  | state, [] => ([], state)
  | state, [ch] => ([(step state ch).1], (step state ch).2)
  | state, ch :: peek :: chars =>
    match opens state ch peek with
    | some comment => (' ' :: ' ' :: (strip comment chars).1, (strip comment chars).2)
    | none =>
      ((step state ch).1 :: (strip (step state ch).2 (peek :: chars)).1,
        (strip (step state ch).2 (peek :: chars)).2)

/-- Whether a character is part of a comment that was opened before it. -/
def covers : State → Char → Bool
  | lineComment, ch => ch ≠ '\n'
  | blockComment, _ | blockCommentStar, _ => true
  | _, _ => false

/-- The characters, each with whether it is part of a comment. -/
def marked : State → List Char → List (Char × Bool)
  | _, [] => []
  | state, [ch] => [(ch, covers state ch)]
  | state, ch :: peek :: chars =>
    match opens state ch peek with
    | some comment => (ch, true) :: (peek, true) :: marked comment chars
    | none => (ch, covers state ch) :: marked (step state ch).2 (peek :: chars)

/-- The state without its comment. -/
def outside : State → State
  | lineComment | blockComment | blockCommentStar => code
  | state => state

end State

open State

def stripComments (input : List Char) : Except String (List Char) :=
  match (strip code input).2 with
  | blockComment | blockCommentStar => .error "unterminated block comment"
  | string | escape => .error "unterminated JSON string"
  | _ => .ok (strip code input).1

def bytes (text : List Char) : List UInt8 := text.flatMap String.utf8EncodeChar

/-- The bytes, each with whether it is part of a comment. -/
def markedBytes (input : List Char) : List (UInt8 × Bool) :=
  (marked code input).flatMap fun mark => (String.utf8EncodeChar mark.1).map (·, mark.2)

/-- A byte or character stays, or is blanked in a comment and is not a newline. -/
def Blanked (newline space : α) (mark : α × Bool) (output : α) : Prop :=
  output = mark.1 ∨ mark.2 ∧ mark.1 ≠ newline ∧ output = space

theorem opens_some {state comment ch peek} (h : opens state ch peek = some comment)
    : state = code ∧ ch = '/' ∧ (peek = '/' ∨ peek = '*') ∧ comment.outside = code := by
  grind [opens, outside]

/-- What is pushed for a character: a blank may stand for it in a comment, and one byte is pushed
there whatever its width.
-/
def Pushed (mark : Char × Bool) (output : Char) : Prop :=
  Blanked '\n' ' ' mark output ∧ (mark.2 → output.utf8Size = 1)

theorem blank_narrow (ch) : (blank ch).utf8Size = 1 := by
  rw [blank]
  split
  next h => rcases h with rfl | rfl <;> rfl
  · rfl

theorem step_pushed (state ch) : Pushed (ch, covers state ch) (step state ch).1 := by
  constructor
  · cases state <;> simp only [step, covers, Blanked, blank] <;> grind
  · intro hc
    cases state with
    | lineComment => simp_all [step, covers, show ' '.utf8Size = 1 from rfl]
    | blockComment | blockCommentStar => exact blank_narrow ch
    | code | string | escape => cases hc

theorem strip_pushed (state input)
    : Forall₂ Pushed (marked state input) (strip state input).1 := by
  fun_induction strip state input with
  | case1 => exact .nil
  | case2 state ch => exact .cons (step_pushed state ch) .nil
  | case3 state ch peek chars _ h ih =>
    simp only [marked, h]
    obtain ⟨_, rfl, hp, _⟩ := opens_some h
    have hn : peek ≠ '\n' := by rintro rfl; simp at hp
    exact .cons ⟨.inr ⟨rfl, by decide, rfl⟩, fun _ => rfl⟩
      (.cons ⟨.inr ⟨rfl, hn, rfl⟩, fun _ => rfl⟩ ih)
  | case4 state ch peek chars h ih =>
    simp only [marked, h]
    exact .cons (step_pushed state ch) ih

/-- Where no comment is opened, one character is read. -/
theorem strip_cons {state ch} {chars : List Char}
    (h : ∀ peek ∈ chars.head?, opens state ch peek = none)
    : strip state (ch :: chars)
      = ((step state ch).1 :: (strip (step state ch).2 chars).1,
          (strip (step state ch).2 chars).2) := by
  cases chars with
  | nil => rfl
  | cons peek chars => rw [strip, h peek rfl]

theorem step_step (state ch)
    : step state.outside (step state ch).1 = ((step state ch).1, (step state ch).2.outside) := by
  cases state <;> simp only [step, outside, blank] <;> grind [step, outside]

/-- A slash is pushed for a slash outside of comments only. -/
theorem step_slash {state ch} (h : state.outside = code ∧ (step state ch).1 = '/')
    : state = code ∧ ch = '/' := by
  cases state <;> grind [step, outside, blank]

theorem strip_strip (state input)
    : strip state.outside (strip state input).1
      = ((strip state input).1, (strip state input).2.outside) := by
  fun_induction strip state input with
  | case1 => rfl
  | case2 state ch => rw [strip, step_step]
  | case3 state ch peek chars comment h ih =>
    obtain ⟨rfl, _, _, hc⟩ := opens_some h
    rw [hc] at ih
    have space (chars) : strip code (' ' :: chars)
        = (' ' :: (strip code chars).1, (strip code chars).2) := strip_cons (by simp [opens])
    simp only [outside, space, ih]
  | case4 state ch peek chars h ih =>
    rw [strip_cons, step_step, ih]
    intro next hn
    by_contra opened
    obtain ⟨comment, opened⟩ := Option.ne_none_iff_exists'.mp opened
    obtain ⟨hs, hc, hp, _⟩ := opens_some opened
    obtain ⟨rfl, rfl⟩ := step_slash ⟨hs, hc⟩
    -- The character after the slash opens no comment and is pushed as it is.
    have plain : peek ≠ '/' ∧ peek ≠ '*' := by grind [opens]
    rw [show (step code '/').2 = code from rfl, strip_cons (by simp [opens, plain])] at hn
    cases Option.some_inj.mp hn
    simp [step, plain] at hp

theorem encode_blanked {mark : Char × Bool} {output}
    (narrow : mark.2 → mark.1.utf8Size = 1) (h : Blanked '\n' ' ' mark output)
    : Forall₂ (Blanked 10 32) ((String.utf8EncodeChar mark.1).map (·, mark.2))
        (String.utf8EncodeChar output) := by
  rcases h with rfl | ⟨hm, hn, rfl⟩
  · rw [forall₂_map_left_iff]
    exact forall₂_same.mpr fun byte _ => .inl rfl
  · rw [String.utf8EncodeChar_eq_singleton (narrow hm)]
    refine .cons (.inr ⟨hm, fun he => hn (Char.val_inj.mp (UInt32.toNat_inj.mp ?_)), rfl⟩) .nil
    have hs : mark.1.val.toNat ≤ 127 :=
      UInt32.le_iff_toNat_le.mp (Char.utf8Size_eq_one_iff.mp (narrow hm))
    have low := congrArg UInt8.toNat he
    rw [UInt32.toNat_toUInt8] at low
    exact (Nat.mod_eq_of_lt (by omega)).symm.trans low

theorem map_marked (state input) : (marked state input).map (·.1) = input := by
  fun_induction marked state input <;> simp [*]

/-- Blanking never lengthens a text, and shortens it where a wide character is blanked. By
induction on the marks: the two lengths can only be equal if they are so at every mark.
-/
theorem narrow_of_length {marks : List (Char × Bool)} {output : List Char}
    (pushed : Forall₂ Pushed marks output)
    : (bytes output).length ≤ (bytes (marks.map (·.1))).length
      ∧ ((bytes output).length = (bytes (marks.map (·.1))).length →
        ∀ mark ∈ marks, mark.2 → mark.1.utf8Size = 1) := by
  induction pushed with
  | nil => simp
  | @cons mark ch marks output head _ ih =>
    obtain ⟨hle, all⟩ := ih
    have hs : ch.utf8Size ≤ mark.1.utf8Size := by
      rcases head.1 with rfl | ⟨_, _, rfl⟩
      · exact Nat.le_refl _
      · exact mark.1.utf8Size_pos
    simp only [bytes, map_cons, flatMap_cons, length_append,
      String.length_utf8EncodeChar] at hle all ⊢
    refine ⟨by omega, fun he => forall_mem_cons.mpr ⟨fun hm => ?_, all (by omega)⟩⟩
    have one := head.2 hm
    omega

end Zay.Common
