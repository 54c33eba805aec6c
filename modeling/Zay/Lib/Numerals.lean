import Mathlib.Algebra.Ring.Nat

/-! Numerals: reading the digits at the start of a text, and numbers as a fixed count of
digits of some base, most significant first.
-/

namespace Zay.Lib

/-- The value of a digit in a radix up to 36, in either case. -/
def digitValue (radix : Nat) (char : Char) : Option Nat :=
  let value :=
    if '0' ≤ char ∧ char ≤ '9' then some (char.toNat - '0'.toNat)
    else if 'a' ≤ char ∧ char ≤ 'z' then some (char.toNat - 'a'.toNat + 10)
    else if 'A' ≤ char ∧ char ≤ 'Z' then some (char.toNat - 'A'.toNat + 10)
    else none
  value.filter (· < radix)

/-- The values of the digits a text starts with, and the rest of the text. -/
def splitDigits (radix : Nat) : List Char → List Nat × List Char
  | [] => ([], [])
  | char :: text =>
    match digitValue radix char with
    | some digit =>
      let split := splitDigits radix text
      (digit :: split.1, split.2)
    | none => ([], char :: text)

def ofDigits (base : Nat) (digits : List Nat) : Nat :=
  digits.foldl (fun value digit => value * base + digit) 0

/-- The text ends, or goes on with a character that is no digit. -/
def DigitFree (radix : Nat) (text : List Char) : Prop :=
  ∀ char ∈ text.head?, digitValue radix char = none

variable {radix : Nat}

theorem splitDigits_of_digitFree {text} (h : DigitFree radix text)
    : splitDigits radix text = ([], text) := by
  cases text with
  | nil => rfl
  | cons char text => simp [splitDigits, h char rfl]

/-- Digits that are followed by something else. -/
theorem splitDigits_append {text rest} (all : (splitDigits radix text).2 = [])
    (he : DigitFree radix rest)
    : splitDigits radix (text ++ rest) = ((splitDigits radix text).1, rest) := by
  induction text with
  | nil => exact splitDigits_of_digitFree he
  | cons char text ih =>
    cases digit : digitValue radix char with
    | none => simp [splitDigits, digit] at all
    | some _ =>
      simp only [splitDigits, digit] at all
      simp [splitDigits, digit, ih all]

theorem ofDigits_append (base digits last)
    : ofDigits base (digits ++ [last]) = ofDigits base digits * base + last := by
  simp [ofDigits]

/-- The last `count` digits of `value`. -/
def toBase (base : Nat) : (count : Nat) → (value : Nat) → List Nat
  | 0, _ => []
  | count + 1, value => toBase base count (value / base) ++ [value % base]

theorem lt_of_mem_toBase {base count value digit} (hpos : 0 < base)
    (h : digit ∈ toBase base count value)
    : digit < base := by
  induction count generalizing value with
  | zero => simp [toBase] at h
  | succ count ih =>
    rw [toBase, List.mem_append, List.mem_singleton] at h
    rcases h with upper | rfl
    · exact ih upper
    · exact Nat.mod_lt value hpos

theorem ofDigits_toBase {base count value} (h : value < base ^ count)
    : ofDigits base (toBase base count value) = value := by
  induction count generalizing value with
  | zero => simp_all [toBase, ofDigits]
  | succ count ih =>
    have upper : value / base < base ^ count := by
      refine Nat.div_lt_of_lt_mul ?_
      rwa [Nat.mul_comm, ← Nat.pow_succ]
    rw [toBase, ofDigits_append, ih upper]
    exact Nat.div_add_mod' value base

end Zay.Lib
