import Mathlib.Data.List.Infix

/-! The string operations of the Rust standard library that the program uses. A string is
a sequence of Unicode scalar values in both languages.
-/

namespace Zay

variable (text : String)

/-- `str::trim_end_matches` with a single character. -/
def trimEndMatches (char : Char) : String :=
  String.ofList (text.toList.reverse.dropWhile (· == char)).reverse

/-- `str::trim_start_matches` with a single character. -/
def trimStartMatches (char : Char) : String :=
  String.ofList (text.toList.dropWhile (· == char))

/-- `str::to_ascii_lowercase`. -/
def toAsciiLowercase : String :=
  String.ofList (text.toList.map Char.toLower)

/-- `str::eq_ignore_ascii_case`. -/
def eqIgnoreAsciiCase (left right : String) : Bool :=
  toAsciiLowercase left = toAsciiLowercase right

/-- `str::contains` with a string. -/
def containsText (part : String) : Bool :=
  part.toList <:+: text.toList

/-- `str::strip_suffix` with a string. -/
def stripSuffix (suffix : String) : Option String :=
  if suffix.toList <:+ text.toList then
    some (String.ofList (text.toList.take (text.toList.length - suffix.toList.length)))
  else none

/-- `str::ends_with` with a character. -/
def endsWithChar (char : Char) : Bool :=
  text.toList.getLast? = some char

/-- `str::starts_with` with a character. -/
def startsWithChar (char : Char) : Bool :=
  text.toList.head? = some char

/-- `char::is_whitespace`. -/
def isWhitespace (char : Char) : Bool :=
  (0x09 ≤ char.toNat && char.toNat ≤ 0x0d) || (0x2000 ≤ char.toNat && char.toNat ≤ 0x200a)
    || char.toNat ∈ [0x20, 0x85, 0xa0, 0x1680, 0x2028, 0x2029, 0x202f, 0x205f, 0x3000]

/-- `str::trim`. -/
def trim : String :=
  String.ofList ((text.toList.dropWhile isWhitespace).reverse.dropWhile isWhitespace).reverse

/-- `str::len`, which counts bytes. -/
def byteLength (text : List Char) : Nat :=
  text.foldl (fun size char => size + char.utf8Size) 0

end Zay
