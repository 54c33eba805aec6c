import Mathlib.Data.List.Infix

/-! The options that a server pushes to an OpenVPN client (`protocol/openvpn/pull_options.rs`).
The filters of the client compare the text of a line, its option is what the words say. All that
the parser looks for is ASCII, so that a line is a list of characters here.
-/

namespace Zay.OpenVpn

open List Option Bool

structure PullFilter where
  action : String
  text : List Char
  deriving Repr, DecidableEq

/-- `apply_pull_filters`: whether a line is allowed, and whether it is rejected. -/
def applyPullFilters (optionLine : List Char) : List PullFilter → Bool × Bool
  | [] => (true, false)
  | filter :: filters =>
    if filter.text <+: optionLine then
      if filter.action = "accept" then (true, false)
      else if filter.action = "ignore" then (false, false)
      else if filter.action = "reject" then (false, true)
      else applyPullFilters optionLine filters
    else applyPullFilters optionLine filters

def pushedOptionLineMaxParameters : Nat := 16

def space (char : Char) : Bool :=
  char ∈ ['\x00', ' ', '\t', '\n', '\x0b', '\x0c', '\r']

inductive WordState where
  | initial
  | quoted
  | singleQuoted
  | unquoted
  deriving Repr, DecidableEq

/-- The character after a word. -/
def WordState.ends (backslash : Bool) (char : Char) : WordState → Bool
  | .initial => false
  | .unquoted => !backslash && space char
  | .quoted => !backslash && char = '"'
  | .singleQuoted => char = '\''

/-- What a character outside of words begins; `none` is a comment. -/
def begins (backslash : Bool) (char : Char) : Option WordState :=
  if space char then some .initial
  else if char = ';' ∨ char = '#' then none
  else if !backslash && char = '"' then some .quoted
  else if !backslash && char = '\'' then some .singleQuoted
  else some .unquoted

def stored (parameter : List Char) (char : Char) : List Char :=
  if char = '\x00' then parameter else parameter ++ [char]

/-- The loop of `parse_pushed_option_line`. -/
def parseFrom (parameters : List (List Char)) (parameter : List Char) (state : WordState)
    (backslash : Bool) : List Char → Option (List (List Char))
  | [] => if state = .initial ∧ parameters ≠ [] then some parameters else none
  | char :: line =>
    if !backslash && char = '\\' && state ≠ .singleQuoted then
      parseFrom parameters parameter state true line
    else if backslash && char ≠ '\\' && char ≠ '"' && !space char then none
    else if state = .initial then
      match begins backslash char with
      | none => if parameters ≠ [] then some parameters else none
      | some .unquoted => parseFrom parameters (stored parameter char) .unquoted false line
      | some state => parseFrom parameters parameter state false line
    else if state.ends backslash char then
      if pushedOptionLineMaxParameters ≤ parameters.length + 1 then some (parameters ++ [parameter])
      else parseFrom (parameters ++ [parameter]) [] .initial false line
    else parseFrom parameters (stored parameter char) state false line

/-- The end of a line is read as a zero. -/
def parsePushedOptionLine (line : List Char) : Option (List (List Char)) :=
  parseFrom [] [] .initial false (line ++ ['\x00'])

def trimmed (line : List Char) : List Char :=
  line.dropWhile fun char => space char && char ≠ '\x00'

variable {ω : Type} (apply : List Char → List Char → ω → ω) (filters : List PullFilter)

/-- The loop of `decode_push_reply_option_lines`, with the line that was rejected. `apply` is its
match, on the name of the option in lower case and on its value.
-/
def decodePushReplyOptionLines (wire : ω) : List (List Char) → ω × List Char
  | [] => (wire, [])
  | line :: lines =>
    match applyPullFilters (trimmed line) filters with
    | (_, true) => (wire, trimmed line)
    | (false, false) => decodePushReplyOptionLines wire lines
    | (true, false) =>
      match parsePushedOptionLine line with
      | some (name :: values) =>
        decodePushReplyOptionLines
          (apply (name.map Char.toLower) ([' '].intercalate values) wire) lines
      | _ => decodePushReplyOptionLines wire lines

/-- The option of a line, whatever the case of its name. -/
def optionOf (line : List Char) : Option (List (List Char)) :=
  (parsePushedOptionLine line).map (·.modifyHead (·.map Char.toLower))

/-- A character that stands for itself wherever it is. -/
def plain (char : Char) : Bool :=
  !space char && char ∉ ['\\', '"', '\'', ';', '#']

/-- A line that consists of its words as they are, with a blank between them. -/
structure Plain (words : List (List Char)) (line : List Char) : Prop where
  nonempty : words ≠ []
  few : words.length ≤ pushedOptionLineMaxParameters
  proper : ∀ word ∈ words, word ≠ [] ∧ word.all plain
  lower : words.modifyHead (·.map Char.toLower) = words
  text : trimmed line = [' '].intercalate words

theorem parseFrom_trimmed (line rest)
    : parseFrom [] [] .initial false (line ++ rest)
      = parseFrom [] [] .initial false (trimmed line ++ rest) := by
  induction line with
  | nil => rfl
  | cons char line ih =>
    rw [trimmed, dropWhile_cons]
    split
    next leading =>
      have hb : space char := (and_eq_true_iff.mp leading).1
      have other : char ≠ '\\' := by
        rintro rfl
        cases hb
      rw [cons_append, ← trimmed, ← ih, parseFrom]
      simp [other, begins, hb]
    · rfl

theorem parseFrom_plain {parameters parameter state char rest} (proper : plain char)
    (ho : state = .initial ∨ state = .unquoted)
    : parseFrom parameters parameter state false (char :: rest)
      = parseFrom parameters (parameter ++ [char]) .unquoted false rest := by
  have visible : space char = false := by
    simpa using (and_eq_true_iff.mp proper).1
  have zero : char ≠ '\x00' := by
    rintro rfl
    cases visible
  simp only [plain, visible, mem_cons] at proper
  rcases ho with rfl | rfl
  · simp_all [parseFrom, begins, stored]
  · simp_all [parseFrom, WordState.ends, stored]

theorem parseFrom_word {parameters parameter word separator rest}
    (proper : ∀ char ∈ word, plain char) (separates : separator = ' ' ∨ separator = '\x00')
    : parseFrom parameters parameter .unquoted false (word ++ separator :: rest)
      = if pushedOptionLineMaxParameters ≤ parameters.length + 1
        then some (parameters ++ [parameter ++ word])
        else parseFrom (parameters ++ [parameter ++ word]) [] .initial false rest := by
  induction word generalizing parameter with
  | nil =>
    rw [nil_append, append_nil]
    rcases separates with rfl | rfl <;> rfl
  | cons char word ih =>
    obtain ⟨first, proper⟩ := forall_mem_cons.mp proper
    rw [cons_append, parseFrom_plain first (.inr rfl), ih proper, append_assoc]
    rfl

/-- Plain words between single blanks are read as they are. -/
theorem parseFrom_words {parameters words} (hnil : words ≠ [])
    (few : parameters.length + words.length ≤ pushedOptionLineMaxParameters)
    (proper : ∀ word ∈ words, word ≠ [] ∧ word.all plain)
    : parseFrom parameters [] .initial false ([' '].intercalate words ++ ['\x00'])
      = some (parameters ++ words) := by
  induction words generalizing parameters with
  | nil => exact absurd rfl hnil
  | cons word words ih =>
    obtain ⟨⟨written, visible⟩, hr⟩ := forall_mem_cons.mp proper
    obtain ⟨char, word, rfl⟩ := exists_cons_of_ne_nil written
    obtain ⟨first, visible⟩ := forall_mem_cons.mp (all_eq_true.mp visible)
    cases words with
    | nil =>
      rw [intercalate_singleton, cons_append, parseFrom_plain first (.inl rfl),
        parseFrom_word visible (.inr rfl)]
      split
      · rfl
      · simp [parseFrom]
    | cons next words =>
      simp only [length_cons] at few
      have room : ¬ pushedOptionLineMaxParameters ≤ parameters.length + 1 := by omega
      have hf : (parameters ++ [char :: word]).length + (next :: words).length
          ≤ pushedOptionLineMaxParameters := by
        simp only [length_append, length_cons, length_nil]
        omega
      rw [intercalate_cons_cons, append_assoc, append_assoc, cons_append,
        parseFrom_plain first (.inl rfl), singleton_append, parseFrom_word visible (.inl rfl),
        if_neg room]
      simpa using ih (cons_ne_nil next words) hf hr

theorem Plain.parse {words line} (spelled : Plain words line)
    : parsePushedOptionLine line = some words := by
  rw [parsePushedOptionLine, parseFrom_trimmed, spelled.text]
  exact parseFrom_words spelled.nonempty (by simpa using spelled.few) spelled.proper

inductive Treatment where
  | applied
  | ignored
  | rejected
  deriving Repr, DecidableEq

def PullFilter.effect (filter : PullFilter) : Option Treatment :=
  if filter.action = "accept" then some .applied
  else if filter.action = "ignore" then some .ignored
  else if filter.action = "reject" then some .rejected
  else none

/-- The effect of the first filter that has one and whose text begins the line's text. -/
def firstEffect (filters : List PullFilter) (text : List Char) : Treatment :=
  ((filters.filter (·.text <+: text)).findSome? PullFilter.effect).getD .applied

/-- Two lines have the same effect among any others: both are applied, both ignored or both
rejected, where the text of the rejection is the line's own.
-/
def Alike (filters : List PullFilter) (line other : List Char) : Prop :=
  ∀ {ω : Type} (apply : List Char → List Char → ω → ω) (wire : ω) (front back : List (List Char)),
    (decodePushReplyOptionLines apply filters wire (front ++ line :: back)).1
        = (decodePushReplyOptionLines apply filters wire (front ++ other :: back)).1
      ∧ ((decodePushReplyOptionLines apply filters wire (front ++ line :: back)).2 = []
        ↔ (decodePushReplyOptionLines apply filters wire (front ++ other :: back)).2 = [])

/-- The option of the line never takes effect. -/
def Stopped (filters : List PullFilter) (line : List Char) : Prop :=
  ∀ {ω : Type} (apply : List Char → List Char → ω → ω) (wire : ω),
    (decodePushReplyOptionLines apply filters wire [line]).1 = wire

/-- The loop over the filters stops at the first one with an effect, by induction over them. -/
theorem applyPullFilters_eq (text)
    : applyPullFilters text filters
      = (decide (firstEffect filters text = .applied),
        decide (firstEffect filters text = .rejected)) := by
  induction filters with
  | nil => rfl
  | cons filter filters ih =>
    rw [applyPullFilters]
    by_cases begun : filter.text <+: text
    · simp only [begun, if_true, firstEffect, decide_true, filter_cons_of_pos, findSome?_cons,
        PullFilter.effect]
      split_ifs
      · rfl
      · rfl
      · rfl
      · exact ih
    · rw [if_neg begun, ih, firstEffect, firstEffect, filter_cons_of_neg (by simpa using begun)]

section

variable {filters} {line other name : List Char} {values : List (List Char)}

/-- A line with an option, by the effect that the filters have on its text. -/
theorem decode_cons (option : optionOf line = some (name :: values)) (wire : ω) (back)
    : decodePushReplyOptionLines apply filters wire (line :: back)
      = match firstEffect filters (trimmed line) with
        | .rejected => (wire, trimmed line)
        | .ignored => decodePushReplyOptionLines apply filters wire back
        | .applied => decodePushReplyOptionLines apply filters
            (apply name ([' '].intercalate values) wire) back := by
  obtain ⟨words, parsed, he⟩ := map_eq_some_iff.mp option
  cases words with
  | nil => cases he
  | cons first rest =>
    cases he
    rw [decodePushReplyOptionLines, applyPullFilters_eq]
    cases firstEffect filters (trimmed line) <;> simp [parsed]

theorem trimmed_ne_nil (option : optionOf line = some (name :: values)) : trimmed line ≠ [] := by
  intro empty
  rw [optionOf, parsePushedOptionLine, parseFrom_trimmed, empty] at option
  cases option

/-- The effect of the filters is all that tells two spellings of an option apart. Conversely the
list of applied options and the rejection show the effect, by its cases.
-/
theorem alike_iff (option : optionOf line = some (name :: values))
    (same : optionOf other = some (name :: values))
    : Alike filters line other
      ↔ firstEffect filters (trimmed line) = firstEffect filters (trimmed other) := by
  constructor
  · intro alike
    have shown := alike (fun name _ names => name :: names) [] [] []
    simp only [nil_append, decode_cons _ option, decode_cons _ same,
      decodePushReplyOptionLines] at shown
    have hn := trimmed_ne_nil option
    have ho := trimmed_ne_nil same
    cases hl : firstEffect filters (trimmed line) <;>
      cases hr : firstEffect filters (trimmed other) <;> simp_all
  · intro he ω apply wire front back
    induction front generalizing wire with
    | nil =>
      rw [nil_append, nil_append, decode_cons _ option, decode_cons _ same, he]
      have hn := trimmed_ne_nil option
      have ho := trimmed_ne_nil same
      cases firstEffect filters (trimmed other) <;> simp_all
    | cons _ front ih =>
      simp only [cons_append, decodePushReplyOptionLines]
      split <;> try split
      all_goals simp [ih]

/-- An option is stopped exactly when the first filter on its text does so. -/
theorem stopped_iff (option : optionOf line = some (name :: values))
    : Stopped filters line ↔ firstEffect filters (trimmed line) ≠ .applied := by
  constructor
  · intro stopped he
    have shown := stopped (fun _ _ _ => true) false
    rw [decode_cons _ option, he] at shown
    cases shown
  · intro hne ω apply wire
    rw [decode_cons _ option]
    cases he : firstEffect filters (trimmed line) with
    | applied => exact absurd he hne
    | ignored | rejected => rfl

end

/-- For any filters two lines with the same option are treated alike exactly when the first
filters to have an effect on their texts have the same effect. So only lines with one text are
treated alike by all filters, and a line evades filters that stop the plain spelling of its option
exactly when the first of them to have an effect on the line's own text, if any, accepts it.
-/
theorem pull_filters_spelling (filters : List PullFilter) {line other name : List Char}
    {values : List (List Char)} (option : optionOf line = some (name :: values))
    (same : optionOf other = some (name :: values))
    : (Alike filters line other
        ↔ firstEffect filters (trimmed line) = firstEffect filters (trimmed other))
      ∧ ((∀ filters, Alike filters line other) ↔ trimmed line = trimmed other)
      ∧ ∀ plainLine, Plain (name :: values) plainLine →
        optionOf plainLine = some (name :: values)
        ∧ (Stopped filters plainLine ∧ ¬ Stopped filters line
          ↔ firstEffect filters ([' '].intercalate (name :: values)) ≠ .applied
            ∧ firstEffect filters (trimmed line) = .applied) := by
  refine ⟨alike_iff option same, ⟨fun alike => ?_, fun text filters => ?_⟩,
    fun plainLine spelled => ?_⟩
  · -- A filter that ignores the one text has to ignore the other.
    have begins (text) (begun : text = trimmed line ∨ text = trimmed other)
        : text <+: trimmed line ∧ text <+: trimmed other := by
      have he := (alike_iff option same).mp (alike [⟨"ignore", text⟩])
      rcases begun with rfl | rfl <;>
        by_contra apart <;> simp_all [firstEffect, filter_cons, PullFilter.effect]
    exact (begins _ (.inl rfl)).2.eq_of_length_le (begins _ (.inr rfl)).1.length_le
  · rw [alike_iff option same, text]
  · have he : optionOf plainLine = some (name :: values) := by
      rw [optionOf, spelled.parse, map_some, spelled.lower]
    rw [stopped_iff he, stopped_iff option, Classical.not_not, spelled.text]
    exact ⟨he, Iff.rfl⟩

/-- The names of the options of a line, for a client that ignores routes. -/
def namesOf (line : String) : List (List Char) :=
  (decodePushReplyOptionLines (fun name _ names => name :: names) [⟨"ignore", "route".toList⟩] []
    [line.toList]).1

theorem pull_filters_spelling_route
    : namesOf "route \"10.0.0.0\"" = namesOf "\troute 10.0.0.0" := by
  have option : optionOf "route \"10.0.0.0\"".toList
      = some ["route".toList, "10.0.0.0".toList] := by
    decide
  have same : optionOf "\troute 10.0.0.0".toList = some ["route".toList, "10.0.0.0".toList] := by
    decide
  exact ((pull_filters_spelling _ option same).1.mpr (by decide) _ [] [] []).1

/-- The server quotes the name. -/
theorem pull_filters_evaded
    : optionOf "\"route\" 10.0.0.0".toList = optionOf "route 10.0.0.0".toList
      ∧ namesOf "route 10.0.0.0" = [] ∧ namesOf "\"route\" 10.0.0.0" = ["route".toList] := by
  decide

end Zay.OpenVpn
