/-!
# Tokens of JSON texts

The lexical level of JSON: brackets, commas, colons, strings, numbers and the three literals, with
blanks between them. A string token keeps the text it stands for, if it stands for one: an escape may
name half of a surrogate pair, which no text contains. A number token keeps its value if it is written
as a plain unsigned integer.
-/

namespace ObliviousRouting.Json

inductive Token where
  | openBrace
  | closeBrace
  | openBracket
  | closeBracket
  | comma
  | colon
  | literal
  /-- A string, with its text unless an escape leaves half of a surrogate pair alone. -/
  | string (text? : Option String)
  /-- A number, with its value if it is written without sign, fraction and exponent. -/
  | number (value? : Option Nat)
deriving DecidableEq, Repr

/-- What is read at the front of a text, and the rest, which is shorter. -/
structure Front (α : Type) (text : List Char) where
  value : α
  rest : List Char
  shorter : rest.length < text.length

def isBlank (c : Char) : Bool :=
  c = ' ' || c = '\n' || c = '\t' || c = '\r'

/-! ### Strings -/

def hexDigit? (c : Char) : Option Nat :=
  if '0' ≤ c ∧ c ≤ '9' then some (c.toNat - '0'.toNat)
  else if 'a' ≤ c ∧ c ≤ 'f' then some (c.toNat - 'a'.toNat + 10)
  else if 'A' ≤ c ∧ c ≤ 'F' then some (c.toNat - 'A'.toNat + 10)
  else none

/-- The character that a backslash and one character stand for. -/
def escape? : Char → Option Char
  | '"' => some '"'
  | '\\' => some '\\'
  | '/' => some '/'
  | 'b' => some '\x08'
  | 'f' => some '\x0c'
  | 'n' => some '\n'
  | 'r' => some '\r'
  | 't' => some '\t'
  | _ => none

/-- The code units of a string whose opening quote has been read: code points for characters and
simple escapes, and whatever number a hexadecimal escape gives. -/
def units? : (text : List Char) → Option (Front (List Nat) text)
  | [] => none
  | '"' :: rest => some ⟨[], rest, by simp⟩
  | '\\' :: 'u' :: a :: b :: c :: d :: rest => do
    let a ← hexDigit? a
    let b ← hexDigit? b
    let c ← hexDigit? c
    let d ← hexDigit? d
    let tail ← units? rest
    return ⟨(4096 * a + 256 * b + 16 * c + d) :: tail.value, tail.rest,
      by have := tail.shorter; simp only [List.length_cons]; omega⟩
  | '\\' :: c :: rest => do
    let c ← escape? c
    let tail ← units? rest
    return ⟨c.toNat :: tail.value, tail.rest,
      by have := tail.shorter; simp only [List.length_cons]; omega⟩
  | c :: rest =>
    if c < ' ' then none else do
      let tail ← units? rest
      return ⟨c.toNat :: tail.value, tail.rest,
        by have := tail.shorter; simp only [List.length_cons]; omega⟩

/-- The text that code units stand for: the halves of a surrogate pair have to come together. -/
def joinSurrogates? : List Nat → Option (List Char)
  | [] => some []
  | high :: low :: rest =>
    if 0xD800 ≤ high ∧ high ≤ 0xDBFF then
      if 0xDC00 ≤ low ∧ low ≤ 0xDFFF then
        (joinSurrogates? rest).map
          (Char.ofNat (0x10000 + 0x400 * (high - 0xD800) + (low - 0xDC00)) :: ·)
      else none
    else if 0xDC00 ≤ high ∧ high ≤ 0xDFFF then none
    else (joinSurrogates? (low :: rest)).map (Char.ofNat high :: ·)
  | [unit] => if 0xD800 ≤ unit ∧ unit ≤ 0xDFFF then none else some [Char.ofNat unit]

/-! ### Numbers -/

def ofDigits (digits : List Char) : Nat :=
  digits.foldl (fun n c => 10 * n + (c.toNat - '0'.toNat)) 0

def dropDigits? (text : List Char) : Option (List Char) :=
  if text.head?.any Char.isDigit then some (text.dropWhile Char.isDigit) else none

def dropSign : List Char → List Char
  | '+' :: rest => rest
  | '-' :: rest => rest
  | text => text

/-- Drops a fraction, if there is one: a point with digits after it. The answer tells whether
something was dropped. -/
def dropFraction? (text : List Char) : Option (Bool × List Char) :=
  match text with
  | '.' :: rest => (dropDigits? rest).map (true, ·)
  | rest => some (false, rest)

/-- Drops an exponent, if there is one: a letter, perhaps a sign, and digits. -/
def dropExponent? (text : List Char) : Option (Bool × List Char) :=
  match text with
  | 'e' :: rest => (dropDigits? (dropSign rest)).map (true, ·)
  | 'E' :: rest => (dropDigits? (dropSign rest)).map (true, ·)
  | rest => some (false, rest)

/-- Reads the digits of an integer. A zero is never followed by a digit of the same integer. -/
def integerDigits? (text : List Char) : Option (List Char × List Char) :=
  match text with
  | [] => none
  | c :: rest =>
    if c = '0' then some ([c], rest)
    else if c.isDigit then some (c :: rest.takeWhile Char.isDigit, rest.dropWhile Char.isDigit)
    else none

def unsigned? (text : List Char) : Option (Option Nat × List Char) := do
  let (digits, rest) ← integerDigits? text
  let (fraction, rest) ← dropFraction? rest
  let (exponent, rest) ← dropExponent? rest
  return (if fraction || exponent then none else some (ofDigits digits), rest)

/-- Reads a number; one with a sign keeps no value. -/
def number? (text : List Char) : Option (Option Nat × List Char) :=
  match text with
  | '-' :: rest => (unsigned? rest).map fun (_, rest) => (none, rest)
  | _ => unsigned? text

/-! ### Token lists -/

def token? (text : List Char) : Option (Token × List Char) :=
  match text with
  | [] => none
  | '{' :: rest => some (.openBrace, rest)
  | '}' :: rest => some (.closeBrace, rest)
  | '[' :: rest => some (.openBracket, rest)
  | ']' :: rest => some (.closeBracket, rest)
  | ',' :: rest => some (.comma, rest)
  | ':' :: rest => some (.colon, rest)
  | 't' :: 'r' :: 'u' :: 'e' :: rest => some (.literal, rest)
  | 'f' :: 'a' :: 'l' :: 's' :: 'e' :: rest => some (.literal, rest)
  | 'n' :: 'u' :: 'l' :: 'l' :: rest => some (.literal, rest)
  | '"' :: rest =>
    (units? rest).map fun tail =>
      (.string ((joinSurrogates? tail.value).map String.ofList), tail.rest)
  | _ => (number? text).map fun (value, rest) => (.number value, rest)

theorem length_dropDigits? {text rest : List Char} (h : dropDigits? text = some rest) :
    rest.length ≤ text.length := by
  simp only [dropDigits?] at h
  split at h
  · cases h
    exact (List.dropWhile_sublist _).length_le
  · cases h

theorem length_dropSign (text : List Char) : (dropSign text).length ≤ text.length := by
  simp only [dropSign]
  split <;> simp

theorem length_dropFraction? {text : List Char} {dropped : Bool × List Char}
    (h : dropFraction? text = some dropped) : dropped.2.length ≤ text.length := by
  simp only [dropFraction?] at h
  split at h
  · obtain ⟨rest, hr, rfl⟩ := Option.map_eq_some_iff.1 h
    exact Nat.le_succ_of_le (length_dropDigits? hr)
  · cases h
    exact Nat.le_refl _

theorem length_dropExponent? {text : List Char} {dropped : Bool × List Char}
    (h : dropExponent? text = some dropped) : dropped.2.length ≤ text.length := by
  simp only [dropExponent?] at h
  split at h
  · obtain ⟨rest, hr, rfl⟩ := Option.map_eq_some_iff.1 h
    exact Nat.le_succ_of_le (Nat.le_trans (length_dropDigits? hr) (length_dropSign _))
  · obtain ⟨rest, hr, rfl⟩ := Option.map_eq_some_iff.1 h
    exact Nat.le_succ_of_le (Nat.le_trans (length_dropDigits? hr) (length_dropSign _))
  · cases h
    exact Nat.le_refl _

theorem length_integerDigits? {text digits rest : List Char}
    (h : integerDigits? text = some (digits, rest)) : rest.length < text.length := by
  simp only [integerDigits?] at h
  split at h
  · cases h
  · split at h
    · cases h
      exact Nat.lt_succ_self _
    · split at h
      · cases h
        exact Nat.lt_succ_of_le (List.dropWhile_sublist _).length_le
      · cases h

theorem length_unsigned? {text rest : List Char} {value? : Option Nat}
    (h : unsigned? text = some (value?, rest)) : rest.length < text.length := by
  simp only [unsigned?, Option.bind_eq_bind, Option.bind_eq_some_iff] at h
  obtain ⟨⟨digits, r₁⟩, hd, ⟨fraction, r₂⟩, hf, ⟨exponent, r₃⟩, he, h⟩ := h
  have h₁ := length_integerDigits? hd
  have h₂ := length_dropFraction? hf
  have h₃ := length_dropExponent? he
  cases h
  exact Nat.lt_of_le_of_lt (Nat.le_trans h₃ h₂) h₁

theorem length_token? {text rest : List Char} {token : Token}
    (h : token? text = some (token, rest)) : rest.length < text.length := by
  simp only [token?] at h
  split at h
  case h_11 r =>
    obtain ⟨tail, _, h⟩ := Option.map_eq_some_iff.1 h
    cases h
    exact Nat.lt_succ_of_lt tail.shorter
  case h_12 =>
    obtain ⟨⟨value, r⟩, hn, h⟩ := Option.map_eq_some_iff.1 h
    cases h
    simp only [number?] at hn
    split at hn
    · obtain ⟨⟨value', r'⟩, hu, hn⟩ := Option.map_eq_some_iff.1 hn
      cases hn
      exact Nat.lt_succ_of_lt (length_unsigned? hu)
    · exact length_unsigned? hn
  all_goals
    cases h
    try simp only [List.length_cons]
    try omega

/-- The tokens of a text, or nothing if some part of it is no token. -/
def tokens? (text : List Char) : Option (List Token) :=
  match text with
  | [] => some []
  | c :: rest =>
    if isBlank c then tokens? rest
    else
      match _read : token? (c :: rest) with
      | none => none
      | some (token, after) => (tokens? after).map (token :: ·)
termination_by text.length
decreasing_by
  · simp only [List.length_cons]
    omega
  · exact length_token? _read

end ObliviousRouting.Json
