import ObliviousRouting.Json.Token

/-!
# Skipping JSON values

`skipValue?` drops one well-formed value from the front of a list of tokens and keeps nothing of it.
It runs once over the tokens, with a stack of the brackets that are open.
-/

namespace ObliviousRouting.Json

inductive Bracket where
  | array
  | object
deriving DecidableEq, Repr

/-- What may come next inside a value. -/
inductive Expected where
  | value
  /-- A value, or the bracket that closes the array. -/
  | firstElement
  | key
  /-- A key, or the bracket that closes the object. -/
  | firstKey
  | colon
  /-- A comma, or the bracket that closes what is open. -/
  | separator
deriving DecidableEq, Repr

/-- Reads the first token of a value. -/
def beginValue? (opened : List Bracket) : Token → Option (List Bracket × Expected)
  | .literal | .string _ | .number _ => some (opened, .separator)
  | .openBracket => some (.array :: opened, .firstElement)
  | .openBrace => some (.object :: opened, .firstKey)
  | _ => none

/-- Reads one token inside a value. -/
def next? (opened : List Bracket) (expected : Expected) (token : Token) :
    Option (List Bracket × Expected) :=
  match expected, token, opened with
  | .value, token, _ => beginValue? opened token
  | .firstElement, .closeBracket, .array :: outer => some (outer, .separator)
  | .firstElement, token, _ => beginValue? opened token
  | .firstKey, .closeBrace, .object :: outer => some (outer, .separator)
  | .firstKey, .string _, _ => some (opened, .colon)
  | .key, .string _, _ => some (opened, .colon)
  | .colon, .colon, _ => some (opened, .value)
  | .separator, .comma, .array :: _ => some (opened, .value)
  | .separator, .comma, .object :: _ => some (opened, .key)
  | .separator, .closeBracket, .array :: outer => some (outer, .separator)
  | .separator, .closeBrace, .object :: outer => some (outer, .separator)
  | _, _, _ => none

/-- Drops the rest of a value in which the given brackets are open. -/
def skipRest? (opened : List Bracket) (expected : Expected) : List Token → Option (List Token)
  | [] => if opened = [] ∧ expected = .separator then some [] else none
  | token :: rest =>
    if opened = [] ∧ expected = .separator then some (token :: rest)
    else do
      let (opened, expected) ← next? opened expected token
      skipRest? opened expected rest

def skipValue? (tokens : List Token) : Option (List Token) :=
  skipRest? [] .value tokens

theorem length_skipRest? {opened : List Bracket} {expected : Expected} {tokens rest : List Token}
    (h : skipRest? opened expected tokens = some rest) : rest.length ≤ tokens.length := by
  induction tokens generalizing opened expected with
  | nil =>
    simp only [skipRest?] at h
    split at h <;> simp_all
  | cons token tokens ih =>
    simp only [skipRest?] at h
    split at h
    · cases h
      exact Nat.le_refl _
    · simp only [Option.bind_eq_bind, Option.bind_eq_some_iff] at h
      obtain ⟨next, _, h⟩ := h
      exact Nat.le_succ_of_le (ih h)

end ObliviousRouting.Json
