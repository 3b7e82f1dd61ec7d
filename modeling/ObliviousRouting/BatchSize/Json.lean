import ObliviousRouting.BatchSize.Basic
import ObliviousRouting.Json.Skip

/-!
# The batch size as a setting in JSON

The setting is written as an object with the member `batch_rows`. It is read from an object in which
that member occurs exactly once, whatever other members there are, or from an array of exactly one
number. The number has to be an unsigned integer below `2 ^ 64`, written without fraction and exponent.
-/

namespace ObliviousRouting.BatchSize

open Json

def toJson (b : BatchSize) : String :=
  s!"\x7b\"batch_rows\":{b.rows}\x7d"

def ofNumber? (value? : Option Nat) : Option BatchSize := do
  let rows ← value?
  if rows < Size.limit then some ⟨rows⟩ else none

/-- Reads the members of an object whose opening brace or last comma has been read. `found?` is the
number of rows read so far. -/
def ofMembers? (found? : Option BatchSize) (tokens : List Token) : Option BatchSize :=
  match tokens with
  | .string (some "batch_rows") :: .colon :: .number value? :: rest =>
    if found?.isSome then none
    else
      match ofNumber? value?, rest with
      | some b, [.closeBrace] => some b
      | some b, .comma :: rest => ofMembers? (some b) rest
      | _, _ => none
  | .string (some "batch_rows") :: _ => none
  | .string (some _) :: .colon :: rest =>
    match _skipped : skipValue? rest with
    | some [.closeBrace] => found?
    | some (.comma :: after) => ofMembers? found? after
    | _ => none
  | _ => none
termination_by tokens.length
decreasing_by
  · simp only [List.length_cons]
    omega
  · have := length_skipRest? _skipped
    simp only [List.length_cons] at *
    omega

def ofJson? (text : String) : Option BatchSize := do
  match ← tokens? text.toList with
  | [.openBracket, .number value?, .closeBracket] => ofNumber? value?
  | .openBrace :: rest => ofMembers? none rest
  | _ => none

end ObliviousRouting.BatchSize
