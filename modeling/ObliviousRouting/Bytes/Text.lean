import ObliviousRouting.Bytes.Basic

/-!
# Text in UTF-8

`encode` writes a text in UTF-8. `decode` reads any bytes: each longest beginning of a character that
cannot be completed gives one replacement character, and reading goes on with the byte that did not fit.
-/

namespace ObliviousRouting.Text

/-- What stands for bytes that are no character. -/
def replacement : Char := '\uFFFD'

def encode (text : String) : Bytes :=
  text.toList.flatMap String.utf8EncodeChar

/-- The beginning of a character: how many bytes it still needs, between which bounds the next one
has to lie, and the bits read so far. -/
structure Unfinished where
  owed : Nat
  low : UInt8
  high : UInt8
  bits : Nat
deriving DecidableEq, Repr

/-- Reads the first byte of a character: what it writes, and what it leaves open. -/
def start (byte : UInt8) : List Char × Option Unfinished :=
  if byte < 0x80 then ([Char.ofNat byte.toNat], none)
  else if 0xC2 ≤ byte ∧ byte ≤ 0xDF then ([], some ⟨1, 0x80, 0xBF, byte.toNat % 32⟩)
  else if byte = 0xE0 then ([], some ⟨2, 0xA0, 0xBF, 0⟩)
  else if byte = 0xED then ([], some ⟨2, 0x80, 0x9F, 13⟩)
  else if 0xE1 ≤ byte ∧ byte ≤ 0xEF then ([], some ⟨2, 0x80, 0xBF, byte.toNat % 16⟩)
  else if byte = 0xF0 then ([], some ⟨3, 0x90, 0xBF, 0⟩)
  else if 0xF1 ≤ byte ∧ byte ≤ 0xF3 then ([], some ⟨3, 0x80, 0xBF, byte.toNat % 8⟩)
  else if byte = 0xF4 then ([], some ⟨3, 0x80, 0x8F, 4⟩)
  else ([replacement], none)

/-- Reads one byte after what is open: what it writes, and what is open then. -/
def step (opened : Option Unfinished) (byte : UInt8) : List Char × Option Unfinished :=
  match opened with
  | none => start byte
  | some p =>
    if p.low ≤ byte ∧ byte ≤ p.high then
      let bits := 64 * p.bits + byte.toNat % 64
      if p.owed ≤ 1 then ([Char.ofNat bits], none)
      else ([], some ⟨p.owed - 1, 0x80, 0xBF, bits⟩)
    else
      let (written, next) := start byte
      (replacement :: written, next)

/-- The characters of a string of bytes that is read from within a character. -/
def decodeFrom (opened : Option Unfinished) : Bytes → List Char
  | [] => if opened.isSome then [replacement] else []
  | byte :: bytes =>
    let (written, next) := step opened byte
    written ++ decodeFrom next bytes

def decode (bytes : Bytes) : String :=
  String.ofList (decodeFrom none bytes)

end ObliviousRouting.Text
