import ObliviousRouting.BatchSize.Basic
import ObliviousRouting.Bytes.Words
import ObliviousRouting.Keystream
import ObliviousRouting.Message
import ObliviousRouting.RowBuffer.Basic

/-!
# The 1-of-2 reveal

An offering party holds two rows for each index, and a choosing party learns the one it wants without
saying which. A third party, which serves pads, makes that possible with three messages for each batch:
the offering party sends masked pairs, the choosing party asks for one pad of each pair, and the third
party answers. Flip bits are shared by the offering and the choosing party, pads by the offering and the
serving one. The serving party is trusted not to collude with the choosing one.
-/

namespace ObliviousRouting

inductive RevealError where
  | link (e : LinkError)
  /-- A batch has not the expected number of bytes. -/
  | unexpectedLength (expected actual : Nat)
deriving DecidableEq, Repr

def RevealError.message : RevealError → String
  | .link e => e.message
  | .unexpectedLength expected actual =>
    s!"expected a batch of {expected} bytes, but received {actual} bytes"

namespace Reveal

/-! ### Masked pairs and chosen pads

The offering party hides both rows of a pair under pads of their own, after exchanging them where its flip bit
is set. The choosing party blinds its choice by the same flip bit; the blinded choice then says which of the
two masked rows is the wanted one, and hence which pad to ask for.

Everything works row by row, and on whole rows only: where the arguments differ in length, the shortest one
decides. Rows without width are treated as single bytes. -/

/-- For each row, that of `b` where the choice is set and that of `a` elsewhere. -/
def select (choices : List Bool) (a b : Bytes) (stride : Nat) : Bytes :=
  let pairs := (a.chunks (max stride 1)).zip (b.chunks (max stride 1))
  (choices.zip pairs).flatMap fun (choice, rows) => if choice then rows.2 else rows.1

/-- The masked rows for both values of a blinded choice, one after the other. -/
def maskPairs (flips : List Bool) (m₀ m₁ pad₀ pad₁ : Bytes) (stride : Nat) : Bytes :=
  (select flips m₀ m₁ stride).xor pad₀ ++ (select flips m₁ m₀ stride).xor pad₁

def blindChoices (choices flips : List Bool) : List Bool :=
  choices.zipWith Bool.xor flips

/-- For each row, the pad that a blinded choice asks for. -/
def chosenPads (blinded : List Bool) (pad₀ pad₁ : Bytes) (stride : Nat) : Bytes :=
  select blinded pad₀ pad₁ stride

/-- The wanted rows, from the masked rows and the pads that were asked for. -/
def unmask (blinded : List Bool) (masked₀ masked₁ pads : Bytes) (stride : Nat) : Bytes :=
  (select blinded masked₀ masked₁ stride).xor pads

/-! ### The roles -/

variable {σ : Type}

/-- The flip bits for so many rows. -/
abbrev Flips := (rows : Nat) → List Bool

def Flips.ofSeed (seed : Seed) : Flips := fun rows =>
  (Keystream.ofSeed seed .flip).bits 0 rows

/-- The two strings of pads of batch `k`, each of so many bytes, where a full batch has `full` bytes. -/
abbrev Pads := (full k length : Nat) → Bytes × Bytes

/-- The pads that a seed stands for. Each string starts at a word of its own. -/
def Pads.ofSeed (seed : Seed) : Pads := fun full k length =>
  let stream := Keystream.ofSeed seed .pads
  let start := 2 * k * wordsFor full
  (stream.bytes start length, stream.bytes (start + wordsFor length) length)

def checkLength (expected : Nat) (batch : Bytes) : Except RevealError Unit :=
  if batch.length = expected then .ok () else .error (.unexpectedLength expected batch.length)

/-- Offers the pairs of rows of `m₀` and `m₁`, which have the same shape, to the choosing party. The message
of a batch has twice the bytes of the batch. That this is the length of a buffer is not checked: the offering
party holds as many bytes already, in the two buffers. -/
def offer (flips : Flips) (pads : Pads) (chooser : Nat) (m₀ m₁ : RowBuffer) (size : BatchSize)
    (phase : String) : Role σ RevealError Unit := do
  let stride := m₀.stride
  let allFlips := flips m₀.size
  Role.iterate (fun k _ => do
    let (first, last) ← Role.ofChecked (size.range m₀.size k)
    let length ← Role.ofChecked (Size.mul (last - first) stride)
    let (pad₀, pad₁) := pads (size.step * stride) k length
    let rows₀ ← Role.ofChecked (m₀.rows first last)
    let rows₁ ← Role.ofChecked (m₁.rows first last)
    let message :=
      maskPairs (BatchSize.part allFlips first last) rows₀ rows₁ pad₀ pad₁ stride
    Role.mapError .link (Role.sendBytes chooser phase message)) (size.count m₀.size) 0 ()

/-- Learns one row of each pair: the second one where the choice is set. -/
def choose (flips : Flips) (offering serving : Nat) (choices : List Bool) (stride : Nat)
    (size : BatchSize) (phase : String) : Role σ RevealError RowBuffer := do
  let chosen ← Role.ofChecked (RowBuffer.zeros choices.length stride)
  let allFlips := flips choices.length
  Role.iterate (fun k chosen => do
    let (first, last) ← Role.ofChecked (size.range choices.length k)
    let length ← Role.ofChecked (Size.mul (last - first) stride)
    let blinded :=
      blindChoices (BatchSize.part choices first last) (BatchSize.part allFlips first last)
    Role.mapError .link (Role.sendBytes serving phase (Bits.pack blinded))
    let (masked, pads) ← Role.mapError .link (Role.ofProcess
      (Process.receiveBoth offering serving (Received.bytes phase) (Received.bytes phase)))
    let both ← Role.ofChecked (Size.mul 2 length)
    Role.ofExcept (checkLength both masked)
    Role.ofExcept (checkLength length pads)
    let rows := unmask blinded (masked.take length) (masked.drop length) pads stride
    Role.ofChecked (chosen.setRows first last rows)) (size.count choices.length) 0 chosen

/-- Serves one pad of each pair to the choosing party. -/
def serve (pads : Pads) (chooser : Nat) (rows stride : Nat) (size : BatchSize) (phase : String) :
    Role σ RevealError Unit :=
  Role.iterate (fun k _ => do
    let (first, last) ← Role.ofChecked (size.range rows k)
    let length ← Role.ofChecked (Size.mul (last - first) stride)
    let _ ← Role.ofChecked (Size.buffer length)
    let packed ← Role.mapError .link (Role.receiveBytes chooser phase)
    match Bits.unpack? packed (last - first) with
    | none => Role.fail (.unexpectedLength (Bits.bytesFor (last - first)) packed.length)
    | some blinded =>
      let (pad₀, pad₁) := pads (size.step * stride) k length
      let message := chosenPads blinded pad₀ pad₁ stride
      Role.mapError .link (Role.sendBytes chooser phase message)) (size.count rows) 0 ()

end Reveal

end ObliviousRouting
