import ObliviousRouting.Fault
import ObliviousRouting.Mixing

/-!
# Keystreams and tapes

A keystream is an endless sequence of 32-bit words that depends on a key and a stream number only, so
two parties with the same key read the same words at the same positions. Everything is read from whole
words: a string of bytes takes the low bytes of a last word it does not fill, a bit is the top bit of a
word of its own, and a number below a bound takes one word, or two where one word is not precise enough.
-/

namespace ObliviousRouting

/-- A seed from which two parties derive the same keystreams. -/
abbrev Seed := Word256

/-- The text shown for a seed, which gives nothing of it away. -/
def Seed.concealed (_ : Seed) : String := "Seed(..)"

/-- The sequence of words of one stream of a key. -/
structure Keystream where
  key : Word256
  stream : Nat
deriving DecidableEq, Repr

/-- What a keystream that is derived from a shared seed is used for. -/
inductive Purpose where
  | shuffle
  | mask
  | flip
  | pads
deriving DecidableEq, Repr

def Purpose.stream : Purpose → Nat
  | .shuffle => 0
  | .mask => 1
  | .flip => 2
  | .pads => 3

/-- The number of words that `n` bytes take. -/
def wordsFor (n : Nat) : Nat := (n + 3) / 4

namespace Keystream

def ofSeed (seed : Seed) (purpose : Purpose) : Keystream := ⟨seed, purpose.stream⟩

def words (k : Keystream) (start count : Nat) : List UInt32 :=
  let blocks := List.range' (start / 16) ((start % 16 + count + 15) / 16)
  ((blocks.flatMap (ChaCha20.block k.key k.stream)).drop (start % 16)).take count

def word (k : Keystream) (position : Nat) : UInt32 :=
  ((k.words position 1).head?).getD 0

/-- The first `n` bytes of the words from position `start` on. -/
def bytes (k : Keystream) (start n : Nat) : Bytes :=
  ((k.words start (wordsFor n)).flatMap fun w => LittleEndian.encode 4 w.toNat).take n

/-- The top bits of `count` words. -/
def bits (k : Keystream) (start count : Nat) : List Bool :=
  (k.words start count).map fun w => decide (0x80000000 ≤ w.toNat)

/-- A number from `low` up to `high`, the latter excluded, and the position after the words it took.
The first word scales to the range; where the part cut off could still carry over, a second word
refines it. -/
def draw (k : Keystream) (position low high : Nat) : Nat × Nat :=
  let range := high - low
  let scaled := (k.word position).toNat * range
  let rest := scaled % UInt32.size
  if UInt32.size - range < rest then
    let refined := rest + (k.word (position + 1)).toNat * range / UInt32.size
    (low + scaled / UInt32.size + refined / UInt32.size, position + 2)
  else (low + scaled / UInt32.size, position + 1)

/-- For each of the positions `i`, `i + 1`, … of a list of `rows`, as many as `count` says, a number
from that position up to `rows`. -/
def draws (k : Keystream) (rows : Nat) : (count i position : Nat) → List Nat
  | 0, _, _ => []
  | count + 1, i, position =>
    let (j, next) := k.draw position i rows
    j :: k.draws rows count (i + 1) next

@[simp] theorem length_words (k : Keystream) (start count : Nat) :
    (k.words start count).length = count := by
  have blocks (l : List Nat) :
      (l.flatMap (ChaCha20.block k.key k.stream)).length = 16 * l.length := by
    induction l with
    | nil => rfl
    | cons i l ih =>
      rw [List.flatMap_cons, List.length_append, ih, ChaCha20.length_block, List.length_cons]
      omega
  simp only [words, List.length_take, List.length_drop, blocks, List.length_range']
  omega

@[simp] theorem length_draws (k : Keystream) (rows count i position : Nat) :
    (k.draws rows count i position).length = count := by
  induction count generalizing i position with
  | zero => rfl
  | succ count ih => simp [draws, ih]

end Keystream

/-! ### Tapes

A tape is a keystream that is read from its beginning, one piece after the other. A party's own random choices
come from its tape; nothing is read twice. -/

structure Tape where
  source : Keystream
  position : Nat
deriving DecidableEq, Repr

namespace Tape

def ofKeystream (k : Keystream) : Tape := ⟨k, 0⟩

def ofParty (entropy : Word256) (party : Nat) : Tape := ofKeystream ⟨entropy, 256 + party⟩

def fill (t : Tape) (n : Nat) : Bytes × Tape :=
  (t.source.bytes t.position n, { t with position := t.position + wordsFor n })

/-- Reads `n` bytes into a new buffer, if one of that length can be made. -/
def read (t : Tape) (n : Nat) : Checked (Bytes × Tape) := do
  let n ← Size.buffer n
  return t.fill n

def draw (t : Tape) (low high : Nat) : Checked (Nat × Tape) :=
  if low < high then
    let (n, next) := t.source.draw t.position low high
    .ok (n, { t with position := next })
  else .error .emptyRange

/-- Reads a secret: the low bytes of 32 words. -/
def secret (t : Tape) : Word256 × Tape :=
  (⟨(t.source.words t.position 32).map UInt32.toUInt8, by simp⟩,
    { t with position := t.position + 32 })

def secrets (t : Tape) : (count : Nat) → List Word256
  | 0 => []
  | count + 1 =>
    let (secret, t) := t.secret
    secret :: t.secrets count

end Tape

end ObliviousRouting
