import ObliviousRouting.Bytes.Words

/-!
# Mixing words

ChaCha20 and BLAKE3 work on sixteen 32-bit words, four of which are mixed at a time by additions, XORs and
rotations. They differ in the direction of the rotations, and only one of them adds words of a message.
-/

namespace ObliviousRouting

namespace Mixing

abbrev State := Vector UInt32 16

/-- Rotates a word by a number of places, between 0 and 32. -/
abbrev Rotation := (x n : UInt32) → UInt32

/-- Mixes two message words into four words of the state. -/
def mix (rotate : Rotation) (s : State) (a b c d : Fin 16) (x y : UInt32) : State :=
  let s := s.set a (s[a] + s[b] + x)
  let s := s.set d (rotate (s[d] ^^^ s[a]) 16)
  let s := s.set c (s[c] + s[d])
  let s := s.set b (rotate (s[b] ^^^ s[c]) 12)
  let s := s.set a (s[a] + s[b] + y)
  let s := s.set d (rotate (s[d] ^^^ s[a]) 8)
  let s := s.set c (s[c] + s[d])
  s.set b (rotate (s[b] ^^^ s[c]) 7)

/-- Mixes a whole message into the state, along the columns and then along the diagonals. -/
def round (rotate : Rotation) (s m : State) : State :=
  let s := mix rotate s 0 4 8 12 m[0] m[1]
  let s := mix rotate s 1 5 9 13 m[2] m[3]
  let s := mix rotate s 2 6 10 14 m[4] m[5]
  let s := mix rotate s 3 7 11 15 m[6] m[7]
  let s := mix rotate s 0 5 10 15 m[8] m[9]
  let s := mix rotate s 1 6 11 12 m[10] m[11]
  let s := mix rotate s 2 7 8 13 m[12] m[13]
  mix rotate s 3 4 9 14 m[14] m[15]

end Mixing

/-! ### The ChaCha20 block function

A block is sixteen 32-bit words computed from a key, a 64-bit stream number and a 64-bit block number: ten
double rounds over the initial state, and the initial state added to the result. -/

namespace ChaCha20

open Mixing

/-- Rotates a word to the left by `n` places, where `0 < n < 32`. -/
def rotateLeft (x n : UInt32) : UInt32 := x <<< n ||| x >>> (32 - n)

/-- A round over the columns and a round over the diagonals. There is no message. -/
def doubleRound (s : State) : State := round rotateLeft s (Vector.replicate 16 0)

/-- The words before the rounds: constants, key, block number, stream number. -/
def initial (key : Word256) (stream index : Nat) : List UInt32 :=
  [0x61707865, 0x3320646e, 0x79622d32, 0x6b206574] ++ key.numbers ++
    [UInt32.ofNat index, UInt32.ofNat (index / UInt32.size),
      UInt32.ofNat stream, UInt32.ofNat (stream / UInt32.size)]

theorem length_initial (key : Word256) (stream index : Nat) :
    (initial key stream index).length = 16 := by
  simp [initial]

def rounds (s : State) : State := (List.range 10).foldl (fun s _ => doubleRound s) s

def block (key : Word256) (stream index : Nat) : List UInt32 :=
  let start : State := ⟨(initial key stream index).toArray, by simp [length_initial]⟩
  (Vector.zipWith (· + ·) (rounds start) start).toList

theorem length_block (key : Word256) (stream index : Nat) :
    (block key stream index).length = 16 := by
  simp [block, length_initial]

end ChaCha20

/-! ### BLAKE3 for short inputs

The digest of an input that fits into one block of 64 bytes. Such an input is a tree of a single chunk of a
single block, so one compression with the flags for the first block, the last block and the root gives the
digest. -/

namespace Blake3

open Mixing

/-- Rotates a word to the right by `n` places, where `0 < n < 32`. -/
def rotateRight (x n : UInt32) : UInt32 := x >>> n ||| x <<< (32 - n)

/-- The words with which a tree starts. -/
def chain : List UInt32 :=
  [0x6A09E667, 0xBB67AE85, 0x3C6EF372, 0xA54FF53A, 0x510E527F, 0x9B05688C, 0x1F83D9AB, 0x5BE0CD19]

/-- The order of the message words in the next round. -/
def order : Vector Nat 16 := #v[2, 6, 3, 10, 7, 0, 4, 13, 1, 11, 12, 5, 9, 14, 15, 8]

def permute (m : State) : State := order.map fun i => m[i]?.getD 0

def rounds (s m : State) : State :=
  ((List.range 7).foldl (fun (s, m) _ => (round rotateRight s m, permute m)) (s, m)).1

def message (input : Bytes) : State :=
  Vector.ofFn fun i : Fin 16 => UInt32.ofNat (LittleEndian.decode ((input.drop (4 * i)).take 4))

/-- The flags of a block that is the first and the last one of its chunk, and the root of the tree. -/
def flags : UInt32 := 1 ||| 2 ||| 8

/-- The digest of an input of at most 64 bytes. -/
def digest (input : Bytes) : Word256 :=
  let start : State :=
    ⟨(chain ++ chain.take 4 ++ [0, 0, UInt32.ofNat input.length, flags]).toArray, by simp [chain]⟩
  let last := rounds start (message input)
  let words := (List.finRange 8).map fun i : Fin 8 =>
    last.get ⟨i.val, by omega⟩ ^^^ last.get ⟨i.val + 8, by omega⟩
  ⟨words.flatMap fun w => LittleEndian.encode 4 w.toNat, by
    simp [words, List.length_flatMap, Function.comp_def, List.map_const']⟩

end Blake3

end ObliviousRouting
