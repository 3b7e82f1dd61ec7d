import ObliviousRouting.Bytes.Basic

/-!
# Numbers, words and bits as bytes

Numbers are written least significant byte first, in a fixed count of bytes. Keys, the values of a coin toss
and the commitments to them are strings of 32 bytes. Bits are packed eight to a byte.
-/

namespace ObliviousRouting

/-! ### Little-endian numbers

Reading back what was written gives the number, as long as it fits; writing back what was read always gives
the bytes. -/

namespace LittleEndian

/-- The low `width` bytes of `n`, least significant first. -/
def encode : (width : Nat) → (n : Nat) → Bytes
  | 0, _ => []
  | width + 1, n => UInt8.ofNat n :: encode width (n / 256)

/-- How many numbers there are of a width. -/
def capacity : (width : Nat) → Nat
  | 0 => 1
  | width + 1 => 256 * capacity width

def decode : Bytes → Nat
  | [] => 0
  | b :: bs => b.toNat + 256 * decode bs

@[simp] theorem length_encode (width n : Nat) : (encode width n).length = width := by
  induction width generalizing n with
  | zero => rfl
  | succ width ih => simp [encode, ih]

theorem decode_encode {width n : Nat} (h : n < capacity width) : decode (encode width n) = n := by
  induction width generalizing n with
  | zero => exact (Nat.lt_one_iff.1 h).symm
  | succ width ih =>
    have hn : n / 256 < capacity width := by
      rw [capacity] at h
      omega
    simp only [encode, decode, ih hn, UInt8.toNat_ofNat']
    omega

theorem decode_lt (bytes : Bytes) : decode bytes < capacity bytes.length := by
  induction bytes with
  | nil => exact Nat.one_pos
  | cons b bs ih =>
    have hb := b.toNat_lt
    rw [decode, List.length_cons, capacity]
    omega

theorem encode_decode (bytes : Bytes) : encode bytes.length (decode bytes) = bytes := by
  induction bytes with
  | nil => rfl
  | cons b bs ih =>
    have hb := b.toNat_lt
    have hdiv : (b.toNat + 256 * decode bs) / 256 = decode bs := by omega
    simp only [List.length_cons, decode, encode, hdiv, ih, List.cons.injEq, and_true]
    apply UInt8.toNat_inj.1
    simp only [UInt8.toNat_ofNat']
    omega

end LittleEndian

/-! ### Words of 256 bits

XOR of two such words is a group operation: either of them is got back from the result and the other one. -/

@[ext] structure Word256 where
  bytes : Bytes
  length_bytes : bytes.length = 32
deriving DecidableEq, Repr

namespace Word256

def zero : Word256 := ⟨Bytes.zeros 32, Bytes.length_zeros 32⟩

instance : Inhabited Word256 := ⟨zero⟩

def ofBytes? (bytes : Bytes) : Option Word256 :=
  if h : bytes.length = 32 then some ⟨bytes, h⟩ else none

def xor (a b : Word256) : Word256 :=
  ⟨a.bytes.xor b.bytes, by rw [Bytes.length_xor, a.length_bytes]⟩

def numbers (a : Word256) : List UInt32 :=
  (a.bytes.chunks 4).map fun b => UInt32.ofNat (LittleEndian.decode b)

@[simp] theorem length_numbers (a : Word256) : a.numbers.length = 8 := by
  simp [numbers, a.length_bytes]

end Word256

/-! ### Packed bits

A list of bits packed eight to a byte, the first bit in the least significant place. Unpacking has to be told
how many bits there are; it answers only if the string has exactly the bytes they need, and ignores what the
last byte holds beyond them. -/

namespace Bits

def bytesFor (n : Nat) : Nat := (n + 7) / 8

/-- The byte whose low places hold up to eight bits, the first one lowest. -/
def toByte (bits : List Bool) : UInt8 :=
  UInt8.ofNat (bits.foldr (fun bit n => bit.toNat + 2 * n) 0)

/-- The eight bits of a byte, lowest first. -/
def ofByte (byte : UInt8) : List Bool :=
  (List.range 8).map byte.toNat.testBit

/-- The first `count` bytes into which bits are packed. -/
def packBytes : (count : Nat) → List Bool → Bytes
  | 0, _ => []
  | count + 1, bits => toByte (bits.take 8) :: packBytes count (bits.drop 8)

def pack (bits : List Bool) : Bytes := packBytes (bytesFor bits.length) bits

/-- The first `n` bits of a string that has just the bytes for them. -/
def unpack? (bytes : Bytes) (n : Nat) : Option (List Bool) :=
  if bytes.length = bytesFor n then some ((bytes.flatMap ofByte).take n) else none

@[simp] theorem length_packBytes (count : Nat) (bits : List Bool) :
    (packBytes count bits).length = count := by
  induction count generalizing bits with
  | zero => rfl
  | succ count ih => simp [packBytes, ih]

@[simp] theorem length_pack (bits : List Bool) : (pack bits).length = bytesFor bits.length :=
  length_packBytes ..

end Bits

end ObliviousRouting
