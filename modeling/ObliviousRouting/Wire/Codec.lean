import ObliviousRouting.Bytes.Words

/-!
# Counted lists on the wire

A list travels as its length in eight bytes, little endian, and its elements one after the other, each
in a fixed number of bytes. A reader takes what it needs and ignores the rest: it accepts exactly those
strings that begin with a length and at least that many whole elements.
-/

namespace ObliviousRouting

/-- A way to write the values of a type in a fixed number of bytes, each string of which stands for a
value. -/
structure Codec (α : Type) where
  width : Nat
  encode : α → Bytes
  decode : Bytes → Option α
  width_pos : 0 < width
  length_encode (a : α) : (encode a).length = width
  decode_encode (a : α) : decode (encode a) = some a
  exists_decode {bytes : Bytes} : bytes.length = width → ∃ a, decode bytes = some a

namespace Codec

def byte : Codec UInt8 where
  width := 1
  encode b := [b]
  decode
    | [b] => some b
    | _ => none
  width_pos := by decide
  length_encode _ := rfl
  decode_encode _ := rfl
  exists_decode {bytes} h := by
    match bytes, h with
    | [b], _ => exact ⟨b, rfl⟩

/-- Words of 32 bits, little endian. -/
def word32 : Codec UInt32 where
  width := 4
  encode w := LittleEndian.encode 4 w.toNat
  decode bytes := if bytes.length = 4 then some (UInt32.ofNat (LittleEndian.decode bytes)) else none
  width_pos := by decide
  length_encode _ := LittleEndian.length_encode _ _
  decode_encode w := by
    have h : w.toNat < LittleEndian.capacity 4 := w.toNat_lt
    simp [LittleEndian.decode_encode h]
  exists_decode {bytes} h := ⟨_, if_pos h⟩

def word256 : Codec Word256 where
  width := 32
  encode w := w.bytes
  decode := Word256.ofBytes?
  width_pos := by decide
  length_encode w := w.length_bytes
  decode_encode w := by simp [Word256.ofBytes?, w.length_bytes]
  exists_decode {bytes} h := ⟨⟨bytes, h⟩, by simp [Word256.ofBytes?, h]⟩

variable {α : Type}

/-- A list as it is written: its length and its elements. -/
def encodeList (c : Codec α) (l : List α) : Bytes :=
  LittleEndian.encode 8 l.length ++ l.flatMap c.encode

/-- Reads a list at the front of a string. -/
def decodeList? (c : Codec α) (bytes : Bytes) : Option (List α) :=
  let count := LittleEndian.decode (bytes.take 8)
  let elements := bytes.drop 8
  if bytes.length < 8 ∨ elements.length < count * c.width then none
  else (Bytes.chunks c.width (elements.take (count * c.width))).mapM c.decode

end Codec

end ObliviousRouting
