import ObliviousRouting.Fault

/-!
# Byte strings

Rows, masks and messages are lists of bytes. `xor` keeps the length of its first argument, so that a
row never changes its width when something is XORed into it.
-/

namespace ObliviousRouting

abbrev Bytes := List UInt8

namespace Bytes

def zeros (n : Nat) : Bytes := List.replicate n 0

/-- XORs `b` into `a` as far as `b` reaches. -/
def xor : Bytes → Bytes → Bytes
  | [], _ => []
  | a :: as, [] => a :: as
  | a :: as, b :: bs => (a ^^^ b) :: xor as bs

/-- The first `count` pieces of `width` bytes. -/
def pieces (width : Nat) : (count : Nat) → Bytes → List Bytes
  | 0, _ => []
  | count + 1, bytes => bytes.take width :: pieces width count (bytes.drop width)

/-- Cuts a string into pieces of `width` bytes; an incomplete last piece is dropped. -/
def chunks (width : Nat) (bytes : Bytes) : List Bytes :=
  pieces width (bytes.length / width) bytes

@[simp] theorem length_zeros (n : Nat) : (zeros n).length = n := List.length_replicate

@[simp] theorem length_xor (a b : Bytes) : (xor a b).length = a.length := by
  fun_induction xor a b <;> simp_all

@[simp] theorem xor_nil (a : Bytes) : xor a [] = a := by cases a <;> rfl

@[simp] theorem length_pieces (width count : Nat) (bytes : Bytes) :
    (pieces width count bytes).length = count := by
  induction count generalizing bytes with
  | zero => rfl
  | succ count ih => simp [pieces, ih]

@[simp] theorem length_chunks (width : Nat) (bytes : Bytes) :
    (chunks width bytes).length = bytes.length / width :=
  length_pieces ..

end Bytes

end ObliviousRouting
