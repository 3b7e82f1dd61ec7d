import ObliviousRouting.RowBuffer.Storage

/-!
# Row buffers

Rows of one width, stored one after another. Every operation computes the byte range of the rows it
names with checked sizes, so that it faults exactly when a row is out of range or an offset does not fit
into 64 bits. Rows of width zero occupy no bytes: such a buffer holds no rows, and every row index that
has a successor names the empty slice.

The number of bytes is a multiple of the width; the type carries the proof, and every operation keeps
it.
-/

namespace ObliviousRouting

/-- Rows of `stride` bytes each, stored contiguously. -/
@[ext] structure RowBuffer where
  data : Storage
  stride : Nat
  stride_dvd : stride ∣ data.size
deriving DecidableEq, Repr

inductive RowError where
  /-- A row needs at least one byte. -/
  | zeroStride
  /-- The number of bytes is no multiple of the width. -/
  | ragged (length stride : Nat)
deriving DecidableEq, Repr

def RowError.message : RowError → String
  | .zeroStride => "rows must be at least one byte wide"
  | .ragged length stride => s!"{length} bytes cannot be split into rows of {stride} bytes"

namespace RowBuffer

/-- The buffer without bytes, whose rows have no width. -/
def empty : RowBuffer where
  data := #[]
  stride := 0
  stride_dvd := by simp

instance : Inhabited RowBuffer := ⟨empty⟩

/-- A string of bytes read as rows of `stride` bytes. -/
def ofBytes (bytes : Bytes) (stride : Nat) : Except RowError RowBuffer :=
  if stride = 0 then .error .zeroStride
  else if h : bytes.length % stride = 0 then
    .ok ⟨bytes.toArray, stride, by rw [List.size_toArray]; exact Nat.dvd_of_mod_eq_zero h⟩
  else .error (.ragged bytes.length stride)

def bytes (b : RowBuffer) : Bytes := b.data.toList

def size (b : RowBuffer) : Nat := b.data.size / b.stride

def toList (b : RowBuffer) : List Bytes := b.bytes.chunks b.stride

def blank (rows stride : Nat) : RowBuffer where
  data := Array.replicate (rows * stride) 0
  stride := stride
  stride_dvd := by rw [Array.size_replicate]; exact Nat.dvd_mul_left ..

/-- A new buffer of `rows` rows of zeros, if one of that size can be made. -/
def zeros (rows stride : Nat) : Checked RowBuffer := do
  let length ← Size.mul rows stride
  let _ ← Size.buffer length
  return blank rows stride

/-- The bytes of the rows from `first` up to `last`, the latter excluded. -/
def rows (b : RowBuffer) (first last : Nat) : Checked Bytes := do
  let start ← Size.mul first b.stride
  let stop ← Size.mul last b.stride
  b.data.slice start stop

def row (b : RowBuffer) (i : Nat) : Checked Bytes := do
  let next ← Size.add i 1
  b.rows i next

/-- Overwrites the bytes from `start` up to `stop` by as many new ones. -/
def splice (b : RowBuffer) (start stop : Nat) (new : Bytes) : Checked RowBuffer :=
  if start ≤ stop ∧ stop ≤ b.data.size then
    if new.length = stop - start then
      .ok { b with
        data := b.data.overwrite start new
        stride_dvd := by rw [Storage.size_overwrite]; exact b.stride_dvd }
    else .error .unequalLengths
  else .error .outOfRange

def setRows (b : RowBuffer) (first last : Nat) (new : Bytes) : Checked RowBuffer := do
  let start ← Size.mul first b.stride
  let stop ← Size.mul last b.stride
  b.splice start stop new

def setRow (b : RowBuffer) (i : Nat) (new : Bytes) : Checked RowBuffer := do
  let next ← Size.add i 1
  b.setRows i next new

/-- XORs a string of bytes into row `i`, as far as it reaches. -/
def xorRow (b : RowBuffer) (i : Nat) (bytes : Bytes) : Checked RowBuffer := do
  let old ← b.row i
  b.setRow i (old.xor bytes)

def copyRow (b : RowBuffer) (source target : Nat) : Checked RowBuffer := do
  let bytes ← b.row source
  let start ← Size.mul target b.stride
  b.splice start (start + b.stride) bytes

/-- Exchanges the rows `i` and `j`. Exchanging a row with itself never faults. -/
def swap (b : RowBuffer) (i j : Nat) : Checked RowBuffer :=
  if i = j then .ok b
  else do
    let low ← Size.mul (min i j) b.stride
    let high ← Size.mul (max i j) b.stride
    let lower ← b.data.slice low (low + b.stride)
    let upper ← b.data.slice high (high + b.stride)
    let b ← b.splice low (low + b.stride) upper
    b.splice high (high + b.stride) lower

/-- Appends rows of zeros until there are at least `rows` rows. -/
def padTo (b : RowBuffer) (rows : Nat) : Checked RowBuffer :=
  if b.size < rows then do
    let length ← Size.mul rows b.stride
    let _ ← Size.buffer length
    return { b with
      data := b.data ++ Array.replicate ((rows - b.size) * b.stride) 0
      stride_dvd := by
        rw [Array.size_append, Array.size_replicate]
        exact Nat.dvd_add b.stride_dvd (Nat.dvd_mul_left ..) }
  else return b

end RowBuffer

/-! ### Writing shares

A share of a routed row either replaces what a row holds or is XORed into it. -/

/-- How a share is written into a destination row. -/
inductive Mode where
  /-- The row is replaced. -/
  | overwrite
  /-- The share is XORed into the row. -/
  | additive
deriving DecidableEq, Repr

def RowBuffer.write (b : RowBuffer) (mode : Mode) (i : Nat) (share : Bytes) : Checked RowBuffer :=
  match mode with
  | .overwrite => b.setRow i share
  | .additive => b.xorRow i share

end ObliviousRouting
