import Mathlib.Data.List.GetD
import ObliviousRouting.BatchSize.Basic
import ObliviousRouting.Proofs.Bytes.Rows
import ObliviousRouting.RowBuffer.Basic

/-!
# Buffers seen as lists of rows

A buffer stores its rows as one string of bytes and finds them by checked offsets. `Holds` says what a
buffer is to those who only count rows. Each operation has one lemma here: as long as the rows it names
exist, no offset leaves its 64 bits, and the operation does to the list of rows what its name says.
-/

namespace ObliviousRouting

open Bytes

/-- What a share makes of a row. -/
def Mode.apply (mode : Mode) (old share : Bytes) : Bytes :=
  match mode with
  | .overwrite => share
  | .additive => old.xor share

/-- What is left of a row when a share is written into it. -/
def Mode.kept (mode : Mode) (old : Bytes) : Bytes :=
  match mode with
  | .overwrite => zeros old.length
  | .additive => old

@[simp] theorem Mode.length_kept (mode : Mode) (old : Bytes) : (mode.kept old).length = old.length := by
  cases mode with
  | overwrite => exact length_zeros _
  | additive => rfl

theorem Mode.apply_eq (mode : Mode) {old share : Bytes} (h : share.length = old.length) :
    mode.apply old share = (mode.kept old).xor share := by
  cases mode with
  | overwrite => exact (zeros_xor h).symm
  | additive => rfl

namespace RowBuffer

def rowAt (b : RowBuffer) (i : Nat) : Bytes := b.toList.getD i []

/-- A buffer holds just these rows, all of the same width, in no more bytes than a buffer can have. -/
structure Holds (b : RowBuffer) (width : Nat) (rows : List Bytes) : Prop where
  stride_eq : b.stride = width
  toList_eq : b.toList = rows
  fits : b.data.size < Size.bufferLimit

theorem size_mul_stride (b : RowBuffer) : b.size * b.stride = b.data.size :=
  Nat.div_mul_cancel b.stride_dvd

theorem data_size_eq {a b : RowBuffer} (hstride : a.stride = b.stride) (hsize : a.size = b.size) :
    a.data.size = b.data.size := by
  rw [← a.size_mul_stride, ← b.size_mul_stride, hstride, hsize]

/-- If a row would fill more than a buffer, then there is none. -/
theorem size_eq_zero {b : RowBuffer} (hfits : b.data.size < Size.bufferLimit)
    (hwide : Size.bufferLimit ≤ b.stride) : b.size = 0 := by
  rw [← b.size_mul_stride] at hfits
  rcases Nat.eq_zero_or_pos b.size with hzero | hpos
  · exact hzero
  · have hle := Nat.le_mul_of_pos_left b.stride hpos
    omega

theorem eq_of_size_eq_zero {a b : RowBuffer} (hstride : a.stride = b.stride) (ha : a.size = 0)
    (hb : b.size = 0) : a = b := by
  have hdata {c : RowBuffer} (hc : c.size = 0) : c.data = #[] := by
    apply Array.eq_empty_of_size_eq_zero
    rw [← c.size_mul_stride, hc, Nat.zero_mul]
  exact RowBuffer.ext ((hdata ha).trans (hdata hb).symm) hstride

theorem swap_comm (b : RowBuffer) (i j : Nat) : b.swap i j = b.swap j i := by
  rw [swap, swap, Nat.min_comm, Nat.max_comm]
  by_cases heq : i = j
  · rw [if_pos heq, if_pos heq.symm]
  · rw [if_neg heq, if_neg (Ne.symm heq)]

theorem length_bytes (b : RowBuffer) : b.bytes.length = b.data.size := Array.length_toList

theorem flatten_toList (b : RowBuffer) : b.toList.flatten = b.bytes := by
  rw [toList, flatten_chunks]
  rw [length_bytes]
  exact b.stride_dvd

@[simp] theorem length_toList (b : RowBuffer) : b.toList.length = b.size := by
  rw [toList, length_chunks, length_bytes, size]

theorem length_rowAt {b : RowBuffer} {i : Nat} (hi : i < b.size) : (b.rowAt i).length = b.stride := by
  have hi' : i < b.toList.length := by rwa [length_toList]
  rw [rowAt, List.getD_eq_getElem _ _ hi']
  exact (uniform_chunks b.bytes).getElem hi'

theorem holds_toList {b : RowBuffer} (h : b.data.size < Size.bufferLimit) :
    b.Holds b.stride b.toList :=
  ⟨rfl, rfl, h⟩

/-- Rows of no width are no rows. -/
theorem holds_of_bytes {b : RowBuffer} {width : Nat} {rows : List Bytes} (hstride : b.stride = width)
    (hbytes : b.bytes = rows.flatten) (hrows : Uniform width rows) (hwidth : rows = [] ∨ 0 < width)
    (hfits : b.data.size < Size.bufferLimit) : b.Holds width rows := by
  refine ⟨hstride, ?_, hfits⟩
  rw [toList, hbytes, hstride]
  rcases hwidth with rfl | hpos
  · rw [chunks, List.flatten_nil, List.length_nil, Nat.zero_div, pieces]
  · exact hrows.chunks_flatten hpos

namespace Holds

variable {b c : RowBuffer} {width : Nat} {rows rows' : List Bytes}

theorem uniform (h : b.Holds width rows) : Uniform width rows := by
  rw [← h.toList_eq, ← h.stride_eq]
  exact uniform_chunks b.bytes

theorem size_eq (h : b.Holds width rows) : b.size = rows.length := by
  rw [← h.toList_eq, length_toList]

theorem rowAt_eq (h : b.Holds width rows) (i : Nat) : b.rowAt i = rows.getD i [] := by
  rw [rowAt, h.toList_eq]

theorem bytes_eq (h : b.Holds width rows) : b.bytes = rows.flatten := by
  rw [← h.toList_eq, flatten_toList]

theorem data_size_eq (h : b.Holds width rows) : b.data.size = rows.length * width := by
  rw [← size_mul_stride, h.size_eq, h.stride_eq]

theorem mul_lt (h : b.Holds width rows) {n : Nat} (hn : n ≤ rows.length) :
    n * width < Size.bufferLimit := by
  have hle := Nat.mul_le_mul_right width hn
  have hfits := h.fits
  rw [h.data_size_eq] at hfits
  omega

theorem width_pos (h : b.Holds width rows) : rows = [] ∨ 0 < width := by
  rw [← h.toList_eq, ← h.stride_eq]
  rcases Nat.eq_zero_or_pos b.stride with hzero | hpos
  · left
    apply List.eq_nil_of_length_eq_zero
    rw [length_toList, size, hzero, Nat.div_zero]
  · exact .inr hpos

theorem eq (hb : b.Holds width rows) (hc : c.Holds width rows) : b = c := by
  have hbytes : b.bytes = c.bytes := hb.bytes_eq.trans hc.bytes_eq.symm
  apply RowBuffer.ext
  · exact Array.toList_inj.1 hbytes
  · exact hb.stride_eq.trans hc.stride_eq.symm

/-- The same number of rows of the same width take the same space. -/
theorem of_bytes_eq (h : b.Holds width rows) (hstride : c.stride = width)
    (hbytes : c.bytes = rows'.flatten) (hrows : Uniform width rows') (hlength : rows'.length = rows.length) :
    c.Holds width rows' := by
  have hsize : c.data.size = b.data.size := by
    rw [← length_bytes, hbytes, hrows.length_flatten, hlength, h.data_size_eq]
  refine holds_of_bytes hstride hbytes hrows ?_ (hsize ▸ h.fits)
  rcases h.width_pos with rfl | hpos
  · exact .inl (List.eq_nil_of_length_eq_zero hlength)
  · exact .inr hpos

theorem length_lt (h : b.Holds width rows) : rows.length < Size.bufferLimit := by
  rcases h.width_pos with rfl | hpos
  · decide
  · exact Nat.lt_of_le_of_lt (Nat.le_mul_of_pos_right _ hpos) (h.mul_lt (Nat.le_refl _))

/-- The offset of a row that exists, or of the end, is a size. -/
theorem mul_eq_ok (h : b.Holds width rows) {n : Nat} (hn : n ≤ rows.length) :
    Size.mul n b.stride = .ok (n * width) := by
  rw [h.stride_eq, Size.mul_eq_ok_of_lt (h.mul_lt hn)]

theorem add_one_eq_ok (h : b.Holds width rows) {i : Nat} (hi : i < rows.length) :
    Size.add i 1 = .ok (i + 1) := by
  have hlt := h.length_lt
  apply Size.add_eq_ok
  simp only [Size.limit, Size.bufferLimit] at *
  omega

/-! ### Reading -/

theorem rows_eq (h : b.Holds width rows) {first last : Nat} (hle : first ≤ last)
    (hlast : last ≤ rows.length) :
    b.rows first last = .ok (BatchSize.part rows first last).flatten := by
  have hslice : first * width ≤ last * width ∧ last * width ≤ b.data.size := by
    rw [h.data_size_eq]
    exact ⟨Nat.mul_le_mul_right _ hle, Nat.mul_le_mul_right _ hlast⟩
  have hpart : (rows.flatten.drop (first * width)).take (last * width - first * width) =
      (BatchSize.part rows first last).flatten := by
    rw [h.uniform.drop_flatten, ← Nat.sub_mul, (h.uniform.drop first).take_flatten, BatchSize.part]
  rw [RowBuffer.rows, h.mul_eq_ok (Nat.le_trans hle hlast), h.mul_eq_ok hlast]
  change b.data.slice (first * width) (last * width) = _
  rw [Storage.slice_eq_ok hslice, ← hpart, ← h.bytes_eq]
  rfl

theorem row_eq (h : b.Holds width rows) {i : Nat} (hi : i < rows.length) : b.row i = .ok rows[i] := by
  have hpart : BatchSize.part rows i (i + 1) = [rows[i]] := by
    rw [BatchSize.part, Nat.add_sub_cancel_left, List.drop_eq_getElem_cons hi, List.take_succ_cons,
      List.take_zero]
  rw [RowBuffer.row, h.add_one_eq_ok hi]
  change b.rows i (i + 1) = _
  rw [h.rows_eq (Nat.le_succ i) hi, hpart, List.flatten_singleton]

/-- A row stands where its index says. -/
theorem slice_eq (h : b.Holds width rows) {i : Nat} (hi : i < rows.length) :
    b.data.slice (i * width) (i * width + width) = .ok rows[i] := by
  have hrow := h.row_eq hi
  rw [RowBuffer.row, h.add_one_eq_ok hi] at hrow
  change b.rows i (i + 1) = _ at hrow
  rw [RowBuffer.rows, h.mul_eq_ok (Nat.le_of_lt hi), h.mul_eq_ok hi] at hrow
  rw [← Nat.succ_mul]
  exact hrow

/-! ### Writing -/

theorem splice (h : b.Holds width rows) {first : Nat} {new : List Bytes} (hnew : Uniform width new)
    (hlast : first + new.length ≤ rows.length) :
    ∃ c, b.splice (first * width) ((first + new.length) * width) new.flatten = .ok c ∧
      c.Holds width (rows.take first ++ (new ++ rows.drop (first + new.length))) := by
  have hlength := hnew.length_flatten
  have hend : (first + new.length) * width = first * width + new.length * width := Nat.add_mul ..
  have hstop : (first + new.length) * width ≤ b.data.size := by
    rw [h.data_size_eq]
    exact Nat.mul_le_mul_right _ hlast
  rw [RowBuffer.splice, if_pos (by omega), if_pos (by omega)]
  refine ⟨_, rfl, h.of_bytes_eq h.stride_eq ?_ ?_ ?_⟩
  · simp only [RowBuffer.bytes]
    rw [Storage.toList_overwrite (by omega)]
    change b.bytes.take _ ++ (_ ++ b.bytes.drop _) = _
    rw [h.bytes_eq, hlength, ← hend, h.uniform.take_flatten, h.uniform.drop_flatten, List.flatten_append,
      List.flatten_append]
  · exact (h.uniform.take _).append (hnew.append (h.uniform.drop _))
  · simp only [List.length_append, List.length_take, List.length_drop]
    omega

theorem setRows (h : b.Holds width rows) {first last : Nat} {new : List Bytes} (hnew : Uniform width new)
    (hlength : first + new.length = last) (hlast : last ≤ rows.length) :
    ∃ c, b.setRows first last new.flatten = .ok c ∧
      c.Holds width (rows.take first ++ (new ++ rows.drop last)) := by
  subst hlength
  rw [RowBuffer.setRows, h.mul_eq_ok (by omega), h.mul_eq_ok hlast]
  exact h.splice hnew hlast

theorem splice_row (h : b.Holds width rows) {i : Nat} (hi : i < rows.length) {new : Bytes}
    (hnew : new.length = width) :
    ∃ c, b.splice (i * width) (i * width + width) new = .ok c ∧ c.Holds width (rows.set i new) := by
  have hsingle : Uniform width [new] := Uniform.cons_iff.2 ⟨hnew, .nil⟩
  obtain ⟨c, hc, hrows⟩ := h.splice hsingle hi
  have hset : rows.set i new = rows.take i ++ new :: rows.drop (i + 1) := by
    rw [List.set_eq_take_append_cons_drop, if_pos hi]
  rw [List.flatten_singleton, List.length_singleton, Nat.succ_mul] at hc
  exact ⟨c, hc, hset ▸ hrows⟩

theorem setRow (h : b.Holds width rows) {i : Nat} (hi : i < rows.length) {new : Bytes}
    (hnew : new.length = width) :
    ∃ c, b.setRow i new = .ok c ∧ c.Holds width (rows.set i new) := by
  obtain ⟨c, hc, hrows⟩ := h.splice_row hi hnew
  refine ⟨c, ?_, hrows⟩
  rw [RowBuffer.setRow, h.add_one_eq_ok hi]
  change b.setRows i (i + 1) new = _
  rw [RowBuffer.setRows, h.mul_eq_ok (Nat.le_of_lt hi), h.mul_eq_ok hi, Nat.succ_mul]
  exact hc

theorem xorRow (h : b.Holds width rows) {i : Nat} (hi : i < rows.length) (bytes : Bytes) :
    ∃ c, b.xorRow i bytes = .ok c ∧ c.Holds width (rows.set i (rows[i].xor bytes)) := by
  rw [RowBuffer.xorRow, h.row_eq hi]
  apply h.setRow hi
  rw [length_xor, h.uniform.getElem hi]

theorem copyRow (h : b.Holds width rows) {i j : Nat} (hi : i < rows.length) (hj : j < rows.length) :
    ∃ c, b.copyRow i j = .ok c ∧ c.Holds width (rows.set j rows[i]) := by
  rw [RowBuffer.copyRow, h.row_eq hi, h.mul_eq_ok (Nat.le_of_lt hj), h.stride_eq]
  exact h.splice_row hj (h.uniform.getElem hi)

/-- The lower row is written first. -/
theorem swap_of_lt (h : b.Holds width rows) {i j : Nat} (hlt : i < j) (hj : j < rows.length) :
    ∃ c, b.swap i j = .ok c ∧ c.Holds width ((rows.set i rows[j]).set j rows[i]) := by
  have hi : i < rows.length := Nat.lt_trans hlt hj
  obtain ⟨c, hc, hrows⟩ := h.splice_row hi (h.uniform.getElem hj)
  have hj' : j < (rows.set i rows[j]).length := by rwa [List.length_set]
  obtain ⟨d, hd, hrows'⟩ := hrows.splice_row hj' (h.uniform.getElem hi)
  refine ⟨d, ?_, hrows'⟩
  rw [RowBuffer.swap, if_neg (Nat.ne_of_lt hlt), Nat.min_eq_left (Nat.le_of_lt hlt),
    Nat.max_eq_right (Nat.le_of_lt hlt), h.mul_eq_ok (Nat.le_of_lt hi), h.mul_eq_ok (Nat.le_of_lt hj), h.stride_eq]
  simp only [Bind.bind, Except.bind, h.slice_eq hi, h.slice_eq hj, hc, hrows.stride_eq, hd]

theorem swap (h : b.Holds width rows) {i j : Nat} (hi : i < rows.length) (hj : j < rows.length) :
    ∃ c, b.swap i j = .ok c ∧ c.Holds width ((rows.set i rows[j]).set j rows[i]) := by
  rcases Nat.lt_trichotomy i j with hlt | rfl | hlt
  · exact h.swap_of_lt hlt hj
  · refine ⟨b, if_pos rfl, ?_⟩
    rwa [List.set_getElem_self, List.set_getElem_self]
  · rw [swap_comm, List.set_comm _ _ (Nat.ne_of_gt hlt)]
    exact h.swap_of_lt hlt hi

end Holds

/-! ### New buffers -/

theorem holds_blank {n width : Nat} (hwidth : n = 0 ∨ 0 < width)
    (hfits : n * width < Size.bufferLimit) :
    (blank n width).Holds width (List.replicate n (Bytes.zeros width)) := by
  apply holds_of_bytes rfl
  · rw [bytes, blank, Array.toList_replicate, Bytes.zeros, List.flatten_replicate_replicate]
  · exact Uniform.replicate (Bytes.length_zeros width) n
  · exact hwidth.imp_left fun h => by rw [h, List.replicate_zero]
  · rwa [blank, Array.size_replicate]

/-- The buffer of rows of one width. -/
def ofRows (width : Nat) (rows : List Bytes) : RowBuffer :=
  if h : width ∣ rows.flatten.length then
    ⟨rows.flatten.toArray, width, by rwa [List.size_toArray]⟩
  else blank 0 width

theorem holds_ofRows {width : Nat} {rows : List Bytes} (hrows : Uniform width rows)
    (hwidth : rows = [] ∨ 0 < width) (hfits : rows.length * width < Size.bufferLimit) :
    (ofRows width rows).Holds width rows := by
  rw [ofRows, dif_pos (hrows.length_flatten ▸ Nat.dvd_mul_left ..)]
  refine holds_of_bytes rfl rfl hrows hwidth ?_
  rwa [List.size_toArray, hrows.length_flatten]

theorem zeros_eq_ok {n width : Nat} (hfits : n * width < Size.bufferLimit) :
    zeros n width = .ok (blank n width) := by
  rw [zeros, Size.mul_eq_ok_of_lt hfits]
  change (Size.buffer (n * width) >>= fun _ => .ok (blank n width)) = _
  rw [Size.buffer_eq_ok hfits]
  rfl

theorem stride_of_zeros {n width : Nat} {b : RowBuffer} (h : zeros n width = .ok b) : b.stride = width := by
  obtain ⟨length, -, h⟩ := Checked.of_bind h
  obtain ⟨_, -, h⟩ := Checked.of_bind h
  cases h
  rfl

namespace Holds

variable {b c : RowBuffer} {width : Nat} {rows rows' : List Bytes}

theorem padTo (h : b.Holds width rows) {n : Nat} (hwidth : n = 0 ∨ 0 < width)
    (hfits : n * width < Size.bufferLimit) :
    ∃ c, b.padTo n = .ok c ∧
      c.Holds width (rows ++ List.replicate (n - rows.length) (Bytes.zeros width)) := by
  obtain rfl := h.stride_eq
  rw [RowBuffer.padTo, ← h.size_eq]
  split
  · rw [Size.mul_eq_ok_of_lt hfits]
    simp only [Bind.bind, Except.bind, Size.buffer_eq_ok hfits]
    have hsum : b.data.size + (n - b.size) * b.stride = n * b.stride := by
      rw [← size_mul_stride, ← Nat.add_mul]
      congr 1
      omega
    refine ⟨_, rfl, holds_of_bytes rfl ?_ ?_ ?_ ?_⟩
    · simp only [bytes]
      rw [Array.toList_append, Array.toList_replicate, List.flatten_append, ← h.bytes_eq, Bytes.zeros,
        List.flatten_replicate_replicate, bytes]
    · exact h.uniform.append (Uniform.replicate (Bytes.length_zeros _) _)
    · right
      omega
    · simp only [Array.size_append, Array.size_replicate]
      omega
  · have hnone : n - b.size = 0 := by omega
    rw [hnone, List.replicate_zero, List.append_nil]
    exact ⟨b, rfl, h⟩

theorem write (h : b.Holds width rows) (mode : Mode) {i : Nat} (hi : i < rows.length) {share : Bytes}
    (hshare : share.length = width) :
    ∃ c, b.write mode i share = .ok c ∧ c.Holds width (rows.modify i (mode.apply · share)) := by
  have hset : rows.modify i (mode.apply · share) = rows.set i (mode.apply rows[i] share) := by
    rw [List.modify_eq_set, List.getElem?_eq_getElem hi, Option.getD_some]
  rw [hset]
  cases mode with
  | overwrite => exact h.setRow hi hshare
  | additive => exact h.xorRow hi share

end Holds

end RowBuffer

end ObliviousRouting
