import ObliviousRouting.Proofs.RowBuffer.Rows

/-!
# Shapes of buffers

Whatever is written over rows, a buffer keeps its width and its number of bytes. Rows without width take no
space, so a buffer for any number of them has no bytes, and no rows that could be named.
-/

namespace ObliviousRouting

namespace RowBuffer

/-- A buffer that was made for `n` rows of one width. -/
structure Shaped (b : RowBuffer) (n width : Nat) : Prop where
  stride_eq : b.stride = width
  data_size_eq : b.data.size = n * width
  fits : n * width < Size.bufferLimit

variable {b : RowBuffer} {n width : Nat}

theorem shaped_of_fits (h : b.data.size < Size.bufferLimit) : b.Shaped b.size b.stride :=
  ⟨rfl, b.size_mul_stride.symm, b.size_mul_stride ▸ h⟩

theorem shaped_blank (h : n * width < Size.bufferLimit) : (blank n width).Shaped n width :=
  ⟨rfl, Array.size_replicate, h⟩

theorem size_eq_zero_or_pos (b : RowBuffer) : b.size = 0 ∨ 0 < b.stride := by
  rcases Nat.eq_zero_or_pos b.stride with hzero | hpos
  · exact .inl (by rw [size, hzero, Nat.div_zero])
  · exact .inr hpos

theorem size_blank (hwidth : n = 0 ∨ 0 < width) : (blank n width).size = n := by
  have hdata : (blank n width).data.size = n * width := Array.size_replicate
  change (blank n width).data.size / width = n
  rw [hdata]
  rcases hwidth with rfl | hpos
  · rw [Nat.zero_mul, Nat.zero_div]
  · exact Nat.mul_div_cancel n hpos

/-- Two buffers of one width that are not both without rows have a width. -/
theorem stride_pos_of_max_pos {a b : RowBuffer} (hstride : a.stride = b.stride)
    (h : 0 < max a.size b.size) : 0 < a.stride := by
  rcases a.size_eq_zero_or_pos with ha | hpos
  · exact hstride ▸ b.size_eq_zero_or_pos.resolve_left (by omega)
  · exact hpos

theorem Holds.shaped {rows : List Bytes} (h : b.Holds width rows) (hn : rows.length = n) :
    b.Shaped n width := by
  subst hn
  exact ⟨h.stride_eq, h.data_size_eq, h.mul_lt (Nat.le_refl _)⟩

namespace Shaped

variable (h : b.Shaped n width)
include h

theorem holds : b.Holds width b.toList := ⟨h.stride_eq, rfl, h.data_size_eq ▸ h.fits⟩

theorem size_eq (hwidth : n = 0 ∨ 0 < width) : b.size = n := by
  rw [size, h.data_size_eq, h.stride_eq]
  rcases hwidth with rfl | hpos
  · rw [Nat.zero_mul, Nat.zero_div]
  · exact Nat.mul_div_cancel n hpos

theorem length_toList (hwidth : n = 0 ∨ 0 < width) : b.toList.length = n := by
  rw [RowBuffer.length_toList, h.size_eq hwidth]

/-- Any bytes can be written over some rows if there are as many of them as these rows have. -/
theorem setRows {first last : Nat} {new : Bytes} (hle : first ≤ last) (hlast : last ≤ n)
    (hnew : new.length = (last - first) * width) :
    ∃ c, b.setRows first last new = .ok c ∧ c.Shaped n width := by
  have hstart : first * width ≤ last * width := Nat.mul_le_mul_right _ hle
  have hstop : last * width ≤ n * width := Nat.mul_le_mul_right _ hlast
  have hfits := h.fits
  rw [RowBuffer.setRows, h.stride_eq, Size.mul_eq_ok_of_lt (by omega), Size.mul_eq_ok_of_lt (by omega)]
  change ∃ c, b.splice (first * width) (last * width) new = .ok c ∧ c.Shaped n width
  rw [RowBuffer.splice, if_pos ⟨hstart, by rw [h.data_size_eq]; exact hstop⟩,
    if_pos (by rw [hnew, Nat.sub_mul])]
  exact ⟨_, rfl, h.stride_eq, (Storage.size_overwrite ..).trans h.data_size_eq, h.fits⟩

end Shaped

/-! ### Writing over rows -/

/-- A buffer has as many rows as another one, and of the same width. -/
structure Alike (c b : RowBuffer) : Prop where
  stride_eq : c.stride = b.stride
  data_size_eq : c.data.size = b.data.size

namespace Alike

variable {b c : RowBuffer}

theorem refl (b : RowBuffer) : b.Alike b := ⟨rfl, rfl⟩

theorem trans {d : RowBuffer} (h : d.Alike c) (h' : c.Alike b) : d.Alike b :=
  ⟨h.stride_eq.trans h'.stride_eq, h.data_size_eq.trans h'.data_size_eq⟩

theorem size_eq (h : c.Alike b) : c.size = b.size := by
  rw [size, size, h.stride_eq, h.data_size_eq]

theorem of_setRows {first last : Nat} {new : Bytes} (h : b.setRows first last new = .ok c) :
    c.Alike b := by
  obtain ⟨start, -, h⟩ := Checked.of_bind h
  obtain ⟨stop, -, h⟩ := Checked.of_bind h
  rw [splice] at h
  split at h
  · split at h
    · cases h
      exact ⟨rfl, Storage.size_overwrite ..⟩
    · cases h
  · cases h

theorem of_setRow {i : Nat} {new : Bytes} (h : b.setRow i new = .ok c) : c.Alike b := by
  obtain ⟨next, -, h⟩ := Checked.of_bind h
  exact of_setRows h

theorem of_write {mode : Mode} {i : Nat} {share : Bytes} (h : b.write mode i share = .ok c) :
    c.Alike b := by
  cases mode with
  | overwrite => exact of_setRow h
  | additive =>
    obtain ⟨old, -, h⟩ := Checked.of_bind h
    exact of_setRow h

end Alike

/-! ### Appending rows -/

/-- Rows that are there stay where they are when others are appended. -/
theorem rowAt_of_padTo {b c : RowBuffer} {n i : Nat} (h : b.padTo n = .ok c) (hi : i < b.size) :
    i < c.size ∧ c.rowAt i = b.rowAt i := by
  by_cases hlt : b.size < n
  · have hpad := h
    rw [padTo, if_pos hlt] at hpad
    obtain ⟨length, hmul, hpad⟩ := Checked.of_bind hpad
    obtain ⟨_, hbuffer, -⟩ := Checked.of_bind hpad
    have hlength : length = n * b.stride := Size.eq_of_mul hmul
    have hfits : n * b.stride < Size.bufferLimit := hlength ▸ Size.lt_of_buffer hbuffer
    have hwidth : 0 < b.stride := (size_eq_zero_or_pos b).resolve_left (by omega)
    have hsize : b.data.size < Size.bufferLimit := by
      rw [← b.size_mul_stride]
      exact Nat.lt_of_le_of_lt (Nat.mul_le_mul_right _ (Nat.le_of_lt hlt)) hfits
    obtain ⟨c', hc', hholds⟩ := (holds_toList hsize).padTo (.inr hwidth) hfits
    rw [h] at hc'
    cases hc'
    have hi' : i < b.toList.length := by rwa [length_toList]
    refine ⟨?_, ?_⟩
    · rw [hholds.size_eq, List.length_append]
      omega
    · rw [hholds.rowAt_eq, List.getD_append _ _ _ _ hi', rowAt]
  · rw [padTo, if_neg hlt] at h
    cases h
    exact ⟨hi, rfl⟩

theorem le_size_of_padTo {b c : RowBuffer} {n : Nat} (h : b.padTo n = .ok c) (hwidth : 0 < b.stride) :
    n ≤ c.size := by
  rw [padTo] at h
  split at h
  · next hlt =>
    obtain ⟨_, -, h⟩ := Checked.of_bind h
    obtain ⟨_, -, h⟩ := Checked.of_bind h
    cases h
    rw [size, Nat.le_div_iff_mul_le hwidth, Array.size_append, Array.size_replicate, ← b.size_mul_stride,
      ← Nat.add_mul]
    exact Nat.mul_le_mul_right _ (by omega)
  · next hnot =>
    cases h
    exact Nat.le_of_not_lt hnot

end RowBuffer

end ObliviousRouting
