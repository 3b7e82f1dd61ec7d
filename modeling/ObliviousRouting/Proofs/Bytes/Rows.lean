import ObliviousRouting.Proofs.Bytes.Xor

/-!
# Byte strings as rows

A string of whole rows and the list of its rows say the same. Cutting a string into rows and joining
rows undo each other, and what a range of rows occupies in the string is found by multiplication.
-/

namespace ObliviousRouting.Bytes

/-- All rows have the same width. -/
def Uniform (width : Nat) (rows : List Bytes) : Prop := ∀ row ∈ rows, row.length = width

variable {width : Nat} {rows : List Bytes}

namespace Uniform

theorem nil : Uniform width [] := fun _ h => nomatch h

theorem cons_iff {row : Bytes} : Uniform width (row :: rows) ↔ row.length = width ∧ Uniform width rows :=
  List.forall_mem_cons

theorem getElem (h : Uniform width rows) {i : Nat} (hi : i < rows.length) : rows[i].length = width :=
  h _ (List.getElem_mem hi)

theorem mono {rows' : List Bytes} (h : Uniform width rows) (hsub : rows' ⊆ rows) :
    Uniform width rows' :=
  fun row hrow => h row (hsub hrow)

theorem take (h : Uniform width rows) (n : Nat) : Uniform width (rows.take n) :=
  h.mono (List.take_subset n rows)

theorem drop (h : Uniform width rows) (n : Nat) : Uniform width (rows.drop n) :=
  h.mono (List.drop_subset n rows)

theorem append {rows' : List Bytes} (h : Uniform width rows) (h' : Uniform width rows') :
    Uniform width (rows ++ rows') := by
  intro row hrow
  rcases List.mem_append.1 hrow with hrow | hrow
  · exact h row hrow
  · exact h' row hrow

theorem replicate {row : Bytes} (hrow : row.length = width) (n : Nat) :
    Uniform width (List.replicate n row) := by
  intro r hr
  rw [List.eq_of_mem_replicate hr]
  exact hrow

theorem zipWith_xor (h : Uniform width rows) (rows' : List Bytes) :
    Uniform width (List.zipWith xor rows rows') := by
  intro row hrow
  obtain ⟨i, hi, rfl⟩ := List.mem_iff_getElem.1 hrow
  rw [List.length_zipWith] at hi
  rw [List.getElem_zipWith, length_xor]
  exact h.getElem (by omega)

theorem length_flatten (h : Uniform width rows) : rows.flatten.length = rows.length * width := by
  induction rows with
  | nil => rw [List.flatten_nil, List.length_nil, List.length_nil, Nat.zero_mul]
  | cons row rows ih =>
    rw [cons_iff] at h
    rw [List.flatten_cons, List.length_append, ih h.2, h.1, List.length_cons, Nat.succ_mul, Nat.add_comm]

theorem drop_flatten (h : Uniform width rows) (n : Nat) :
    rows.flatten.drop (n * width) = (rows.drop n).flatten := by
  induction rows generalizing n with
  | nil => simp
  | cons row rows ih =>
    rw [cons_iff] at h
    cases n with
    | zero => rw [Nat.zero_mul, List.drop_zero, List.drop_zero]
    | succ n =>
      rw [List.flatten_cons, Nat.succ_mul, Nat.add_comm, ← h.1, List.drop_length_add_append, h.1, ih h.2,
        List.drop_succ_cons]

theorem take_flatten (h : Uniform width rows) (n : Nat) :
    rows.flatten.take (n * width) = (rows.take n).flatten := by
  induction rows generalizing n with
  | nil => simp
  | cons row rows ih =>
    rw [cons_iff] at h
    cases n with
    | zero => rw [Nat.zero_mul, List.take_zero, List.take_zero, List.flatten_nil]
    | succ n =>
      rw [List.flatten_cons, Nat.succ_mul, Nat.add_comm, ← h.1, List.take_length_add_append, h.1, ih h.2,
        List.take_succ_cons, List.flatten_cons]

theorem xor_flatten {rows' : List Bytes} (h : Uniform width rows) (h' : Uniform width rows')
    (hlength : rows.length = rows'.length) :
    xor rows.flatten rows'.flatten = (List.zipWith xor rows rows').flatten := by
  induction rows generalizing rows' with
  | nil => rfl
  | cons row rows ih =>
    cases rows' with
    | nil => cases hlength
    | cons row' rows' =>
      rw [cons_iff] at h h'
      rw [List.flatten_cons, List.flatten_cons, xor_append (h.1.trans h'.1.symm),
        ih h.2 h'.2 (Nat.succ_inj.1 hlength), List.zipWith_cons_cons, List.flatten_cons]

theorem pieces_flatten (h : Uniform width rows) : pieces width rows.length rows.flatten = rows := by
  induction rows with
  | nil => rfl
  | cons row rows ih =>
    rw [cons_iff] at h
    rw [List.flatten_cons, List.length_cons, pieces, List.take_left' h.1, List.drop_left' h.1, ih h.2]

theorem chunks_flatten (h : Uniform width rows) (hwidth : 0 < width) :
    chunks width rows.flatten = rows := by
  rw [chunks, h.length_flatten, Nat.mul_div_cancel _ hwidth, h.pieces_flatten]

end Uniform

theorem flatten_pieces (count : Nat) (bytes : Bytes) :
    (pieces width count bytes).flatten = bytes.take (count * width) := by
  induction count generalizing bytes with
  | zero => rw [Nat.zero_mul, List.take_zero, pieces, List.flatten_nil]
  | succ count ih => rw [pieces, List.flatten_cons, ih, Nat.succ_mul, Nat.add_comm, List.take_add]

theorem flatten_pieces_of_length {count : Nat} {bytes : Bytes} (h : bytes.length = count * width) :
    (pieces width count bytes).flatten = bytes := by
  rw [flatten_pieces, ← h, List.take_length]

theorem uniform_pieces {count : Nat} {bytes : Bytes} (h : count * width ≤ bytes.length) :
    Uniform width (pieces width count bytes) := by
  induction count generalizing bytes with
  | zero => exact .nil
  | succ count ih =>
    rw [Nat.succ_mul] at h
    rw [pieces, Uniform.cons_iff, List.length_take]
    exact ⟨by omega, ih (by rw [List.length_drop]; omega)⟩

theorem getElem_pieces {count : Nat} {bytes : Bytes} {i : Nat} (hi : i < (pieces width count bytes).length) :
    (pieces width count bytes)[i] = (bytes.drop (i * width)).take width := by
  induction count generalizing bytes i with
  | zero => cases hi
  | succ count ih =>
    cases i with
    | zero => rw [Nat.zero_mul]; rfl
    | succ i =>
      simp only [pieces, List.getElem_cons_succ]
      rw [ih, List.drop_drop, Nat.succ_mul, Nat.add_comm]

theorem uniform_chunks (bytes : Bytes) : Uniform width (chunks width bytes) :=
  uniform_pieces (Nat.div_mul_le_self _ _)

theorem flatten_chunks {bytes : Bytes} (h : width ∣ bytes.length) :
    (chunks width bytes).flatten = bytes := by
  rw [chunks, flatten_pieces, Nat.div_mul_cancel h, List.take_length]

end ObliviousRouting.Bytes
