import ObliviousRouting.Bytes.Basic

/-!
# The algebra of masking

XOR takes a mask off again, whatever the lengths are. Among strings of one length it is commutative and
associative, with the string of zeros as its neutral element, so masks cancel in whatever order they were
put on.
-/

namespace ObliviousRouting.Bytes

theorem getElem_xor {a b : Bytes} {i : Nat} (hi : i < (xor a b).length) (ha : i < a.length)
    (hb : i < b.length) : (xor a b)[i] = a[i] ^^^ b[i] := by
  fun_induction xor a b generalizing i with
  | case1 => cases ha
  | case2 => cases hb
  | case3 x a y b ih =>
    cases i with
    | zero => rfl
    | succ i =>
      exact ih (Nat.lt_of_succ_lt_succ hi) (Nat.lt_of_succ_lt_succ ha) (Nat.lt_of_succ_lt_succ hb)

theorem xor_xor_cancel (a b : Bytes) : (a.xor b).xor b = a := by
  fun_induction xor a b with
  | case1 => rfl
  | case2 => rfl
  | case3 x a y b ih => rw [xor, ih, UInt8.xor_assoc, UInt8.xor_self, UInt8.xor_zero]

/-- A mask can be brought to the other side of an equation. -/
theorem xor_eq_iff {a b c : Bytes} : a.xor b = c ↔ a = c.xor b := by
  constructor
  · intro h
    rw [← h, xor_xor_cancel]
  · intro h
    rw [h, xor_xor_cancel]

theorem xor_zeros (a : Bytes) (n : Nat) : a.xor (zeros n) = a := by
  induction a generalizing n with
  | nil => rfl
  | cons x a ih =>
    cases n with
    | zero => rfl
    | succ n =>
      change (x ^^^ 0) :: xor a (zeros n) = x :: a
      rw [UInt8.xor_zero, ih]

theorem xor_append {a b : Bytes} (h : a.length = b.length) (c d : Bytes) :
    (a ++ c).xor (b ++ d) = a.xor b ++ c.xor d := by
  fun_induction xor a b with
  | case1 b =>
    rw [List.eq_nil_of_length_eq_zero h.symm]
    rfl
  | case2 x a => cases h
  | case3 x a y b ih =>
    simp only [List.cons_append, xor, ih (Nat.succ_inj.1 h)]

/-! ### Strings of one length -/

theorem xor_comm {a b : Bytes} (h : a.length = b.length) : a.xor b = b.xor a := by
  apply List.ext_getElem
  · rw [length_xor, length_xor, h]
  · intro i ha hb
    rw [length_xor] at ha hb
    rw [getElem_xor _ ha hb, getElem_xor _ hb ha, UInt8.xor_comm]

theorem xor_assoc {a b c : Bytes} (hab : a.length = b.length) (hbc : b.length = c.length) :
    (a.xor b).xor c = a.xor (b.xor c) := by
  apply List.ext_getElem
  · simp only [length_xor]
  · intro i hi _
    simp only [length_xor] at hi
    rw [getElem_xor _ (by rwa [length_xor]) (by omega), getElem_xor _ hi (by omega),
      getElem_xor _ hi (by rw [length_xor]; omega), getElem_xor _ (by omega) (by omega),
      UInt8.xor_assoc]

theorem xor_right_comm {a b c : Bytes} (hab : a.length = b.length) (hbc : b.length = c.length) :
    (a.xor b).xor c = (a.xor c).xor b := by
  rw [xor_assoc hab hbc, xor_comm hbc, ← xor_assoc (hab.trans hbc) hbc.symm]

theorem xor_xor_xor_comm {a b c d : Bytes} (hab : a.length = b.length) (hbc : b.length = c.length)
    (hcd : c.length = d.length) : (a.xor b).xor (c.xor d) = (a.xor c).xor (b.xor d) := by
  rw [← xor_assoc (by rw [length_xor, hab, hbc]) hcd, xor_right_comm hab hbc,
    xor_assoc (by rw [length_xor, hab]) (hbc.trans hcd)]

/-- A mask that is on both sides makes no difference. -/
theorem xor_xor_xor_cancel {a b c : Bytes} (hab : a.length = b.length) (hbc : b.length = c.length) :
    (a.xor c).xor (b.xor c) = a.xor b := by
  rw [xor_comm hbc, ← xor_assoc (by rw [length_xor, hab, hbc]) hbc.symm, xor_xor_cancel]

theorem xor_self (a : Bytes) : a.xor a = zeros a.length := by
  induction a with
  | nil => rfl
  | cons x a ih =>
    rw [xor, ih, UInt8.xor_self]
    rfl

theorem zeros_xor {a : Bytes} {n : Nat} (h : a.length = n) : (zeros n).xor a = a := by
  rw [xor_comm (by rw [length_zeros, h]), xor_zeros]

end ObliviousRouting.Bytes
