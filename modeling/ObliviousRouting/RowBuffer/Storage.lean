import ObliviousRouting.Bytes.Basic

/-!
# Storage

The bytes of a buffer, stored so that a few of them can be read or replaced without touching the
others. What is stored is seen as a string of bytes by `toList`; `slice` and `overwrite` are described
by what they do to that string.
-/

namespace ObliviousRouting

/-- Bytes that are stored one after another. -/
abbrev Storage := Array UInt8

namespace Storage

/-- The bytes from `start` up to `stop`; a fault where these do not fit. -/
def slice (data : Storage) (start stop : Nat) : Checked Bytes :=
  if start ≤ stop ∧ stop ≤ data.size then .ok (data.extract start stop).toList
  else .error .outOfRange

/-- The storage with the bytes from `start` on overwritten by `new`. -/
def overwrite (data : Storage) (start : Nat) : (new : Bytes) → Storage
  | [] => data
  | b :: new => overwrite (data.setIfInBounds start b) (start + 1) new

theorem slice_eq_ok {data : Storage} {start stop : Nat} (h : start ≤ stop ∧ stop ≤ data.size) :
    data.slice start stop = .ok ((data.toList.drop start).take (stop - start)) := by
  rw [slice, if_pos h, Array.toList_extract, List.extract_eq_take_drop]

@[simp] theorem size_overwrite (data : Storage) (start : Nat) (new : Bytes) :
    (data.overwrite start new).size = data.size := by
  fun_induction overwrite data start new with
  | case1 => rfl
  | case2 data start b new ih => rw [ih, Array.size_setIfInBounds]

theorem toList_overwrite {data : Storage} {start : Nat} {new : Bytes}
    (h : start + new.length ≤ data.size) :
    (data.overwrite start new).toList =
      data.toList.take start ++ (new ++ data.toList.drop (start + new.length)) := by
  fun_induction overwrite data start new with
  | case1 => simp
  | case2 data start b new ih =>
    simp only [List.length_cons] at h ⊢
    have hstart : start < data.toList.length := by rw [Array.length_toList]; omega
    have htake : (data.toList.set start b).take (start + 1) = data.toList.take start ++ [b] := by
      rw [List.take_succ_eq_append_getElem (by simpa using hstart), List.take_set_of_le
        (Nat.le_refl start), List.getElem_set_self]
    rw [ih (by rw [Array.size_setIfInBounds]; omega), Array.toList_setIfInBounds, htake,
      List.drop_set_of_lt (by omega), List.append_assoc,
      show start + 1 + new.length = start + (new.length + 1) by omega]
    rfl

end Storage

end ObliviousRouting
