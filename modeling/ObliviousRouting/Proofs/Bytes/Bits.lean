import Mathlib.Algebra.Group.Nat.Defs
import ObliviousRouting.Bytes.Words

/-!
# Packing loses nothing

A byte gives back the bits that were packed into it, and zeros where there were none. So the bytes of a
list of bits give back the list, once they are cut off at its length. The other way round, bits that were
unpacked give back the bytes, except that the places of the last byte that no bit has come from are cleared.
-/

namespace ObliviousRouting.Bits

theorem testBit_foldr (bits : List Bool) (i : Nat) :
    (bits.foldr (fun (bit : Bool) n => bit.toNat + 2 * n) 0).testBit i = bits.getD i false := by
  induction bits generalizing i with
  | nil => rw [List.foldr_nil, Nat.zero_testBit, List.getD_nil]
  | cons bit bits ih =>
    rw [List.foldr_cons]
    cases i with
    | zero => cases bit <;> simp [Nat.testBit_zero, Nat.add_mod]
    | succ i =>
      have hdiv (n : Nat) : (bit.toNat + 2 * n) / 2 = n := by
        have hbit := Bool.toNat_lt bit
        omega
      rw [Nat.testBit_succ, hdiv, ih, List.getD_cons_succ]

theorem ofByte_toByte (bits : List Bool) :
    ofByte (toByte bits) = (List.range 8).map fun i => bits.getD i false := by
  rw [ofByte, toByte]
  apply List.map_congr_left
  intro i hi
  rw [UInt8.toNat_ofNat', Nat.testBit_mod_two_pow, decide_eq_true (List.mem_range.1 hi), Bool.true_and,
    testBit_foldr]

theorem flatMap_ofByte_packBytes (count : Nat) (bits : List Bool) :
    (packBytes count bits).flatMap ofByte =
      (List.range (8 * count)).map fun i => bits.getD i false := by
  induction count generalizing bits with
  | zero => rfl
  | succ count ih =>
    rw [packBytes, List.flatMap_cons, ih, ofByte_toByte, Nat.mul_succ, Nat.add_comm, List.range_add,
      List.map_append, List.map_map]
    congr 1
    · apply List.map_congr_left
      intro i hi
      rw [List.getD_eq_getElem?_getD, List.getD_eq_getElem?_getD,
        List.getElem?_take_of_lt (List.mem_range.1 hi)]
    · apply List.map_congr_left
      intro i _
      rw [Function.comp, List.getD_eq_getElem?_getD, List.getD_eq_getElem?_getD, List.getElem?_drop]

theorem unpack?_pack (bits : List Bool) : unpack? (pack bits) bits.length = some bits := by
  have hle : bits.length ≤ 8 * bytesFor bits.length := by
    rw [bytesFor]
    omega
  rw [unpack?, if_pos (length_pack bits), pack, flatMap_ofByte_packBytes, ← List.map_take,
    List.take_range, Nat.min_eq_left hle]
  congr 1
  apply List.ext_getElem
  · rw [List.length_map, List.length_range]
  · intro i _ hi
    rw [List.getElem_map, List.getElem_range, List.getD_eq_getElem?_getD, List.getElem?_eq_getElem hi,
      Option.getD_some]

/-- Lists of one length are packed into different bytes. -/
theorem eq_of_pack_eq {bits bits' : List Bool} (hlength : bits.length = bits'.length)
    (h : pack bits = pack bits') : bits = bits' := by
  apply Option.some.inj
  rw [← unpack?_pack bits, h, hlength, unpack?_pack]

/-! ### Bits by their numbers -/

/-- Bit number `i` of a string, which is in place `i % 8` of byte `i / 8`. -/
def bitAt (bytes : Bytes) (i : Nat) : Bool := (bytes.getD (i / 8) 0).toNat.testBit (i % 8)

theorem bitAt_of_le {bytes : Bytes} {i : Nat} (h : 8 * bytes.length ≤ i) : bitAt bytes i = false := by
  have hnone : bytes.length ≤ i / 8 := by omega
  rw [bitAt, List.getD_eq_getElem?_getD, List.getElem?_eq_none hnone]
  exact Nat.zero_testBit _

theorem bitAt_cons_of_lt (byte : UInt8) (bytes : Bytes) {i : Nat} (h : i < 8) :
    bitAt (byte :: bytes) i = byte.toNat.testBit i := by
  rw [bitAt, Nat.div_eq_of_lt h, Nat.mod_eq_of_lt h, List.getD_cons_zero]

theorem bitAt_cons_add (byte : UInt8) (bytes : Bytes) (i : Nat) :
    bitAt (byte :: bytes) (8 + i) = bitAt bytes i := by
  have hdiv : (8 + i) / 8 = i / 8 + 1 := by omega
  rw [bitAt, bitAt, hdiv, Nat.add_mod_left, List.getD_cons_succ]

theorem flatMap_ofByte (bytes : Bytes) :
    bytes.flatMap ofByte = (List.range (8 * bytes.length)).map (bitAt bytes) := by
  induction bytes with
  | nil => rfl
  | cons byte bytes ih =>
    have hhead : ofByte byte = (List.range 8).map (bitAt (byte :: bytes)) := by
      apply List.map_congr_left
      intro i hi
      exact (bitAt_cons_of_lt byte bytes (List.mem_range.1 hi)).symm
    have htail : bitAt bytes = bitAt (byte :: bytes) ∘ (8 + ·) := by
      funext i
      exact (bitAt_cons_add byte bytes i).symm
    rw [List.flatMap_cons, ih, hhead, htail, List.length_cons, Nat.mul_succ, Nat.add_comm (8 * _),
      List.range_add, List.map_append, List.map_map]

/-- Strings of one length with the same bits are the same. -/
theorem eq_of_bitAt_eq {bytes bytes' : Bytes} (hlength : bytes.length = bytes'.length)
    (h : ∀ i < 8 * bytes.length, bitAt bytes i = bitAt bytes' i) : bytes = bytes' := by
  apply List.ext_getElem hlength
  intro k hk hk'
  rw [← UInt8.toNat_inj]
  apply Nat.eq_of_testBit_eq
  intro j
  by_cases hj : j < 8
  · have hbit := h (8 * k + j) (by omega)
    have hdiv : (8 * k + j) / 8 = k := by omega
    have hmod : (8 * k + j) % 8 = j := by omega
    rwa [bitAt, bitAt, hdiv, hmod, List.getD_eq_getElem?_getD, List.getD_eq_getElem?_getD,
      List.getElem?_eq_getElem hk, List.getElem?_eq_getElem hk'] at hbit
  · have hpow : 2 ^ 8 ≤ 2 ^ j := Nat.pow_le_pow_right Nat.two_pos (by omega)
    have hlt := bytes[k].toNat_lt
    have hlt' := bytes'[k].toNat_lt
    rw [Nat.testBit_lt_two_pow (by omega), Nat.testBit_lt_two_pow (by omega)]

/-- A bit of a list goes to the place of its number. -/
theorem bitAt_pack (bits : List Bool) (i : Nat) : bitAt (pack bits) i = bits.getD i false := by
  have hall := flatMap_ofByte_packBytes (bytesFor bits.length) bits
  rw [← pack, flatMap_ofByte, length_pack] at hall
  by_cases hi : i < 8 * bytesFor bits.length
  · have hget := congrArg (·[i]?) hall
    simpa only [List.getElem?_map, List.getElem?_range hi, Option.map_some, Option.some.injEq] using hget
  · have hle : bits.length ≤ i := by
      rw [bytesFor] at hi
      omega
    rw [bitAt_of_le (by rw [length_pack]; omega), List.getD_eq_getElem?_getD, List.getElem?_eq_none hle]
    rfl

/-! ### Packing what was unpacked -/

theorem isSome_unpack? (bytes : Bytes) (n : Nat) : (unpack? bytes n).isSome ↔ bytes.length = bytesFor n := by
  rw [unpack?]
  split <;> simp [*]

theorem unpack?_eq_some_iff {bytes : Bytes} {n : Nat} {bits : List Bool} :
    unpack? bytes n = some bits ↔ bytes.length = bytesFor n ∧ bits = (List.range n).map (bitAt bytes) := by
  rw [unpack?, Option.ite_none_right_eq_some, Option.some.injEq, flatMap_ofByte]
  apply and_congr_right
  intro hlength
  have hle : n ≤ 8 * bytes.length := by
    rw [hlength, bytesFor]
    omega
  rw [← List.map_take, List.take_range, Nat.min_eq_left hle, eq_comm]

/-- A string for `n` bits, with the places of its last byte cleared that are not used. -/
def clearUnused (n : Nat) (bytes : Bytes) : Bytes :=
  bytes.modify (n / 8) (· &&& UInt8.ofNat (2 ^ (n % 8) - 1))

/-- The low places of a byte. -/
theorem testBit_and_mask (byte : UInt8) {k : Nat} (hk : k < 8) (j : Nat) :
    (byte &&& UInt8.ofNat (2 ^ k - 1)).toNat.testBit j = if j < k then byte.toNat.testBit j else false := by
  have hlt : 2 ^ k - 1 < 2 ^ 8 := by
    have hpow : 2 ^ k < 2 ^ 8 := Nat.pow_lt_pow_right (by decide) hk
    omega
  rw [UInt8.toNat_and, UInt8.toNat_ofNat', Nat.mod_eq_of_lt hlt, Nat.testBit_and, Nat.testBit_two_pow_sub_one]
  by_cases hj : j < k <;> simp [hj]

theorem bitAt_clearUnused {bytes : Bytes} {n : Nat} (hlength : bytes.length = bytesFor n) (i : Nat) :
    bitAt (clearUnused n bytes) i = if i < n then bitAt bytes i else false := by
  rw [bytesFor] at hlength
  by_cases hlast : n / 8 = i / 8
  · have hlt : i < n ↔ i % 8 < n % 8 := by omega
    simp only [bitAt, clearUnused, List.getD_eq_getElem?_getD, List.getElem?_modify, hlast, if_true, hlt]
    cases bytes[i / 8]? with
    | none => simp
    | some byte => exact testBit_and_mask byte (Nat.mod_lt n (by decide)) (i % 8)
  · have hsame : bitAt (clearUnused n bytes) i = bitAt bytes i := by
      simp [bitAt, clearUnused, hlast]
    rw [hsame]
    split
    next => rfl
    next hi => exact bitAt_of_le (by omega)

theorem pack_of_unpack? {bytes : Bytes} {n : Nat} {bits : List Bool} (h : unpack? bytes n = some bits) :
    bits.length = n ∧ pack bits = clearUnused n bytes := by
  obtain ⟨hlength, hbits⟩ := unpack?_eq_some_iff.1 h
  have hn : bits.length = n := by rw [hbits, List.length_map, List.length_range]
  refine ⟨hn, eq_of_bitAt_eq ?_ ?_⟩
  · rw [length_pack, hn, clearUnused, List.length_modify, hlength]
  · intro i _
    rw [bitAt_pack, bitAt_clearUnused hlength, hbits]
    split
    next hi => simp [List.getD_eq_getElem?_getD, hi]
    next hi => simp [List.getD_eq_getElem?_getD, hi]

end ObliviousRouting.Bits
