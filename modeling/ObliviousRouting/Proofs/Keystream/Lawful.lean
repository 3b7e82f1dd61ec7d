import ObliviousRouting.Keystream
import ObliviousRouting.Proofs.Pass.Shuffle
import ObliviousRouting.Reveal.Roles

/-!
# What keystreams give

Whatever the words of a keystream are, it gives as many bytes and bits as are asked for, and a number
that is drawn lies in its range: the two words of a draw are the digits of a fraction below one, by which
the range is multiplied. So keystreams make lawful blindings.
-/

namespace ObliviousRouting

namespace Keystream

variable (k : Keystream)

@[simp] theorem length_bytes (start n : Nat) : (k.bytes start n).length = n := by
  have hwords (l : List UInt32) :
      (l.flatMap fun w => LittleEndian.encode 4 w.toNat).length = 4 * l.length := by
    induction l with
    | nil => rfl
    | cons w l ih =>
      rw [List.flatMap_cons, List.length_append, ih, LittleEndian.length_encode, List.length_cons]
      omega
  rw [bytes, List.length_take, hwords, length_words, wordsFor]
  omega

@[simp] theorem length_bits (start count : Nat) : (k.bits start count).length = count := by
  rw [bits, List.length_map, length_words]

theorem draw_range (position : Nat) {low high : Nat} (h : low < high) :
    low ≤ (k.draw position low high).1 ∧ (k.draw position low high).1 < high := by
  have hfirst := (k.word position).toNat_lt
  have hsecond := (k.word (position + 1)).toNat_lt
  simp only [draw, UInt32.size]
  generalize (k.word position).toNat = a at hfirst ⊢
  generalize (k.word (position + 1)).toNat = b at hsecond ⊢
  have hrange : 0 < high - low := by omega
  generalize hr : high - low = r at hrange ⊢
  have ha : a * r ≤ (2 ^ 32 - 1) * r := Nat.mul_le_mul_right r (by omega)
  have hb : b * r ≤ (2 ^ 32 - 1) * r := Nat.mul_le_mul_right r (by omega)
  split <;> simp only <;> omega

theorem admissible_draws {rows count i : Nat} (h : i + count ≤ rows) (position : Nat) :
    Admissible rows i (k.draws rows count i position) := by
  induction count generalizing i position with
  | zero => trivial
  | succ count ih => exact ⟨k.draw_range position (by omega), ih (by omega) _⟩

end Keystream

theorem Blinding.lawful_ofSeed (seed : Seed) : (Blinding.ofSeed seed).Lawful where
  length_partners n := Keystream.length_draws ..
  admissible n := Keystream.admissible_draws _ (Nat.le_of_eq (Nat.zero_add n)) 0
  length_masks n width := by rw [Blinding.ofSeed, List.length_map, List.length_range]
  uniform_masks n width := by
    intro mask hmask
    obtain ⟨k, -, rfl⟩ := List.mem_map.1 hmask
    exact Keystream.length_bytes ..

@[simp] theorem Tape.length_fill (t : Tape) (n : Nat) : (t.fill n).1.length = n :=
  Keystream.length_bytes ..

end ObliviousRouting
