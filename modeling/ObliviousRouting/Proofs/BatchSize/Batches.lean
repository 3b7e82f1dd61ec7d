import ObliviousRouting.BatchSize.Basic

/-!
# Batches cover the rows

The batches of a list are disjoint and make up the list. Nothing depends on how large a batch is, so
whatever is done batch by batch is done to the whole list; the end of the last batch is a size because
the batch begins before the end of the list.
-/

namespace ObliviousRouting.BatchSize

variable {α β γ : Type} (b : BatchSize)

/-- The elements of batch `k` of a list. -/
def batch (l : List α) (k : Nat) : List α := (l.drop (k * b.step)).take b.step

/-- A configured batch size and a number of rows for which all batches have ends. -/
structure Fits (n : Nat) : Prop where
  rows_lt : b.rows < Size.limit
  le : n ≤ Size.bufferLimit

variable {b}

theorem lt_count_iff {n k : Nat} : k < b.count n ↔ k * b.step < n := by
  have hpos := b.step_pos
  rw [count, Nat.lt_iff_add_one_le, Nat.le_div_iff_mul_le hpos, Nat.succ_mul]
  omega

@[simp] theorem count_zero : b.count 0 = 0 := by
  rw [count, Nat.zero_add]
  exact Nat.div_eq_of_lt (Nat.sub_lt b.step_pos Nat.one_pos)

/-- Where there is a batch, there are rows of some width. -/
theorem width_pos {n width k : Nat} (h : n = 0 ∨ 0 < width) (hk : k < b.count n) : 0 < width := by
  rcases h with rfl | hpos
  · exact absurd (lt_count_iff.1 hk) (Nat.not_lt_zero _)
  · exact hpos

theorem le_count_mul_step (n : Nat) : n ≤ b.count n * b.step := by
  apply Nat.le_of_not_lt
  intro h
  exact absurd (lt_count_iff.2 h) (Nat.lt_irrefl _)

theorem range_eq_ok {n k : Nat} (hfits : b.Fits n) (hk : k < b.count n) :
    b.range n k = .ok (k * b.step, min (k * b.step + b.step) n) := by
  have hlt := lt_count_iff.1 hk
  have hrows := hfits.rows_lt
  have hle := hfits.le
  have hstep : b.step = max b.rows 1 := rfl
  have hend : k * b.step + b.step < Size.limit := by
    simp only [Size.limit, Size.bufferLimit] at *
    rcases Nat.eq_zero_or_pos k with rfl | hpos
    · omega
    · have hfull := Nat.le_mul_of_pos_left b.step hpos
      omega
  rw [range, Size.add_eq_ok hend]
  rfl

theorem eq_of_range {n k : Nat} {range : Nat × Nat} (h : b.range n k = .ok range) :
    range = (k * b.step, min (k * b.step + b.step) n) := by
  obtain ⟨stop, hstop, h⟩ := Checked.of_bind h
  cases h
  rw [Size.eq_of_add hstop]

theorem part_eq_batch {l : List α} {n k : Nat} (hn : l.length = n) :
    part l (k * b.step) (min (k * b.step + b.step) n) = b.batch l k := by
  rw [part, batch]
  rcases Nat.le_total (k * b.step + b.step) n with h | h
  · rw [Nat.min_eq_left h, Nat.add_sub_cancel_left]
  · rw [Nat.min_eq_right h, List.take_of_length_le, List.take_of_length_le]
    · rw [List.length_drop]
      omega
    · exact Nat.le_of_eq (by rw [List.length_drop, hn])

theorem length_batch (l : List α) (k : Nat) :
    (b.batch l k).length = min b.step (l.length - k * b.step) := by
  rw [batch, List.length_take, List.length_drop]

theorem length_batch_eq {l : List α} {n k : Nat} (hn : l.length = n) :
    (b.batch l k).length = min (k * b.step + b.step) n - k * b.step := by
  rw [length_batch, hn]
  omega

theorem batch_congr_length {l : List α} {l' : List β} (h : l.length = l'.length) (k : Nat) :
    (b.batch l k).length = (b.batch l' k).length := by
  rw [length_batch, length_batch, h]

theorem batch_subset (l : List α) (k : Nat) : b.batch l k ⊆ l :=
  List.Subset.trans (List.take_subset _ _) (List.drop_subset _ _)

theorem batch_zipWith (f : α → β → γ) (l : List α) (l' : List β) (k : Nat) :
    b.batch (List.zipWith f l l') k = List.zipWith f (b.batch l k) (b.batch l' k) := by
  rw [batch, batch, batch, List.drop_zipWith, List.take_zipWith]

theorem batch_zip (l : List α) (l' : List β) (k : Nat) :
    b.batch (l.zip l') k = (b.batch l k).zip (b.batch l' k) :=
  batch_zipWith Prod.mk l l' k

theorem batch_of_take_eq {l l' : List α} {k : Nat}
    (h : l.take (k * b.step + b.step) = l'.take (k * b.step + b.step)) : b.batch l k = b.batch l' k := by
  have hdrop := congrArg (List.drop (k * b.step)) h
  rwa [List.drop_take, List.drop_take, Nat.add_sub_cancel_left] at hdrop

theorem take_succ_mul_step (l : List α) (k : Nat) :
    l.take ((k + 1) * b.step) = l.take (k * b.step) ++ b.batch l k := by
  rw [batch, Nat.succ_mul, List.take_add]

theorem take_count_mul_step {l : List α} {n : Nat} (hn : l.length = n) :
    l.take (b.count n * b.step) = l := by
  rw [List.take_of_length_le]
  rw [hn]
  exact le_count_mul_step n

theorem flatMap_batch {l : List α} {n : Nat} (hn : l.length = n) :
    (List.range (b.count n)).flatMap (b.batch l) = l := by
  have htaken (m : Nat) : (List.range m).flatMap (b.batch l) = l.take (m * b.step) := by
    induction m with
    | zero => rw [Nat.zero_mul, List.take_zero, List.range_zero, List.flatMap_nil]
    | succ m ih => rw [List.range_succ, List.flatMap_append, ih, List.flatMap_singleton, take_succ_mul_step]
  rw [htaken, take_count_mul_step hn]

/-- Lists with the same batches are the same. -/
theorem eq_of_batch_eq {l l' : List α} {n : Nat} (hn : l.length = n) (hn' : l'.length = n)
    (h : ∀ k < b.count n, b.batch l k = b.batch l' k) : l = l' := by
  rw [← flatMap_batch (b := b) hn, ← flatMap_batch (b := b) hn']
  simp only [List.flatMap_def]
  congr 1
  apply List.map_congr_left
  intro k hk
  exact h k (List.mem_range.1 hk)

end ObliviousRouting.BatchSize
