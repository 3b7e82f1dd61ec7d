import Mathlib.Algebra.Order.Floor.Div
import ObliviousRouting.Proofs.BatchSize.Batches

/-!
# The ranges of the batches

The ranges of all batches lie side by side and make up the rows, so every row belongs to exactly one batch.
The end of a range is computed before it is cut off at the number of rows, and still the sum fits into 64 bits:
the first batch ends where its size says, and every later one is no larger than the number of rows before it,
which is below `2 ^ 63`.
-/

namespace ObliviousRouting.BatchSize

/-! ### Ranges side by side -/

/-- Ranges from `first` up to `last`, none of them empty, each of which begins where the one before it
ends. -/
inductive SideBySide : (first : Nat) → List (Nat × Nat) → (last : Nat) → Prop
  | nil (n : Nat) : SideBySide n [] n
  | cons {first middle last : Nat} {ranges : List (Nat × Nat)} :
      first < middle → SideBySide middle ranges last → SideBySide first ((first, middle) :: ranges) last

namespace SideBySide

variable {first middle last : Nat} {ranges : List (Nat × Nat)}

theorem concat (h : SideBySide first ranges middle) (hlt : middle < last) :
    SideBySide first (ranges ++ [(middle, last)]) last := by
  induction h with
  | nil n => exact .cons hlt (.nil last)
  | cons hfirst _ ih => exact .cons hfirst (ih hlt)

theorem le (h : SideBySide first ranges last) : first ≤ last := by
  induction h with
  | nil n => exact Nat.le_refl n
  | cons hlt _ ih => omega

theorem last_unique {last' : Nat} (h : SideBySide first ranges last)
    (h' : SideBySide first ranges last') : last = last' := by
  induction h with
  | nil n => cases h'; rfl
  | cons _ _ ih =>
    cases h' with
    | cons _ hrest => exact ih hrest

theorem bounds (h : SideBySide first ranges last) {r : Nat × Nat} (hr : r ∈ ranges) :
    first ≤ r.1 ∧ r.1 < r.2 ∧ r.2 ≤ last := by
  induction h with
  | nil n => cases hr
  | cons hlt hrest ih =>
    have hle := hrest.le
    rcases List.mem_cons.1 hr with heq | hmem
    · subst heq
      simp only
      omega
    · have hbounds := ih hmem
      omega

/-- A row between the ends is in one range, and in no other one. -/
theorem existsUnique_index (h : SideBySide first ranges last) {i : Nat} (hfirst : first ≤ i)
    (hlast : i < last) : ∃! k : Nat, ∃ r, ranges[k]? = some r ∧ r.1 ≤ i ∧ i < r.2 := by
  induction h with
  | nil n => omega
  | @cons first middle last ranges hlt hrest ih =>
    by_cases hi : i < middle
    · refine ⟨0, ⟨(first, middle), rfl, hfirst, hi⟩, ?_⟩
      intro k hk
      obtain ⟨r, hr, hle, -⟩ := hk
      cases k with
      | zero => rfl
      | succ k =>
        have hbounds := hrest.bounds (List.mem_of_getElem? hr)
        omega
    · obtain ⟨k, ⟨r, hr, hin⟩, honly⟩ := ih (by omega) hlast
      refine ⟨k + 1, ⟨r, hr, hin⟩, ?_⟩
      intro k' hk'
      obtain ⟨r', hr', hin'⟩ := hk'
      cases k' with
      | zero =>
        cases hr'
        exact absurd hin'.2 hi
      | succ k' => rw [honly k' ⟨r', hr', hin'⟩]

/-- Whatever is cut at the ends of the ranges is put together again. -/
theorem flatMap_part {α : Type} (h : SideBySide first ranges last) (l : List α) :
    (ranges.flatMap fun r => part l r.1 r.2) = part l first last := by
  induction h with
  | nil n => simp [part]
  | @cons first middle last ranges hlt hrest ih =>
    have hle := hrest.le
    have hsplit : last - first = (middle - first) + (last - middle) := by omega
    have hmiddle : first + (middle - first) = middle := by omega
    rw [List.flatMap_cons, ih, part, part, part, hsplit, List.take_add, List.drop_drop, hmiddle]

end SideBySide

/-! ### The ranges of all batches -/

variable {b : BatchSize} {n : Nat}

/-- The rows of batch `k`. -/
def span (b : BatchSize) (n k : Nat) : Nat × Nat := (k * b.step, min (k * b.step + b.step) n)

theorem mapM_eq_ok {α β ε : Type} {f : α → Except ε β} {g : α → β} {l : List α}
    (h : ∀ a ∈ l, f a = .ok (g a)) : l.mapM f = .ok (l.map g) := by
  induction l with
  | nil => rfl
  | cons a l ih =>
    rw [List.forall_mem_cons] at h
    rw [List.mapM_cons, h.1, ih h.2]
    rfl

theorem ranges_eq (hfits : b.Fits n) : b.ranges n = .ok ((List.range (b.count n)).map (b.span n)) := by
  apply mapM_eq_ok
  intro k hk
  exact range_eq_ok hfits (List.mem_range.1 hk)

theorem sideBySide_span {m : Nat} (hm : m ≤ b.count n) :
    SideBySide 0 ((List.range m).map (b.span n)) (min (m * b.step) n) := by
  induction m with
  | zero => simpa using SideBySide.nil 0
  | succ m ih =>
    have hlt : m * b.step < n := lt_count_iff.1 hm
    have hpos := b.step_pos
    have hbefore := ih (by omega)
    rw [Nat.min_eq_left (by omega)] at hbefore
    rw [List.range_succ, List.map_append, List.map_singleton, Nat.succ_mul]
    exact hbefore.concat (by omega)

theorem sideBySide_spans : SideBySide 0 ((List.range (b.count n)).map (b.span n)) n := by
  have h := sideBySide_span (Nat.le_refl (b.count n))
  rwa [Nat.min_eq_right (le_count_mul_step n)] at h

theorem count_eq_ceilDiv (b : BatchSize) (n : Nat) : b.count n = n ⌈/⌉ max b.rows 1 := by
  rw [Nat.ceilDiv_eq_add_pred_div]
  rfl

theorem size_span_le (k : Nat) : (b.span n k).2 - (b.span n k).1 ≤ b.step := by
  simp only [span]
  omega

theorem size_span_eq {k : Nat} (hk : k + 1 < b.count n) : (b.span n k).2 - (b.span n k).1 = b.step := by
  have hlt := lt_count_iff.1 hk
  rw [Nat.succ_mul] at hlt
  simp only [span]
  omega

theorem size_of_mem_dropLast {r : Nat × Nat} (hr : r ∈ ((List.range (b.count n)).map (b.span n)).dropLast) :
    r.2 - r.1 = b.step := by
  rw [← List.map_dropLast, List.dropLast_eq_take, List.length_range, List.take_range] at hr
  obtain ⟨k, hk, rfl⟩ := List.mem_map.1 hr
  have hlt := List.mem_range.1 hk
  exact size_span_eq (by omega)

/-! ### Who cuts alike -/

/-- All rows together make one batch, or none. -/
theorem ranges_of_le (hfits : b.Fits n) (hle : n ≤ b.step) :
    b.ranges n = .ok (if n = 0 then [] else [(0, n)]) := by
  rw [ranges_eq hfits]
  by_cases hn : n = 0
  · rw [if_pos hn, hn, count_zero]
    rfl
  · have hone : b.count n = 1 := by
      have hfirst : 0 < b.count n := lt_count_iff.2 (by omega)
      have hsecond : ¬ 1 < b.count n := fun h => by
        have hlt := lt_count_iff.1 h
        omega
      omega
    rw [if_neg hn, hone]
    simp [span, Nat.min_eq_right hle]

theorem ranges_of_step_eq {b' : BatchSize} (h : b'.step = b.step) : b'.ranges n = b.ranges n := by
  have hcount : b'.count n = b.count n := by rw [count, count, h]
  have hrange : b'.range n = b.range n := by
    funext k
    rw [range, range, h]
  rw [ranges, ranges, hcount, hrange]

/-- Two parties cut their rows alike exactly if they have as many rows and their batches are as large, as far
as there are rows for them. -/
theorem ranges_eq_iff {b' : BatchSize} {n' : Nat} (hfits : b.Fits n) (hfits' : b'.Fits n') :
    b'.ranges n' = b.ranges n ↔ n' = n ∧ min b'.step n = min b.step n := by
  constructor
  · intro h
    rw [ranges_eq hfits, ranges_eq hfits', Except.ok.injEq] at h
    have hsame : SideBySide 0 ((List.range (b.count n)).map (b.span n)) n' := h ▸ sideBySide_spans
    have hn : n' = n := hsame.last_unique sideBySide_spans
    subst hn
    refine ⟨rfl, ?_⟩
    rcases Nat.eq_zero_or_pos n' with hzero | hrows
    · omega
    · -- the first ranges are the same, and they end there
      have hfirst : 0 < b.count n' := lt_count_iff.2 (by omega)
      have hfirst' : 0 < b'.count n' := lt_count_iff.2 (by omega)
      have hget := congrArg (·[0]?) h
      simp only [List.getElem?_map, List.getElem?_range hfirst, List.getElem?_range hfirst', Option.map_some,
        Option.some.injEq, span, Prod.mk.injEq] at hget
      omega
  · intro h
    obtain ⟨hn, hmin⟩ := h
    subst hn
    by_cases hle : n' ≤ b.step
    · rw [ranges_of_le hfits hle, ranges_of_le hfits' (by omega)]
    · exact ranges_of_step_eq (by omega)

/-- What the ranges of `n` rows are like: they are as many as needed, lie side by side, and have the size of a
full batch, of which the last one may fall short. -/
structure Partition (b : BatchSize) (n : Nat) (ranges : List (Nat × Nat)) : Prop where
  sideBySide : SideBySide 0 ranges n
  count : ranges.length = n ⌈/⌉ max b.rows 1
  size_le : ∀ r ∈ ranges, r.2 - r.1 ≤ max b.rows 1
  size_eq : ∀ r ∈ ranges.dropLast, r.2 - r.1 = max b.rows 1
  /-- The batches that a role goes through, number by number, are these. -/
  range_eq : ∀ k < b.count n, ∃ r, ranges[k]? = some r ∧ b.range n k = .ok r
  once : ∀ i < n, ∃! k : Nat, ∃ r, ranges[k]? = some r ∧ r.1 ≤ i ∧ i < r.2
  /-- Any stream of `n` things is cut without loss. -/
  parts : ∀ {α : Type} (l : List α), l.length = n → (ranges.flatMap fun r => part l r.1 r.2) = l
  /-- Those who cut alike are those with the same parameters, except that a batch that has room for all rows
  may be as large as it likes, and one for no rows is as good as one for a single row. -/
  alike : ∀ (b' : BatchSize) (n' : Nat), b'.rows < Size.limit → n' ≤ Size.bufferLimit →
    (b'.ranges n' = .ok ranges ↔ n' = n ∧ min (max b'.rows 1) n = min (max b.rows 1) n)

/-- Whatever the batch size is, the ranges of the batches of up to `2 ^ 63` rows can be computed, and are a
partition of the rows. -/
theorem ranges_partition_rows (b : BatchSize) (n : Nat) (hrows : b.rows < Size.limit)
    (hn : n ≤ Size.bufferLimit) : ∃ ranges, b.ranges n = .ok ranges ∧ b.Partition n ranges := by
  have hfits : b.Fits n := ⟨hrows, hn⟩
  have hside : SideBySide 0 ((List.range (b.count n)).map (b.span n)) n := sideBySide_spans
  have hlength : ((List.range (b.count n)).map (b.span n)).length = b.count n := by simp
  refine ⟨_, ranges_eq hfits, ?_⟩
  constructor
  · exact hside
  · rw [hlength, count_eq_ceilDiv]
  · intro r hr
    obtain ⟨k, -, rfl⟩ := List.mem_map.1 hr
    exact size_span_le k
  · intro r hr
    exact size_of_mem_dropLast hr
  · intro k hk
    refine ⟨b.span n k, ?_, range_eq_ok hfits hk⟩
    rw [List.getElem?_map, List.getElem?_range hk, Option.map_some]
  · intro i hi
    exact hside.existsUnique_index (Nat.zero_le i) hi
  · intro α l hl
    rw [hside.flatMap_part, part, List.drop_zero, Nat.sub_zero, List.take_of_length_le (Nat.le_of_eq hl)]
  · intro b' n' hrows' hn'
    rw [← ranges_eq hfits]
    exact ranges_eq_iff hfits ⟨hrows', hn'⟩

/-- As many rows as there can be, in batches of little more than half of them. -/
theorem ranges_partition_rows_of_halves :
    0x4000000000000001 < Size.limit ∧ 0x8000000000000000 ≤ Size.bufferLimit ∧
      (⟨0x4000000000000001⟩ : BatchSize).ranges 0x8000000000000000 =
        .ok [(0, 0x4000000000000001), (0x4000000000000001, 0x8000000000000000)] ∧
      ∃ ranges, (⟨0x4000000000000001⟩ : BatchSize).ranges 0x8000000000000000 = .ok ranges ∧
        (⟨0x4000000000000001⟩ : BatchSize).Partition 0x8000000000000000 ranges := by
  have hrows : 0x4000000000000001 < Size.limit := by decide
  have hn : 0x8000000000000000 ≤ Size.bufferLimit := by decide
  exact ⟨hrows, hn, by decide +kernel, ranges_partition_rows ⟨0x4000000000000001⟩ 0x8000000000000000 hrows hn⟩

example : (⟨0xffffffffffffffff⟩ : BatchSize).ranges 10 = .ok [(0, 10)] := by decide +kernel

example : (⟨0⟩ : BatchSize).ranges 2 = .ok [(0, 1), (1, 2)] := by decide +kernel

end ObliviousRouting.BatchSize
