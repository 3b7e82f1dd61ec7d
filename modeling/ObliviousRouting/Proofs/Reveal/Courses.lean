import ObliviousRouting.Proofs.Bytes.Bits
import ObliviousRouting.Proofs.Network.Phases
import ObliviousRouting.Proofs.Reveal.Rows
import ObliviousRouting.Proofs.RowBuffer.Rows
import ObliviousRouting.Reveal.Roles

/-!
# What the roles of a reveal do

For each batch, the choosing party sends its blinded choices to the serving one, and then the other two
both answer it. So a batch is a delivery, followed by two messages to one party.
-/

namespace ObliviousRouting.Reveal

open Bytes Role

variable (choices flips : List Bool) (pads : Pads) (rows₀ rows₁ : List Bytes) (n width : Nat)
  (size : BatchSize)

def batchLength (k : Nat) : Nat := (min (k * size.step + size.step) n - k * size.step) * width

def batchPads (k : Nat) : Bytes × Bytes := pads (size.step * width) k (batchLength n width size k)

/-- There are pads for all bytes of `n` rows. -/
def Pads.Cover : Prop :=
  ∀ k < size.count n, (batchPads pads n width size k).1.length = batchLength n width size k ∧
    (batchPads pads n width size k).2.length = batchLength n width size k

def pairsMessage (k : Nat) : Bytes :=
  maskPairs (size.batch flips k) (size.batch rows₀ k).flatten (size.batch rows₁ k).flatten
    (batchPads pads n width size k).1 (batchPads pads n width size k).2 width

/-- The blinded choices of batch `k`. -/
def choicesMessage (k : Nat) : Bytes := Bits.pack (size.batch (blindChoices choices flips) k)

def padsMessage (k : Nat) : Bytes :=
  chosenPads (size.batch (blindChoices choices flips) k) (batchPads pads n width size k).1
    (batchPads pads n width size k).2 width

def offerCourse (chooser : Nat) (phase : String) : Course :=
  (List.range (size.count n)).flatMap fun k =>
    [.send chooser phase (pairsMessage flips pads rows₀ rows₁ n width size k)]

def serveCourse (chooser : Nat) (phase : String) : Course :=
  (List.range (size.count n)).flatMap fun k =>
    [.receive chooser (choicesMessage choices flips size k)] ++
      [.send chooser phase (padsMessage choices flips pads n width size k)]

def chooseCourse (offering serving : Nat) (phase : String) : Course :=
  (List.range (size.count n)).flatMap fun k =>
    [.send serving phase (choicesMessage choices flips size k)] ++
      [.receiveBoth offering (pairsMessage flips pads rows₀ rows₁ n width size k) serving
        (padsMessage choices flips pads n width size k)]

/-- The courses of all three roles. -/
def timetable (phase : String) (offering serving chooser : Nat) : Timetable :=
  .trio offering serving chooser (offerCourse flips pads rows₀ rows₁ n width size chooser phase)
    (serveCourse choices flips pads n width size chooser phase)
    (chooseCourse choices flips pads rows₀ rows₁ n width size offering serving phase)

variable {choices flips pads rows₀ rows₁ n width size} {σ : Type}

theorem phase_timetable {S : List Nat} {offering serving chooser : Nat}
    (h : Timetable.Apart S offering serving chooser) {capacity : Nat} (hcap : 2 ≤ capacity)
    (phase : String) :
    (timetable choices flips pads rows₀ rows₁ n width size phase offering serving chooser).Phase
      capacity S := by
  have hjoin := Timetable.join_map_trio (a := offering) (b := serving) (c := chooser)
    (List.range (size.count n))
    (fun k => [.send chooser phase (pairsMessage flips pads rows₀ rows₁ n width size k)])
    (fun k => [.receive chooser (choicesMessage choices flips size k)] ++
      [.send chooser phase (padsMessage choices flips pads n width size k)])
    (fun k => [.send serving phase (choicesMessage choices flips size k)] ++
      [.receiveBoth offering (pairsMessage flips pads rows₀ rows₁ n width size k) serving
        (padsMessage choices flips pads n width size k)])
  rw [timetable, offerCourse, serveCourse, chooseCourse, ← hjoin]
  apply Timetable.Phase.join
  intro A hA
  obtain ⟨k, -, rfl⟩ := List.mem_map.1 hA
  have hparts := Timetable.andThen_trio (a := offering) (b := serving) (c := chooser) []
    [.receive chooser (choicesMessage choices flips size k)]
    [.send serving phase (choicesMessage choices flips size k)]
    [.send chooser phase (pairsMessage flips pads rows₀ rows₁ n width size k)]
    [.send chooser phase (padsMessage choices flips pads n width size k)]
    [.receiveBoth offering (pairsMessage flips pads rows₀ rows₁ n width size k) serving
      (padsMessage choices flips pads n width size k)]
  rw [List.nil_append] at hparts
  rw [← hparts]
  apply Timetable.Phase.andThen
  · exact Timetable.phase_deliver h (Nat.le_of_succ_le hcap) ..
  · exact Timetable.phase_converge h hcap ..

/-! ### Sizes -/

/-- The size of a batch, computed as the roles do. -/
theorem mul_range_eq_ok (size : BatchSize) (hlt : n * width < Size.bufferLimit) (k : Nat) :
    Size.mul (min (k * size.step + size.step) n - k * size.step) width =
        .ok (batchLength n width size k) ∧
      batchLength n width size k < Size.bufferLimit := by
  have hle : batchLength n width size k ≤ n * width := Nat.mul_le_mul_right _ (by omega)
  have hbatch : batchLength n width size k < Size.bufferLimit := Nat.lt_of_le_of_lt hle hlt
  exact ⟨Size.mul_eq_ok_of_lt hbatch, hbatch⟩

theorem length_blindChoices (hchoices : choices.length = n) (hflips : flips.length = n) :
    (blindChoices choices flips).length = n := by
  rw [blindChoices, List.length_zipWith, hchoices, hflips, Nat.min_self]

theorem batch_blindChoices (choices flips : List Bool) (size : BatchSize) (k : Nat) :
    size.batch (blindChoices choices flips) k =
      blindChoices (size.batch choices k) (size.batch flips k) :=
  BatchSize.batch_zipWith ..

theorem length_batch_blindChoices (hchoices : choices.length = n) (hflips : flips.length = n) (k : Nat) :
    (size.batch (blindChoices choices flips) k).length =
      min (k * size.step + size.step) n - k * size.step :=
  BatchSize.length_batch_eq (length_blindChoices hchoices hflips)

/-! ### The rows that are known -/

/-- The rows that are known after some batches. -/
def learnedTo (rows : List Bytes) (width m : Nat) : RowBuffer :=
  .ofRows width (rows.take m ++ List.replicate (rows.length - m) (zeros width))

theorem holds_learnedTo {rows : List Bytes} (hrows : Uniform width rows)
    (hwidth : rows = [] ∨ 0 < width) (hlt : rows.length * width < Size.bufferLimit) (m : Nat) :
    (learnedTo rows width m).Holds width
      (rows.take m ++ List.replicate (rows.length - m) (zeros width)) := by
  apply RowBuffer.holds_ofRows
  · exact (hrows.take m).append (Uniform.replicate (length_zeros width) _)
  · refine hwidth.imp_left fun h => ?_
    rw [h, List.take_nil, List.length_nil, Nat.zero_sub, List.replicate_zero, List.append_nil]
  · have hlength : (rows.take m ++ List.replicate (rows.length - m) (zeros width)).length =
        rows.length := by
      rw [List.length_append, List.length_take, List.length_replicate]
      omega
    rwa [hlength]

/-- One batch of rows becomes known. -/
theorem setRows_learnedTo {rows : List Bytes} (hrows : Uniform width rows)
    (hwidth : rows = [] ∨ 0 < width) (hlt : rows.length * width < Size.bufferLimit)
    (hn : rows.length = n) {k : Nat} (hk : k < size.count n) :
    (learnedTo rows width (k * size.step)).setRows (k * size.step)
        (min (k * size.step + size.step) n) (size.batch rows k).flatten =
      .ok (learnedTo rows width ((k + 1) * size.step)) := by
  have hstart := BatchSize.lt_count_iff.1 hk
  have hlength := BatchSize.length_batch_eq (b := size) (k := k) hn
  have hbefore : (rows.take (k * size.step)).length = k * size.step := by
    rw [List.length_take, hn]
    omega
  have hbatch := hrows.mono (BatchSize.batch_subset (b := size) rows k)
  have hlast : k * size.step + (size.batch rows k).length = min (k * size.step + size.step) n := by omega
  obtain ⟨c, hc, hholds⟩ := (holds_learnedTo hrows hwidth hlt (k * size.step)).setRows hbatch hlast
    (by rw [List.length_append, List.length_replicate, hbefore]; omega)
  rw [hc]
  congr 1
  apply hholds.eq
  have hnext := holds_learnedTo hrows hwidth hlt ((k + 1) * size.step)
  have htail : (k * size.step + size.step) = (k + 1) * size.step := (Nat.succ_mul ..).symm
  have hrest : rows.length - k * size.step - (min (k * size.step + size.step) n - k * size.step) =
      rows.length - (k + 1) * size.step := by omega
  rw [BatchSize.take_succ_mul_step] at hnext
  rw [List.take_left' hbefore, List.drop_append, hbefore, List.drop_of_length_le (by omega),
    List.nil_append, List.drop_replicate, hrest, ← List.append_assoc]
  exact hnext

theorem learnedTo_zero (size : BatchSize) {rows : List Bytes} (hrows : Uniform width rows)
    (hwidth : n = 0 ∨ 0 < width) (hlt : n * width < Size.bufferLimit) (hn : rows.length = n) :
    learnedTo rows width (0 * size.step) = RowBuffer.blank n width := by
  subst hn
  have hstart := holds_learnedTo hrows (hwidth.imp_left List.eq_nil_of_length_eq_zero) hlt 0
  rw [List.take_zero, List.nil_append, Nat.sub_zero] at hstart
  rw [Nat.zero_mul]
  exact hstart.eq (RowBuffer.holds_blank hwidth hlt)

theorem learnedTo_count (size : BatchSize) {rows : List Bytes} (hn : rows.length = n) :
    learnedTo rows width (size.count n * size.step) = RowBuffer.ofRows width rows := by
  have hle := BatchSize.le_count_mul_step (b := size) n
  rw [learnedTo, BatchSize.take_count_mul_step hn, hn, Nat.sub_eq_zero_of_le hle, List.replicate_zero,
    List.append_nil]

/-! ### The messages of a batch -/

section Batch

variable (hchoices : choices.length = n) (hflips : flips.length = n) (hpads : pads.Cover n width size)
  (hn : rows₀.length = n) (hn' : rows₁.length = n) (h₀ : Uniform width rows₀) (h₁ : Uniform width rows₁)
  (hwidth : 0 < width) {k : Nat} (hk : k < size.count n)

include hflips hn hn' h₀ h₁ hwidth in
theorem length_pairsMessage (size : BatchSize) (pads : Pads) (k : Nat) :
    (pairsMessage flips pads rows₀ rows₁ n width size k).length = 2 * batchLength n width size k :=
  length_maskPairs (BatchSize.length_batch_eq hflips) (BatchSize.length_batch_eq hn)
    (BatchSize.length_batch_eq hn') (h₀.mono (BatchSize.batch_subset _ k))
    (h₁.mono (BatchSize.batch_subset _ k)) hwidth

include hflips hn hn' h₀ h₁ hwidth in
/-- The message of a batch fits into a buffer if the two rows of all pairs together do. -/
theorem length_pairsMessage_lt (size : BatchSize) (pads : Pads) (k : Nat)
    (hfits : 2 * (n * width) < Size.bufferLimit) :
    (pairsMessage flips pads rows₀ rows₁ n width size k).length < Size.bufferLimit := by
  rw [length_pairsMessage hflips hn hn' h₀ h₁ hwidth]
  have hbatch : batchLength n width size k ≤ n * width :=
    Nat.mul_le_mul_right width (Nat.le_trans (Nat.sub_le ..) (Nat.min_le_right ..))
  omega

include hchoices hflips hpads hwidth hk in
theorem length_padsMessage :
    (padsMessage choices flips pads n width size k).length = batchLength n width size k :=
  length_chosenPads (length_batch_blindChoices hchoices hflips k) (hpads k hk).1 (hpads k hk).2 hwidth

include hchoices hflips hpads hn hn' h₀ h₁ hwidth hk in
/-- Both messages of a batch give the rows that were chosen. -/
theorem unmask_messages :
    unmask (size.batch (blindChoices choices flips) k)
      ((pairsMessage flips pads rows₀ rows₁ n width size k).take (batchLength n width size k))
      ((pairsMessage flips pads rows₀ rows₁ n width size k).drop (batchLength n width size k))
      (padsMessage choices flips pads n width size k) width =
        (size.batch (pick choices rows₀ rows₁) k).flatten := by
  rw [batch_pick, padsMessage, batch_blindChoices]
  exact unmask_maskPairs (BatchSize.length_batch_eq hchoices) (BatchSize.length_batch_eq hflips)
    (BatchSize.length_batch_eq hn) (BatchSize.length_batch_eq hn')
    (h₀.mono (BatchSize.batch_subset _ k)) (h₁.mono (BatchSize.batch_subset _ k)) (hpads k hk).1
    (hpads k hk).2 hwidth

end Batch

/-! ### The three roles -/

theorem performs_offer (pads : Pads) {x : Flips} {m₀ m₁ : RowBuffer} (h₀ : m₀.Holds width rows₀)
    (h₁ : m₁.Holds width rows₁) (hn : rows₀.length = n) (hn' : rows₁.length = n)
    (hflips : (x n).length = n) (hfits : size.Fits n) (chooser : Nat) (phase : String) (s : σ) :
    Performs (offer x pads chooser m₀ m₁ size phase) s
      (offerCourse (x n) pads rows₀ rows₁ n width size chooser phase) () s := by
  have hlt : n * width < Size.bufferLimit := h₀.mul_lt (Nat.le_of_eq hn.symm)
  simp only [offer, h₀.size_eq, h₀.stride_eq, hn]
  apply Performs.iterate (b := fun _ => ()) (s := fun _ => s)
  intro k hk
  have hstart := BatchSize.lt_count_iff.1 hk
  refine Performs.bind_nil (Performs.ofChecked (BatchSize.range_eq_ok hfits hk) s) ?_
  refine Performs.bind_nil (Performs.ofChecked (mul_range_eq_ok size hlt k).1 s) ?_
  refine Performs.bind_nil
    (Performs.ofChecked (h₀.rows_eq (Nat.le_min.2 ⟨by omega, by omega⟩) (hn ▸ Nat.min_le_right ..)) s) ?_
  refine Performs.bind_nil
    (Performs.ofChecked (h₁.rows_eq (Nat.le_min.2 ⟨by omega, by omega⟩) (hn' ▸ Nat.min_le_right ..)) s) ?_
  simp only [BatchSize.part_eq_batch hflips, BatchSize.part_eq_batch hn, BatchSize.part_eq_batch hn']
  exact Performs.mapError RevealError.link (Performs.sendBytes ..)

theorem performs_serve (pads : Pads) (hchoices : choices.length = n) (hflips : flips.length = n)
    (hlt : n * width < Size.bufferLimit) (hfits : size.Fits n) (chooser : Nat) (phase : String)
    (s : σ) :
    Performs (serve pads chooser n width size phase) s
      (serveCourse choices flips pads n width size chooser phase) () s := by
  apply Performs.iterate (b := fun _ => ()) (s := fun _ => s)
  intro k hk
  have hunpack := Bits.unpack?_pack (size.batch (blindChoices choices flips) k)
  rw [length_batch_blindChoices hchoices hflips] at hunpack
  refine Performs.bind_nil (Performs.ofChecked (BatchSize.range_eq_ok hfits hk) s) ?_
  refine Performs.bind_nil (Performs.ofChecked (mul_range_eq_ok size hlt k).1 s) ?_
  refine Performs.bind_nil
    (Performs.ofChecked (Size.buffer_eq_ok (mul_range_eq_ok size hlt k).2) s) ?_
  refine Performs.bind (Performs.mapError RevealError.link
    (Performs.receiveBytes chooser phase (choicesMessage choices flips size k) s)) ?_
  simp only [choicesMessage, hunpack]
  exact Performs.mapError RevealError.link (Performs.sendBytes ..)

theorem performs_choose (pads : Pads) {x : Flips} (hchoices : choices.length = n) (hflips : (x n).length = n)
    (hpads : pads.Cover n width size) (hn : rows₀.length = n) (hn' : rows₁.length = n)
    (h₀ : Uniform width rows₀) (h₁ : Uniform width rows₁) (hwidth : n = 0 ∨ 0 < width)
    (hlt : n * width < Size.bufferLimit) (hfits : size.Fits n) (offering serving : Nat)
    (phase : String) (s : σ) :
    Performs (choose x offering serving choices width size phase) s
      (chooseCourse choices (x n) pads rows₀ rows₁ n width size offering serving phase)
      (.ofRows width (pick choices rows₀ rows₁)) s := by
  have hlearned : (pick choices rows₀ rows₁).length = n := length_pick hchoices hn hn'
  have huniform : Uniform width (pick choices rows₀ rows₁) := uniform_pick h₀ h₁
  have hwidth' : pick choices rows₀ rows₁ = [] ∨ 0 < width :=
    hwidth.imp_left fun h => List.eq_nil_of_length_eq_zero (hlearned.trans h)
  have hlt' : (pick choices rows₀ rows₁).length * width < Size.bufferLimit := hlearned.symm ▸ hlt
  simp only [choose, hchoices]
  refine Performs.bind_nil (Performs.ofChecked (RowBuffer.zeros_eq_ok hlt) s) ?_
  rw [← learnedTo_count size hlearned,
    ← learnedTo_zero size huniform hwidth hlt hlearned]
  apply Performs.iterate
    (b := fun k => learnedTo (pick choices rows₀ rows₁) width (k * size.step)) (s := fun _ => s)
  intro k hk
  have hpos : 0 < width := BatchSize.width_pos hwidth hk
  have hmul := mul_range_eq_ok size hlt k
  have hread (message : Bytes) : Received.bytes phase (.ok message) = .ok message := rfl
  have hboth := Process.follows_receiveBoth offering serving
    (hread (pairsMessage (x n) pads rows₀ rows₁ n width size k))
    (hread (padsMessage choices (x n) pads n width size k))
  refine Performs.bind_nil (Performs.ofChecked (BatchSize.range_eq_ok hfits hk) s) ?_
  refine Performs.bind_nil (Performs.ofChecked hmul.1 s) ?_
  simp only [BatchSize.part_eq_batch hchoices, BatchSize.part_eq_batch hflips, ← batch_blindChoices]
  refine Performs.bind (Performs.mapError RevealError.link (Performs.sendBytes ..)) ?_
  refine Performs.bind_end (Performs.mapError RevealError.link (Performs.ofProcess hboth s)) ?_
  refine Performs.bind_nil (Performs.ofChecked (Size.mul_two_eq_ok hmul.2) s) ?_
  have hpairs := length_pairsMessage hflips hn hn' h₀ h₁ hpos size pads k
  have hanswer := length_padsMessage hchoices hflips hpads hpos hk
  refine Performs.bind_nil (Performs.ofExcept (if_pos hpairs) s) ?_
  refine Performs.bind_nil (Performs.ofExcept (if_pos hanswer) s) ?_
  rw [unmask_messages hchoices hflips hpads hn hn' h₀ h₁ hpos hk]
  exact Performs.ofChecked (setRows_learnedTo huniform hwidth' hlt' hlearned hk) s

end ObliviousRouting.Reveal
