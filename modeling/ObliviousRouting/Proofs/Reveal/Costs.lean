import ObliviousRouting.Proofs.Network.Costs
import ObliviousRouting.Proofs.Reveal.Courses
import ObliviousRouting.Proofs.RowBuffer.Shapes

/-!
# What a reveal costs

The offering party needs room for one message for each batch, the choosing and the serving one have an
exchange for each. What the choosing party is sent counts only if it has the length of the batch, and rows
of that length can be written over the rows of the batch, even if they have no width.
-/

namespace ObliviousRouting.Reveal

open Bytes Role

variable {σ : Type} {faults : Fault → Prop} {n width : Nat} {size : BatchSize} {flips : Flips}

/-- Of any two strings of `n` rows, so many are selected. -/
theorem length_select {choices : List Bool} {a b : Bytes} (hchoices : choices.length = n)
    (ha : a.length = n * width) (hb : b.length = n * width) :
    (select choices a b width).length = n * width := by
  rcases Nat.eq_zero_or_pos width with rfl | hpos
  · rw [Nat.mul_zero] at ha hb ⊢
    rw [List.eq_nil_of_length_eq_zero ha, List.eq_nil_of_length_eq_zero hb, select]
    simp [chunks, pieces]
  · have hpads := length_chosenPads hchoices ha hb hpos
    exact hpads

theorem length_unmask {blinded : List Bool} {masked : Bytes} (hblinded : blinded.length = n)
    (hmasked : masked.length = 2 * (n * width)) (pads : Bytes) :
    (unmask blinded (masked.take (n * width)) (masked.drop (n * width)) pads width).length =
      n * width := by
  rw [unmask, length_xor]
  apply length_select hblinded
  · rw [List.length_take, hmasked]
    omega
  · rw [List.length_drop, hmasked]
    omega

theorem length_of_checkLength {expected : Nat} {batch : Bytes} {u : Unit}
    (h : checkLength expected batch = .ok u) : batch.length = expected := by
  by_contra hnot
  rw [checkLength, if_neg hnot] at h
  cases h

theorem costs_offer (pads : Pads) {m₀ m₁ : RowBuffer} (h₀ : m₀.Shaped n width) (h₁ : m₁.Shaped n width)
    (hwidth : n = 0 ∨ 0 < width) (hfits : size.Fits n) (chooser : Nat) (phase : String) (s : σ) :
    Costs faults (offer flips pads chooser m₀ m₁ size phase) s (size.count n • {.room chooser})
      fun _ s' => s' = s := by
  have hn : m₀.toList.length = n := h₀.length_toList hwidth
  have hn' : m₁.toList.length = n := h₁.length_toList hwidth
  simp only [offer, h₀.size_eq hwidth, h₀.stride_eq]
  refine Costs.mono (Costs.iterate (I := fun _ _ s' => s' = s) ?_ rfl) fun _ _ hs => hs
  rintro k hk _ _ rfl
  have hstart := BatchSize.lt_count_iff.1 hk
  refine Costs.bind_nil (Performs.ofChecked (BatchSize.range_eq_ok hfits hk) _) ?_
  refine Costs.bind_nil (Performs.ofChecked (mul_range_eq_ok size h₀.fits k).1 _) ?_
  refine Costs.bind_nil (Performs.ofChecked
    (h₀.holds.rows_eq (Nat.le_min.2 ⟨by omega, by omega⟩) (hn ▸ Nat.min_le_right ..)) _) ?_
  refine Costs.bind_nil (Performs.ofChecked
    (h₁.holds.rows_eq (Nat.le_min.2 ⟨by omega, by omega⟩) (hn' ▸ Nat.min_le_right ..)) _) ?_
  exact Costs.mapError _ (Costs.sendBytes ..)

theorem costs_serve (pads : Pads) (hlt : n * width < Size.bufferLimit) (hfits : size.Fits n)
    (chooser : Nat) (phase : String) (s : σ) :
    Costs faults (serve pads chooser n width size phase) s
      (size.count n • ({.message chooser} + {.room chooser})) fun _ s' => s' = s := by
  refine Costs.mono (Costs.iterate (I := fun _ _ s' => s' = s) ?_ rfl) fun _ _ hs => hs
  rintro k hk _ _ rfl
  have hmul := mul_range_eq_ok size hlt k
  refine Costs.bind_nil (Performs.ofChecked (BatchSize.range_eq_ok hfits hk) _) ?_
  refine Costs.bind_nil (Performs.ofChecked hmul.1 _) ?_
  refine Costs.bind_nil (Performs.ofChecked (Size.buffer_eq_ok hmul.2) _) ?_
  refine Costs.bind (Costs.mapError _ (Costs.receiveBytes ..)) fun packed s' hs => ?_
  subst hs
  split
  · exact Costs.fail ..
  · exact Costs.mapError _ (Costs.sendBytes ..)

theorem costs_choose {choices : List Bool} (hchoices : choices.length = n)
    (hflips : (flips n).length = n) (hlt : n * width < Size.bufferLimit) (hfits : size.Fits n)
    (offering serving : Nat) (phase : String) (s : σ) :
    Costs faults (choose flips offering serving choices width size phase) s
      (size.count n • ({.room serving} + {.message offering, .message serving}))
      fun learned s' => RowBuffer.Shaped learned n width ∧ s' = s := by
  simp only [choose, hchoices]
  refine Costs.bind_nil (Performs.ofChecked (RowBuffer.zeros_eq_ok hlt) _) ?_
  refine Costs.iterate (I := fun _ learned s' => RowBuffer.Shaped learned n width ∧ s' = s) ?_
    ⟨RowBuffer.shaped_blank hlt, rfl⟩
  rintro k hk learned _ ⟨hlearned, rfl⟩
  have hstart := BatchSize.lt_count_iff.1 hk
  have hmul := mul_range_eq_ok size hlt k
  have hblinded : (size.batch (blindChoices choices (flips n)) k).length =
      min (k * size.step + size.step) n - k * size.step := length_batch_blindChoices hchoices hflips k
  refine Costs.bind_nil (Performs.ofChecked (BatchSize.range_eq_ok hfits hk) _) ?_
  refine Costs.bind_nil (Performs.ofChecked hmul.1 _) ?_
  simp only [BatchSize.part_eq_batch hchoices, BatchSize.part_eq_batch hflips, ← batch_blindChoices]
  refine Costs.bind (Costs.mapError _ (Costs.sendBytes ..)) fun _ s' hs => ?_
  subst hs
  refine Costs.bind_end (Costs.mapError _ (Costs.receiveBoth offering serving (Received.bytes phase)
    (Received.bytes phase) (fun _ => ⟨_, rfl⟩) (fun _ => ⟨_, rfl⟩) s')) fun received s' hs => ?_
  subst hs
  obtain ⟨masked, pads⟩ := received
  refine Costs.bind_nil (Performs.ofChecked (Size.mul_two_eq_ok hmul.2) _) ?_
  refine Costs.ofExcept_bind fun _ hmasked => ?_
  refine Costs.ofExcept_bind fun _ _ => ?_
  obtain ⟨next, hset, hnext⟩ := hlearned.setRows (Nat.le_min.2 ⟨by omega, by omega⟩)
    (Nat.min_le_right ..) (length_unmask hblinded (length_of_checkLength hmasked) pads)
  exact Costs.of_performs (Performs.ofChecked hset _) ⟨hnext, rfl⟩

end ObliviousRouting.Reveal
