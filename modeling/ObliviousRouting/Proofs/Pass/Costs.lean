import ObliviousRouting.Proofs.Network.Costs
import ObliviousRouting.Proofs.Pass.Courses
import ObliviousRouting.Proofs.RowBuffer.Shapes

/-!
# What a pass costs

Sender and router need room for one message for each batch, and the collector needs two messages. The
collector has no say in what it is sent, and checks it before it writes anything. So none of the roles
faults, but for a router that cannot make a mask because rows are too wide.
-/

namespace ObliviousRouting.Pass

open Bytes Role

variable {σ : Type} {faults : Fault → Prop} {x : Blinding} {mode : Mode} {size : BatchSize}

theorem lt_of_checkRows {rows : Nat} {u : Unit} (h : checkRows rows = .ok u) : rows < Target.rowLimit := by
  by_contra hnot
  rw [checkRows, if_neg hnot] at h
  cases h

theorem within_of_checkTargets {targets : List Target} {rows : Nat} {u : Unit}
    (h : checkTargets targets rows = .ok u) : Within targets rows := by
  rw [checkTargets] at h
  split at h
  · cases h
  · next hnone =>
    intro t ht d hd
    have hlt := List.find?_eq_none.1 hnone d (List.mem_filterMap.2 ⟨t, ht, hd⟩)
    simpa using hlt

/-- Writing shares over named rows goes well, and keeps the shape of a buffer. -/
theorem place_of_shaped (mode : Mode) {b : RowBuffer} {n width : Nat} (h : b.Shaped n width)
    (hwidth : n = 0 ∨ 0 < width) {pairs : List (Target × Bytes)} (hwithin : Within (pairs.map Prod.fst) n)
    (hshares : Uniform width (pairs.map Prod.snd)) : ∃ c, place mode b pairs = .ok c ∧ c.Shaped n width := by
  have hlength := h.length_toList hwidth
  obtain ⟨hplace, hholds⟩ := place_eq_ok mode h.holds (hlength.symm ▸ hwithin) hshares
  exact ⟨_, hplace, hholds.shaped ((length_placed ..).trans hlength)⟩

/-- Whichever of the targets and the shares runs out first, the other's rest is left alone. -/
theorem place_zip_of_shaped (mode : Mode) {b : RowBuffer} {n width : Nat} (h : b.Shaped n width)
    (hwidth : n = 0 ∨ 0 < width) {targets : List Target} (hwithin : Within targets n) {shares : List Bytes}
    (hshares : Uniform width shares) :
    ∃ c, place mode b (targets.zip shares) = .ok c ∧ c.Shaped n width := by
  apply place_of_shaped mode h hwidth
  · refine hwithin.mono fun t ht => ?_
    obtain ⟨pair, hpair, rfl⟩ := List.mem_map.1 ht
    exact (List.of_mem_zip hpair).1
  · intro share hshare
    obtain ⟨pair, hpair, rfl⟩ := List.mem_map.1 hshare
    exact hshares _ (List.of_mem_zip hpair).2

theorem costs_send (hx : x.Lawful) {data : RowBuffer} (hbatch : size.rows < Size.limit) (collector : Nat)
    (phase : String) (s : σ) :
    Costs faults (send x collector data size phase) s (size.count data.size • {.room collector})
      fun _ s' => s' = s := by
  have hlength : data.toList.length = data.size := data.length_toList
  simp only [send]
  refine Costs.ofExcept_bind fun _ hcheck => ?_
  have hfits := Target.fits_of_lt (lt_of_checkRows hcheck) hbatch
  refine Costs.bind_end (Q := fun _ s' => s' = s) ?_ fun _ s' hs => Costs.pure hs
  refine Costs.mono (Costs.iterate
    (I := fun k rows s' => rows = x.shuffledTo data.toList (k * size.step) ∧ s' = s) ?_
      ⟨(Blinding.shuffledTo_zero_mul ..).symm, rfl⟩)
    fun _ _ hI => hI.2
  rintro k hk _ _ ⟨rfl, rfl⟩
  have hbatch' := Blinding.exchangeAll_batch hx data.toList size (hlength.symm ▸ hk)
  rw [hlength] at hbatch'
  refine Costs.bind_nil (Performs.ofChecked (BatchSize.range_eq_ok hfits hk) _) ?_
  simp only [BatchSize.part_eq_batch (hx.length_partners _)]
  refine Costs.bind_nil (Performs.ofChecked hbatch' _) ?_
  exact Costs.bind_end (Costs.mapError _ (Costs.sendBytes ..)) fun _ s' hs => Costs.pure ⟨rfl, hs⟩

theorem costs_route (hx : x.Lawful) {targets : List Target} {dest : RowBuffer}
    (hdest : dest.data.size < Size.bufferLimit) {n : Nat} (hn : targets.length = n)
    (hdist : n < Target.rowLimit → Target.Distinct targets)
    (hsize : size.rows < Size.limit) (hwidth : dest.stride < Size.bufferLimit ∨ faults .tooLarge)
    (collector : Nat) (phase : String) :
    Costs faults (route x collector targets mode size phase) dest
      (size.count n • {.room collector}) fun _ dest' => n < Target.rowLimit ∧ Within targets dest.size ∧
        dest'.Shaped dest.size dest.stride := by
  subst hn
  have hmasks := hx.length_masks targets.length dest.stride
  simp only [route]
  refine Costs.ofExcept_bind fun _ hcheck => ?_
  have hrows := lt_of_checkRows hcheck
  refine Costs.bind_nil (Performs.get dest) ?_
  refine Costs.ofExcept_bind fun _ hchecked => ?_
  have hwithin := within_of_checkTargets hchecked
  rw [if_pos (hdist hrows)]
  refine Costs.ofChecked_bind (fun e he => ?_) fun _ _ => ?_
  · rw [Size.buffer] at he
    split at he
    · cases he
    · next hwide =>
      cases he
      exact hwidth.resolve_left hwide
  refine Costs.bind_end (Q := fun _ dest' => dest'.Shaped dest.size dest.stride) ?_
    fun _ _ hshaped => Costs.pure ⟨hrows, hwithin, hshaped⟩
  refine Costs.mono (Costs.iterate (I := fun k xs dest' =>
    xs = x.shuffledTo targets (k * size.step) ∧ dest'.Shaped dest.size dest.stride) ?_
    ⟨(Blinding.shuffledTo_zero_mul ..).symm, RowBuffer.shaped_of_fits hdest⟩) fun _ _ hI => hI.2
  rintro k hk _ current ⟨rfl, hcurrent⟩
  have hbatch := BatchSize.batch_subset (b := size) (routerShares x targets dest.stride) k
  obtain ⟨next, hplace, hshaped⟩ := place_of_shaped mode hcurrent dest.size_eq_zero_or_pos
    ((within_routerShares hx hwithin).mono (List.map_subset _ hbatch))
    ((uniform_routerShares hx).mono (List.map_subset _ hbatch))
  refine Costs.bind_nil
    (Performs.ofChecked (BatchSize.range_eq_ok (Target.fits_of_lt hrows hsize) hk) _) ?_
  simp only [BatchSize.part_eq_batch (hx.length_partners _), BatchSize.part_eq_batch hmasks]
  refine Costs.bind_nil (Performs.ofChecked (Blinding.exchangeAll_batch hx targets size hk) _) ?_
  rw [Blinding.part_shuffledTo hx, ← BatchSize.batch_zip]
  refine Costs.bind_nil (Performs.get _) ?_
  refine Costs.bind_nil (Performs.ofChecked hplace _) ?_
  refine Costs.bind_nil (Performs.set _ _) ?_
  refine Costs.bind_end (Costs.mapError _ (Costs.sendList ..)) fun _ s' hs => Costs.pure ⟨rfl, ?_⟩
  rw [hs]
  exact hshaped

theorem costs_placeBatch {dest current : RowBuffer} {n : Nat} (hcurrent : current.Shaped dest.size dest.stride)
    (hlt : n * dest.stride < Size.bufferLimit) (bytes : Bytes) (targets : List Target) :
    Costs faults (placeBatch mode n bytes targets) current 0
      fun _ dest' => 0 < dest.stride ∧ dest'.Shaped dest.size dest.stride := by
  simp only [placeBatch]
  refine Costs.bind_nil (Performs.get _) ?_
  simp only [hcurrent.stride_eq, hcurrent.size_eq dest.size_eq_zero_or_pos]
  split
  · exact Costs.fail_bind ..
  next hmatch =>
  obtain ⟨hstride, hcount⟩ := not_or.1 hmatch
  rw [not_not] at hcount
  rw [hcount]
  refine Costs.bind_nil (Performs.ofChecked (Size.mul_eq_ok_of_lt hlt) _) ?_
  split
  · exact Costs.fail_bind ..
  refine Costs.ofExcept_bind fun _ hchecked => ?_
  obtain ⟨next, hplace, hshaped⟩ := place_zip_of_shaped mode hcurrent dest.size_eq_zero_or_pos
    (within_of_checkTargets hchecked) (uniform_chunks bytes)
  refine Costs.bind_nil (Performs.ofChecked hplace _) ?_
  exact Costs.of_performs (Performs.set _ _) ⟨Nat.pos_of_ne_zero hstride, hshaped⟩

/-- If there are rows to be collected, then they have some width. -/
theorem costs_collect {dest : RowBuffer} (hdest : dest.data.size < Size.bufferLimit)
    {rows : Nat} (hlt : rows * dest.stride < Size.bufferLimit) (hbatch : size.rows < Size.limit)
    (sender router : Nat) (phase : String) :
    Costs faults (collect sender router rows mode size phase) dest
      (size.count rows • {.message sender, .message router}) fun _ dest' =>
        rows < Target.rowLimit ∧ (rows = 0 ∨ 0 < dest.stride) ∧ dest'.Shaped dest.size dest.stride := by
  rw [collect_eq]
  refine Costs.ofExcept_bind fun _ hcheck => ?_
  have hrows := lt_of_checkRows hcheck
  refine Costs.mono (Costs.iterate (I := fun k _ dest' =>
    (k = 0 ∨ 0 < dest.stride) ∧ dest'.Shaped dest.size dest.stride) ?_
    ⟨.inl rfl, RowBuffer.shaped_of_fits hdest⟩) fun _ _ hI => ⟨hrows, hI.1.imp_left fun hnone => ?_, hI.2⟩
  · rintro k hk _ current ⟨-, hcurrent⟩
    refine Costs.bind_nil
      (Performs.ofChecked (BatchSize.range_eq_ok (Target.fits_of_lt hrows hbatch) hk) _) ?_
    refine Costs.bind_end (Costs.mapError _ (Costs.receiveBoth sender router (Received.bytes phase)
      (fun r => Received.bytes phase r >>= Target.codec.read phase) (fun _ => ⟨_, rfl⟩)
      (fun _ => ⟨_, rfl⟩) current)) fun received s' hs => ?_
    subst hs
    have hle : (min (k * size.step + size.step) rows - k * size.step) * dest.stride ≤ rows * dest.stride :=
      Nat.mul_le_mul_right _ (by omega)
    exact (costs_placeBatch hcurrent (Nat.lt_of_le_of_lt hle hlt) ..).mono
      fun _ _ ⟨hpos, hshaped⟩ => ⟨.inr hpos, hshaped⟩
  · have hle := BatchSize.le_count_mul_step (b := size) rows
    rw [hnone, Nat.zero_mul] at hle
    exact Nat.le_zero.1 hle

end ObliviousRouting.Pass
