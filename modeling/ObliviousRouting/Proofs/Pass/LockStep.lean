import Mathlib.Data.List.FinRange
import Mathlib.Data.List.NodupEquivFin
import ObliviousRouting.Proofs.Keystream.Lawful
import ObliviousRouting.Proofs.Network.Alone
import ObliviousRouting.Proofs.Pass.Courses
import ObliviousRouting.Proofs.RowBuffer.Shapes

/-!
# Sender and router in step

Sender and router never talk to each other. Still the rows that one sends and the targets that the other one
sends belong together, because both go through the rows in one order and count the same masks: the order
depends on the seed and on the number of rows, and a mask on the seed, the width and its number. Nothing else
has a part in it, neither the rows nor the targets, of which some may name no row, nor how the rows are cut into
batches.
-/

namespace ObliviousRouting.Pass

open Role

/-! ### The order and the masks -/

section Order

variable {x : Blinding} (hx : x.Lawful) (n : Nat)
include hx

theorem nodup_shuffle_finRange : (x.shuffle (List.finRange n)).Nodup :=
  (Blinding.shuffle_perm hx _).nodup_iff.2 (List.nodup_finRange n)

theorem mem_shuffle_finRange (i : Fin n) : i ∈ x.shuffle (List.finRange n) :=
  (Blinding.shuffle_perm hx _).mem_iff.2 (List.mem_finRange i)

theorem length_shuffle_finRange : (x.shuffle (List.finRange n)).length = n := by
  rw [Blinding.length_shuffle hx, List.length_finRange]

end Order

variable (seed : Seed)

/-- The row that goes at each place of a pass. -/
def order (n : Nat) : Equiv.Perm (Fin n) :=
  have hx := Blinding.lawful_ofSeed seed
  (finCongr (length_shuffle_finRange hx n)).symm.trans
    (List.Nodup.getEquivOfForallMemList _ (nodup_shuffle_finRange hx n) (mem_shuffle_finRange hx n))

/-- The mask at a place of a pass. -/
def mask (width k : Nat) : Bytes := (Keystream.ofSeed seed .mask).bytes (k * wordsFor width) width

@[simp] theorem length_mask (width k : Nat) : (mask seed width k).length = width :=
  Keystream.length_bytes ..

theorem map_order (n : Nat) :
    (List.finRange n).map (order seed n) = (Blinding.ofSeed seed).shuffle (List.finRange n) := by
  have hlength := length_shuffle_finRange (Blinding.lawful_ofSeed seed) n
  apply List.ext_getElem
  · rw [List.length_map, List.length_finRange, hlength]
  · intro k hk hk'
    rw [List.getElem_map, List.getElem_finRange]
    rfl

/-- Whatever is shuffled comes into the order. -/
theorem shuffle_eq_map {α : Type} {l : List α} {n : Nat} (hn : l.length = n) (a : α) :
    (Blinding.ofSeed seed).shuffle l = (List.finRange n).map fun k => l.getD (order seed n k) a := by
  have hl : (List.finRange n).map (fun i : Fin n => l.getD i a) = l := by
    apply List.ext_getElem
    · rw [List.length_map, List.length_finRange, hn]
    · intro k hk hk'
      rw [List.getElem_map, List.getElem_finRange]
      exact List.getD_eq_getElem ..
  have hmap := Blinding.shuffle_map (Blinding.lawful_ofSeed seed) (List.finRange n) fun i => l.getD i a
  rw [hl, ← map_order, List.map_map] at hmap
  exact hmap

theorem masks_eq_map (n width : Nat) : (Blinding.ofSeed seed).masks n width =
    (List.finRange n).map fun k : Fin n => mask seed width k := by
  apply List.ext_getElem
  · rw [(Blinding.lawful_ofSeed seed).length_masks, List.length_map, List.length_finRange]
  · intro k hk hk'
    simp only [Blinding.ofSeed, mask, List.getElem_map, List.getElem_range, List.getElem_finRange,
      Fin.val_cast]

/-! ### What is sent and written -/

/-- What sender and router are given for a pass of `n` rows. -/
structure Given (n width : Nat) (data dest : RowBuffer) (targets : List Target) (size : BatchSize) : Prop where
  data_size : data.size = n
  data_stride : data.stride = width
  data_fits : data.data.size < Size.bufferLimit
  dest_stride : dest.stride = width
  dest_fits : dest.data.size < Size.bufferLimit
  length_targets : targets.length = n
  distinct : Target.Distinct targets
  within : Within targets dest.size
  rows_lt : n < Target.rowLimit
  batch_lt : size.rows < Size.limit

/-- Batches of rows, batches of targets and a destination buffer that belong together. -/
structure InStep (seed : Seed) (n width : Nat) (data dest : RowBuffer) (targets : List Target) (mode : Mode)
    (rowBatches : List (List Bytes)) (targetBatches : List (List Target)) (dest' : RowBuffer) : Prop where
  /-- The rows in the order, each with the mask of its place. -/
  rows_eq : rowBatches.flatten = (List.finRange n).map fun k : Fin n =>
    (data.rowAt (order seed n k)).xor (mask seed width k)
  /-- The targets in the same order. -/
  targets_eq : targetBatches.flatten = (List.finRange n).map fun k : Fin n =>
    targets.getD (order seed n k) .discard
  length_mask (k : Nat) : (mask seed width k).length = width
  /-- The batches have the same borders. -/
  borders : rowBatches.map List.length = targetBatches.map List.length
  alike : dest'.Alike dest
  /-- The row that a target names gets the mask of the same place. -/
  written (k : Fin n) (d : Nat) : (targets.getD (order seed n k) .discard).row? = some d →
    dest'.rowAt d = mode.apply (dest.rowAt d) (mask seed width k)
  kept (d : Nat) : (∀ t ∈ targets, t.row? ≠ some d) → dest'.rowAt d = dest.rowAt d

variable {n width : Nat} {data dest : RowBuffer} {targets : List Target} {size : BatchSize}

namespace Given

variable (h : Given n width data dest targets size)
include h

theorem length_data : data.toList.length = n := by rw [RowBuffer.length_toList, h.data_size]

theorem holds_data : data.Holds width data.toList := ⟨h.data_stride, rfl, h.data_fits⟩

theorem holds_dest : dest.Holds width dest.toList := ⟨h.dest_stride, rfl, h.dest_fits⟩

theorem within_dest : Within targets dest.toList.length := by
  rw [RowBuffer.length_toList]
  exact h.within

theorem fits : size.Fits n := Target.fits_of_lt h.rows_lt h.batch_lt

end Given

theorem maskedRows_ofSeed (h : Given n width data dest targets size) :
    maskedRows (.ofSeed seed) data.toList width = (List.finRange n).map fun k : Fin n =>
      (data.rowAt (order seed n k)).xor (mask seed width k) := by
  rw [maskedRows, shuffle_eq_map seed h.length_data [], h.length_data, masks_eq_map, List.zipWith_map,
    List.zipWith_self]
  rfl

theorem routerShares_ofSeed (h : Given n width data dest targets size) :
    routerShares (.ofSeed seed) targets width = (List.finRange n).map fun k : Fin n =>
      (targets.getD (order seed n k) .discard, mask seed width k) := by
  rw [routerShares, shuffle_eq_map seed h.length_targets .discard, h.length_targets, masks_eq_map,
    List.zip, List.zipWith_map, List.zipWith_self]

/-- The batches of the sender, of the router, and what the router has written. -/
theorem inStep (h : Given n width data dest targets size) (mode : Mode) :
    InStep seed n width data dest targets mode
      ((List.range (size.count n)).map (size.batch (maskedRows (.ofSeed seed) data.toList width)))
      ((List.range (size.count n)).map (size.batch ((Blinding.ofSeed seed).shuffle targets)))
      (placement mode dest (routerShares (.ofSeed seed) targets width)) := by
  have hx := Blinding.lawful_ofSeed seed
  have hmasked : (maskedRows (.ofSeed seed) data.toList width).length = n := by
    rw [length_maskedRows hx, h.length_data]
  have hshuffled : ((Blinding.ofSeed seed).shuffle targets).length = n := by
    rw [Blinding.length_shuffle hx, h.length_targets]
  have hrouted := holds_routed mode hx h.holds_dest h.within_dest
  have hnamed : Target.Distinct ((routerShares (.ofSeed seed) targets width).map Prod.fst) := by
    rw [map_fst_routerShares hx]
    exact h.distinct.perm (Blinding.shuffle_perm hx targets)
  constructor
  · rw [← List.flatMap_def, BatchSize.flatMap_batch hmasked, maskedRows_ofSeed seed h]
  · rw [← List.flatMap_def, BatchSize.flatMap_batch hshuffled,
      shuffle_eq_map seed h.length_targets .discard]
  · exact length_mask seed width
  · rw [List.map_map, List.map_map]
    apply List.map_congr_left
    intro j _
    exact BatchSize.batch_congr_length (hmasked.trans hshuffled.symm) j
  · refine ⟨hrouted.stride_eq.trans h.dest_stride.symm, ?_⟩
    rw [hrouted.data_size_eq, length_placed, h.holds_dest.data_size_eq]
  · intro k d hd
    have hmem : (targets.getD (order seed n k) .discard, mask seed width k) ∈
        routerShares (.ofSeed seed) targets width := by
      rw [routerShares_ofSeed seed h]
      exact List.mem_map.2 ⟨k, List.mem_finRange k, rfl⟩
    have hlt : d < dest.toList.length := by
      exact within_routerShares hx h.within_dest _ (List.mem_map_of_mem hmem) d hd
    rw [hrouted.rowAt_eq, RowBuffer.rowAt, List.getD_eq_getElem?_getD, List.getD_eq_getElem?_getD,
      placed_of_named hnamed hmem hd, List.getElem?_eq_getElem hlt]
    rfl
  · intro d hd
    have hnot : ∀ pair ∈ routerShares (.ofSeed seed) targets width, pair.1.row? ≠ some d := by
      intro pair hpair
      apply hd
      have hfst : pair.1 ∈ (Blinding.ofSeed seed).shuffle targets :=
        map_fst_routerShares hx ▸ List.mem_map_of_mem hpair
      exact (Blinding.shuffle_perm hx targets).mem_iff.1 hfst
    rw [hrouted.rowAt_eq, RowBuffer.rowAt, List.getD_eq_getElem?_getD, List.getD_eq_getElem?_getD,
      placed_of_not_named hnot]

/-! ### The two roles -/

section Roles

variable {σ : Type} (collector : Nat) (phase : String) (incoming : Nat → List Bytes)

/-- The sender alone sends its batches. -/
theorem play_send (h : Given n width data dest targets size) (s : σ) :
    ((send (.ofSeed seed) collector data size phase).start s).play { incoming } =
      ((.ok (), s), { incoming, sent := ((List.range (size.count n)).map
        (size.batch (maskedRows (.ofSeed seed) data.toList width))).map fun batch =>
          (collector, phase, batch.flatten) }) := by
  have hn := h.length_data
  have hsend := performs_send (Blinding.lawful_ofSeed seed) h.holds_data (hn ▸ h.rows_lt) (hn ▸ h.fits)
    collector phase s
  refine Process.play_of_follows ?_ { incoming } rfl
  rw [List.map_map, List.map_map, ← hn]
  exact hsend

/-- The router alone sends its batches, and writes what it has to. -/
theorem play_route (h : Given n width data dest targets size) (mode : Mode)
    (hwidth : width < Size.bufferLimit) :
    ((route (.ofSeed seed) collector targets mode size phase).start dest).play { incoming } =
      ((.ok (), placement mode dest (routerShares (.ofSeed seed) targets width)),
        { incoming, sent := ((List.range (size.count n)).map
          (size.batch ((Blinding.ofSeed seed).shuffle targets))).map fun batch =>
            (collector, phase, Target.codec.encodeList batch) }) := by
  have hroute := performs_route mode (Blinding.lawful_ofSeed seed) h.holds_dest h.within_dest h.distinct
    hwidth (h.length_targets ▸ h.rows_lt) (h.length_targets ▸ h.fits) collector phase
  refine Process.play_of_follows ?_ { incoming } rfl
  rw [List.map_map, List.map_map, ← h.length_targets]
  exact hroute

/-- Without targets, and without room for a mask, the router stops before it sends anything. -/
theorem play_route_of_wide (size : BatchSize) (mode : Mode) (hwidth : Size.bufferLimit ≤ dest.stride) :
    ((route (.ofSeed seed) collector [] mode size phase).start dest).play { incoming } =
      ((.error (.fault .tooLarge), dest), { incoming }) := by
  have hroom : Size.buffer dest.stride = .error .tooLarge := if_neg (Nat.not_lt_of_le hwidth)
  have hstops : Stops (route (.ofSeed seed) collector [] mode size phase) dest [] (.fault .tooLarge) dest := by
    simp only [route]
    refine Performs.bind_stops (c := []) (Performs.ofExcept (checkRows_eq_ok (by decide)) dest) ?_
    refine Performs.bind_stops (c := []) (Performs.get dest) ?_
    refine Performs.bind_stops (c := []) (Performs.ofExcept (checkTargets_eq_ok (List.forall_mem_nil _)) dest) ?_
    rw [if_pos (by decide), hroom]
    exact .done _
  rw [Process.Follows.eq_of_nil hstops]
  rfl

end Roles

/-- Whatever the rows, the targets, the buffers, the mode and the batch size are, sender and router go through
the rows in one order, which the seed and the number of rows decide on, and with masks that the seed and the
width decide on. -/
theorem roles_in_step (h : Given n width data dest targets size) (mode : Mode) (collector : Nat)
    (phase : String) (incoming : Nat → List Bytes) {σ : Type} (s : σ) :
    ∃ rowBatches targetBatches ending dest',
      ((send (.ofSeed seed) collector data size phase).start s).play { incoming } =
        ((.ok (), s), { incoming, sent := rowBatches.map fun batch =>
          (collector, phase, batch.flatten) }) ∧
      ((route (.ofSeed seed) collector targets mode size phase).start dest).play { incoming } =
        ((ending, dest'), { incoming, sent := targetBatches.map fun batch =>
          (collector, phase, Target.codec.encodeList batch) }) ∧
      (width < Size.bufferLimit → ending = .ok ()) ∧
      InStep seed n width data dest targets mode rowBatches targetBatches dest' := by
  have hsend := play_send seed collector phase incoming h s
  have hstep := inStep seed h mode
  by_cases hwidth : width < Size.bufferLimit
  · exact ⟨_, _, _, _, hsend, play_route seed collector phase incoming h mode hwidth, fun _ => rfl, hstep⟩
  · -- rows that wide do not exist, so there are no targets either
    have hwide := Nat.le_of_not_lt hwidth
    have hn : n = 0 := h.data_size ▸ RowBuffer.size_eq_zero h.data_fits (h.data_stride ▸ hwide)
    subst hn
    have htargets : targets = [] := List.eq_nil_of_length_eq_zero h.length_targets
    subst htargets
    have hroute := play_route_of_wide seed collector phase incoming size mode (h.dest_stride ▸ hwide)
    rw [BatchSize.count_zero] at hsend hstep
    exact ⟨[], [], _, dest, hsend, hroute, fun hlt => absurd hlt hwidth, hstep⟩

/-- Three rows of one byte in batches of two, of which the second one goes nowhere. -/
theorem roles_in_step_of_three_rows :
    Given 3 1 ⟨#[1, 2, 3], 1, by decide⟩ (.blank 3 1) [.ofRow 2, .discard, .ofRow 0] ⟨2⟩ ∧
      ∃ rowBatches targetBatches ending dest',
        ((send (.ofSeed .zero) 2 ⟨#[1, 2, 3], 1, by decide⟩ ⟨2⟩ "t").start ()).play
            { incoming := fun _ => [] } =
          ((.ok (), ()), { incoming := fun _ => [], sent := rowBatches.map fun batch =>
            (2, "t", batch.flatten) }) ∧
        ((route (.ofSeed .zero) 2 [.ofRow 2, .discard, .ofRow 0] .additive ⟨2⟩ "t").start (.blank 3 1)).play
            { incoming := fun _ => [] } =
          ((ending, dest'), { incoming := fun _ => [], sent := targetBatches.map fun batch =>
            (2, "t", Target.codec.encodeList batch) }) ∧
        (1 < Size.bufferLimit → ending = .ok ()) ∧
        InStep .zero 3 1 ⟨#[1, 2, 3], 1, by decide⟩ (.blank 3 1) [.ofRow 2, .discard, .ofRow 0] .additive
          rowBatches targetBatches dest' := by
  have hgiven : Given 3 1 ⟨#[1, 2, 3], 1, by decide⟩ (.blank 3 1) [.ofRow 2, .discard, .ofRow 0] ⟨2⟩ := by
    constructor <;> decide
  exact ⟨hgiven, roles_in_step .zero hgiven .additive 2 "t" (fun _ => []) ()⟩

end ObliviousRouting.Pass
