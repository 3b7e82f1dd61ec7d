import ObliviousRouting.Proofs.Keystream.Lawful
import ObliviousRouting.Proofs.Network.Rounds
import ObliviousRouting.Proofs.Pass.Courses

/-!
# The round trip of a pass

A row and its target are shuffled to the same position, where they meet the same mask. So the router
writes a mask into the row that the target names, and the collector writes the masked row into its row
of the same number: together they hold the row, on top of what they held before if the shares are added.
Rows that no target names are left alone by both.
-/

namespace ObliviousRouting.Pass

open Bytes Role

section Shares

variable {x : Blinding} {rows old : List Bytes} {targets : List Target} {width : Nat} {mode : Mode}

/-- The shares of a routed row: a mask for the router, and the masked row for the collector. -/
theorem placed_shares (width : Nat) (hx : x.Lawful) (hlength : targets.length = rows.length)
    (hdist : Target.Distinct targets) {i d : Nat} (hi : i < rows.length)
    (hrow : (targets[i]?).bind Target.row? = some d) :
    ∃ mask, mask.length = width ∧
      (∀ mode old, (placed mode old (routerShares x targets width))[d]? =
        old[d]?.map (mode.apply · mask)) ∧
      ∀ mode old, (placed mode old (collectorShares x rows targets width))[d]? =
        old[d]?.map (mode.apply · (rows[i].xor mask)) := by
  have hi' : i < targets.length := hlength ▸ hi
  rw [List.getElem?_eq_getElem hi', Option.bind_some] at hrow
  -- the row and its target are found at one position of the shuffled lists
  have hmem : (targets[i], rows[i]) ∈ (x.shuffle targets).zip (x.shuffle rows) := by
    rw [← Blinding.shuffle_zip hx targets hlength, (Blinding.shuffle_perm hx _).mem_iff]
    have hzip : i < (targets.zip rows).length := by simp [hi, hi']
    have hget : (targets.zip rows)[i] = (targets[i], rows[i]) := List.getElem_zip
    rw [← hget]
    exact List.getElem_mem hzip
  obtain ⟨k, hk, hpair⟩ := List.mem_iff_getElem.1 hmem
  rw [List.length_zip, Blinding.length_shuffle hx, Blinding.length_shuffle hx] at hk
  rw [List.getElem_zip, Prod.mk.injEq] at hpair
  have hmasks := hx.length_masks targets.length width
  have hk' : k < (x.masks targets.length width).length := by omega
  have hshuffled : Target.Distinct (x.shuffle targets) := hdist.perm (Blinding.shuffle_perm hx targets)
  refine ⟨(x.masks targets.length width)[k], (hx.uniform_masks _ _).getElem hk', ?_, ?_⟩
  · intro mode old
    apply placed_of_named (t := targets[i]) (by rwa [map_fst_routerShares hx]) _ hrow
    rw [← hpair.1]
    refine List.mem_iff_getElem.2 ⟨k, ?_, List.getElem_zip⟩
    rw [routerShares, List.length_zip, Blinding.length_shuffle hx, hmasks]
    omega
  · intro mode old
    apply placed_of_named (t := targets[i]) (by rwa [map_fst_collectorShares hx hlength]) _ hrow
    have hmasked : k < (maskedRows x rows width).length := by
      rw [length_maskedRows hx]
      omega
    have hshare : (maskedRows x rows width)[k] = rows[i].xor (x.masks targets.length width)[k] := by
      simp only [maskedRows, List.getElem_zipWith, hpair.2, hlength]
    rw [← hpair.1, ← hshare]
    refine List.mem_iff_getElem.2 ⟨k, ?_, List.getElem_zip⟩
    rw [collectorShares, List.length_zip, Blinding.length_shuffle hx]
    omega

theorem placed_of_not_routed (width : Nat) (hx : x.Lawful) (hlength : targets.length = rows.length) {d : Nat}
    (hnot : ∀ t ∈ targets, t.row? ≠ some d) (mode : Mode) (old : List Bytes) :
    (placed mode old (routerShares x targets width))[d]? = old[d]? ∧
      (placed mode old (collectorShares x rows targets width))[d]? = old[d]? := by
  have hshuffled : ∀ t ∈ x.shuffle targets, t.row? ≠ some d :=
    fun t ht => hnot t ((Blinding.shuffle_perm hx targets).mem_iff.1 ht)
  constructor
  · apply placed_of_not_named
    intro pair hpair
    exact hshuffled _ (map_fst_routerShares hx ▸ List.mem_map_of_mem hpair)
  · apply placed_of_not_named
    intro pair hpair
    exact hshuffled _ (map_fst_collectorShares hx hlength ▸ List.mem_map_of_mem hpair)

end Shares

/-! ### Running the three roles -/

abbrev PassSeat := Seat (Outcome PassError Unit × RowBuffer)

/-- Sender, router and collector at three ends of a mesh. -/
def seats (x : Blinding) (ends : Nat × Nat × Nat) (data router collector : RowBuffer)
    (targets : List Target) (mode : Mode) (size : BatchSize) (phase : String) : List PassSeat :=
  let (a, b, c) := ends
  [⟨a, (send x c data size phase).start data⟩,
    ⟨b, (route x c targets mode size phase).start router⟩,
    ⟨c, (collect a b data.size mode size phase).start collector⟩]

/-- What the three roles are given fits together: one target for each row, none named twice, all below
the number of rows of two destination buffers of the same shape. -/
structure Matched (data router collector : RowBuffer) (targets : List Target) (size : BatchSize) :
    Prop where
  length_targets : targets.length = data.size
  distinct : Target.Distinct targets
  within : Within targets router.size
  size_eq : collector.size = router.size
  router_stride : router.stride = data.stride
  collector_stride : collector.stride = data.stride
  rows_lt : data.size < Target.rowLimit
  batch_lt : size.rows < Size.limit
  data_fits : data.data.size < Size.bufferLimit
  router_fits : router.data.size < Size.bufferLimit
  collector_fits : collector.data.size < Size.bufferLimit

namespace Matched

variable {data router collector : RowBuffer} {targets : List Target} {size : BatchSize}
  (h : Matched data router collector targets size)
include h

theorem holds_data : data.Holds data.stride data.toList := RowBuffer.holds_toList h.data_fits

theorem holds_router : router.Holds data.stride router.toList := ⟨h.router_stride, rfl, h.router_fits⟩

theorem holds_collector : collector.Holds data.stride collector.toList :=
  ⟨h.collector_stride, rfl, h.collector_fits⟩

theorem length_targets_eq : targets.length = data.toList.length := by
  rw [h.length_targets, RowBuffer.length_toList]

theorem within_router : Within targets router.toList.length := by
  rw [RowBuffer.length_toList]
  exact h.within

theorem within_collector : Within targets collector.toList.length := by
  rw [RowBuffer.length_toList, h.size_eq]
  exact h.within

end Matched

/-- Router and collector share the routed rows, and keep their other rows. -/
structure Shared (mode : Mode) (data : RowBuffer) (targets : List Target)
    (router collector router' collector' : RowBuffer) : Prop where
  router_shape : router'.stride = router.stride ∧ router'.size = router.size
  collector_shape : collector'.stride = collector.stride ∧ collector'.size = collector.size
  routed : ∀ i < data.size, ∀ t, targets[i]? = some t → ∀ d, t.row? = some d →
    (router'.rowAt d).xor (collector'.rowAt d) =
      mode.apply ((router.rowAt d).xor (collector.rowAt d)) (data.rowAt i)
  kept : ∀ d, (∀ t ∈ targets, t.row? ≠ some d) →
    router'.rowAt d = router.rowAt d ∧ collector'.rowAt d = collector.rowAt d

/-- The shares of a row are added to two others, or put in their place. -/
theorem apply_xor_apply (mode : Mode) {old₁ old₂ row mask : Bytes} (h₁ : old₁.length = row.length)
    (h₂ : old₂.length = row.length) (hmask : mask.length = row.length) :
    (mode.apply old₁ mask).xor (mode.apply old₂ (row.xor mask)) = mode.apply (old₁.xor old₂) row := by
  rw [xor_comm (a := row) hmask.symm]
  cases mode with
  | overwrite =>
    change mask.xor (mask.xor row) = row
    rw [← xor_assoc rfl hmask, Bytes.xor_self, zeros_xor hmask.symm]
  | additive =>
    change (old₁.xor mask).xor (old₂.xor (mask.xor row)) = (old₁.xor old₂).xor row
    have hold₁ : (old₁.xor mask).length = row.length := by rw [length_xor, h₁]
    have hold₂ : (old₂.xor mask).length = row.length := by rw [length_xor, h₂]
    rw [← xor_assoc (h₂.trans hmask.symm) hmask, ← xor_assoc (hold₁.trans hold₂.symm) hold₂,
      xor_xor_xor_cancel (h₁.trans h₂.symm) (h₂.trans hmask.symm)]

theorem shared_of_placement {x : Blinding} (hx : x.Lawful) {data router collector : RowBuffer}
    {targets : List Target} {size : BatchSize} (h : Matched data router collector targets size)
    (mode : Mode) :
    Shared mode data targets router collector
      (placement mode router (routerShares x targets data.stride))
      (placement mode collector (collectorShares x data.toList targets data.stride)) := by
  have hdata := h.holds_data
  have hrouter := h.holds_router
  have hcollector := h.holds_collector
  have hlength := h.length_targets_eq
  have hrouter' := holds_routed mode hx hrouter h.within_router
  have hcollector' := holds_collected mode hx hlength hdata.uniform hcollector h.within_collector
  refine ⟨⟨?_, ?_⟩, ⟨?_, ?_⟩, ?_, ?_⟩
  · rw [hrouter'.stride_eq, hrouter.stride_eq]
  · rw [hrouter'.size_eq, length_placed, RowBuffer.length_toList]
  · rw [hcollector'.stride_eq, hcollector.stride_eq]
  · rw [hcollector'.size_eq, length_placed, RowBuffer.length_toList]
  · intro i hi t ht d hd
    have hi' : i < data.toList.length := by rwa [RowBuffer.length_toList]
    obtain ⟨mask, hmask, hmasks, hmasked⟩ := placed_shares data.stride (i := i) (d := d) hx
      hlength h.distinct hi' (by rw [ht]; exact hd)
    have hlt : d < router.toList.length := h.within_router t (List.mem_of_getElem? ht) d hd
    have hlt' : d < collector.toList.length := h.within_collector t (List.mem_of_getElem? ht) d hd
    rw [hrouter'.rowAt_eq, hcollector'.rowAt_eq, hrouter.rowAt_eq, hcollector.rowAt_eq,
      hdata.rowAt_eq]
    simp only [List.getD_eq_getElem?_getD, hmasks, hmasked, List.getElem?_eq_getElem hlt,
      List.getElem?_eq_getElem hlt', List.getElem?_eq_getElem hi', Option.map_some, Option.getD_some]
    have hrow := hdata.uniform.getElem hi'
    apply apply_xor_apply
    · rw [hrouter.uniform.getElem hlt, hrow]
    · rw [hcollector.uniform.getElem hlt', hrow]
    · rw [hmask, hrow]
  · intro d hd
    have hkept := fun old => placed_of_not_routed data.stride hx hlength hd mode old
    rw [hrouter'.rowAt_eq, hcollector'.rowAt_eq, hrouter.rowAt_eq, hcollector.rowAt_eq]
    simp only [List.getD_eq_getElem?_getD, (hkept _).1, (hkept _).2, and_self]

/-- Sender, router and collector that fit together are on their way through the courses of a pass. -/
theorem underway_seats {x : Blinding} (hx : x.Lawful) {data router collector : RowBuffer}
    {targets : List Target} {size : BatchSize} (h : Matched data router collector targets size)
    (hwidth : data.stride < Size.bufferLimit) {a b c parties : Nat} (hab : a ≠ b) (hac : a ≠ c)
    (hbc : b ≠ c) (ha : a < parties) (hb : b < parties) (hc : c < parties) (mode : Mode)
    (phase : String) :
    Underway
      (fun p q => Course.outbox
        (timetable x data.toList targets data.stride size phase a b c p) q)
      [(.ok (), data), (.ok (), placement mode router (routerShares x targets data.stride)),
        (.ok (), placement mode collector (collectorShares x data.toList targets data.stride))]
      (seats x (a, b, c) data router collector targets mode size phase) { parties }
      (timetable x data.toList targets data.stride size phase a b c) := by
  have hdata := h.holds_data
  have hlength := h.length_targets_eq
  have hsize : data.toList.length = data.size := RowBuffer.length_toList data
  have hrows : data.toList.length < Target.rowLimit := by rw [hsize]; exact h.rows_lt
  have hfits : size.Fits data.toList.length := Target.fits_of_lt hrows h.batch_lt
  have hapart : Timetable.Apart [a, b, c] a b c :=
    ⟨by simp, by simp, by simp, hab, hac, hbc⟩
  apply (phase_timetable hapart (by decide) hlength phase).underway
  · refine .cons ?_ (.cons ?_ (.cons ?_ .nil))
    · rw [timetable, Timetable.trio_first]
      exact performs_send hx hdata hrows hfits c phase data
    · rw [timetable, Timetable.trio_second hab]
      exact performs_route mode hx h.holds_router h.within_router h.distinct hwidth (hlength ▸ hrows)
        (hlength ▸ hfits) c phase
    · rw [timetable, Timetable.trio_third hac hbc]
      simp only [← hsize]
      exact performs_collect mode hx h.holds_collector h.within_collector hlength hdata.uniform
        hdata.width_pos (hdata.mul_lt (Nat.le_refl _)) hrows hfits a b phase
  · simp [seats, hab, hac, hbc]
  · simp [seats, ha, hb, hc]

/-- Each row that is routed ends up shared by router and collector, and no other row is touched. -/
theorem round_trip (seed : Seed) {data router collector : RowBuffer} {targets : List Target}
    {size : BatchSize} (h : Matched data router collector targets size)
    (hwidth : data.stride < Size.bufferLimit) {a b c parties : Nat} (hab : a ≠ b) (hac : a ≠ c)
    (hbc : b ≠ c) (ha : a < parties) (hb : b < parties) (hc : c < parties) (mode : Mode)
    (phase : String) :
    ∃ router' collector',
      (Mesh.run { parties }
        (seats (Blinding.ofSeed seed) (a, b, c) data router collector targets mode size phase)).1 =
          [some (.ok (), data), some (.ok (), router'), some (.ok (), collector')] ∧
        Shared mode data targets router collector router' collector' := by
  have hx := Blinding.lawful_ofSeed seed
  have hrun := underway_seats hx h hwidth hab hac hbc ha hb hc mode phase
  exact ⟨_, _, (hrun.mesh_run rfl).1, shared_of_placement hx h mode⟩

theorem round_trip_of_three_rows :
    ∃ router' collector',
      (Mesh.run { parties := 3 }
        (seats (Blinding.ofSeed .zero) (0, 1, 2) ⟨#[1, 2, 3], 1, by decide⟩ (.blank 3 1) (.blank 3 1)
          [.ofRow 1, .ofRow 2, .ofRow 0] .additive ⟨2⟩ "t")).1 =
            [some (.ok (), ⟨#[1, 2, 3], 1, by decide⟩), some (.ok (), router'),
              some (.ok (), collector')] ∧
        Shared .additive ⟨#[1, 2, 3], 1, by decide⟩ [.ofRow 1, .ofRow 2, .ofRow 0] (.blank 3 1)
          (.blank 3 1) router' collector' := by
  have hmatched : Matched ⟨#[1, 2, 3], 1, by decide⟩ (.blank 3 1) (.blank 3 1)
      [.ofRow 1, .ofRow 2, .ofRow 0] ⟨2⟩ := by
    constructor <;> decide
  exact round_trip .zero hmatched (by decide) (by decide) (by decide) (by decide) (by decide)
    (by decide) (by decide) .additive "t"

/-! ### Rows that are too wide -/

/-- No rows, each of which would fill more than a buffer. -/
def tooWide : RowBuffer := .blank 0 Size.bufferLimit

/-- The router makes room for a mask of the width of a row, even if there is no row at all. -/
theorem round_trip_fails_for_wide_rows :
    1 ≤ tooWide.stride ∧ Matched tooWide tooWide tooWide [] .standard ∧
      (Mesh.run { parties := 3 }
        (seats (Blinding.ofSeed .zero) (0, 1, 2) tooWide tooWide tooWide [] .overwrite .standard
          "t")).1 =
        [some (.ok (), tooWide), some (.error (.fault .tooLarge), tooWide),
          some (.ok (), tooWide)] := by
  have hmatched : Matched tooWide tooWide tooWide [] .standard := by
    constructor <;> decide
  have hrun : Underway (fun _ _ => [])
      [(.ok (), tooWide), (.error (.fault .tooLarge), tooWide), (.ok (), tooWide)]
      (seats (Blinding.ofSeed .zero) (0, 1, 2) tooWide tooWide tooWide [] .overwrite .standard "t")
      { parties := 3 } (fun _ => []) := by
    apply underway_of_follows (A := fun _ => [])
    · refine .cons ?_ (.cons ?_ (.cons ?_ .nil))
      · exact .done _
      · exact .done _
      · exact .done _
    · decide
    · exact fun _ _ => rfl
    · exact fun _ _ hx => nomatch hx
    · exact fun _ _ => rfl
    · exact .finished fun _ => rfl
  exact ⟨by decide, hmatched, (hrun.mesh_run rfl).1⟩

end ObliviousRouting.Pass
