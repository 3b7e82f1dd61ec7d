import ObliviousRouting.Proofs.Network.Alone
import ObliviousRouting.Proofs.Pass.Draws

/-!
# What the collector sees

The collector is sent the masked rows and the shuffled targets. With free draws and free masks these say
nothing but which targets there are: whatever the rows are, and to whichever of them the targets belong,
the choices of draws and masks correspond one to one, such that the collector is sent the same.
-/

namespace ObliviousRouting.Pass

open Bytes Role

/-! ### Passes that do not come to a batch -/

section Silent

variable {σ : Type} (x : Blinding) (collector : Nat) (size : BatchSize) (phase : String)

/-- No rows at all, or more than there are targets for. -/
def NoBatch (rows : Nat) : Prop := rows = 0 ∨ Target.rowLimit ≤ rows

theorem count_eq_zero {rows : Nat} (h : NoBatch rows) (hrows : checkRows rows = .ok ()) :
    size.count rows = 0 := by
  rcases h with rfl | hle
  · exact BatchSize.count_zero
  · rw [checkRows, if_neg (Nat.not_lt.2 hle)] at hrows
    cases hrows

theorem send_silent {data : RowBuffer} (h : NoBatch data.size) (s : σ) :
    SendsOnly (fun _ _ _ => False) (send x collector data size phase) s := by
  rw [send]
  refine SendsOnly.ofExcept_bind fun _ hrows => ?_
  rw [count_eq_zero size h hrows]
  exact .done _

theorem route_silent {targets : List Target} (h : NoBatch targets.length) (mode : Mode)
    (dest : RowBuffer) :
    SendsOnly (fun _ _ _ => False) (route x collector targets mode size phase) dest := by
  simp only [route]
  refine SendsOnly.ofExcept_bind fun _ hrows => ?_
  refine SendsOnly.bind_nil (.get dest) ?_
  refine SendsOnly.ofExcept_bind fun _ _ => ?_
  rw [count_eq_zero size h hrows]
  split
  · refine SendsOnly.ofChecked_bind fun _ _ => ?_
    exact .done _
  · exact .done _

end Silent

/-! ### Batches -/

section Batches

variable {n width : Nat} {x x' : Blinding} {rows rows' : List Bytes} {targets targets' : List Target}

theorem table_maskedRows (hx : x.Lawful) (hrows : Table n width rows) :
    Table n width (maskedRows x rows width) :=
  ⟨(length_maskedRows hx).trans hrows.length_eq, uniform_maskedRows hx hrows.uniform⟩

/-- Two passes have the same batches if and only if they have the same masked rows and shuffled targets in
them. -/
theorem batches_eq_iff (hx : x.Lawful) (hx' : x'.Lawful) (hrows : Table n width rows)
    (hrows' : Table n width rows') (htargets : targets.length = n) (htargets' : targets'.length = n)
    (hlt : n < Target.rowLimit) (size : BatchSize) :
    ((List.range (size.count n)).map (rowsMessage x' rows' width size) =
          (List.range (size.count n)).map (rowsMessage x rows width size) ∧
        (List.range (size.count n)).map (targetsMessage x' targets' size) =
          (List.range (size.count n)).map (targetsMessage x targets size)) ↔
      x'.shuffle targets' = x.shuffle targets ∧ maskedRows x' rows' width = maskedRows x rows width := by
  constructor
  · rintro ⟨hrowsMessages, htargetsMessages⟩
    rw [List.map_inj_left] at hrowsMessages htargetsMessages
    have hlength : (x.shuffle targets).length = n := (Blinding.length_shuffle hx _).trans htargets
    have hlength' : (x'.shuffle targets').length = n := (Blinding.length_shuffle hx' _).trans htargets'
    have hbatch {l : List Target} (hl : l.length = n) (k : Nat) : (size.batch l k).length < Size.limit := by
      apply Target.lt_limit
      rw [BatchSize.length_batch]
      omega
    refine ⟨BatchSize.eq_of_batch_eq (b := size) hlength' hlength fun k hk => ?_, ?_⟩
    · exact Target.codec.encodeList_inj (hbatch hlength' k) (hbatch hlength k)
        (htargetsMessages k (List.mem_range.2 hk))
    · exact (table_maskedRows hx' hrows').eq_of_batches size (table_maskedRows hx hrows)
        fun k hk => hrowsMessages k (List.mem_range.2 hk)
  · rintro ⟨hshuffle, hmasked⟩
    rw [List.map_inj_left, List.map_inj_left]
    exact ⟨fun k _ => by rw [rowsMessage, rowsMessage, hmasked],
      fun k _ => by rw [targetsMessage, targetsMessage, hshuffle]⟩

end Batches

/-! ### The view -/

/-- What sender and router of a pass are given. -/
structure Sending where
  data : RowBuffer
  targets : List Target
  /-- The buffer that gets the router's shares. -/
  dest : RowBuffer
  mode : Mode

namespace Sending

variable {n width : Nat} {size : BatchSize} {x x' : Sending}

/-- So many rows of one width, each with a target in the router's buffer or with none, and no two with
the same one. -/
structure Fits (x : Sending) (n width : Nat) : Prop where
  data_size : x.data.size = n
  data_stride : x.data.stride = width
  dest_stride : x.dest.stride = width
  length_targets : x.targets.length = n
  distinct : Target.Distinct x.targets
  within : Within x.targets x.dest.size
  data_fits : x.data.data.size < Size.bufferLimit
  dest_fits : x.dest.data.size < Size.bufferLimit

/-- All that is sent to the collector: the batches of the sender and those of the router. -/
def view (x : Sending) (blinding : Blinding) (collector : Nat) (size : BatchSize) (phase : String) :
    List (Nat × String × Bytes) × List (Nat × String × Bytes) :=
  (((send blinding collector x.data size phase).start x.data).outgoing,
    ((route blinding collector x.targets x.mode size phase).start x.dest).outgoing)

namespace Fits

variable (hx : x.Fits n width)
include hx

theorem holds_data : x.data.Holds width x.data.toList := by
  have hdata := RowBuffer.holds_toList hx.data_fits
  rwa [hx.data_stride] at hdata

theorem table_data : Table n width x.data.toList :=
  ⟨by rw [RowBuffer.length_toList, hx.data_size], hx.holds_data.uniform⟩

theorem view_of_noBatch (h : NoBatch n) (blinding : Blinding) (collector : Nat) (phase : String) :
    x.view blinding collector size phase = ([], []) := by
  rw [view, (send_silent _ _ _ _ (hx.data_size.symm ▸ h) _).outgoing_eq_nil,
    (route_silent _ _ _ _ (hx.length_targets.symm ▸ h) _ _).outgoing_eq_nil]

/-- Rows that come to a batch are no wider than a buffer. -/
theorem width_lt (h : ¬ NoBatch n) : width < Size.bufferLimit := by
  apply Nat.lt_of_not_le
  intro hwide
  rw [← hx.data_stride] at hwide
  exact h (.inl (hx.data_size.symm.trans (RowBuffer.size_eq_zero hx.data_fits hwide)))

/-- What the collector is sent, batch by batch. -/
theorem view_eq {blinding : Blinding} (hblinding : blinding.Lawful) (h : ¬ NoBatch n)
    (hsize : size.rows < Size.limit) (collector : Nat) (phase : String) :
    x.view blinding collector size phase =
      ((List.range (size.count n)).map fun k =>
          (collector, phase, rowsMessage blinding x.data.toList width size k),
        (List.range (size.count n)).map fun k =>
          (collector, phase, targetsMessage blinding x.targets size k)) := by
  have hlength := hx.table_data.length_eq
  have hrows : n < Target.rowLimit := Nat.lt_of_not_le fun hle => h (.inr hle)
  have hfits : size.Fits n := Target.fits_of_lt hrows hsize
  have hdest := RowBuffer.holds_toList hx.dest_fits
  rw [hx.dest_stride] at hdest
  have hsend := performs_send hblinding hx.holds_data (hlength.symm ▸ hrows) (hlength.symm ▸ hfits)
    collector phase x.data
  have hroute := performs_route x.mode hblinding hdest
    (by rw [RowBuffer.length_toList]; exact hx.within) hx.distinct (hx.width_lt h)
    (hx.length_targets.symm ▸ hrows) (hx.length_targets.symm ▸ hfits) collector phase
  rw [Performs, sendCourse, hlength] at hsend
  rw [Performs, routeCourse, hx.length_targets] at hroute
  rw [view]
  congr 1
  · apply Process.outgoing_of_follows (a := (.ok (), x.data))
    rw [List.map_map]
    exact hsend
  · apply Process.outgoing_of_follows
      (a := (.ok (), placement x.mode x.dest (routerShares blinding x.targets width)))
    rw [List.map_map]
    exact hroute

end Fits

/-- Neither the rows nor the order of the targets can be told from what the collector is sent. -/
theorem hides_rows_and_sources (hx : x.Fits n width) (hx' : x'.Fits n width)
    (hperm : x'.targets.Perm x.targets) (hsize : size.rows < Size.limit) (collector : Nat)
    (phase : String) :
    ∃ e : Choice n width ≃ Choice n width, ∀ c,
      x'.view (e c).blinding collector size phase = x.view c.blinding collector size phase := by
  by_cases h : NoBatch n
  · refine ⟨.refl _, fun c => ?_⟩
    rw [hx.view_of_noBatch h, hx'.view_of_noBatch h]
  · obtain ⟨e, he⟩ := exists_equiv_shuffle_eq hx.length_targets hperm hx.table_data hx'.table_data
    refine ⟨e, fun c => ?_⟩
    rw [hx.view_eq c.lawful h hsize, hx'.view_eq (e c).lawful h hsize]
    simp only [rowsMessage, targetsMessage, he c]

/-- One row goes to row one, and another one nowhere. -/
def first : Sending := ⟨⟨#[1, 2], 1, by decide⟩, [.ofRow 1, .discard], .blank 2 1, .overwrite⟩

/-- Two other rows with the same targets, the other way round. -/
def second : Sending := ⟨⟨#[5, 7], 1, by decide⟩, [.discard, .ofRow 1], .blank 3 1, .additive⟩

theorem hides_rows_and_sources_of_two : first.Fits 2 1 ∧ second.Fits 2 1 ∧
    second.targets.Perm first.targets ∧
    ∃ e : Choice 2 1 ≃ Choice 2 1, ∀ c,
      second.view (e c).blinding 2 ⟨1⟩ "t" = first.view c.blinding 2 ⟨1⟩ "t" := by
  have hfirst : first.Fits 2 1 := by constructor <;> decide
  have hsecond : second.Fits 2 1 := by constructor <;> decide
  have hperm : second.targets.Perm first.targets := by decide
  exact ⟨hfirst, hsecond, hperm,
    hides_rows_and_sources hfirst hsecond hperm (by decide) 2 "t"⟩

end Sending

end ObliviousRouting.Pass
