import ObliviousRouting.Proofs.Pass.Costs
import ObliviousRouting.Proofs.Plan.Repeats
import ObliviousRouting.Proofs.Reveal.Costs
import ObliviousRouting.Proofs.Switching.Duplicate
import ObliviousRouting.Proofs.Switching.Scatter
import ObliviousRouting.Switching.Roles

/-!
# What a run costs each part

Stage by stage, a part needs so many messages of each other part, and room for so many. Nothing of this
depends on what it is sent, and neither does anything that a later stage relies on: the plan is sound, and
the buffers keep their shapes. Rows without width do not get past selecting, since no target could name
them.
-/

namespace ObliviousRouting

open Role

variable {faults : Fault → Prop}

namespace CoinToss

/-- What it costs to toss a coin with another party. -/
def needs (other : Nat) : Multiset Need :=
  {.room other} + ({.message other} + ({.room other} + {.message other}))

theorem costs_toss (own other : Nat) (phase : String) (tape : Tape) :
    Costs faults (toss own other phase) tape (needs other) fun _ _ => True := by
  simp only [toss]
  refine Costs.bind_nil (Performs.modifyGet Tape.secret tape) ?_
  refine Costs.bind (Costs.mapError _ (Costs.sendList ..)) fun _ _ _ => ?_
  refine Costs.bind (Q := fun _ _ => True) (Costs.mapError _ ?_) fun theirs _ _ => ?_
  · refine Costs.bind_end (Costs.receiveList ..) fun l _ _ => ?_
    split
    · exact Costs.pure trivial
    · exact Costs.fail ..
  refine Costs.bind (Costs.mapError _ (Costs.sendList ..)) fun _ _ _ => ?_
  refine Costs.bind_end (Q := fun _ _ => True) (Costs.mapError _ ?_) fun opened _ _ => ?_
  · refine Costs.bind_end (Costs.receiveList ..) fun bytes _ _ => ?_
    split
    · exact Costs.pure trivial
    · exact Costs.fail ..
  split
  · exact Costs.pure trivial
  · exact Costs.fail ..

end CoinToss

namespace Switching

variable {σ : Type} {x : Expansion} {parties : Parties} {mode : Mode} {size : BatchSize}

/-! ### Parts of a state -/

theorem costs_toss (parties : Parties) (own other : Part) (phase : String) (tape : Tape) :
    Costs faults (toss parties own other phase) tape (CoinToss.needs (parties.of other)) fun _ _ => True :=
  Costs.mapError _ (CoinToss.costs_toss ..)

theorem PlannerState.costs_toss (parties : Parties) (own other : Part) (phase : String) (s : PlannerState) :
    Costs faults (onTape (toss parties own other phase)) s (CoinToss.needs (parties.of other))
      fun _ s' => ∃ tape, s' = { s with tape } :=
  (Costs.within (Switching.costs_toss ..)).mono fun _ _ ⟨tape, _, hs⟩ => ⟨tape, hs⟩

theorem OwnerState.costs_toss (parties : Parties) (own other : Part) (phase : String) (s : OwnerState) :
    Costs faults (onTape (toss parties own other phase)) s (CoinToss.needs (parties.of other))
      fun _ s' => ∃ tape, s' = { s with tape } :=
  (Costs.within (Switching.costs_toss ..)).mono fun _ _ ⟨tape, _, hs⟩ => ⟨tape, hs⟩

/-! ### Greetings -/

def greetNeeds (parties : Parties) (own : Part) : Multiset Need :=
  (own.peers.map fun peer => {.room (parties.of peer)}).sum +
    (own.peers.map fun peer => {.message (parties.of peer)}).sum

theorem costs_greet (parties : Parties) (own : Part) (shape : Shape) (s : σ) :
    Costs faults (greet parties own shape) s (greetNeeds parties own) fun _ s' => s' = s := by
  refine Costs.bind (Costs.forM fun peer _ => Costs.mapError _ (Costs.sendBytes ..)) fun _ s' hs => ?_
  subst hs
  refine Costs.forM fun peer _ => ?_
  refine Costs.bind_end (Costs.mapError _ (Costs.receiveBytes ..)) fun message s'' hs => ?_
  subst hs
  dsimp only
  split
  · exact Costs.pure rfl
  · exact Costs.fail ..

/-! ### Selecting -/

namespace Select

/-- What it costs each part to select rows in so many batches. -/
def needs (parties : Parties) (batches : Nat) : Part → Multiset Need
  | .planner => CoinToss.needs (parties.of .owner) + batches • {.room (parties.of .helper)}
  | .owner => CoinToss.needs (parties.of .planner) + batches • {.room (parties.of .helper)}
  | .helper => batches • {.message (parties.of .owner), .message (parties.of .planner)}

theorem distinct_slotTargets {p : Plan} (hplan : p.Sound) (hlt : p.selectRows < Target.rowLimit) :
    Target.Distinct p.slotTargets :=
  (Plan.filterMap_slotTargets hplan.sorted hplan.source_lt (Nat.le_of_lt hlt)).nodup_iff.2 List.nodup_range

/-- Rows without width have no places that targets could name. -/
theorem width_pos {p : Plan} (hplan : p.Sound) {stride : Nat} (hlt : p.selectRows < Target.rowLimit)
    (h : Pass.Within p.slotTargets (RowBuffer.blank p.selectRows stride).size) :
    p.selectRows = 0 ∨ 0 < stride := by
  rcases Nat.eq_zero_or_pos stride with rfl | hpos
  · left
    have hsize : (RowBuffer.blank p.selectRows 0).size = 0 := Nat.div_zero _
    have hperm := Plan.filterMap_slotTargets hplan.sorted hplan.source_lt (Nat.le_of_lt hlt)
    rw [hsize] at h
    have hnone : p.slotTargets.filterMap Target.row? = [] := by
      refine List.eq_nil_iff_forall_not_mem.2 fun d hd => ?_
      obtain ⟨t, ht, hrow⟩ := List.mem_filterMap.1 hd
      exact absurd (h t ht d hrow) (Nat.not_lt_zero d)
    rw [hnone] at hperm
    exact List.range_eq_nil.1 (List.nil_perm.1 hperm)
  · exact .inr hpos

theorem costs_planner (hx : ∀ seed, (x.selecting seed).Lawful) {s : PlannerState} (hplan : s.plan.Sound)
    {n stride : Nat} (hselect : s.plan.selectRows = n) (hlimit : n ≤ Plan.indexLimit)
    (hlt : n * stride < Size.bufferLimit) (hbatch : size.rows < Size.limit)
    (hwidth : stride < Size.bufferLimit ∨ faults .tooLarge) :
    Costs faults (planner x parties stride size) s (needs parties (size.count n) .planner)
      fun compact s' => n < Target.rowLimit ∧ (n = 0 ∨ 0 < stride) ∧ RowBuffer.Shaped compact n stride ∧
        ∃ tape cursor, s' = ⟨tape, { s.plan with cursor }, s.dest⟩ := by
  subst hselect
  simp only [planner]
  refine Costs.bind (PlannerState.costs_toss ..) ?_
  rintro seed _ ⟨tape, rfl⟩
  obtain ⟨cursor, htargets⟩ := Plan.selectTargets_eq hplan.sorted hplan.source_lt hlimit
  refine Costs.bind_nil (Performs.get _) ?_
  refine Costs.bind_nil (Performs.mapError SwitchError.plan (Performs.ofOutcome htargets _)) ?_
  refine Costs.bind_nil (Performs.modify _ _) ?_
  refine Costs.bind_nil (Performs.ofChecked (RowBuffer.zeros_eq_ok hlt) _) ?_
  have hblank := RowBuffer.shaped_blank hlt
  refine Costs.bind_end (Costs.mapError _ (Costs.privately (Pass.costs_route (hx seed)
    (hblank.data_size_eq ▸ hlt) (Plan.length_slotTargets _) (distinct_slotTargets hplan) hbatch hwidth ..)
    _)) ?_
  rintro ⟨_, compact⟩ _ ⟨⟨hrows, hwithin, hcompact⟩, rfl⟩
  have hpos := width_pos hplan hrows hwithin
  rw [hblank.size_eq hpos] at hcompact
  exact Costs.pure ⟨hrows, hpos, hcompact, tape, cursor, rfl⟩

theorem costs_owner (hx : ∀ seed, (x.selecting seed).Lawful) {shape : Shape} {source : RowBuffer} {n : Nat}
    (hselect : shape.selectRows = n) (hsize : shape.size = size)
    (hsource : source.data.size < Size.bufferLimit) (hle : source.size ≤ n)
    (hwidth : n = 0 ∨ 0 < source.stride) (hlt : n * source.stride < Size.bufferLimit)
    (hbatch : size.rows < Size.limit) (s : OwnerState) :
    Costs faults (owner x parties shape source) s (needs parties (size.count n) .owner)
      fun _ s' => s'.dest = s.dest := by
  simp only [owner, hselect, hsize]
  refine Costs.bind (OwnerState.costs_toss ..) ?_
  rintro seed _ ⟨tape, rfl⟩
  obtain ⟨padded, hpadded, hholds⟩ := (RowBuffer.holds_toList hsource).padTo hwidth hlt
  have hcount : padded.size = n := by
    rw [hholds.size_eq, List.length_append, List.length_replicate, RowBuffer.length_toList]
    omega
  refine Costs.bind_nil (Performs.ofChecked hpadded _) ?_
  rw [← hcount]
  refine Costs.mono (Costs.mapError _ (Pass.costs_send (hx seed) hbatch ..)) ?_
  rintro _ _ rfl
  rfl

theorem costs_helper {shape : Shape} {n : Nat} (hselect : shape.selectRows = n) (hsize : shape.size = size)
    (hlt : n * shape.stride < Size.bufferLimit) (hbatch : size.rows < Size.limit) (s : σ) :
    Costs faults (helper parties shape) s (needs parties (size.count n) .helper)
      fun compact s' => n < Target.rowLimit ∧ (n = 0 ∨ 0 < shape.stride) ∧
        RowBuffer.Shaped compact n shape.stride ∧ s' = s := by
  have hblank := RowBuffer.shaped_blank hlt
  simp only [helper, hselect, hsize]
  refine Costs.bind_nil (Performs.ofChecked (RowBuffer.zeros_eq_ok hlt) _) ?_
  refine Costs.bind_end (Costs.mapError _ (Costs.privately (Pass.costs_collect
    (hblank.data_size_eq ▸ hlt) hlt hbatch ..) _)) ?_
  rintro ⟨_, compact⟩ _ ⟨⟨hrows, hpos, hcompact⟩, rfl⟩
  rw [hblank.size_eq hpos] at hcompact
  exact Costs.pure ⟨hrows, hpos, hcompact, rfl⟩

end Select

/-! ### Duplicating -/

namespace Duplicate

/-- What it costs each part to make copies in so many batches. -/
def needs (parties : Parties) (batches : Nat) : Part → Multiset Need
  | .planner => CoinToss.needs (parties.of .helper) +
      batches • ({.room (parties.of .owner)} + {.message (parties.of .helper), .message (parties.of .owner)})
  | .owner => CoinToss.needs (parties.of .helper) +
      batches • ({.message (parties.of .planner)} + {.room (parties.of .planner)})
  | .helper => CoinToss.needs (parties.of .planner) +
      (CoinToss.needs (parties.of .owner) + batches • {.room (parties.of .planner)})

theorem shaped_xor {a : RowBuffer} {n width : Nat} (h : a.Shaped n width) (b : RowBuffer) :
    (a.xor b).Shaped n width := by
  refine ⟨h.stride_eq, ?_, h.fits⟩
  rw [RowBuffer.xor, List.size_toArray, Bytes.length_xor, RowBuffer.length_bytes, h.data_size_eq]

variable {n width : Nat} {compact : RowBuffer}

theorem costs_planner (hflips : ∀ seed, (x.flips seed n).length = n) (hcompact : compact.Shaped n width)
    (hwidth : n = 0 ∨ 0 < width) (hrows : n < Target.rowLimit) (hbatch : size.rows < Size.limit)
    {s : PlannerState} (hselect : s.plan.selectRows = n) :
    Costs faults (planner x parties compact size) s (needs parties (size.count n) .planner)
      fun copied s' => RowBuffer.Shaped copied n width ∧ ∃ tape, s' = { s with tape } := by
  simp only [planner, hcompact.stride_eq]
  refine Costs.bind (PlannerState.costs_toss ..) ?_
  rintro seed _ ⟨tape, rfl⟩
  refine Costs.bind_nil (Performs.get _) ?_
  simp only [hselect]
  refine Costs.bind_nil
    (Performs.ofChecked (Plan.repeatFlags_eq_ok (Nat.lt_trans hrows (by decide))) _) ?_
  refine Costs.bind_end (Costs.mapError _ (Reveal.costs_choose Plan.length_copies (hflips seed)
    hcompact.fits (Target.fits_of_lt hrows hbatch) ..)) ?_
  rintro learned _ ⟨hlearned, rfl⟩
  have hlength := hcompact.length_toList hwidth
  have hfirst : (s.plan.copies n).getD 0 false = false := Plan.getD_copies_zero
  obtain ⟨copied, rows, hresolve, hholds, hresolved⟩ := resolve_spec (i := 0) hlearned.holds
    hcompact.holds ((hlearned.length_toList hwidth).trans hlength.symm)
    (by rw [Nat.zero_add, Plan.length_copies, hlength]) fun _ => hfirst
  exact Costs.of_performs (Performs.ofChecked hresolve _)
    ⟨hholds.shaped (hresolved.1.trans hlength), tape, rfl⟩

theorem costs_owner {shape : Shape} (hselect : shape.selectRows = n) (hsize : shape.size = size)
    (hlt : n * shape.stride < Size.bufferLimit) (hrows : n < Size.bufferLimit)
    (hbatch : size.rows < Size.limit) (s : OwnerState) :
    Costs faults (owner x parties shape) s (needs parties (size.count n) .owner)
      fun _ s' => s'.dest = s.dest := by
  simp only [owner, hselect, hsize]
  refine Costs.bind (OwnerState.costs_toss ..) ?_
  rintro seed _ ⟨tape, rfl⟩
  refine Costs.mono (Costs.mapError _ (Reveal.costs_serve _ hlt ⟨hbatch, Nat.le_of_lt hrows⟩ ..)) ?_
  rintro _ _ rfl
  rfl

theorem costs_helper (hfresh : ∀ tape, (x.fresh tape (n * width)).1.length = n * width)
    (hcompact : compact.Shaped n width) (hwidth : n = 0 ∨ 0 < width) (hrows : n < Target.rowLimit)
    (hbatch : size.rows < Size.limit) (tape : Tape) :
    Costs faults (helper x parties compact size) tape (needs parties (size.count n) .helper)
      fun fresh _ => RowBuffer.Shaped fresh n width := by
  simp only [helper]
  refine Costs.bind (Switching.costs_toss ..) fun flips _ _ => ?_
  refine Costs.bind (Switching.costs_toss ..) fun pads tape _ => ?_
  refine Costs.bind_nil (Performs.modifyGet _ tape) ?_
  simp only [hcompact.data_size_eq, hcompact.size_eq hwidth]
  obtain ⟨fresh, hset, hshaped⟩ := hcompact.setRows (Nat.zero_le n) (Nat.le_refl n) (hfresh tape)
  refine Costs.bind_nil (Performs.ofChecked hset _) ?_
  refine Costs.bind_nil (Performs.ofChecked (makePairs_eq hcompact.holds hshaped.holds
    ((hcompact.length_toList hwidth).trans (hshaped.length_toList hwidth).symm)) _) ?_
  refine Costs.bind_end (Costs.mapError _ (Reveal.costs_offer _ (shaped_xor hcompact _)
    (shaped_xor hshaped _) hwidth (Target.fits_of_lt hrows hbatch) ..)) fun _ _ _ => ?_
  exact Costs.pure hshaped

end Duplicate

/-! ### Scattering -/

namespace Scatter

/-- What it costs each part to scatter rows in so many batches. -/
def needs (parties : Parties) (batches : Nat) : Part → Multiset Need
  | .planner => CoinToss.needs (parties.of .helper) + batches • {.room (parties.of .owner)}
  | .owner => batches • {.message (parties.of .helper), .message (parties.of .planner)}
  | .helper => CoinToss.needs (parties.of .planner) + batches • {.room (parties.of .owner)}

variable {n width : Nat} {compact : RowBuffer}

theorem costs_planner (hx : ∀ seed, (x.scattering seed).Lawful) {s : PlannerState}
    (hplan : s.plan.Complete) (hselect : s.plan.selectRows = n) (hrows : n < Target.rowLimit)
    (hcompact : compact.Shaped n width) (hwidth : n = 0 ∨ 0 < width)
    (hdest : s.dest.data.size < Size.bufferLimit) (hsize : s.dest.size = s.plan.destinationRows)
    (hstride : s.dest.stride = width) (hbatch : size.rows < Size.limit)
    (hlimit : width < Size.bufferLimit ∨ faults .tooLarge) :
    Costs faults (planner x parties compact mode size) s (needs parties (size.count n) .planner)
      fun _ _ => True := by
  have hedges : s.plan.edges.length ≤ compact.toList.length := by
    rw [hcompact.length_toList hwidth, ← hselect]
    exact Nat.le_max_right ..
  have hlt : s.plan.destinationRows ≤ Target.rowLimit := by
    rw [← hplan.length_edges]
    exact Nat.le_of_lt (Nat.lt_of_le_of_lt (Nat.le_max_right ..) (hselect ▸ hrows))
  have hwrite : writeShares mode compact 0 s.plan.edges s.dest =
      Pass.place mode s.dest (planned s.plan compact.toList) := by
    rw [writeShares_eq_place hcompact.holds (by rwa [Nat.zero_add])
      (fun e he => Nat.lt_of_lt_of_le (hplan.destination_lt he) hlt), List.drop_zero, planned]
  have hold := RowBuffer.holds_toList hdest
  rw [hstride] at hold
  obtain ⟨hplace, hplaced⟩ := Pass.place_eq_ok mode hold
    (by rw [RowBuffer.length_toList, hsize]; exact within_planned hplan hlt hedges)
    (uniform_planned hcompact.holds.uniform)
  have hfits := hplaced.shaped ((Pass.length_placed ..).trans (RowBuffer.length_toList _))
  simp only [planner]
  refine Costs.bind (PlannerState.costs_toss ..) ?_
  rintro seed _ ⟨tape, rfl⟩
  refine Costs.bind_nil (Performs.get _) ?_
  refine Costs.bind_nil (Performs.ofChecked (hwrite.trans hplace) _) ?_
  refine Costs.bind_nil (Performs.modify _ _) ?_
  refine Costs.mono (Costs.mapError _ (Costs.within (Pass.costs_route (hx seed)
    (hfits.data_size_eq ▸ hfits.fits) ((Plan.length_scatterTargets _).trans hselect)
    (fun _ => hplan.distinct_scatterTargets hlt) hbatch (hfits.stride_eq ▸ hlimit) ..)))
    fun _ _ _ => trivial

theorem costs_owner {shape : Shape} (hselect : shape.selectRows = n) (hsize : shape.size = size)
    {s : OwnerState} (hdest : s.dest.data.size < Size.bufferLimit)
    (hlt : n * s.dest.stride < Size.bufferLimit) (hbatch : size.rows < Size.limit) :
    Costs faults (owner parties shape mode) s (needs parties (size.count n) .owner) fun _ _ => True := by
  rw [owner, hselect, hsize]
  exact Costs.mono (Costs.mapError _ (Costs.within (Pass.costs_collect hdest hlt hbatch ..)))
    fun _ _ _ => trivial

theorem costs_helper (hx : ∀ seed, (x.scattering seed).Lawful) (hcompact : compact.Shaped n width)
    (hwidth : n = 0 ∨ 0 < width) (hbatch : size.rows < Size.limit) (tape : Tape) :
    Costs faults (helper x parties compact size) tape (needs parties (size.count n) .helper)
      fun _ _ => True := by
  simp only [helper]
  refine Costs.bind (Switching.costs_toss ..) fun seed tape _ => ?_
  rw [← hcompact.size_eq hwidth]
  exact Costs.mono (Costs.mapError _ (Pass.costs_send (hx seed) hbatch ..)) fun _ _ _ => trivial

end Scatter

/-! ### Whole runs -/

def copyNeeds (parties : Parties) (batches : Nat) : Kind → Part → Multiset Need
  | .permutation, _ => 0
  | .general, own => Duplicate.needs parties batches own

/-- What a run costs each part, with so many batches of compact rows. -/
def needs (parties : Parties) (kind : Kind) (batches : Nat) (own : Part) : Multiset Need :=
  greetNeeds parties own + (Select.needs parties batches own +
    (copyNeeds parties batches kind own + Scatter.needs parties batches own))

theorem costs_planner {s : PlannerState} {n : Nat} (hn : max s.plan.sourceRows s.plan.destinationRows = n)
    (hx : x.Lawful n s.dest.stride size) (hplan : s.plan.group.Sound)
    (hlt : n * s.dest.stride < Size.bufferLimit) (hbatch : size.rows < Size.limit)
    (hwidth : s.dest.stride < Size.bufferLimit ∨ faults .tooLarge) (kind : Kind) :
    Costs faults (planner x parties kind mode size) s (needs parties kind (size.count n) .planner)
      fun _ _ => True := by
  simp only [planner]
  refine Costs.bind_nil (Performs.modify _ s) ?_
  refine Costs.bind_nil (Performs.get _) ?_
  refine Costs.ofOutcome_bind (fun e he => absurd he (hplan.check_ne_fault kind e)) fun _ hcheck => ?_
  have hcomplete := Plan.complete_of_check hplan.source_lt hcheck
  have hselect : s.plan.group.selectRows = n := by
    rw [hcomplete.selectRows_eq, Plan.group_sourceRows, Plan.group_destinationRows, hn]
  have hlimit := Nat.le_of_lt (Plan.check_eq_ok_iff.1 hcheck).2.2.2.2
  split
  · exact Costs.fail_bind ..
  next hmatch =>
  rw [not_not] at hmatch
  have hdest : s.dest.data.size < Size.bufferLimit := by
    rw [← s.dest.size_mul_stride, hmatch, Plan.group_destinationRows]
    exact Nat.lt_of_le_of_lt (Nat.mul_le_mul_right _ (hn ▸ Nat.le_max_right ..)) hlt
  refine Costs.bind (costs_greet ..) fun _ s' hs => ?_
  subst hs
  refine Costs.bind
    (Select.costs_planner hx.selecting hplan hselect (hselect ▸ hlimit) hlt hbatch hwidth) ?_
  rintro compact _ ⟨hrows, hpos, hcompact, tape, cursor, rfl⟩
  have hscatter {copied : RowBuffer} (tape : Tape) (hcopied : copied.Shaped n s.dest.stride) :
      Costs faults (Scatter.planner x parties copied mode size)
        ⟨tape, { s.plan.group with cursor }, s.dest⟩ (Scatter.needs parties (size.count n) .planner)
        fun _ _ => True :=
    Scatter.costs_planner hx.scattering ⟨hcomplete.source_lt, hcomplete.perm⟩ hselect hrows hcopied hpos
      hdest hmatch rfl hbatch hwidth
  cases kind with
  | permutation =>
    rw [copyNeeds, zero_add]
    exact Costs.bind_nil (.pure _ _) (hscatter tape hcompact)
  | general =>
    refine Costs.bind (Duplicate.costs_planner hx.length_flips hcompact hpos hrows hbatch hselect) ?_
    rintro copied _ ⟨hcopied, tape, rfl⟩
    exact hscatter tape hcopied

theorem costs_owner {source : RowBuffer} {s : OwnerState} {n : Nat} (hn : max source.size s.dest.size = n)
    (hx : x.Lawful n source.stride size) (hlt : n * source.stride < Size.bufferLimit)
    (hrows : n < Size.bufferLimit) (hbatch : size.rows < Size.limit) (kind : Kind) :
    Costs faults (owner x parties kind source mode size) s (needs parties kind (size.count n) .owner)
      fun _ _ => True := by
  have hsource : source.data.size < Size.bufferLimit := by
    rw [← source.size_mul_stride]
    exact Nat.lt_of_le_of_lt (Nat.mul_le_mul_right _ (hn ▸ Nat.le_max_left ..)) hlt
  simp only [owner]
  refine Costs.bind_nil (Performs.get _) ?_
  split
  · exact Costs.fail_bind ..
  next hmatch =>
  rw [not_not] at hmatch
  have hdest : s.dest.data.size < Size.bufferLimit := by
    rw [← s.dest.size_mul_stride, ← hmatch]
    exact Nat.lt_of_le_of_lt (Nat.mul_le_mul_right _ (hn ▸ Nat.le_max_right ..)) hlt
  have hwidth : n = 0 ∨ 0 < source.stride := by
    rcases source.size_eq_zero_or_pos with hzero | hpos
    · rcases s.dest.size_eq_zero_or_pos with hzero' | hpos
      · left
        rw [← hn, hzero, hzero', Nat.max_self]
      · exact .inr (hmatch ▸ hpos)
    · exact .inr hpos
  refine Costs.bind (costs_greet ..) fun _ s' hs => ?_
  subst hs
  generalize hshape : (⟨kind, source.size, s'.dest.size, source.stride, size⟩ : Shape) = shape
  have hselect : shape.selectRows = n := hshape ▸ hn
  have hsize : shape.size = size := hshape ▸ rfl
  have hstride : shape.stride = source.stride := hshape ▸ rfl
  have hscatter {s : OwnerState} (hs : s.dest = s'.dest) :
      Costs faults (Scatter.owner parties shape mode) s (Scatter.needs parties (size.count n) .owner)
        fun _ _ => True :=
    Scatter.costs_owner hselect hsize (hs ▸ hdest) (by rw [hs, ← hmatch]; exact hlt) hbatch
  refine Costs.bind (Select.costs_owner hx.selecting hselect hsize hsource (hn ▸ Nat.le_max_left ..) hwidth
    hlt hbatch _) fun _ s hs => ?_
  cases kind with
  | permutation =>
    rw [copyNeeds, zero_add]
    exact Costs.bind_nil (.pure _ _) (hscatter hs)
  | general =>
    refine Costs.bind (Duplicate.costs_owner hselect hsize (hstride ▸ hlt) hrows hbatch _) fun _ _ hs' => ?_
    exact hscatter (hs'.trans hs)

theorem costs_helper {shape : Shape} {n : Nat} (hselect : shape.selectRows = n)
    (hx : x.Lawful n shape.stride shape.size) (hlt : n * shape.stride < Size.bufferLimit)
    (hbatch : shape.size.rows < Size.limit) (tape : Tape) :
    Costs faults (helper x parties shape) tape (needs parties shape.kind (shape.size.count n) .helper)
      fun _ _ => True := by
  simp only [helper]
  refine Costs.bind (costs_greet ..) fun _ tape hs => ?_
  refine Costs.bind (Select.costs_helper hselect rfl hlt hbatch _) ?_
  rintro compact _ ⟨hrows, hpos, hcompact, rfl⟩
  have hscatter {copied : RowBuffer} (tape : Tape) (hcopied : copied.Shaped n shape.stride) :
      Costs faults (Scatter.helper x parties copied shape.size) tape
        (Scatter.needs parties (shape.size.count n) .helper) fun _ _ => True :=
    Scatter.costs_helper hx.scattering hcopied hpos hbatch tape
  cases shape.kind with
  | permutation =>
    rw [copyNeeds, zero_add]
    exact Costs.bind_nil (.pure _ _) (hscatter _ hcompact)
  | general =>
    refine Costs.bind (Duplicate.costs_helper hx.length_fresh hcompact hpos hrows hbatch _)
      fun fresh tape hfresh => ?_
    exact hscatter tape hfresh

end Switching

end ObliviousRouting
