import ObliviousRouting.Proofs.Network.Results
import ObliviousRouting.Proofs.Plan.Feeding
import ObliviousRouting.Proofs.Switching.Limits
import ObliviousRouting.Proofs.Switching.Run

/-!
# Routed rows are shared

Whatever the plan, the kind and the batch size, a run ends well and leaves planner and owner with shares of
the routed rows. In runs that add to the same buffers the routed rows add up.
-/

namespace ObliviousRouting.Switching

structure Tapes where
  planner : Tape
  owner : Tape
  helper : Tape

/-- The same buffers, and other tapes. -/
def Setting.withTapes (s : Setting) (tapes : Tapes) : Setting where
  planner := { s.planner with tape := tapes.planner }
  owner := { s.owner with tape := tapes.owner }
  helper := tapes.helper

namespace Run

open Bytes

variable {r : Run} {s s' : Setting} {f : Nat → Nat}

/-- All parts are given the same run: a plan whose destination row `d` is fed by the source row `f d`, and
buffers of the right shape at three ends of a mesh. Buffers are as long as memory allows, and the batch
size is a size. -/
structure Fits (r : Run) (s : Setting) (f : Nat → Nat) : Prop where
  feeds : r.plan.Feeds r.source.size s.planner.dest.size f
  injective : r.kind = .permutation →
    ∀ d < s.planner.dest.size, ∀ d' < s.planner.dest.size, f d = f d' → d = d'
  seated : r.parties.Seated r.ends
  owner_size : s.owner.dest.size = s.planner.dest.size
  planner_stride : s.planner.dest.stride = r.source.stride
  owner_stride : s.owner.dest.stride = r.source.stride
  rows_lt : max r.source.size s.planner.dest.size < Target.rowLimit
  batch_lt : r.size.rows < Size.limit
  source_fits : r.source.data.size < Size.bufferLimit
  planner_fits : s.planner.dest.data.size < Size.bufferLimit
  owner_fits : s.owner.dest.data.size < Size.bufferLimit

theorem Fits.ready (h : r.Fits s f) : r.Ready s := by
  have hcomplete := h.feeds.complete
  have hinjective := h.feeds.injective
  obtain ⟨edges, -, hbuilt⟩ := h.feeds
  obtain ⟨hsource, hdestination⟩ := hbuilt.rows_eq
  exact
    { h with
      complete := hcomplete
      sorted := hbuilt.group_edges.1
      injective := fun hkind => hinjective (h.injective hkind)
      source_size := hsource.symm
      planner_size := hdestination.symm
      owner_size := h.owner_size.trans hdestination.symm
      rows_lt := by rw [hsource, hdestination]; exact h.rows_lt }

/-- All parts are given the same run, with buffers of the right shape at three ends of a mesh. Its plan was
built by adding edges, and it passes its check. -/
structure Admitted (r : Run) (s : Setting) : Prop where
  built : ∃ edges, r.plan.Built r.source.size s.planner.dest.size edges
  check_eq : r.plan.group.check r.kind = .ok ()
  seated : r.parties.Seated r.ends
  owner_size : s.owner.dest.size = s.planner.dest.size
  planner_stride : s.planner.dest.stride = r.source.stride
  owner_stride : s.owner.dest.stride = r.source.stride
  batch_lt : r.size.rows < Size.limit
  source_fits : r.source.data.size < Size.bufferLimit
  planner_fits : s.planner.dest.data.size < Size.bufferLimit
  owner_fits : s.owner.dest.data.size < Size.bufferLimit

theorem Admitted.complete (h : r.Admitted s) : r.plan.group.Complete :=
  let ⟨_, hbuilt⟩ := h.built
  Plan.complete_of_check hbuilt.group_source_lt h.check_eq

theorem Admitted.rows_eq (h : r.Admitted s) : r.rows = max r.plan.sourceRows r.plan.destinationRows := by
  rw [rows, h.complete.selectRows_eq, Plan.group_sourceRows, Plan.group_destinationRows]

theorem Admitted.ready (h : r.Admitted s) (hrows : r.rows < Target.rowLimit) : r.Ready s := by
  have hcomplete := h.complete
  have hrows_eq := h.rows_eq
  obtain ⟨edges, hbuilt⟩ := h.built
  obtain ⟨hsource, hdestination⟩ := hbuilt.rows_eq
  exact
    { h with
      complete := hcomplete
      sorted := hbuilt.group_edges.1
      injective := fun hkind => Plan.injective_of_check hbuilt.group_edges.1 (hkind ▸ h.check_eq)
      source_size := hsource.symm
      planner_size := hdestination.symm
      owner_size := h.owner_size.trans hdestination.symm
      rows_lt := hrows_eq ▸ hrows }

theorem Fits.admitted (h : r.Fits s f) : r.Admitted s :=
  { h with
    built := let ⟨edges, _, hbuilt⟩ := h.feeds; ⟨edges, hbuilt⟩
    check_eq := Plan.check_eq_ok h.ready.complete h.ready.sorted h.ready.injective
      (Nat.lt_trans h.ready.compact_lt (by decide)) }

def withSource (r : Run) (source : RowBuffer) : Run := { r with source }

theorem Admitted.withSource {source : RowBuffer} (h : r.Admitted s) (hstride : source.stride = r.source.stride)
    (hsize : source.size = r.source.size) : (r.withSource source).Admitted s :=
  { h with
    built := hsize ▸ h.built
    planner_stride := h.planner_stride.trans hstride.symm
    owner_stride := h.owner_stride.trans hstride.symm
    source_fits := RowBuffer.data_size_eq hstride hsize ▸ h.source_fits }

theorem Fits.withSource {source : RowBuffer} (h : r.Fits s f) (hstride : source.stride = r.source.stride)
    (hsize : source.size = r.source.size) : (r.withSource source).Fits s f :=
  { h.admitted.withSource hstride hsize with
    feeds := hsize ▸ h.feeds
    injective := h.injective
    rows_lt := hsize ▸ h.rows_lt }

/-- Destination row `d` has the row of its source. -/
theorem Delivers.row (h : r.Delivers s s') (hfits : r.Fits s f) {d : Nat}
    (hd : d < s.planner.dest.size) :
    (s'.planner.dest.rowAt d).xor (s'.owner.dest.rowAt d) =
      (r.source.rowAt (f d)).xor
        ((r.mode.kept (s.planner.dest.rowAt d)).xor (r.mode'.kept (s.owner.dest.rowAt d))) :=
  h.row_eq ⟨f d, d⟩ (hfits.feeds.mem_edges_iff.2 ⟨hd, rfl⟩)

theorem Fits.run_eq (h : r.Fits s f) (hwidth : r.source.stride < Size.bufferLimit) :
    ∃ s', (Mesh.run { parties := r.ends } (r.seats .keystreams s)).1 = (endings s').map some ∧
      r.Delivers s s' := by
  obtain ⟨s', hrun, hdelivers⟩ := h.ready.underway hwidth (Expansion.lawful_keystreams ..)
  exact ⟨s', (hrun.mesh_run rfl).1, hdelivers⟩

/-! ### One run after another -/

/-- A run of a series: what is run, the tapes that its parts are given, and the source row that feeds each
destination row. -/
structure Stage where
  run : Run
  tapes : Tapes
  feed : Nat → Nat

/-- What a run leaves, if no part of it stops early. -/
def perform (r : Run) (s : Setting) : Option Setting :=
  match (Mesh.run { parties := r.ends } (r.seats .keystreams s)).1 with
  | [some (.planner (.ok ()) planner), some (.owner (.ok ()) owner), some (.helper (.ok ()) helper)] =>
    some ⟨planner, owner, helper⟩
  | _ => none

/-- What runs leave, one after the other. -/
def performAll : List Stage → Setting → Option Setting
  | [], s => some s
  | stage :: series, s => stage.run.perform (s.withTapes stage.tapes) >>= performAll series

theorem perform_eq_some (h : (Mesh.run { parties := r.ends } (r.seats .keystreams s)).1 =
    (endings s').map some) : r.perform s = some s' := by
  rw [perform, h]
  rfl

/-- A run leaves buffers of the same shape, so what fits before it fits after it. -/
theorem Fits.after {r' : Run} (h : r.Fits s f) (h' : r'.Delivers s s') : r.Fits s' f where
  feeds := h'.planner_size ▸ h.feeds
  injective := h'.planner_size ▸ h.injective
  seated := h.seated
  owner_size := by rw [h'.owner_size, h'.planner_size, h.owner_size]
  planner_stride := h'.planner_stride.trans h.planner_stride
  owner_stride := h'.owner_stride.trans h.owner_stride
  rows_lt := h'.planner_size ▸ h.rows_lt
  batch_lt := h.batch_lt
  source_fits := h.source_fits
  planner_fits := RowBuffer.data_size_eq h'.planner_stride h'.planner_size ▸ h.planner_fits
  owner_fits := RowBuffer.data_size_eq h'.owner_stride h'.owner_size ▸ h.owner_fits

/-- Whether a run fits has nothing to do with the tapes. -/
theorem Fits.withTapes (h : r.Fits s f) (tapes : Tapes) : r.Fits (s.withTapes tapes) f :=
  { h with }

/-- Row `d` of what the runs of a series route. -/
def total (series : List Stage) (d : Nat) (old : Bytes) : Bytes :=
  series.foldl (fun row stage => row.xor (stage.run.source.rowAt (stage.feed d))) old

theorem performAll_additive {series : List Stage} (h : ∀ stage ∈ series, stage.run.Fits s stage.feed)
    (hmodes : ∀ stage ∈ series, stage.run.mode = .additive ∧ stage.run.mode' = .additive)
    (hwidth : s.planner.dest.stride < Size.bufferLimit) :
    ∃ s', performAll series s = some s' ∧ ∀ d < s.planner.dest.size,
      (s'.planner.dest.rowAt d).xor (s'.owner.dest.rowAt d) =
        total series d ((s.planner.dest.rowAt d).xor (s.owner.dest.rowAt d)) := by
  induction series generalizing s with
  | nil => exact ⟨s, rfl, fun _ _ => rfl⟩
  | cons stage series ih =>
    obtain ⟨r, tapes, f⟩ := stage
    rw [List.forall_mem_cons] at h hmodes
    obtain ⟨hfits, hrest⟩ := h
    obtain ⟨⟨hmode, hmode'⟩, hmodes⟩ := hmodes
    obtain ⟨s₁, hrun, hdelivers⟩ := (hfits.withTapes tapes).run_eq (hfits.planner_stride ▸ hwidth)
    have hrest : ∀ stage ∈ series, stage.run.Fits s₁ stage.feed := fun stage hstage =>
      ((hrest stage hstage).withTapes tapes).after hdelivers
    obtain ⟨s', hruns, hrows⟩ := ih hrest hmodes (hdelivers.planner_stride ▸ hwidth)
    refine ⟨s', ?_, fun d hd => ?_⟩
    · rw [performAll, perform_eq_some hrun]
      exact hruns
    · have hsource : f d < r.source.size := hfits.feeds.source_lt hd
      have hold := RowBuffer.length_rowAt hd
      have hrow := RowBuffer.length_rowAt hsource
      have hfirst := hdelivers.row (hfits.withTapes tapes) hd
      rw [hmode, hmode'] at hfirst
      change _ = (r.source.rowAt (f d)).xor ((s.planner.dest.rowAt d).xor (s.owner.dest.rowAt d)) at hfirst
      rw [hrows d (hdelivers.planner_size ▸ hd), hfirst, Bytes.xor_comm]
      · rfl
      · rw [length_xor, hrow, hold, hfits.planner_stride]

/-- Each run gives shares of the rows that it routes, on top of what the modes keep of the old rows. Runs
that add to the same buffers, one after the other, give shares of all that they route. -/
theorem shares_routed_rows (s : Setting) (series : List Stage)
    (h : ∀ stage ∈ series, stage.run.Fits s stage.feed)
    (hwidth : s.planner.dest.stride < Size.bufferLimit) :
    (∀ r tapes f, ⟨r, tapes, f⟩ ∈ series → ∃ s',
      (Mesh.run { parties := r.ends } (r.seats .keystreams (s.withTapes tapes))).1 =
        (endings s').map some ∧
        ∀ d < s.planner.dest.size, (s'.planner.dest.rowAt d).xor (s'.owner.dest.rowAt d) =
          (r.source.rowAt (f d)).xor ((r.mode.kept (s.planner.dest.rowAt d)).xor
            (r.mode'.kept (s.owner.dest.rowAt d)))) ∧
      ((∀ stage ∈ series, stage.run.mode = .additive ∧ stage.run.mode' = .additive) →
        ∃ s', performAll series s = some s' ∧ ∀ d < s.planner.dest.size,
          (s'.planner.dest.rowAt d).xor (s'.owner.dest.rowAt d) =
            total series d ((s.planner.dest.rowAt d).xor (s.owner.dest.rowAt d))) := by
  constructor
  · intro r tapes f hmem
    have hfits : r.Fits (s.withTapes tapes) f := (h _ hmem).withTapes tapes
    obtain ⟨s', hrun, hdelivers⟩ := hfits.run_eq (hfits.planner_stride ▸ hwidth)
    exact ⟨s', hrun, fun d hd => hdelivers.row hfits hd⟩
  · exact fun hmodes => performAll_additive h hmodes hwidth

/-! ### Two runs -/

/-- Two rows of one byte. -/
def pair (a b : UInt8) : RowBuffer := ⟨#[a, b], 1, Nat.one_dvd _⟩

/-- Feeds both destination rows from the second of two source rows. -/
def copyRun : Run where
  ends := 3
  parties := {}
  kind := .general
  plan := { Plan.blank 2 2 with edges := [⟨1, 1⟩, ⟨1, 0⟩] }
  source := pair 5 6
  mode := .additive
  mode' := .additive
  size := ⟨1⟩

def swapRun : Run :=
  { copyRun with kind := .permutation, plan := { Plan.blank 2 2 with edges := [⟨1, 0⟩, ⟨0, 1⟩] } }

def pairSetting : Setting where
  planner := ⟨.ofParty .zero 0, {}, pair 1 2⟩
  owner := ⟨.ofParty .zero 1, pair 3 4⟩
  helper := .ofParty .zero 2

theorem fits_copyRun : copyRun.Fits pairSetting fun _ => 1 where
  feeds := ⟨[⟨1, 1⟩, ⟨1, 0⟩], by decide, _, rfl, .inl rfl⟩
  injective := nofun
  seated := by constructor <;> decide
  owner_size := by decide
  planner_stride := by decide
  owner_stride := by decide
  rows_lt := by decide
  batch_lt := by decide
  source_fits := by decide
  planner_fits := by decide
  owner_fits := by decide

theorem fits_swapRun : swapRun.Fits pairSetting fun d => 1 - d where
  feeds := ⟨[⟨1, 0⟩, ⟨0, 1⟩], by decide, _, rfl, .inl rfl⟩
  injective := by decide
  seated := by constructor <;> decide
  owner_size := by decide
  planner_stride := by decide
  owner_stride := by decide
  rows_lt := by decide
  batch_lt := by decide
  source_fits := by decide
  planner_fits := by decide
  owner_fits := by decide

/-- A series of both runs, with tapes of their own. -/
def copyThenSwap : List Stage :=
  [⟨copyRun, ⟨.ofParty .zero 0, .ofParty .zero 1, .ofParty .zero 2⟩, fun _ => 1⟩,
    ⟨swapRun, ⟨.ofParty .zero 3, .ofParty .zero 4, .ofParty .zero 5⟩, fun d => 1 - d⟩]

/-- Copying a row to both destinations and then exchanging rows adds up. -/
theorem shares_routed_rows_of_two_runs :
    ∃ s', performAll copyThenSwap pairSetting = some s' ∧ ∀ d < 2,
      (s'.planner.dest.rowAt d).xor (s'.owner.dest.rowAt d) =
        total copyThenSwap d (((pair 1 2).rowAt d).xor ((pair 3 4).rowAt d)) := by
  have hfits : ∀ stage ∈ copyThenSwap, stage.run.Fits pairSetting stage.feed :=
    List.forall_mem_cons.2 ⟨fits_copyRun, List.forall_mem_cons.2 ⟨fits_swapRun, nofun⟩⟩
  refine (shares_routed_rows pairSetting _ hfits (by decide)).2 ?_
  exact List.forall_mem_cons.2 ⟨⟨rfl, rfl⟩, List.forall_mem_cons.2 ⟨⟨rfl, rfl⟩, nofun⟩⟩

/-! ### Rows that are too wide -/

end Run

/-- No rows, each of which would fill more than a buffer. -/
def Run.wide : Run where
  ends := 3
  parties := {}
  kind := .general
  plan := .blank 0 0
  source := .blank 0 Size.bufferLimit
  mode := .additive
  mode' := .additive
  size := .standard

/-- Parts that hold no rows either. -/
def wideSetting : Setting where
  planner := ⟨.ofParty .zero 0, {}, .blank 0 Size.bufferLimit⟩
  owner := ⟨.ofParty .zero 1, .blank 0 Size.bufferLimit⟩
  helper := .ofParty .zero 2

theorem Run.fits_wide : Run.wide.Fits wideSetting id where
  feeds := ⟨[], .nil, _, rfl, .inl rfl⟩
  injective := nofun
  seated := by constructor <;> decide
  owner_size := by decide
  planner_stride := by decide
  owner_stride := by decide
  rows_lt := by decide
  batch_lt := by decide
  source_fits := by decide
  planner_fits := by decide
  owner_fits := by decide

/-- A run without rows does not end well if the rows it does not have are too wide. -/
theorem shares_routed_rows_fails_for_wide_rows : Run.wide.Fits wideSetting id ∧
    ∀ s', (Mesh.run { parties := Run.wide.ends } (Run.wide.seats .keystreams wideSetting)).1 ≠
      (Run.endings s').map some := by
  refine ⟨Run.fits_wide, fun s' hrun => ?_⟩
  cases Seat.canEnd_of_result hrun with
  | cons hplanner _ => exact plannerSeat_fails _ _ _ _ _ (.inr (by decide)) _ (hplanner _ rfl)

end ObliviousRouting.Switching
