import ObliviousRouting.Proofs.Pass.Hiding
import ObliviousRouting.Proofs.Switching.Excess
import ObliviousRouting.Proofs.Switching.Traffic

/-!
# Helper and owner do not see the plan

The helper is sent the slots and their compact rows, shuffled and masked. The slots are always all compact
rows in some order, so draws and masks that are free hide in which order, and whose rows they hold. The
owner is sent blinded choices, which free flips hide, and the helper's rows with their destinations. Every
plan has the same destinations, and as many compact rows without one, so here too only their order is
hidden by draws and masks.
-/

namespace ObliviousRouting

open Bytes

namespace Switching.Run

variable {r : Run} {s : Setting} {plan : Plan} {source : RowBuffer}

def withPlan (r : Run) (plan : Plan) (source : RowBuffer) : Run := { r with plan, source }

/-- What one party sends to another one in a phase of a run. -/
def sent (x : Expansion) (r : Run) (s : Setting) (sender receiver : Nat) (phase : String) : List Bytes :=
  (((Mesh.run { parties := r.ends } (r.seats x s)).2.traffic sender receiver).filter
    (·.1 = phase)).map Prod.snd

/-- All batches that the helper is sent: rows by the owner, and targets by the planner. -/
def helperView (x : Expansion) (r : Run) (s : Setting) : List Bytes × List Bytes :=
  (sent x r s r.parties.owner r.parties.helper "select",
    sent x r s r.parties.planner r.parties.helper "select")

/-- All batches that the owner is sent: blinded choices by the planner, and rows by the helper with targets
by the planner. -/
def ownerView (x : Expansion) (r : Run) (s : Setting) : List Bytes × List Bytes × List Bytes :=
  (sent x r s r.parties.planner r.parties.owner "duplicate",
    sent x r s r.parties.helper r.parties.owner "scatter",
    sent x r s r.parties.planner r.parties.owner "scatter")

/-! ### Targets -/

namespace Ready

variable (h : r.Ready s)
include h

/-- The slots get all compact rows. -/
theorem targets_perm : r.targets.Perm ((List.range r.rows).map Target.ofRow) := by
  obtain ⟨_, -, hlength, hperm, -⟩ := h.targets_spec
  have hall : (r.targets.filterMap Target.row?).length = r.targets.length := by
    rw [hperm.length_eq, List.length_range, hlength]
  rw [← Target.map_ofRow_filterMap hall]
  exact hperm.map _

theorem nodup_targets : r.targets.Nodup :=
  h.targets_perm.nodup_iff.2 (Target.nodup_map_ofRow h.compact_lt)

/-- The compact rows get all destinations, and as many of them none as there are more compact rows. -/
theorem scatterTargets_perm : r.plan.group.scatterTargets.Perm
    ((List.range r.plan.destinationRows).map Target.ofRow ++
      List.replicate (r.rows - r.plan.destinationRows) .discard) := by
  rw [Plan.scatterTargets_eq, h.complete.length_edges, Plan.group_destinationRows]
  refine .append ?_ (.refl _)
  have hperm := h.complete.perm.map Target.ofRow
  rwa [List.map_map, Plan.group_destinationRows] at hperm

end Ready

/-! ### Views -/

theorem sent_eq {x : Expansion} (h : r.Ready s) (hwidth : r.source.stride < Size.bufferLimit)
    (hx : x.Lawful r.rows r.source.stride r.size) (sender receiver : Nat) (phase : String) :
    sent x r s sender receiver phase = Course.messages (r.timetable x s sender) receiver phase := by
  obtain ⟨s', hrun, -⟩ := h.underway hwidth hx
  rw [sent, (hrun.mesh_run rfl).2.2]
  rfl

theorem helperView_eq {x : Expansion} (h : r.Ready s) (hwidth : r.source.stride < Size.bufferLimit)
    (hx : x.Lawful r.rows r.source.stride r.size) :
    let blinding := x.selecting (Select.seed s.planner.tape s.owner.tape)
    helperView x r s =
      ((List.range (r.size.count r.rows)).map (Pass.rowsMessage blinding r.slots r.source.stride r.size),
        (List.range (r.size.count r.rows)).map (Pass.targetsMessage blinding r.targets r.size)) := by
  rw [helperView, sent_eq h hwidth hx, sent_eq h hwidth hx, messages_select_owner h.seated,
    messages_select_planner h.seated, h.length_slots, h.length_targets]

theorem ownerView_eq {x : Expansion} (h : r.Ready s) (hwidth : r.source.stride < Size.bufferLimit)
    (hx : x.Lawful r.rows r.source.stride r.size) :
    let blinding := x.scattering (Scatter.seed (plannerTape s r.kind) (r.helperTape x s r.kind))
    ownerView x r s =
      (requests r.rows r.size (r.plan.group.copies r.rows) (r.flips x s) r.kind,
        (List.range (r.size.count r.rows)).map
          (Pass.rowsMessage blinding (r.copied' x s r.kind) r.source.stride r.size),
        (List.range (r.size.count r.rows)).map
          (Pass.targetsMessage blinding r.plan.group.scatterTargets r.size)) := by
  rw [ownerView, sent_eq h hwidth hx, sent_eq h hwidth hx, sent_eq h hwidth hx,
    messages_duplicate_planner h.seated, messages_scatter_helper h.seated,
    messages_scatter_planner h.seated, h.length_copied', Plan.length_scatterTargets]
  rfl

/-! ### Free draws, masks and flips -/

section Free

variable {n width : Nat}

/-- Keystreams, but for the draws and masks of the pass that selects. -/
def selecting (c : Choice n width) : Expansion :=
  { Expansion.keystreams with selecting := fun _ => c.blinding }

/-- Keystreams, but for the flips and for the draws and masks of the pass that scatters. -/
def scattering (coins : List.Vector Bool n × Choice n width) : Expansion :=
  { Expansion.keystreams with
    flips := fun _ _ => coins.1.toList
    scattering := fun _ => coins.2.blinding }

theorem lawful_selecting (c : Choice n width) (size : BatchSize) : (selecting c).Lawful n width size :=
  { Expansion.lawful_keystreams n width size with selecting := fun _ => c.lawful }

theorem lawful_scattering (coins : List.Vector Bool n × Choice n width) (size : BatchSize) :
    (scattering coins).Lawful n width size :=
  { Expansion.lawful_keystreams n width size with
    length_flips := fun _ => coins.1.toList_length
    scattering := fun _ => coins.2.lawful }

variable (h : r.Ready s) (hn : r.rows = n) (hw : r.source.stride = width)
  (hwidth : width < Size.bufferLimit)
include h hn hw hwidth

theorem helperView_selecting (c : Choice n width) : helperView (selecting c) r s =
    ((List.range (r.size.count n)).map (Pass.rowsMessage c.blinding r.slots width r.size),
      (List.range (r.size.count n)).map (Pass.targetsMessage c.blinding r.targets r.size)) := by
  subst hn hw
  exact helperView_eq h hwidth (lawful_selecting c r.size)

theorem ownerView_scattering (coins : List.Vector Bool n × Choice n width) :
    ownerView (scattering coins) r s =
      (requests n r.size (r.plan.group.copies n) coins.1.toList r.kind,
        (List.range (r.size.count n)).map
          (Pass.rowsMessage coins.2.blinding (r.copied' .keystreams s r.kind) width r.size),
        (List.range (r.size.count n)).map
          (Pass.targetsMessage coins.2.blinding r.plan.group.scatterTargets r.size)) := by
  subst hn hw
  exact ownerView_eq h hwidth (lawful_scattering coins r.size)

omit hwidth in
theorem table_slots : Table n width r.slots := by
  subst hn hw
  exact ⟨h.length_slots, h.uniform_slots⟩

theorem table_copied' : Table n width (r.copied' .keystreams s r.kind) := by
  subst hn hw
  exact ⟨h.length_copied' r.kind, h.uniform_copied' hwidth (Expansion.lawful_keystreams ..) r.kind⟩

end Free

/-! ### Other plans -/

section Other

variable (h : r.Ready s) (h' : (r.withPlan plan source).Ready s) (hsize : source.size = r.source.size)
include h h' hsize

omit hsize in
theorem stride_eq : source.stride = r.source.stride := h'.planner_stride.symm.trans h.planner_stride

theorem rows_withPlan : (r.withPlan plan source).rows = r.rows := by
  rw [h.rows_eq, h'.rows_eq, ← h.source_size, ← h'.source_size, ← h.planner_size, ← h'.planner_size]
  exact congrArg (max · _) hsize

variable (hwidth : r.source.stride < Size.bufferLimit)
include hwidth

theorem existsUnique_helperView_eq (c : Choice r.rows r.source.stride) :
    ∃! c' : Choice r.rows r.source.stride,
      helperView (selecting c') (r.withPlan plan source) s = helperView (selecting c) r s := by
  have hn := rows_withPlan h h' hsize
  have hw := stride_eq h h'
  have hperm : (r.withPlan plan source).targets.Perm r.targets :=
    (hn ▸ h'.targets_perm).trans h.targets_perm.symm
  have hviews (c' : Choice r.rows r.source.stride) :
      helperView (selecting c') (r.withPlan plan source) s = helperView (selecting c) r s ↔
        c'.blinding.shuffle (r.withPlan plan source).targets = c.blinding.shuffle r.targets ∧
          Pass.maskedRows c'.blinding (r.withPlan plan source).slots r.source.stride =
            Pass.maskedRows c.blinding r.slots r.source.stride := by
    rw [helperView_selecting h rfl rfl hwidth c, helperView_selecting h' hn hw hwidth c', Prod.mk.injEq]
    exact Pass.batches_eq_iff c.lawful c'.lawful (table_slots h rfl rfl) (table_slots h' hn hw)
      h.length_targets (h'.length_targets.trans hn) h.compact_lt r.size
  simp only [hviews]
  exact c.existsUnique_shuffle_eq h.length_targets h.nodup_targets hperm (table_slots h rfl rfl)
    (table_slots h' hn hw)

theorem exists_ownerView_eq :
    ∃ e : List.Vector Bool r.rows × Choice r.rows r.source.stride ≃
        List.Vector Bool r.rows × Choice r.rows r.source.stride,
      ∀ coins, ownerView (scattering (e coins)) (r.withPlan plan source) s =
        ownerView (scattering coins) r s := by
  have hn := rows_withPlan h h' hsize
  have hw := stride_eq h h'
  have hdestinations : plan.destinationRows = r.plan.destinationRows :=
    h'.planner_size.symm.trans h.planner_size
  have hperm : plan.group.scatterTargets.Perm r.plan.group.scatterTargets := by
    refine h'.scatterTargets_perm.trans (.trans (.of_eq ?_) h.scatterTargets_perm.symm)
    rw [hn]
    exact congrArg (fun rows => (List.range rows).map Target.ofRow ++
      List.replicate (r.rows - rows) .discard) hdestinations
  obtain ⟨e, he⟩ := exists_equiv_shuffle_eq (n := r.rows) (Plan.length_scatterTargets r.plan.group) hperm
    (table_copied' h rfl rfl hwidth) (table_copied' h' hn hw hwidth)
  have hcopies : (r.plan.group.copies r.rows).length = r.rows := Plan.length_copies
  have hcopies' : (plan.group.copies r.rows).length = r.rows := Plan.length_copies
  refine ⟨(Reveal.otherFlips hcopies hcopies').prodCongr e, fun coins => ?_⟩
  obtain ⟨hrows, htargets⟩ := (Pass.batches_eq_iff coins.2.lawful (e coins.2).lawful
    (table_copied' h rfl rfl hwidth) (table_copied' h' hn hw hwidth) (Plan.length_scatterTargets _)
    (hperm.length_eq.trans (Plan.length_scatterTargets _)) h.compact_lt r.size).2 (he coins.2)
  rw [ownerView_scattering h rfl rfl hwidth coins, ownerView_scattering h' hn hw hwidth]
  exact Prod.ext (requests_congr (Reveal.blindChoices_otherFlips hcopies hcopies' coins.1) r.kind)
    (Prod.ext hrows htargets)

end Other

/-! ### Rows that are too wide, and too many rows -/

section Exceeds

variable (h : r.Admitted s) (hexceeds : Pass.Exceeds r.rows r.source.stride)
include h hexceeds

theorem Admitted.sent_eq_nil (x : Expansion) {phase : String} (hphase : phase ∈ batchPhases)
    (sender receiver : Nat) : sent x r s sender receiver phase = [] := by
  rw [sent, h.filter_traffic_eq_nil hexceeds x hphase, List.map_nil]

theorem Admitted.helperView_eq_nil (x : Expansion) : helperView x r s = ([], []) := by
  rw [helperView, h.sent_eq_nil hexceeds x (by decide), h.sent_eq_nil hexceeds x (by decide)]

theorem Admitted.ownerView_eq_nil (x : Expansion) : ownerView x r s = ([], [], []) := by
  rw [ownerView, h.sent_eq_nil hexceeds x (by decide), h.sent_eq_nil hexceeds x (by decide),
    h.sent_eq_nil hexceeds x (by decide)]

end Exceeds

/-- Neither the plan nor the source rows can be told from what helper and owner are sent, if both plans pass
the planner's checks and there are targets for all rows. For any draws and masks there are just one list of
draws and one of masks with which the helper is sent the same batches for any other plan and source rows. And
the choices of flips, draws and masks for both correspond one to one, such that the owner is sent the same. -/
theorem hides_plan (h : r.Admitted s) (hrows : r.rows < Target.rowLimit)
    (h' : (r.withPlan plan source).Admitted s) (hsize : source.size = r.source.size) :
    (∀ c : Choice r.rows r.source.stride, ∃! c' : Choice r.rows r.source.stride,
      helperView (selecting c') (r.withPlan plan source) s = helperView (selecting c) r s) ∧
    ∃ e : List.Vector Bool r.rows × Choice r.rows r.source.stride ≃
        List.Vector Bool r.rows × Choice r.rows r.source.stride,
      ∀ coins, ownerView (scattering (e coins)) (r.withPlan plan source) s =
        ownerView (scattering coins) r s := by
  have hrows' : (r.withPlan plan source).rows < Target.rowLimit := by
    rw [h'.rows_eq_max]
    exact hsize ▸ h.rows_eq_max ▸ hrows
  rcases Nat.lt_or_ge r.source.stride Size.bufferLimit with hwidth | hwide
  · exact ⟨existsUnique_helperView_eq (h.ready hrows) (h'.ready hrows') hsize hwidth,
      exists_ownerView_eq (h.ready hrows) (h'.ready hrows') hsize hwidth⟩
  · -- no rows, no batches, and no choices
    have hwide' : Size.bufferLimit ≤ source.stride :=
      h'.planner_stride.symm.trans h.planner_stride ▸ hwide
    constructor
    · intro c
      refine ⟨c, ?_, fun c' _ => Choice.eq_of_zero (h.rows_eq_zero hwide) c' c⟩
      exact (h'.helperView_eq_nil (.inr hwide') _).trans (h.helperView_eq_nil (.inr hwide) _).symm
    · refine ⟨.refl _, fun coins => ?_⟩
      exact (h'.ownerView_eq_nil (.inr hwide') _).trans (h.ownerView_eq_nil (.inr hwide) _).symm

/-- With one row more, two plans that say which row feeds the only destination are both accepted, but the
helper is sent nothing, whatever is chosen. -/
theorem hides_plan_fails_for_many_rows : (oneOf Target.rowLimit 0).Admitted oneSetting ∧
    (oneOf Target.rowLimit 1).Admitted oneSetting ∧
    ∀ c : Choice Target.rowLimit 1, ¬ ∃! c' : Choice Target.rowLimit 1,
      helperView (selecting c') (oneOf Target.rowLimit 1) oneSetting =
        helperView (selecting c) (oneOf Target.rowLimit 0) oneSetting := by
  have h₀ := admitted_oneOf (i := 0) (by decide) (Nat.le_refl Target.rowLimit)
  have h₁ := admitted_oneOf (i := 1) (by decide) (Nat.le_refl Target.rowLimit)
  refine ⟨h₀, h₁, fun c ⟨c', _, hunique⟩ => ?_⟩
  obtain ⟨c'', hne⟩ := c'.exists_ne (by decide) (by decide)
  refine hne (hunique c'' ?_)
  exact (h₁.helperView_eq_nil (exceeds_oneOf (by decide)) _).trans
    (h₀.helperView_eq_nil (exceeds_oneOf (by decide)) _).symm

/-- A plan that keeps two rows in their order. -/
def keeping : Plan := { Plan.blank 2 2 with edges := [⟨0, 0⟩, ⟨1, 1⟩] }

theorem fits_keeping : (copyRun.withPlan keeping (pair 8 9)).Fits pairSetting id where
  feeds := ⟨[⟨0, 0⟩, ⟨1, 1⟩], by decide, _, rfl, .inl rfl⟩
  injective := nofun
  seated := by constructor <;> decide
  owner_size := by decide
  planner_stride := by decide
  owner_stride := by decide
  rows_lt := by decide
  batch_lt := by decide
  source_fits := by decide
  planner_fits := by decide
  owner_fits := by decide

/-- Copying one of two rows looks like keeping two other ones. -/
theorem hides_plan_of_copying :
    (∀ c : Choice copyRun.rows 1, ∃! c' : Choice copyRun.rows 1,
      helperView (selecting c') (copyRun.withPlan keeping (pair 8 9)) pairSetting =
        helperView (selecting c) copyRun pairSetting) ∧
    ∃ e : List.Vector Bool copyRun.rows × Choice copyRun.rows 1 ≃
        List.Vector Bool copyRun.rows × Choice copyRun.rows 1,
      ∀ coins, ownerView (scattering (e coins)) (copyRun.withPlan keeping (pair 8 9)) pairSetting =
        ownerView (scattering coins) copyRun pairSetting := by
  have hsize : (pair 8 9).size = copyRun.source.size := rfl
  exact hides_plan fits_copyRun.admitted fits_copyRun.ready.compact_lt fits_keeping.admitted hsize

end Switching.Run

end ObliviousRouting
