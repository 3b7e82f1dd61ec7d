import ObliviousRouting.Proofs.Network.Sendings
import ObliviousRouting.Proofs.Switching.Routing

/-!
# Runs that are too large

The check of a plan allows for just one row more than a pass takes, and says nothing of the width of rows.
Runs with that many rows, or with none that would be too wide, are accepted then, but no part sends a batch in
them, and the planner does not end well.
-/

namespace ObliviousRouting.Switching.Run

variable {r : Run} {s s' : Setting}

/-- The planner does not end well with too many rows, or with rows that are too wide. -/
theorem not_exceeds_of_canEnd (h : List.Forall₂ (fun ending seat => seat.process.CanEnd ending) (endings s')
    (r.seats .keystreams s)) : ¬ Pass.Exceeds r.rows s.planner.dest.stride := by
  intro hexceeds
  cases h with
  | cons hplanner _ =>
    exact plannerSeat_fails (s := { s.planner with plan := r.plan }) _ _ _ _ _ hexceeds _ hplanner

namespace Admitted

theorem rows_eq_max (h : r.Admitted s) : r.rows = max r.source.size s.planner.dest.size := by
  have hrows := h.rows_eq
  obtain ⟨_, hbuilt⟩ := h.built
  rwa [hbuilt.rows_eq.1, hbuilt.rows_eq.2] at hrows

theorem shape_selectRows (h : r.Admitted s) : r.shape.selectRows = r.rows := by
  obtain ⟨_, hbuilt⟩ := h.built
  rw [Shape.selectRows, shape, hbuilt.rows_eq.2, h.rows_eq_max]

/-- There is no row that would fill more than a buffer. -/
theorem rows_eq_zero (h : r.Admitted s) (hwide : Size.bufferLimit ≤ r.source.stride) : r.rows = 0 := by
  rw [h.rows_eq_max, RowBuffer.size_eq_zero h.source_fits hwide,
    RowBuffer.size_eq_zero h.planner_fits (h.planner_stride ▸ hwide), Nat.max_self]

variable (h : r.Admitted s) (hexceeds : Pass.Exceeds r.rows r.source.stride)
include h hexceeds

theorem sendOnly (x : Expansion) : Seat.SendOnly (fun _ => NoBatches) (r.seats x s) := by
  have hnone : Pass.NoBatch r.rows := hexceeds.symm.imp_left h.rows_eq_zero
  have hplanner := planner_halts x r.parties r.kind r.mode r.size
    (s := { s.planner with plan := r.plan }) (h.planner_stride ▸ hexceeds)
  have hnone' : Pass.NoBatch (max r.source.size s.owner.dest.size) := by
    rwa [h.owner_size, ← h.rows_eq_max]
  have howner := owner_sends x r.parties r.kind r.mode' r.size hnone'
  have hhelper := helper_sends x r.parties (h.shape_selectRows.symm ▸ hnone) s.helper
  rw [seats, Seat.SendOnly, List.forall_mem_cons, List.forall_mem_cons, List.forall_mem_singleton]
  exact ⟨Process.SendsOnly.map hplanner.sends _, Process.SendsOnly.map howner _,
    Process.SendsOnly.map hhelper _⟩

/-- No batch is on any link. -/
theorem filter_traffic_eq_nil (x : Expansion) {phase : String} (hphase : phase ∈ batchPhases)
    (sender receiver : Nat) :
    ((Mesh.run { parties := r.ends } (r.seats x s)).2.traffic sender receiver).filter (·.1 = phase) = [] := by
  rw [List.filter_eq_nil_iff]
  intro message hmessage
  rw [decide_eq_true_eq]
  rintro rfl
  exact (h.sendOnly hexceeds x).traffic hmessage hphase

end Admitted

/-! ### One row too many -/

/-- Feeds one destination row from row `i` of so many source rows of one byte. -/
def oneOf (rows i : Nat) : Run where
  ends := 3
  parties := {}
  kind := .general
  plan := { Plan.blank rows 1 with edges := [⟨i, 0⟩] }
  source := .blank rows 1
  mode := .additive
  mode' := .additive
  size := .standard

/-- Parts that hold one destination row of one byte. -/
def oneSetting : Setting where
  planner := ⟨.ofParty .zero 0, {}, .blank 1 1⟩
  owner := ⟨.ofParty .zero 1, .blank 1 1⟩
  helper := .ofParty .zero 2

/-- The check of a plan allows one row more than there are targets for. -/
theorem admitted_oneOf {rows i : Nat} (hi : i < rows) (hrows : rows ≤ Target.rowLimit) :
    (oneOf rows i).Admitted oneSetting := by
  have hadd : (Plan.blank rows 1).addAll [⟨i, 0⟩] = .ok (oneOf rows i).plan := by
    simp [Plan.addAll, Plan.add, Plan.blank, oneOf, Nat.not_le.2 hi]
  have hbuilt : (oneOf rows i).plan.Built rows 1 [⟨i, 0⟩] := ⟨_, hadd, .inl rfl⟩
  have hfeeds : (oneOf rows i).plan.Feeds rows 1 fun _ => i := ⟨_, .refl _, hbuilt⟩
  have hselectRows : (oneOf rows i).plan.group.selectRows = max rows 1 := by
    rw [hfeeds.complete.selectRows_eq, Plan.group_sourceRows, Plan.group_destinationRows]
    rfl
  have hseated : Parties.Seated {} 3 := by constructor <;> decide
  have hbatch : BatchSize.standard.rows < Size.limit := by decide
  have hlimit : Target.rowLimit < Plan.indexLimit := by decide
  have hsize : (oneOf rows i).source.size = rows := RowBuffer.size_blank (.inr Nat.one_pos)
  have hdata : (oneOf rows i).source.data.size = rows * 1 := Array.size_replicate
  have hkind : (oneOf rows i).kind = .permutation → (oneOf rows i).plan.group.Injective := by
    intro hkind
    cases hkind
  exact
    { built := ⟨_, by
        rw [hsize]
        exact hbuilt⟩
      check_eq := Plan.check_eq_ok hfeeds.complete hbuilt.group_edges.1 hkind (by omega)
      seated := hseated
      owner_size := rfl
      planner_stride := rfl
      owner_stride := rfl
      batch_lt := hbatch
      source_fits := by
        rw [hdata, Nat.mul_one]
        exact Nat.lt_of_le_of_lt hrows (by decide)
      planner_fits := by decide
      owner_fits := by decide }

theorem rows_oneOf {rows i : Nat} (hi : i < rows) (hrows : rows ≤ Target.rowLimit) :
    (oneOf rows i).rows = rows := by
  rw [(admitted_oneOf hi hrows).rows_eq]
  exact Nat.max_eq_left (Nat.zero_lt_of_lt hi)

theorem exceeds_oneOf {i : Nat} (hi : i < Target.rowLimit) :
    Pass.Exceeds (oneOf Target.rowLimit i).rows 1 :=
  .inl (Nat.le_of_eq (rows_oneOf hi (Nat.le_refl _)).symm)

end ObliviousRouting.Switching.Run
