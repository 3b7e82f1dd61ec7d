import ObliviousRouting.Proofs.Pass.RoundTrip
import ObliviousRouting.Proofs.Plan.Layout
import ObliviousRouting.Proofs.Switching.State
import ObliviousRouting.Switching.Passes

/-!
# Selecting

The pass that selects goes from the owner to the helper. Both shares are written over rows of zeros, so
after it planner and helper share the row that the slot of a compact row holds.
-/

namespace ObliviousRouting.Switching.Select

open Bytes Role

variable (x : Expansion) (parties : Parties) (tape tape' : Tape) (slots : List Bytes)
  (targets : List Target) (width : Nat) (size : BatchSize)

/-- The seed on which planner and owner agree, from their tapes. -/
def seed : Seed := tape.secret.1.xor tape'.secret.1

def plannerRows : List Bytes :=
  Pass.placed .overwrite (List.replicate targets.length (zeros width))
    (Pass.routerShares (x.selecting (seed tape tape')) targets width)

def helperRows : List Bytes :=
  Pass.placed .overwrite (List.replicate targets.length (zeros width))
    (Pass.collectorShares (x.selecting (seed tape tape')) slots targets width)

def timetable : Timetable :=
  (CoinToss.timetable parties.planner parties.owner parties.helper tape.secret.1 tape'.secret.1
    "select seed").andThen
  (Pass.timetable (x.selecting (seed tape tape')) slots targets width size "select" parties.owner
    parties.planner parties.helper)

variable {x parties tape tape' slots targets width size}

theorem phase_timetable {S : List Nat}
    (h : Timetable.Apart S parties.planner parties.owner parties.helper)
    (hlength : targets.length = slots.length) :
    (timetable x parties tape tape' slots targets width size).Phase 1024 S := by
  apply Timetable.Phase.andThen
  · exact CoinToss.phase_timetable h (by decide) ..
  · exact Pass.phase_timetable h.swap (by decide) hlength _

theorem length_plannerRows : (plannerRows x tape tape' targets width).length = targets.length := by
  rw [plannerRows, Pass.length_placed, List.length_replicate]

theorem length_helperRows :
    (helperRows x tape tape' slots targets width).length = targets.length := by
  rw [helperRows, Pass.length_placed, List.length_replicate]

theorem holds_plannerRows (hx : (x.selecting (seed tape tape')).Lawful)
    (hsizes : Sizes targets.length width size) (hwithin : Pass.Within targets targets.length) :
    (Pass.placement .overwrite (.blank targets.length width)
      (Pass.routerShares (x.selecting (seed tape tape')) targets width)).Holds width
      (plannerRows x tape tape' targets width) := by
  have hblank := RowBuffer.holds_blank hsizes.width_pos hsizes.bytes_lt
  exact Pass.holds_routed .overwrite hx hblank (by rwa [List.length_replicate])

theorem holds_helperRows (hx : (x.selecting (seed tape tape')).Lawful)
    (hlength : targets.length = slots.length) (hslots : Uniform width slots)
    (hsizes : Sizes targets.length width size) (hwithin : Pass.Within targets targets.length) :
    (Pass.placement .overwrite (.blank targets.length width)
      (Pass.collectorShares (x.selecting (seed tape tape')) slots targets width)).Holds width
      (helperRows x tape tape' slots targets width) := by
  have hblank := RowBuffer.holds_blank hsizes.width_pos hsizes.bytes_lt
  exact Pass.holds_collected .overwrite hx hlength hslots hblank
    (by rwa [List.length_replicate])

/-- A routed row is shared by planner and helper. -/
theorem shared (hx : (x.selecting (seed tape tape')).Lawful) (hlength : targets.length = slots.length)
    (hslots : Uniform width slots) (hdist : Target.Distinct targets) {s i : Nat} {t : Target}
    (hs : targets[s]? = some t) (ht : t.row? = some i) (hi : i < targets.length) :
    ((plannerRows x tape tape' targets width).getD i []).xor
      ((helperRows x tape tape' slots targets width).getD i []) = slots.getD s [] := by
  obtain ⟨hlt, -⟩ := List.getElem?_eq_some_iff.1 hs
  obtain ⟨mask, hmask, hrouter, hcollector⟩ := Pass.placed_shares width (i := s) (d := i) hx
    hlength hdist (hlength ▸ hlt) (by rw [hs]; exact ht)
  have hzero : (List.replicate targets.length (zeros width))[i]? = some (zeros width) := by
    rw [List.getElem?_replicate, if_pos hi]
  have hrow := hslots.getElem (hlength ▸ hlt)
  simp only [plannerRows, helperRows, List.getD_eq_getElem?_getD, hrouter, hcollector, hzero,
    List.getElem?_eq_getElem (hlength ▸ hlt : s < slots.length), Option.map_some, Option.getD_some]
  exact Pass.apply_xor_apply .overwrite (by rw [length_zeros, hrow]) (by rw [length_zeros, hrow])
    (hmask.trans hrow.symm)

/-! ### The three parts -/

section Parts

variable {S : List Nat} (h : Timetable.Apart S parties.planner parties.owner parties.helper)
include h

theorem timetable_planner : timetable x parties tape tape' slots targets width size parties.planner =
    CoinToss.course parties.planner parties.owner tape.secret.1 tape'.secret.1 "select seed" ++
      Pass.routeCourse (x.selecting (seed tape tape')) targets size parties.helper "select" := by
  rw [timetable, Timetable.andThen, CoinToss.timetable, Timetable.trio_first, Pass.timetable,
    Timetable.trio_second h.first_ne_second.symm]

theorem timetable_owner : timetable x parties tape tape' slots targets width size parties.owner =
    CoinToss.course parties.owner parties.planner tape'.secret.1 tape.secret.1 "select seed" ++
      Pass.sendCourse (x.selecting (seed tape tape')) slots width size parties.helper "select" := by
  rw [timetable, Timetable.andThen, CoinToss.timetable, Timetable.trio_second h.first_ne_second,
    Pass.timetable, Timetable.trio_first]

theorem timetable_helper : timetable x parties tape tape' slots targets width size parties.helper =
    Pass.collectCourse (x.selecting (seed tape tape')) slots targets width size parties.owner
      parties.planner := by
  rw [timetable, Timetable.andThen, CoinToss.timetable,
    Timetable.trio_third h.first_ne_third h.second_ne_third, Pass.timetable,
    Timetable.trio_third h.second_ne_third h.first_ne_third, List.nil_append]

theorem performs_planner (hx : (x.selecting (seed tape tape')).Lawful)
    (hsizes : Sizes targets.length width size) {s : PlannerState} (htape : s.tape = tape)
    (hdist : Target.Distinct targets) (hwithin : Pass.Within targets targets.length)
    (hrows : s.plan.selectRows = targets.length) {cursor : SlotCursor}
    (htargets : s.plan.selectTargets = .ok (targets, { s.plan with cursor })) :
    ∃ compact, Performs (planner x parties width size) s
      (timetable x parties tape tape' slots targets width size parties.planner) compact
      { s with tape := tape.secret.2, plan := { s.plan with cursor } } ∧
      compact.Holds width (plannerRows x tape tape' targets width) := by
  subst htape
  have hblank := RowBuffer.holds_blank hsizes.width_pos hsizes.bytes_lt
  have hwithin' : Pass.Within targets (List.replicate targets.length (zeros width)).length := by
    rwa [List.length_replicate]
  refine ⟨_, ?_, holds_plannerRows hx hsizes hwithin⟩
  rw [timetable_planner h]
  have hroute := Pass.performs_route .overwrite hx hblank hwithin' hdist
    hsizes.width_lt hsizes.rows_lt hsizes.fits parties.helper "select"
  simp only [planner]
  refine Performs.bind (PlannerState.performs_onTape (performs_toss ..)) ?_
  refine Performs.bind_nil (Performs.get _) ?_
  refine Performs.bind_nil (Performs.mapError SwitchError.plan (Performs.ofOutcome htargets _)) ?_
  refine Performs.bind_nil (Performs.modify _ _) ?_
  refine Performs.bind_nil (Performs.ofChecked (a := .blank targets.length width) ?_ _) ?_
  · change RowBuffer.zeros s.plan.selectRows width = _
    rw [hrows]
    exact RowBuffer.zeros_eq_ok hsizes.bytes_lt
  · exact Performs.bind_end (Performs.mapError SwitchError.pass (Performs.privately hroute _))
      (.pure _ _)

theorem performs_owner (targets : List Target) (hx : (x.selecting (seed tape tape')).Lawful) {shape : Shape}
    {source : RowBuffer} {rows : List Bytes} (hsource : source.Holds width rows)
    (hslots : slots = rows ++ List.replicate (shape.selectRows - rows.length) (zeros width))
    (hlength : slots.length = shape.selectRows) (hsize : shape.size = size)
    (hsizes : Sizes shape.selectRows width size) {s : OwnerState} (htape : s.tape = tape') :
    Performs (owner x parties shape source) s
      (timetable x parties tape tape' slots targets width size parties.owner) ()
      { s with tape := tape'.secret.2 } := by
  subst htape hsize
  obtain ⟨padded, hpadded, hholds⟩ := hsource.padTo hsizes.width_pos hsizes.bytes_lt
  rw [← hslots] at hholds
  have hsend := Pass.performs_send (σ := OwnerState) hx hholds
    (hlength ▸ hsizes.rows_lt) (hlength ▸ hsizes.fits) parties.helper "select"
  rw [timetable_owner h, seed, Word256.xor_comm tape.secret.1]
  rw [seed, Word256.xor_comm tape.secret.1] at hsend
  simp only [owner]
  refine Performs.bind (OwnerState.performs_onTape (performs_toss ..)) ?_
  refine Performs.bind_nil (Performs.ofChecked hpadded _) ?_
  exact Performs.mapError SwitchError.pass (hsend _)

theorem performs_helper (hx : (x.selecting (seed tape tape')).Lawful) {shape : Shape}
    (hslots : Uniform width slots) (hlength : targets.length = slots.length)
    (hrows : slots.length = shape.selectRows) (hstride : shape.stride = width)
    (hsize : shape.size = size) (hsizes : Sizes slots.length width size)
    (hwithin : Pass.Within targets targets.length) {σ : Type} (s : σ) :
    ∃ compact, Performs (helper parties shape) s
      (timetable x parties tape tape' slots targets width size parties.helper) compact s ∧
      compact.Holds width (helperRows x tape tape' slots targets width) := by
  subst hsize hstride
  have hblank := RowBuffer.holds_blank hsizes.width_pos hsizes.bytes_lt
  rw [← hlength] at hblank
  have hwithin' : Pass.Within targets (List.replicate targets.length (zeros shape.stride)).length := by
    rwa [List.length_replicate]
  refine ⟨_, ?_, holds_helperRows hx hlength hslots (hlength ▸ hsizes) hwithin⟩
  have hcollect := Pass.performs_collect .overwrite hx hblank hwithin'
    hlength hslots (hsizes.width_pos.imp_left List.eq_nil_of_length_eq_zero) hsizes.bytes_lt
    hsizes.rows_lt hsizes.fits parties.owner parties.planner "select"
  rw [timetable_helper h]
  simp only [helper, ← hrows]
  refine Performs.bind_nil (Performs.ofChecked (RowBuffer.zeros_eq_ok hsizes.bytes_lt) s) ?_
  rw [← hlength] at hcollect ⊢
  exact Performs.bind_end (Performs.mapError SwitchError.pass (Performs.privately hcollect s))
    (.pure _ s)

end Parts

end ObliviousRouting.Switching.Select
