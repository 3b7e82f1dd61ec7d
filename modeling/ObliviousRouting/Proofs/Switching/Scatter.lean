import Mathlib.Data.List.GetD
import ObliviousRouting.Proofs.Pass.RoundTrip
import ObliviousRouting.Proofs.Plan.Check
import ObliviousRouting.Proofs.Plan.Layout
import ObliviousRouting.Proofs.Switching.State
import ObliviousRouting.Switching.Passes

/-!
# Scattering

The planner puts its share of a compact row into the row that the edge names, the owner puts there what
the pass brings of the helper's share, and the pass adds its mask to both. So the two destination rows
make up what planner and helper shared before, on top of what is left of the old rows.
-/

namespace ObliviousRouting

open Bytes Role

namespace Plan

def edgeTargets (edges : List Edge) : List Target := edges.map fun e => .ofRow e.destination

variable {p : Plan}

theorem scatterTargets_eq (p : Plan) : p.scatterTargets =
    edgeTargets p.edges ++ List.replicate (p.selectRows - p.edges.length) .discard := rfl

theorem length_scatterTargets (p : Plan) : p.scatterTargets.length = p.selectRows := by
  have hle : p.edges.length ≤ p.selectRows := Nat.le_max_right ..
  rw [scatterTargets_eq, edgeTargets, List.length_append, List.length_map, List.length_replicate]
  omega

theorem filterMap_edgeTargets {edges : List Edge} (h : ∀ e ∈ edges, e.destination < Target.rowLimit) :
    (edgeTargets edges).filterMap Target.row? = edges.map Edge.destination := by
  induction edges with
  | nil => rfl
  | cons e edges ih =>
    rw [List.forall_mem_cons] at h
    rw [edgeTargets, List.map_cons, List.filterMap_cons_some (Target.row?_ofRow h.1), ← edgeTargets,
      ih h.2, List.map_cons]

section Complete

variable (h : p.Complete) (hlt : p.destinationRows ≤ Target.rowLimit)
include h hlt

theorem Complete.filterMap_scatterTargets :
    p.scatterTargets.filterMap Target.row? = p.edges.map Edge.destination := by
  rw [scatterTargets_eq, List.filterMap_append,
    filterMap_edgeTargets fun e he => Nat.lt_of_lt_of_le (h.destination_lt he) hlt,
    List.filterMap_replicate_of_none Target.row?_discard, List.append_nil]

theorem Complete.distinct_scatterTargets : Target.Distinct p.scatterTargets := by
  rw [Target.Distinct, h.filterMap_scatterTargets hlt]
  exact h.nodup

theorem Complete.within_scatterTargets : Pass.Within p.scatterTargets p.destinationRows := by
  intro t ht d hd
  have hmem : d ∈ p.scatterTargets.filterMap Target.row? := List.mem_filterMap.2 ⟨t, ht, hd⟩
  rw [h.filterMap_scatterTargets hlt] at hmem
  obtain ⟨e, he, rfl⟩ := List.mem_map.1 hmem
  exact h.destination_lt he

theorem Complete.getElem?_scatterTargets {i : Nat} {e : Edge} (he : p.edges[i]? = some e) :
    p.scatterTargets[i]? = some (.ofRow e.destination) ∧
      (Target.ofRow e.destination).row? = some e.destination := by
  obtain ⟨hi, -⟩ := List.getElem?_eq_some_iff.1 he
  constructor
  · rw [scatterTargets_eq, List.getElem?_append_left (by rwa [edgeTargets, List.length_map]),
      edgeTargets, List.getElem?_map, he, Option.map_some]
  · exact Target.row?_ofRow
      (Nat.lt_of_lt_of_le (h.destination_lt (List.mem_of_getElem? he)) hlt)

end Complete

end Plan

namespace Switching.Scatter

variable {mode : Mode} {width : Nat}

/-! ### The planner's share -/

/-- The planner's share and its targets. -/
def planned (p : Plan) (rows : List Bytes) : List (Target × Bytes) :=
  (Plan.edgeTargets p.edges).zip rows

/-- Writing the share of the planner is placing it. -/
theorem writeShares_eq_place {compact : RowBuffer} {rows : List Bytes} (hcompact : compact.Holds width rows)
    {edges : List Edge} {i : Nat} (hlength : i + edges.length ≤ rows.length)
    (hlt : ∀ e ∈ edges, e.destination < Target.rowLimit) (dest : RowBuffer) :
    writeShares mode compact i edges dest =
      Pass.place mode dest ((Plan.edgeTargets edges).zip (rows.drop i)) := by
  induction edges generalizing i dest with
  | nil => rfl
  | cons e edges ih =>
    rw [List.length_cons] at hlength
    rw [List.forall_mem_cons] at hlt
    have hi : i < rows.length := by omega
    have hrest (dest : RowBuffer) := ih (i := i + 1) (by omega) hlt.2 dest
    rw [Plan.edgeTargets, List.map_cons, List.drop_eq_getElem_cons hi, List.zip_cons_cons]
    simp only [writeShares, Pass.place, hcompact.row_eq hi, Target.row?_ofRow hlt.1, hrest]
    rfl

section Planned

variable {p : Plan} {rows : List Bytes}

theorem map_fst_planned (hrows : p.edges.length ≤ rows.length) : (planned p rows).map Prod.fst = Plan.edgeTargets p.edges := by
  apply List.map_fst_zip
  rwa [Plan.edgeTargets, List.length_map]

theorem uniform_planned (huniform : Uniform width rows) :
    Uniform width ((planned p rows).map Prod.snd) := by
  intro row hrow
  obtain ⟨pair, hpair, rfl⟩ := List.mem_map.1 hrow
  exact huniform _ (List.of_mem_zip hpair).2

variable (h : p.Complete) (hlt : p.destinationRows ≤ Target.rowLimit)
  (hrows : p.edges.length ≤ rows.length)
include h hlt hrows

theorem filterMap_planned :
    ((planned p rows).map Prod.fst).filterMap Target.row? = p.edges.map Edge.destination := by
  rw [map_fst_planned hrows,
    Plan.filterMap_edgeTargets fun e he => Nat.lt_of_lt_of_le (h.destination_lt he) hlt]

theorem within_planned : Pass.Within ((planned p rows).map Prod.fst) p.destinationRows := by
  intro t ht d hd
  have hmem := List.mem_filterMap.2 ⟨t, ht, hd⟩
  rw [filterMap_planned h hlt hrows] at hmem
  obtain ⟨e, he, rfl⟩ := List.mem_map.1 hmem
  exact h.destination_lt he

/-- The planner's share of a compact row comes to the destination of its edge. -/
theorem placed_planned {i : Nat} {e : Edge} (he : p.edges[i]? = some e) (old : List Bytes) :
    (Pass.placed mode old (planned p rows))[e.destination]? =
      old[e.destination]?.map (mode.apply · (rows.getD i [])) := by
  obtain ⟨hi, hget⟩ := List.getElem?_eq_some_iff.1 he
  have hi' : i < rows.length := Nat.lt_of_lt_of_le hi hrows
  have hdist : Target.Distinct ((planned p rows).map Prod.fst) := by
    rw [Target.Distinct, filterMap_planned h hlt hrows]
    exact h.nodup
  apply Pass.placed_of_named (t := .ofRow e.destination) hdist
  · refine List.mem_iff_getElem.2 ⟨i, ?_, ?_⟩
    · rw [planned, Plan.edgeTargets, List.length_zip, List.length_map]
      omega
    · simp only [planned, Plan.edgeTargets, List.getElem_zip, List.getElem_map, hget,
        List.getD_eq_getElem _ _ hi']
  · exact (h.getElem?_scatterTargets hlt he).2

end Planned

/-! ### Both shares -/

variable (x : Expansion) (parties : Parties) (tape tape'' : Tape) (p : Plan) (mode mode' : Mode)
  (rows fresh old old' : List Bytes) (width : Nat) (size : BatchSize)

/-- The seed on which planner and helper agree, from their tapes. -/
def seed : Seed := tape.secret.1.xor tape''.secret.1

def plannerRows : List Bytes :=
  Pass.placed .additive (Pass.placed mode old (planned p rows))
    (Pass.routerShares (x.scattering (seed tape tape'')) p.scatterTargets width)

def ownerRows : List Bytes :=
  Pass.placed mode' old'
    (Pass.collectorShares (x.scattering (seed tape tape'')) fresh p.scatterTargets width)

def timetable : Timetable :=
  (CoinToss.timetable parties.planner parties.helper parties.owner tape.secret.1 tape''.secret.1
    "scatter seed").andThen
  (Pass.timetable (x.scattering (seed tape tape'')) fresh p.scatterTargets width size "scatter"
    parties.helper parties.planner parties.owner)

variable {x parties tape tape'' p mode mode' rows fresh old old' width size}

theorem length_plannerRows :
    (plannerRows x tape tape'' p mode rows old width).length = old.length := by
  rw [plannerRows, Pass.length_placed, Pass.length_placed]

theorem length_ownerRows :
    (ownerRows x tape tape'' p mode' fresh old' width).length = old'.length := by
  rw [ownerRows, Pass.length_placed]

/-- The mask is in both shares, and the modes say what is left of the old rows. -/
theorem mask_xor_masked (mode mode' : Mode) {old old' row row' mask : Bytes} (hold : old.length = width)
    (hold' : old'.length = width) (hrow : row.length = width) (hrow' : row'.length = width)
    (hmask : mask.length = width) :
    (Mode.additive.apply (mode.apply old row) mask).xor (mode'.apply old' (row'.xor mask)) =
      (row.xor row').xor ((mode.kept old).xor (mode'.kept old')) := by
  have hkept : (mode.kept old).length = width := by rw [Mode.length_kept, hold]
  have hkept' : (mode'.kept old').length = width := by rw [Mode.length_kept, hold']
  rw [Mode.apply_eq mode (hrow.trans hold.symm), Mode.apply_eq mode' (by rw [length_xor, hrow', hold'])]
  change (((mode.kept old).xor row).xor mask).xor ((mode'.kept old').xor (row'.xor mask)) = _
  rw [← xor_assoc (hkept'.trans hrow'.symm) (hrow'.trans hmask.symm),
    xor_xor_xor_cancel (by rw [length_xor, length_xor, hkept, hkept'])
      (by rw [length_xor, hkept', hmask]),
    xor_xor_xor_comm (hkept.trans hrow.symm) (hrow.trans hkept'.symm) (hkept'.trans hrow'.symm),
    Bytes.xor_comm (by rw [length_xor, length_xor, hkept, hrow])]

/-- A destination row gets what planner and helper share for its edge. -/
theorem shared (hx : (x.scattering (seed tape tape'')).Lawful) (h : p.Complete)
    (hlt : p.destinationRows ≤ Target.rowLimit) (hrows : Uniform width rows)
    (hfresh : Uniform width fresh) (hold : Uniform width old) (hold' : Uniform width old')
    (hn : rows.length = p.selectRows) (hn' : fresh.length = p.selectRows)
    (hm : old.length = p.destinationRows) (hm' : old'.length = p.destinationRows) {i : Nat} {e : Edge}
    (he : p.edges[i]? = some e) :
    ((plannerRows x tape tape'' p mode rows old width).getD e.destination []).xor
        ((ownerRows x tape tape'' p mode' fresh old' width).getD e.destination []) =
      ((rows.getD i []).xor (fresh.getD i [])).xor
        ((mode.kept (old.getD e.destination [])).xor (mode'.kept (old'.getD e.destination []))) := by
  have hedges : p.edges.length ≤ p.selectRows := Nat.le_max_right ..
  obtain ⟨hi, -⟩ := List.getElem?_eq_some_iff.1 he
  have hi₁ : i < rows.length := by omega
  have hi₂ : i < fresh.length := by omega
  have hd := h.destination_lt (List.mem_of_getElem? he)
  have hd₁ : e.destination < old.length := hm ▸ hd
  have hd₂ : e.destination < old'.length := hm' ▸ hd
  obtain ⟨htarget, hrow⟩ := h.getElem?_scatterTargets hlt he
  obtain ⟨mask, hmask, hrouter, hcollector⟩ := Pass.placed_shares width (i := i)
    (d := e.destination) hx ((Plan.length_scatterTargets p).trans hn'.symm)
    (h.distinct_scatterTargets hlt) hi₂ (by rw [htarget]; exact hrow)
  have hplanned : (Pass.placed mode old (planned p rows))[e.destination]? =
      old[e.destination]?.map (mode.apply · (rows.getD i [])) :=
    placed_planned h hlt (hn ▸ hedges) he old
  have h₁ := hold.getElem hd₁
  have h₂ := hold'.getElem hd₂
  have h₃ := hrows.getElem hi₁
  have h₄ := hfresh.getElem hi₂
  simp only [plannerRows, ownerRows, List.getD_eq_getElem?_getD, hrouter, hplanned, hcollector,
    List.getElem?_eq_getElem hd₁, List.getElem?_eq_getElem hd₂, List.getElem?_eq_getElem hi₁,
    List.getElem?_eq_getElem hi₂, Option.map_some, Option.getD_some]
  exact mask_xor_masked mode mode' h₁ h₂ h₃ h₄ hmask

/-! ### The three parts -/

section Parts

variable {S : List Nat} (h : Timetable.Apart S parties.planner parties.owner parties.helper)
include h

theorem phase_timetable (hn : fresh.length = p.selectRows) :
    (timetable x parties tape tape'' p fresh width size).Phase 1024 S := by
  apply Timetable.Phase.andThen
  · exact CoinToss.phase_timetable h.swap.rotate (by decide) ..
  · exact Pass.phase_timetable h.swap.rotate.swap (by decide)
      ((Plan.length_scatterTargets p).trans hn.symm) _

theorem timetable_planner : timetable x parties tape tape'' p fresh width size parties.planner =
    CoinToss.course parties.planner parties.helper tape.secret.1 tape''.secret.1 "scatter seed" ++
      Pass.routeCourse (x.scattering (seed tape tape'')) p.scatterTargets size parties.owner "scatter" := by
  rw [timetable, Timetable.andThen, CoinToss.timetable, Timetable.trio_first, Pass.timetable,
    Timetable.trio_second h.first_ne_third.symm]

theorem timetable_owner : timetable x parties tape tape'' p fresh width size parties.owner =
    Pass.collectCourse (x.scattering (seed tape tape'')) fresh p.scatterTargets width size parties.helper
      parties.planner := by
  rw [timetable, Timetable.andThen, CoinToss.timetable,
    Timetable.trio_third h.first_ne_second h.second_ne_third.symm, Pass.timetable,
    Timetable.trio_third h.second_ne_third.symm h.first_ne_second, List.nil_append]

theorem timetable_helper : timetable x parties tape tape'' p fresh width size parties.helper =
    CoinToss.course parties.helper parties.planner tape''.secret.1 tape.secret.1 "scatter seed" ++
      Pass.sendCourse (x.scattering (seed tape tape'')) fresh width size parties.owner "scatter" := by
  rw [timetable, Timetable.andThen, CoinToss.timetable, Timetable.trio_second h.first_ne_third,
    Pass.timetable, Timetable.trio_first]

theorem performs_helper (hx : (x.scattering (seed tape tape'')).Lawful) {compact : RowBuffer}
    (hcompact : compact.Holds width fresh) (hsizes : Sizes fresh.length width size) :
    Performs (helper x parties compact size) tape''
      (timetable x parties tape tape'' p fresh width size parties.helper) () tape''.secret.2 := by
  have hsend := Pass.performs_send (σ := Tape) hx hcompact hsizes.rows_lt hsizes.fits
    parties.owner "scatter"
  have hseed : tape''.secret.1.xor tape.secret.1 = seed tape tape'' := Word256.xor_comm ..
  rw [timetable_helper h]
  simp only [helper]
  refine Performs.bind (performs_toss ..) ?_
  simp only [hseed]
  exact Performs.mapError SwitchError.pass (hsend _)

theorem performs_owner (hx : (x.scattering (seed tape tape'')).Lawful) (hplan : p.Complete)
    (hlt : p.destinationRows ≤ Target.rowLimit) (hfresh : Uniform width fresh) {shape : Shape}
    (hn : fresh.length = p.selectRows) (hselect : shape.selectRows = p.selectRows)
    (hsize : shape.size = size) (hsizes : Sizes p.selectRows width size) {s : OwnerState}
    (hdest : s.dest.Holds width old') (hm' : old'.length = p.destinationRows) :
    ∃ dest, Performs (owner parties shape mode') s
      (timetable x parties tape tape'' p fresh width size parties.owner) () { s with dest } ∧
      dest.Holds width (ownerRows x tape tape'' p mode' fresh old' width) := by
  subst hsize
  have hlength : p.scatterTargets.length = fresh.length := (Plan.length_scatterTargets p).trans hn.symm
  have hwithin : Pass.Within p.scatterTargets old'.length := hm' ▸ hplan.within_scatterTargets hlt
  have hcollect := Pass.performs_collect mode' hx hdest hwithin hlength
    hfresh ((hn ▸ hsizes.width_pos).imp_left List.eq_nil_of_length_eq_zero) (hn ▸ hsizes.bytes_lt)
    (hn ▸ hsizes.rows_lt) (hn ▸ hsizes.fits) parties.helper parties.planner "scatter"
  refine ⟨_, ?_, Pass.holds_collected mode' hx hlength hfresh hdest hwithin⟩
  rw [timetable_owner h]
  simp only [owner, hselect, ← hn]
  exact OwnerState.performs_onDest hcollect

theorem performs_planner (hx : (x.scattering (seed tape tape'')).Lawful) (hplan : p.Complete)
    (hlt : p.destinationRows ≤ Target.rowLimit) {compact : RowBuffer}
    (hcompact : compact.Holds width rows) (hn : rows.length = p.selectRows)
    (hsizes : Sizes p.selectRows width size) {s : PlannerState} (htape : s.tape = tape)
    (hp : s.plan.edges = p.edges) (hselect : s.plan.selectRows = p.selectRows)
    (hdest : s.dest.Holds width old) (hm : old.length = p.destinationRows) :
    ∃ dest, Performs (planner x parties compact mode size) s
      (timetable x parties tape tape'' p fresh width size parties.planner) ()
      { s with tape := tape.secret.2, dest } ∧
      dest.Holds width (plannerRows x tape tape'' p mode rows old width) := by
  subst htape
  have hedges : p.edges.length ≤ rows.length := by
    rw [hn]
    exact Nat.le_max_right ..
  have htargets : s.plan.scatterTargets = p.scatterTargets := by
    rw [Plan.scatterTargets, Plan.scatterTargets, hp, hselect]
  have hwrite : writeShares mode compact 0 s.plan.edges s.dest =
      Pass.place mode s.dest (planned p rows) := by
    rw [hp, writeShares_eq_place hcompact (by rwa [Nat.zero_add])
      (fun e he => Nat.lt_of_lt_of_le (hplan.destination_lt he) hlt), List.drop_zero, planned]
  obtain ⟨hplace, hplaced⟩ := Pass.place_eq_ok mode hdest
    (hm ▸ within_planned hplan hlt hedges) (uniform_planned hcompact.uniform)
  have hwithin : Pass.Within p.scatterTargets
      (Pass.placed mode old (planned p rows)).length := by
    rw [Pass.length_placed, hm]
    exact hplan.within_scatterTargets hlt
  have hroute := Pass.performs_route .additive hx hplaced hwithin
    (hplan.distinct_scatterTargets hlt) hsizes.width_lt
    (by rw [Plan.length_scatterTargets]; exact hsizes.rows_lt)
    (by rw [Plan.length_scatterTargets]; exact hsizes.fits) parties.owner "scatter"
  refine ⟨_, ?_, Pass.holds_routed .additive hx hplaced hwithin⟩
  rw [timetable_planner h]
  simp only [planner]
  refine Performs.bind (PlannerState.performs_onTape (performs_toss ..)) ?_
  refine Performs.bind_nil (Performs.get _) ?_
  refine Performs.bind_nil (Performs.ofChecked (hwrite.trans hplace) _) ?_
  refine Performs.bind_nil (Performs.modify _ _) ?_
  rw [htargets]
  exact PlannerState.performs_onDest hroute

end Parts

end Switching.Scatter

end ObliviousRouting
