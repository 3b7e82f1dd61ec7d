import ObliviousRouting.Proofs.Network.Rounds
import ObliviousRouting.Proofs.Plan.Repeats
import ObliviousRouting.Proofs.Switching.Duplicate
import ObliviousRouting.Proofs.Switching.Scatter
import ObliviousRouting.Proofs.Switching.Select
import ObliviousRouting.Switching.Simulation

/-!
# A whole run

The stages of a run are phases, one after the other, so the run is a phase as well, and each part goes
through its course in it. `Run.Ready` says what makes that possible: a plan that feeds every destination
row once, and buffers that fit it. `Run.Delivers` says what planner and owner are left with.
-/

namespace ObliviousRouting.Switching

open Bytes Role

/-- What a run is about: where it takes place, what is routed how, and what is done with the old
destination rows. -/
structure Run where
  ends : Nat
  parties : Parties
  kind : Kind
  plan : Plan
  source : RowBuffer
  mode : Mode
  mode' : Mode
  size : BatchSize

namespace Run

variable (x : Expansion) (r : Run) (s : Setting)

def shape : Shape := ⟨r.kind, r.source.size, r.plan.destinationRows, r.source.stride, r.size⟩

/-- All parts at their ends of a mesh. The planner is given the plan of the run. -/
def seats : List (Seat Ending) :=
  [plannerSeat x r.parties r.kind r.mode r.size { s.planner with plan := r.plan },
    ownerSeat x r.parties r.kind r.source r.mode' r.size s.owner, helperSeat x r.parties r.shape s.helper]

/-- The plan feeds every destination row once, in a way that the kind allows, and there are buffers of
the sizes that it names at three ends of a mesh. -/
structure Ready : Prop where
  complete : r.plan.group.Complete
  sorted : SortedEdges r.plan.group.edges
  injective : r.kind = .permutation → r.plan.group.Injective
  seated : r.parties.Seated r.ends
  source_size : r.source.size = r.plan.sourceRows
  planner_size : s.planner.dest.size = r.plan.destinationRows
  owner_size : s.owner.dest.size = r.plan.destinationRows
  planner_stride : s.planner.dest.stride = r.source.stride
  owner_stride : s.owner.dest.stride = r.source.stride
  rows_lt : max r.plan.sourceRows r.plan.destinationRows < Target.rowLimit
  batch_lt : r.size.rows < Size.limit
  source_fits : r.source.data.size < Size.bufferLimit
  planner_fits : s.planner.dest.data.size < Size.bufferLimit
  owner_fits : s.owner.dest.data.size < Size.bufferLimit

/-! ### Stages -/

/-- The number of compact rows. -/
def rows : Nat := r.plan.group.selectRows

/-- The compact row of each slot. -/
def targets : List Target :=
  match r.plan.group.selectTargets with
  | .ok (targets, _) => targets
  | .error _ => []

/-- The rows in the slots: the source rows, and rows of zeros. -/
def slots : List Bytes :=
  r.source.toList ++ List.replicate (r.rows - r.source.size) (zeros r.source.stride)

/-- The planner's rows after selecting. -/
def selected : List Bytes :=
  Select.plannerRows x s.planner.tape s.owner.tape r.targets r.source.stride

/-- The helper's rows after selecting. -/
def selected' : List Bytes :=
  Select.helperRows x s.planner.tape s.owner.tape r.slots r.targets r.source.stride

/-- What all parts do to make copies. -/
def copying : Kind → Timetable
  | .permutation => fun _ => []
  | .general => Duplicate.timetable x r.parties s.planner.tape.secret.2 s.owner.tape.secret.2 s.helper
      (r.plan.group.copies r.rows) (r.selected' x s) r.rows r.source.stride r.size

/-- The helper's rows when copies have been made. -/
def copied' : Kind → List Bytes
  | .permutation => r.selected' x s
  | .general => Duplicate.freshRows x s.helper r.rows r.source.stride

/-- The planner's tape when copies have been made. -/
def plannerTape : Kind → Tape
  | .permutation => s.planner.tape.secret.2
  | .general => s.planner.tape.secret.2.secret.2

/-- The owner's tape when copies have been made. -/
def ownerTape : Kind → Tape
  | .permutation => s.owner.tape.secret.2
  | .general => s.owner.tape.secret.2.secret.2

/-- The helper's tape when copies have been made. -/
def helperTape : Kind → Tape
  | .permutation => s.helper
  | .general => (x.fresh (Duplicate.helperTape s.helper) (r.rows * r.source.stride)).2

def timetable : Timetable :=
  (greetings r.parties fun _ => r.shape).andThen <|
  (Select.timetable x r.parties s.planner.tape s.owner.tape r.slots r.targets r.source.stride
    r.size).andThen <|
  (r.copying x s r.kind).andThen
  (Scatter.timetable x r.parties (plannerTape s r.kind) (r.helperTape x s r.kind) r.plan.group
    (r.copied' x s r.kind) r.source.stride r.size)

/-- Copies have been made of the planner's rows. -/
def Copied (copied : List Bytes) : Kind → Prop
  | .permutation => copied = r.selected x s
  | .general =>
    let fresh := Duplicate.freshRows x s.helper r.rows r.source.stride
    Duplicate.Resolved (Reveal.pick (r.plan.group.copies r.rows)
      (Duplicate.firstRows (r.selected' x s) fresh) (Duplicate.secondRows r.source.stride fresh)) 0
      (r.plan.group.copies r.rows) (r.selected x s) copied

variable {x r s}

theorem getD_slots {i : Nat} (hi : i < r.source.size) : r.slots.getD i [] = r.source.rowAt i := by
  rw [slots, List.getD_append _ _ _ _ (by rwa [RowBuffer.length_toList])]
  rfl

namespace Ready

variable (h : r.Ready s)
include h

theorem rows_eq : r.rows = max r.plan.sourceRows r.plan.destinationRows := by
  rw [rows, h.complete.selectRows_eq, Plan.group_sourceRows, Plan.group_destinationRows]

theorem compact_lt : r.rows < Target.rowLimit := h.rows_eq ▸ h.rows_lt

theorem size_le_rows : r.source.size ≤ r.rows := by
  rw [h.rows_eq, h.source_size]
  exact Nat.le_max_left ..

theorem destinationRows_le : r.plan.group.destinationRows ≤ Target.rowLimit := by
  rw [Plan.group_destinationRows]
  exact Nat.le_of_lt (Nat.lt_of_le_of_lt (Nat.le_max_right ..) h.rows_lt)

theorem shape_selectRows : r.shape.selectRows = r.rows := by
  rw [h.rows_eq, ← h.source_size]
  rfl

theorem sizes (hwidth : r.source.stride < Size.bufferLimit) : Sizes r.rows r.source.stride r.size := by
  have hsource := r.source.size_mul_stride
  have hdest := s.planner.dest.size_mul_stride
  rw [h.source_size] at hsource
  rw [h.planner_size, h.planner_stride] at hdest
  refine ⟨h.compact_lt, ?_, hwidth, ?_, h.batch_lt⟩
  · rw [h.rows_eq]
    rcases Nat.le_total r.plan.sourceRows r.plan.destinationRows with hle | hle
    · rw [Nat.max_eq_right hle, hdest]
      exact h.planner_fits
    · rw [Nat.max_eq_left hle, hsource]
      exact h.source_fits
  · rcases Nat.eq_zero_or_pos r.source.stride with hzero | hpos
    · left
      have hsize : r.source.size = 0 := by rw [RowBuffer.size, hzero, Nat.div_zero]
      have hsize' : s.planner.dest.size = 0 := by
        rw [RowBuffer.size, h.planner_stride, hzero, Nat.div_zero]
      rw [h.rows_eq, ← h.source_size, ← h.planner_size, hsize, hsize', Nat.max_self]
    · exact .inr hpos

/-! ### Selecting -/

theorem targets_spec :
    ∃ cursor, r.plan.group.selectTargets = .ok (r.targets, { r.plan.group with cursor }) ∧
      r.targets.length = r.rows ∧ (r.targets.filterMap Target.row?).Perm (List.range r.rows) ∧
      ∀ i e, r.plan.group.edges[i]? = some e → ¬ r.plan.group.RepeatsAt i →
        r.targets[e.source]? = some (.ofRow i) := by
  obtain ⟨targets, cursor, hselect, hspec⟩ :=
    Plan.selectTargets_spec h.sorted h.complete.source_lt h.compact_lt
  have htargets : r.targets = targets := by rw [Run.targets, hselect]
  exact ⟨cursor, htargets ▸ hselect, htargets ▸ hspec⟩

theorem length_targets : r.targets.length = r.rows :=
  let ⟨_, _, hlength, _⟩ := h.targets_spec
  hlength

theorem distinct_targets : Target.Distinct r.targets :=
  let ⟨_, _, _, hperm, _⟩ := h.targets_spec
  hperm.nodup_iff.2 List.nodup_range

theorem within_targets : Pass.Within r.targets r.targets.length := by
  obtain ⟨_, -, hlength, hperm, -⟩ := h.targets_spec
  intro t ht d hd
  rw [hlength]
  exact List.mem_range.1 (hperm.mem_iff.1 (List.mem_filterMap.2 ⟨t, ht, hd⟩))

theorem length_slots : r.slots.length = r.rows := by
  have hle := h.size_le_rows
  rw [slots, List.length_append, List.length_replicate, RowBuffer.length_toList]
  omega

theorem uniform_slots : Uniform r.source.stride r.slots :=
  (RowBuffer.holds_toList h.source_fits).uniform.append (.replicate (length_zeros _) _)

theorem targets_eq_slots : r.targets.length = r.slots.length := h.length_targets.trans h.length_slots.symm

theorem length_selected : (r.selected x s).length = r.rows :=
  Select.length_plannerRows.trans h.length_targets

theorem length_selected' : (r.selected' x s).length = r.rows :=
  Select.length_helperRows.trans h.length_targets

section Lawful

variable (hwidth : r.source.stride < Size.bufferLimit)
  (hx : x.Lawful r.rows r.source.stride r.size)
include hwidth hx

theorem uniform_selected : Uniform r.source.stride (r.selected x s) :=
  (Select.holds_plannerRows (hx.selecting _) (h.length_targets ▸ h.sizes hwidth) h.within_targets).uniform

theorem uniform_selected' : Uniform r.source.stride (r.selected' x s) :=
  (Select.holds_helperRows (hx.selecting _) h.targets_eq_slots h.uniform_slots
    (h.length_targets ▸ h.sizes hwidth) h.within_targets).uniform

end Lawful

/-- Planner and helper share the row of its source for each edge that does not repeat it. -/
theorem shared_selected (hx : x.Lawful r.rows r.source.stride r.size) {i : Nat} {e : Edge}
    (he : r.plan.group.edges[i]? = some e) (hfirst : ¬ r.plan.group.RepeatsAt i) :
    ((r.selected x s).getD i []).xor ((r.selected' x s).getD i []) = r.source.rowAt e.source := by
  obtain ⟨_, -, hlength, -, htargets⟩ := h.targets_spec
  have hsource := h.complete.source_lt e (List.mem_of_getElem? he)
  rw [Plan.group_sourceRows, ← h.source_size] at hsource
  obtain ⟨hi, -⟩ := List.getElem?_eq_some_iff.1 he
  have hrows : i < r.rows := Nat.lt_of_lt_of_le hi (Nat.le_max_right ..)
  rw [← getD_slots hsource]
  exact Select.shared (hx.selecting _) h.targets_eq_slots h.uniform_slots h.distinct_targets
    (htargets i e he hfirst) (Target.row?_ofRow (Nat.lt_trans hrows h.compact_lt))
    (hlength ▸ hrows)

/-! ### Copying -/

theorem length_copied' (kind : Kind) : (r.copied' x s kind).length = r.rows := by
  cases kind with
  | permutation => exact h.length_selected'
  | general => exact Duplicate.length_freshRows

theorem uniform_copied' (hwidth : r.source.stride < Size.bufferLimit)
    (hx : x.Lawful r.rows r.source.stride r.size) (kind : Kind) :
    Uniform r.source.stride (r.copied' x s kind) := by
  cases kind with
  | permutation => exact h.uniform_selected' hwidth hx
  | general => exact Duplicate.uniform_freshRows hx

/-- Planner and helper share the row of its source for each edge. -/
theorem shared_copied (hwidth : r.source.stride < Size.bufferLimit)
    (hx : x.Lawful r.rows r.source.stride r.size) {copied : List Bytes}
    (hcopied : r.Copied x s copied r.kind) (huniform : Uniform r.source.stride copied) {i : Nat}
    {e : Edge} (he : r.plan.group.edges[i]? = some e) :
    (copied.getD i []).xor ((r.copied' x s r.kind).getD i []) = r.source.rowAt e.source := by
  cases hkind : r.kind with
  | permutation =>
    rw [hkind] at hcopied
    rw [Copied] at hcopied
    rw [hcopied]
    exact h.shared_selected hx he ((h.injective hkind).not_repeatsAt i)
  | general =>
    rw [hkind] at hcopied
    have hshared {i : Nat} (hi : i < r.rows) := Duplicate.shared (h.uniform_selected hwidth hx)
      (h.uniform_selected' hwidth hx) (Duplicate.uniform_freshRows hx) huniform h.length_selected
      h.length_selected' Duplicate.length_freshRows Plan.length_copies Plan.getD_copies_zero hcopied hi
    have hlt {i : Nat} (hi : i < r.plan.group.edges.length) : i < r.rows :=
      Nat.lt_of_lt_of_le hi (Nat.le_max_right ..)
    refine Plan.row_eq_source (fun i => (copied.getD i []).xor
      ((Duplicate.freshRows x s.helper r.rows r.source.stride).getD i [])) (fun i e he hfirst => ?_)
      (fun i hrepeats => ?_) he
    · obtain ⟨hi, -⟩ := List.getElem?_eq_some_iff.1 he
      rw [← h.shared_selected hx he hfirst, hshared (hlt hi), Plan.getD_copies (hlt hi),
        decide_eq_false hfirst]
      exact if_neg Bool.false_ne_true
    · have hi := hlt hrepeats.2.1
      rw [hshared hi, Plan.getD_copies hi, decide_eq_true hrepeats]
      exact if_pos rfl

/-! ### The three parts -/

section Parts

variable (hwidth : r.source.stride < Size.bufferLimit)
  (hx : x.Lawful r.rows r.source.stride r.size)
include hwidth hx

/-- The planner makes copies, if the kind allows repeated sources, and goes on with them. -/
theorem performs_copying {compact : RowBuffer} (hcompact : compact.Holds r.source.stride (r.selected x s))
    (cursor : SlotCursor) : ∃ buffer copied, r.Copied x s copied r.kind ∧
      RowBuffer.Holds buffer r.source.stride copied ∧ copied.length = r.rows ∧
      ∀ {c : Course} {s' : PlannerState} {next : RowBuffer → Role PlannerState SwitchError Unit},
        Performs (next buffer) ⟨plannerTape s r.kind, { r.plan.group with cursor }, s.planner.dest⟩ c ()
          s' →
        Performs (match r.kind with
          | .permutation => pure compact >>= next
          | .general => Duplicate.planner x r.parties compact r.size >>= next)
          ⟨s.planner.tape.secret.2, { r.plan.group with cursor }, s.planner.dest⟩
          (r.copying x s r.kind r.parties.planner ++ c) () s' := by
  cases r.kind with
  | permutation =>
    refine ⟨compact, _, rfl, hcompact, h.length_selected, fun hnext => ?_⟩
    exact Performs.bind_nil (.pure _ _) hnext
  | general =>
    obtain ⟨buffer, copied, hcopy, hbuffer, hcopied⟩ := Duplicate.performs_planner
      (s := ⟨s.planner.tape.secret.2, { r.plan.group with cursor }, s.planner.dest⟩) h.seated.apart hx
      (h.sizes hwidth) hcompact h.length_selected (h.uniform_selected' hwidth hx) h.length_selected' rfl
      rfl (Plan.repeatFlags_eq_ok (Nat.lt_trans h.compact_lt (by decide))) Plan.length_copies
      Plan.getD_copies_zero
    refine ⟨buffer, copied, hcopied, hbuffer, hcopied.1.trans h.length_selected, fun hnext => ?_⟩
    exact hcopy.bind hnext

theorem performs_planner : ∃ copied cursor dest, r.Copied x s copied r.kind ∧
    Uniform r.source.stride copied ∧ copied.length = r.rows ∧
    Performs (planner x r.parties r.kind r.mode r.size) { s.planner with plan := r.plan }
      (r.timetable x s r.parties.planner) ()
      ⟨(plannerTape s r.kind).secret.2, { r.plan.group with cursor }, dest⟩ ∧
    dest.Holds r.source.stride (Scatter.plannerRows x (plannerTape s r.kind) (r.helperTape x s r.kind)
      r.plan.group r.mode copied s.planner.dest.toList r.source.stride) := by
  have hsizes := h.sizes hwidth
  have happart := h.seated.apart
  obtain ⟨cursor, hselect, -⟩ := h.targets_spec
  have hcheck := Plan.check_eq_ok h.complete h.sorted h.injective
    (Nat.lt_trans h.compact_lt (by decide))
  have hshape : (⟨r.kind, r.plan.group.sourceRows, r.plan.group.destinationRows, s.planner.dest.stride,
      r.size⟩ : Shape) = r.shape := by
    rw [Plan.group_sourceRows, Plan.group_destinationRows, h.planner_stride, ← h.source_size, shape]
  obtain ⟨compact, hselected, hcompact⟩ := Select.performs_planner
    (s := ⟨s.planner.tape, r.plan.group, s.planner.dest⟩) happart
    (hx.selecting (Select.seed s.planner.tape s.owner.tape)) (h.length_targets ▸ hsizes) rfl
    h.distinct_targets h.within_targets h.length_targets.symm hselect
  obtain ⟨buffer, copied, hcopied, hbuffer, hlength, hcopying⟩ :=
    h.performs_copying hwidth hx hcompact cursor
  have hdest := RowBuffer.holds_toList h.planner_fits
  rw [h.planner_stride] at hdest
  have hm : s.planner.dest.toList.length = r.plan.group.destinationRows := by
    rw [RowBuffer.length_toList, h.planner_size, Plan.group_destinationRows]
  obtain ⟨dest, hscatter, hend⟩ := Scatter.performs_planner
    (s := ⟨plannerTape s r.kind, { r.plan.group with cursor }, s.planner.dest⟩) happart
    (hx.scattering (Scatter.seed (plannerTape s r.kind) (r.helperTape x s r.kind))) h.complete
    h.destinationRows_le hbuffer hlength hsizes rfl rfl rfl hdest hm
  refine ⟨copied, cursor, dest, hcopied, hbuffer.uniform, hlength, ?_, hend⟩
  rw [timetable, Timetable.andThen, Timetable.andThen, Timetable.andThen, greetings,
    Timetable.trio_first]
  simp only [planner]
  refine Performs.bind_nil (Performs.modify _ _) ?_
  refine Performs.bind_nil (Performs.get _) ?_
  refine Performs.bind_nil (Performs.ofOutcome hcheck _) ?_
  rw [if_neg (not_not_intro (by rw [h.planner_size, Plan.group_destinationRows])), hshape,
    h.planner_stride]
  refine Performs.bind (performs_greet ..) ?_
  refine Performs.bind hselected ?_
  exact hcopying hscatter

theorem performs_owner : ∃ dest, Performs (owner x r.parties r.kind r.source r.mode' r.size) s.owner
      (r.timetable x s r.parties.owner) () ⟨ownerTape s r.kind, dest⟩ ∧
    dest.Holds r.source.stride (Scatter.ownerRows x (plannerTape s r.kind) (r.helperTape x s r.kind)
      r.plan.group r.mode' (r.copied' x s r.kind) s.owner.dest.toList r.source.stride) := by
  have hsizes := h.sizes hwidth
  have happart := h.seated.apart
  have hsource := RowBuffer.holds_toList h.source_fits
  have hshape : (⟨r.kind, r.source.size, s.owner.dest.size, r.source.stride, r.size⟩ : Shape) =
      r.shape := by
    rw [h.owner_size, shape]
  have hslots : r.slots = r.source.toList ++
      List.replicate (r.shape.selectRows - r.source.toList.length) (zeros r.source.stride) := by
    rw [h.shape_selectRows, RowBuffer.length_toList, slots]
  have hselected := Select.performs_owner (s := s.owner) happart r.targets
    (hx.selecting (Select.seed s.planner.tape s.owner.tape)) hsource hslots
    (h.length_slots.trans h.shape_selectRows.symm) rfl (h.shape_selectRows ▸ hsizes) rfl
  have hdest := RowBuffer.holds_toList h.owner_fits
  rw [h.owner_stride] at hdest
  have hm : s.owner.dest.toList.length = r.plan.group.destinationRows := by
    rw [RowBuffer.length_toList, h.owner_size, Plan.group_destinationRows]
  obtain ⟨dest, hscatter, hend⟩ := Scatter.performs_owner
    (s := ⟨ownerTape s r.kind, s.owner.dest⟩) happart
    (hx.scattering (Scatter.seed (plannerTape s r.kind) (r.helperTape x s r.kind))) h.complete
    h.destinationRows_le (h.uniform_copied' hwidth hx r.kind) (h.length_copied' r.kind)
    h.shape_selectRows rfl hsizes hdest hm
  refine ⟨dest, ?_, hend⟩
  rw [timetable, Timetable.andThen, Timetable.andThen, Timetable.andThen, greetings,
    Timetable.trio_second h.seated.planner_ne_owner]
  simp only [owner]
  refine Performs.bind_nil (Performs.get _) ?_
  rw [if_neg (not_not_intro h.owner_stride.symm), hshape]
  refine Performs.bind (performs_greet ..) ?_
  refine Performs.bind hselected ?_
  revert hscatter
  cases r.kind with
  | permutation => exact id
  | general =>
    intro hscatter
    have hcopy := Duplicate.performs_owner
      (s := ⟨s.owner.tape.secret.2, s.owner.dest⟩) s.planner.tape.secret.2 s.helper
      (r.plan.group.copies r.rows) (r.selected' x s) happart hx hsizes Plan.length_copies
      h.shape_selectRows rfl rfl rfl
    exact hcopy.bind hscatter

theorem performs_helper : Performs (helper x r.parties r.shape) s.helper
    (r.timetable x s r.parties.helper) () (r.helperTape x s r.kind).secret.2 := by
  have hsizes := h.sizes hwidth
  have happart := h.seated.apart
  obtain ⟨compact, hselected, hcompact⟩ := Select.performs_helper happart
    (hx.selecting (Select.seed s.planner.tape s.owner.tape)) h.uniform_slots h.targets_eq_slots
    (h.length_slots.trans h.shape_selectRows.symm) rfl rfl (h.length_slots ▸ hsizes) h.within_targets
    s.helper
  have hscatter {buffer : RowBuffer} (hbuffer : buffer.Holds r.source.stride (r.copied' x s r.kind)) :=
    Scatter.performs_helper (p := r.plan.group) happart
      (hx.scattering (Scatter.seed (plannerTape s r.kind) (r.helperTape x s r.kind))) hbuffer
      (h.length_copied' r.kind ▸ hsizes)
  rw [timetable, Timetable.andThen, Timetable.andThen, Timetable.andThen, greetings,
    Timetable.trio_third h.seated.planner_ne_helper h.seated.owner_ne_helper]
  simp only [helper]
  refine Performs.bind (performs_greet ..) ?_
  refine Performs.bind hselected ?_
  change Performs (match r.kind with | .permutation => _ | .general => _) _ _ _ _
  revert hscatter
  cases r.kind with
  | permutation => exact fun hscatter => Performs.bind_nil (.pure _ _) (hscatter hcompact)
  | general =>
    intro hscatter
    obtain ⟨fresh, hcopy, hfresh⟩ := Duplicate.performs_helper happart hx hsizes hcompact
      h.length_selected'
    exact hcopy.bind (hscatter hfresh)

end Parts

theorem phase_timetable : (r.timetable x s).Phase 1024 r.parties.all := by
  have happart := h.seated.apart
  have hcopying : (r.copying x s r.kind).Phase 1024 r.parties.all := by
    cases r.kind with
    | permutation =>
      have hnone : ∀ A ∈ ([] : List Timetable), A.Phase 1024 r.parties.all := fun _ hA => nomatch hA
      exact Timetable.Phase.join hnone
    | general => exact Duplicate.phase_timetable happart
  apply Timetable.Phase.andThen
  · exact phase_greetings happart (by decide) fun _ => r.shape
  apply Timetable.Phase.andThen
  · exact Select.phase_timetable happart h.targets_eq_slots
  apply Timetable.Phase.andThen
  · exact hcopying
  · exact Scatter.phase_timetable happart (h.length_copied' r.kind)

end Ready

/-! ### Results -/

/-- What the parts of a run that goes well end with. -/
def endings (s' : Setting) : List Ending :=
  [.planner (.ok ()) s'.planner, .owner (.ok ()) s'.owner, .helper (.ok ()) s'.helper]

/-- After a run planner and owner share, in every destination row, the row of the source that feeds it, on
top of what their modes keep of the old rows. -/
structure Delivers (r : Run) (s s' : Setting) : Prop where
  plan_eq : ∃ cursor, s'.planner.plan = { r.plan.group with cursor }
  planner_stride : s'.planner.dest.stride = s.planner.dest.stride
  planner_size : s'.planner.dest.size = s.planner.dest.size
  owner_stride : s'.owner.dest.stride = s.owner.dest.stride
  owner_size : s'.owner.dest.size = s.owner.dest.size
  row_eq : ∀ e ∈ r.plan.group.edges,
    (s'.planner.dest.rowAt e.destination).xor (s'.owner.dest.rowAt e.destination) =
      (r.source.rowAt e.source).xor ((r.mode.kept (s.planner.dest.rowAt e.destination)).xor
        (r.mode'.kept (s.owner.dest.rowAt e.destination)))

/-- What a run leaves: rows that depend on the copies that have been made, and a plan that has been used. -/
structure Leaves (x : Expansion) (r : Run) (s s' : Setting) (copied : List Bytes) : Prop where
  made : r.Copied x s copied r.kind
  uniform : Uniform r.source.stride copied
  length_eq : copied.length = r.rows
  plan_eq : ∃ cursor, s'.planner.plan = { r.plan.group with cursor }
  planner_holds : s'.planner.dest.Holds r.source.stride (Scatter.plannerRows x (plannerTape s r.kind)
    (r.helperTape x s r.kind) r.plan.group r.mode copied s.planner.dest.toList r.source.stride)
  owner_holds : s'.owner.dest.Holds r.source.stride (Scatter.ownerRows x (plannerTape s r.kind)
    (r.helperTape x s r.kind) r.plan.group r.mode' (r.copied' x s r.kind) s.owner.dest.toList
    r.source.stride)

theorem Leaves.delivers {s' : Setting} {copied : List Bytes} (hleaves : r.Leaves x s s' copied)
    (h : r.Ready s) (hwidth : r.source.stride < Size.bufferLimit)
    (hx : x.Lawful r.rows r.source.stride r.size) : r.Delivers s s' := by
  have hdest := hleaves.planner_holds
  have hdest' := hleaves.owner_holds
  have hold := RowBuffer.holds_toList h.planner_fits
  have hold' := RowBuffer.holds_toList h.owner_fits
  rw [h.planner_stride] at hold
  rw [h.owner_stride] at hold'
  have hm : s.planner.dest.toList.length = r.plan.group.destinationRows := by
    rw [RowBuffer.length_toList, h.planner_size, Plan.group_destinationRows]
  have hm' : s.owner.dest.toList.length = r.plan.group.destinationRows := by
    rw [RowBuffer.length_toList, h.owner_size, Plan.group_destinationRows]
  constructor
  · exact hleaves.plan_eq
  · exact hdest.stride_eq.trans h.planner_stride.symm
  · rw [hdest.size_eq, Scatter.length_plannerRows, RowBuffer.length_toList]
  · exact hdest'.stride_eq.trans h.owner_stride.symm
  · rw [hdest'.size_eq, Scatter.length_ownerRows, RowBuffer.length_toList]
  · intro e he
    obtain ⟨i, hi⟩ := List.mem_iff_getElem?.1 he
    rw [hdest.rowAt_eq, hdest'.rowAt_eq, Scatter.shared (hx.scattering _) h.complete h.destinationRows_le
      hleaves.uniform (h.uniform_copied' hwidth hx r.kind) hold.uniform hold'.uniform hleaves.length_eq
      (h.length_copied' r.kind) hm hm' hi, h.shared_copied hwidth hx hleaves.made hleaves.uniform hi]
    rfl

theorem Ready.underway_leaves (h : r.Ready s) (hwidth : r.source.stride < Size.bufferLimit)
    (hx : x.Lawful r.rows r.source.stride r.size) :
    ∃ s' copied, Underway (fun a b => Course.outbox (r.timetable x s a) b) (endings s') (r.seats x s)
      { parties := r.ends } (r.timetable x s) ∧ r.Leaves x s s' copied := by
  obtain ⟨copied, cursor, dest, hcopied, huniform, hlength, hplanner, hdest⟩ := h.performs_planner hwidth hx
  obtain ⟨dest', howner, hdest'⟩ := h.performs_owner hwidth hx
  have hhelper := h.performs_helper hwidth hx
  refine ⟨⟨⟨(plannerTape s r.kind).secret.2, { r.plan.group with cursor }, dest⟩,
    ⟨ownerTape s r.kind, dest'⟩, (r.helperTape x s r.kind).secret.2⟩, copied, ?_,
    hcopied, huniform, hlength, ⟨cursor, rfl⟩, hdest, hdest'⟩
  apply Timetable.Phase.underway
  · exact h.phase_timetable
  · refine .cons ?_ (.cons ?_ (.cons ?_ .nil))
    · exact hplanner.map fun ending => Ending.planner ending.1 ending.2
    · exact howner.map fun ending => Ending.owner ending.1 ending.2
    · exact hhelper.map fun ending => Ending.helper ending.1 ending.2
  · simp [seats, plannerSeat, ownerSeat, helperSeat, h.seated.planner_ne_owner,
      h.seated.planner_ne_helper, h.seated.owner_ne_helper]
  · simp [seats, plannerSeat, ownerSeat, helperSeat, h.seated.planner_lt, h.seated.owner_lt,
      h.seated.helper_lt]

theorem Ready.underway (h : r.Ready s) (hwidth : r.source.stride < Size.bufferLimit)
    (hx : x.Lawful r.rows r.source.stride r.size) :
    ∃ s', Underway (fun a b => Course.outbox (r.timetable x s a) b) (endings s') (r.seats x s)
      { parties := r.ends } (r.timetable x s) ∧ r.Delivers s s' := by
  obtain ⟨s', copied, hunderway, hleaves⟩ := h.underway_leaves hwidth hx
  exact ⟨s', hunderway, hleaves.delivers h hwidth hx⟩

end Run

end ObliviousRouting.Switching
