import ObliviousRouting.Proofs.Switching.Excess

/-!
# The batch size makes no difference

How many rows travel in one message changes the messages and the pads that are drawn for them, but not
what planner and owner are left with: their shares depend on shuffles, masks and fresh rows, which are drawn
for all rows at once, and what a planner learns from a reveal does not depend on the pads behind which it
was hidden. Runs of too many rows, or of rows that are too wide, do not end well for any batch size.
-/

namespace ObliviousRouting.Switching

open Role

namespace Run

variable {r : Run} {s s' : Setting}

/-- Only parts that can end well do so in a run. -/
theorem canEnd_of_perform (h : r.perform s = some s') :
    List.Forall₂ (fun ending seat => seat.process.CanEnd ending) (endings s') (r.seats .keystreams s) := by
  have hresults : (Mesh.run { parties := r.ends } (r.seats .keystreams s)).1 = (endings s').map some := by
    rw [perform] at h
    split at h
    · next hrun =>
      cases h
      exact hrun
    · cases h
  exact (List.forall₂_map_left_iff.1 (Seat.canEnd_of_result hresults)).imp fun _ _ hend => hend _ rfl

/-- In some order of steps all parts of a run end well, and they leave `s'`. -/
def EndsWell (r : Run) (s s' : Setting) : Prop := ∃ seats m,
  Relation.ReflTransGen Seat.Step (r.seats .keystreams s, { parties := r.ends, capacity := 1024 })
    (seats, m) ∧ seats.map (·.process) = (endings s').map .done

theorem canEnd_of_endsWell (h : r.EndsWell s s') :
    List.Forall₂ (fun ending seat => seat.process.CanEnd ending) (endings s') (r.seats .keystreams s) :=
  let ⟨_, _, hsteps, hdone⟩ := h
  Seat.canEnd_of_steps hsteps hdone

/-! ### What is left -/

/-- The rows that planner and owner have after a run are those of their shares, whatever the batch size. -/
theorem Leaves.dests_eq {x : Expansion} {size : BatchSize} {s₁ s₂ : Setting} {copied₁ copied₂ : List Bytes}
    (h : r.Ready s) (h₁ : ({ r with size } : Run).Leaves x s s₁ copied₁) (h₂ : r.Leaves x s s₂ copied₂) :
    s₁.planner.dest = s₂.planner.dest ∧ s₁.owner.dest = s₂.owner.dest := by
  have hcopied : copied₁ = copied₂ := by
    have hmade₁ : r.Copied x s copied₁ r.kind := h₁.made
    have hmade₂ := h₂.made
    cases hkind : r.kind with
    | permutation =>
      rw [hkind] at hmade₁ hmade₂
      exact Eq.trans hmade₁ hmade₂.symm
    | general =>
      rw [hkind] at hmade₁ hmade₂
      exact Duplicate.Resolved.eq hmade₁ hmade₂ (Plan.length_copies.trans h.length_selected.symm)
        Plan.getD_copies_zero
  subst hcopied
  exact ⟨h₁.planner_holds.eq h₂.planner_holds, h₁.owner_holds.eq h₂.owner_holds⟩

/-- The destination rows of planner and owner. -/
def dests (s : Setting) : RowBuffer × RowBuffer := (s.planner.dest, s.owner.dest)

theorem Admitted.bounds (h : r.Admitted s)
    (hcanEnd : List.Forall₂ (fun ending seat => seat.process.CanEnd ending) (endings s')
      (r.seats .keystreams s)) :
    r.source.stride < Size.bufferLimit ∧ r.rows < Target.rowLimit := by
  obtain ⟨hrows, hwidth⟩ := not_or.1 (not_exceeds_of_canEnd hcanEnd)
  rw [h.planner_stride] at hwidth
  exact ⟨Nat.lt_of_not_le hwidth, Nat.lt_of_not_le hrows⟩

/-- All runs that end well, whatever their batch size and in whatever order of steps, leave the same
destination rows. -/
theorem Admitted.exists_dests (h : r.Admitted s) (hwidth : r.source.stride < Size.bufferLimit)
    (hrows : r.rows < Target.rowLimit) : ∃ left, ∀ size : BatchSize, size.rows < Size.limit →
      (({ r with size } : Run).perform s).map dests = some left ∧
        ∀ s', ({ r with size } : Run).EndsWell s s' → dests s' = left := by
  have hx := Expansion.lawful_keystreams r.rows r.source.stride
  obtain ⟨s₀, copied₀, -, hleaves₀⟩ := (h.ready hrows).underway_leaves hwidth (hx r.size)
  refine ⟨dests s₀, fun size hsize => ?_⟩
  have h' : ({ r with size } : Run).Admitted s := { h with batch_lt := hsize }
  obtain ⟨s₁, copied₁, hrun, hleaves₁⟩ := (h'.ready hrows).underway_leaves hwidth (hx size)
  have hdests : dests s₁ = dests s₀ :=
    let ⟨hplanner, howner⟩ := hleaves₁.dests_eq (h.ready hrows) hleaves₀
    Prod.ext hplanner howner
  constructor
  · rw [perform_eq_some (hrun.mesh_run rfl).1, Option.map_some, hdests]
  · rintro s' ⟨seats, m, hsteps, hdone⟩
    have hsame := hrun.eq_of_done hsteps hdone
    rw [endings, endings, List.cons.injEq, List.cons.injEq] at hsame
    obtain ⟨hplanner, howner, -⟩ := hsame
    rw [← hdests, dests, dests, (Ending.planner.inj hplanner).2, (Ending.owner.inj howner).2]

/-- The batch size makes no difference to any byte that a run leaves in the destination rows, if it ends
well, and it does not decide whether it does. -/
theorem same_dests_for_batch_sizes (h : r.Admitted s) {size : BatchSize} (hsize : size.rows < Size.limit) :
    (({ r with size } : Run).perform s).map dests = (r.perform s).map dests ∧
      ∀ s₁ s₂, ({ r with size } : Run).EndsWell s s₁ → r.EndsWell s s₂ →
        s₁.planner.dest = s₂.planner.dest ∧ s₁.owner.dest = s₂.owner.dest := by
  have h' : ({ r with size } : Run).Admitted s := { h with batch_lt := hsize }
  by_cases hbounds : r.source.stride < Size.bufferLimit ∧ r.rows < Target.rowLimit
  · obtain ⟨left, hleft⟩ := h.exists_dests hbounds.1 hbounds.2
    obtain ⟨hperform₁, hends₁⟩ := hleft size hsize
    obtain ⟨hperform₂, hends₂⟩ := hleft r.size h.batch_lt
    refine ⟨hperform₁.trans hperform₂.symm, fun s₁ s₂ h₁ h₂ => ?_⟩
    exact Prod.mk.inj ((hends₁ s₁ h₁).trans (hends₂ s₂ h₂).symm)
  · have hnone₁ : ({ r with size } : Run).perform s = none :=
      Option.eq_none_iff_forall_ne_some.2 fun s' hs' => hbounds (h'.bounds (canEnd_of_perform hs'))
    have hnone₂ : r.perform s = none :=
      Option.eq_none_iff_forall_ne_some.2 fun s' hs' => hbounds (h.bounds (canEnd_of_perform hs'))
    rw [hnone₁, hnone₂]
    exact ⟨rfl, fun s₁ s₂ _ h₂ => absurd (h.bounds (canEnd_of_endsWell h₂)) hbounds⟩

theorem same_dests_of_copying :
    (({ copyRun with size := ⟨0⟩ } : Run).perform pairSetting).map dests =
      (copyRun.perform pairSetting).map dests :=
  (same_dests_for_batch_sizes fits_copyRun.admitted (by decide)).1

end Run

end ObliviousRouting.Switching
