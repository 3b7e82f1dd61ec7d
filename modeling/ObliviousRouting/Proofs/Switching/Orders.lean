import ObliviousRouting.Proofs.Switching.Excess

/-!
# The order of steps does not matter

Planner, owner and helper go on at their own speed, each waiting only where a link is full or empty. No
order of their steps gets stuck, and all orders end alike.
-/

namespace ObliviousRouting.Switching.Run

variable {r : Run} {s : Setting} {f : Nat → Nat}

/-- In every order of steps, as long as not all parts have ended well some part can go on, and when all
have ended the results and the traffic are always the same, and nothing is left on any link. No order goes
on forever. -/
theorem every_order_ends (h : r.Fits s f) (hwidth : r.source.stride < Size.bufferLimit) :
    ∃ s' total, ∀ seats m,
      Relation.ReflTransGen Seat.Step (r.seats .keystreams s, { parties := r.ends, capacity := 1024 })
        (seats, m) →
      ((∃ next, Seat.Step (seats, m) next) ∨ Ended total (endings s') seats m) ∧
        Acc (fun next state => Seat.Step state next) (seats, m) := by
  obtain ⟨s', hrun, -⟩ := h.ready.underway hwidth (Expansion.lawful_keystreams ..)
  refine ⟨s', _, fun seats m hsteps => ⟨hrun.run_step_or_ended hsteps, ?_⟩⟩
  exact Seat.step_wf.apply (seats, m)

theorem every_order_of_copying_ends : ∃ s' total, ∀ seats m,
    Relation.ReflTransGen Seat.Step
      (copyRun.seats .keystreams pairSetting, { parties := 3, capacity := 1024 }) (seats, m) →
    ((∃ next, Seat.Step (seats, m) next) ∨ Ended total (endings s') seats m) ∧
      Acc (fun next state => Seat.Step state next) (seats, m) :=
  every_order_ends fits_copyRun (by decide)

/-- Some order of the steps of a run gets stuck before all parts have ended well. -/
def GetsStuck (r : Run) (s : Setting) : Prop := ∃ seats m,
  Relation.ReflTransGen Seat.Step (r.seats .keystreams s, { parties := r.ends, capacity := 1024 })
    (seats, m) ∧
  (∀ next, ¬ Seat.Step (seats, m) next) ∧ ∀ s', seats.map (·.process) ≠ (endings s').map .done

/-- A run of too many rows, or of rows that are too wide, gets stuck. -/
theorem getsStuck_of_exceeds (h : Pass.Exceeds r.rows s.planner.dest.stride) : r.GetsStuck s := by
  obtain ⟨⟨seats, m⟩, hsteps, hlast⟩ :=
    Seat.exists_complete (r.seats .keystreams s, { parties := r.ends, capacity := 1024 })
  refine ⟨seats, m, hsteps, hlast, fun s' hdone => ?_⟩
  exact not_exceeds_of_canEnd (Seat.canEnd_of_steps hsteps hdone) h

/-- Some order gets stuck if there are too many rows, or none but they would be too wide. -/
theorem every_order_ends_fails_beyond_limits :
    ((oneOf Target.rowLimit 0).Admitted oneSetting ∧ (oneOf Target.rowLimit 0).GetsStuck oneSetting) ∧
      wide.Fits wideSetting id ∧ wide.GetsStuck wideSetting :=
  ⟨⟨admitted_oneOf (by decide) (Nat.le_refl _), getsStuck_of_exceeds (exceeds_oneOf (by decide))⟩,
    fits_wide, getsStuck_of_exceeds (.inr (by decide))⟩

end ObliviousRouting.Switching.Run
