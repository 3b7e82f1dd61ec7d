import ObliviousRouting.Plan.Layout
import ObliviousRouting.Switching.State

/-!
# The passes of a run

Two passes of a run move rows: one brings the source rows into the order of the plan's edges, and one brings
them from there to their destinations.
-/

namespace ObliviousRouting.Switching

/-! ### Selecting

The first stage of a run brings the source rows into the order of the plan's edges. It is a pass from the
owner, who pads its rows to the size of the compact buffer, to the helper. Planner and helper end with shares
of the compact rows. -/

namespace Select

variable {σ : Type}

/-- Routes the source slots to compact rows and gives the planner's share of these. The search of the
plan for free slots is used up. -/
def planner (x : Expansion) (parties : Parties) (stride : Nat) (size : BatchSize) :
    Role PlannerState SwitchError RowBuffer := do
  let seed ← PlannerState.onTape (toss parties .planner .owner "select seed")
  let before ← get
  let (targets, plan) ← Role.mapError .plan (Role.ofOutcome before.plan.selectTargets)
  modify fun s => { s with plan }
  let blank ← Role.ofChecked (RowBuffer.zeros plan.selectRows stride)
  let (_, compact) ← Role.mapError .pass (Role.privately
    (Pass.route (x.selecting seed) parties.helper targets .overwrite size "select") blank)
  return compact

def owner (x : Expansion) (parties : Parties) (shape : Shape) (source : RowBuffer) :
    Role OwnerState SwitchError Unit := do
  let seed ← OwnerState.onTape (toss parties .owner .planner "select seed")
  let padded ← Role.ofChecked (source.padTo shape.selectRows)
  Role.mapError .pass (Pass.send (x.selecting seed) parties.helper padded shape.size "select")

/-- Collects the helper's share of the compact rows. -/
def helper (parties : Parties) (shape : Shape) : Role σ SwitchError RowBuffer := do
  let rows := shape.selectRows
  let blank ← Role.ofChecked (RowBuffer.zeros rows shape.stride)
  let (_, compact) ← Role.mapError .pass (Role.privately
    (Pass.collect parties.owner parties.planner rows .overwrite shape.size "select") blank)
  return compact

end Select

/-! ### Scattering

The last stage of a run brings the compact rows, which planner and helper share, to their destinations. The
planner writes its share there itself and then routes a pass of the helper's share to the owner, so that
planner and owner end with shares of the destination rows. -/

namespace Scatter

/-- Writes compact rows to the destinations of their edges, from edge number `i` on. -/
def writeShares (mode : Mode) (compact : RowBuffer) (i : Nat) :
    List Edge → RowBuffer → Checked RowBuffer
  | [], dest => .ok dest
  | e :: rest, dest => do
    let share ← compact.row i
    let dest ← dest.write mode e.destination share
    writeShares mode compact (i + 1) rest dest

/-- Writes the planner's share, and routes the helper's. -/
def planner (x : Expansion) (parties : Parties) (compact : RowBuffer) (mode : Mode)
    (size : BatchSize) : Role PlannerState SwitchError Unit := do
  let seed ← PlannerState.onTape (toss parties .planner .helper "scatter seed")
  let ⟨_, plan, before⟩ ← get
  let dest ← Role.ofChecked (writeShares mode compact 0 plan.edges before)
  modify fun s => { s with dest }
  PlannerState.onDest
    (Pass.route (x.scattering seed) parties.owner plan.scatterTargets .additive size "scatter")

/-- Collects the owner's share of the destination rows. -/
def owner (parties : Parties) (shape : Shape) (mode : Mode) : Role OwnerState SwitchError Unit :=
  OwnerState.onDest
    (Pass.collect parties.helper parties.planner shape.selectRows mode shape.size "scatter")

/-- Sends the helper's share of the compact rows. -/
def helper (x : Expansion) (parties : Parties) (compact : RowBuffer) (size : BatchSize) :
    Role Tape SwitchError Unit := do
  let seed ← toss parties .helper .planner "scatter seed"
  Role.mapError .pass (Pass.send (x.scattering seed) parties.owner compact size "scatter")

end Scatter

end ObliviousRouting.Switching
