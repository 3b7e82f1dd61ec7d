import ObliviousRouting.Plan.Grouping
import ObliviousRouting.Switching.Duplicate
import ObliviousRouting.Switching.Error
import ObliviousRouting.Switching.Greeting
import ObliviousRouting.Switching.Passes

/-!
# The three parts of a switching run

A run routes the owner's rows as the planner's plan says, so that planner and owner end with shares of
the routed rows: greetings, a pass that selects, copies for those edges that repeat a source, and a pass
that scatters. Where no source may be repeated, the copies are left out.
-/

namespace ObliviousRouting

/-! ### Plans that can be run

A plan can be run if it says for every destination row which source row feeds it, and, where a source may feed
one destination only, if no source is named twice. -/

namespace Plan

open Switching

/-- Checks that edges name rows below `rows`, none of them twice and none of those in `taken`. -/
def checkDestinations (rows : Nat) (taken : List Nat) : List Edge → Outcome SwitchError Unit
  | [] => .ok ()
  | e :: rest =>
    if rows ≤ e.destination then .error (.fault .outOfRange)
    else if e.destination ∈ taken then .error (.error (.destinationRepeated e.destination))
    else checkDestinations rows (e.destination :: taken) rest

/-- Checks that a grouped plan can be run. -/
def check (p : Plan) (kind : Kind) : Outcome SwitchError Unit := do
  p.checkSorted.mapError fun e => .error (.plan e)
  if p.edges.length ≠ p.destinationRows then
    throw (.error (.incomplete p.edges.length p.destinationRows))
  checkDestinations p.destinationRows [] p.edges
  if kind = .permutation ∧ p.repeatsSource then throw (.error .sourceRepeated)
  if indexLimit ≤ p.selectRows then throw (.error (.pass (.tooManyRows p.selectRows)))

end Plan

/-! ### The parts -/

namespace Switching

/-- Routes the owner's rows as the plan says. The plan stays grouped, whatever happens. -/
def planner (x : Expansion) (parties : Parties) (kind : Kind) (mode : Mode) (size : BatchSize) :
    Role PlannerState SwitchError Unit := do
  modify fun s => { s with plan := s.plan.group }
  let ⟨_, plan, dest⟩ ← get
  Role.ofOutcome (plan.check kind)
  if dest.size ≠ plan.destinationRows then
    Role.fail (.rowsMismatch plan.destinationRows dest.size)
  greet parties .planner ⟨kind, plan.sourceRows, plan.destinationRows, dest.stride, size⟩
  let compact ← Select.planner x parties dest.stride size
  let compact ← match kind with
    | .permutation => pure compact
    | .general => Duplicate.planner x parties compact size
  Scatter.planner x parties compact mode size

/-- Has its source rows routed. The number of destination rows is that of the buffer. -/
def owner (x : Expansion) (parties : Parties) (kind : Kind) (source : RowBuffer) (mode : Mode)
    (size : BatchSize) : Role OwnerState SwitchError Unit := do
  let ⟨_, dest⟩ ← get
  if source.stride ≠ dest.stride then Role.fail (.strideMismatch source.stride dest.stride)
  let shape : Shape := ⟨kind, source.size, dest.size, source.stride, size⟩
  greet parties .owner shape
  Select.owner x parties shape source
  match kind with
  | .permutation => pure ()
  | .general => Duplicate.owner x parties shape
  Scatter.owner parties shape mode

/-- Assists a run of a known shape. -/
def helper (x : Expansion) (parties : Parties) (shape : Shape) : Role Tape SwitchError Unit := do
  greet parties .helper shape
  let compact ← Select.helper parties shape
  let compact ← match shape.kind with
    | .permutation => pure compact
    | .general => Duplicate.helper x parties compact shape.size
  Scatter.helper x parties compact shape.size

end Switching

end ObliviousRouting
