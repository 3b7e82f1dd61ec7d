import ObliviousRouting.Mesh.Run
import ObliviousRouting.Switching.Roles

/-!
# Runs of all three parts

Puts the three parts of a run at the ends of a reliable mesh. The parts go on in turn, each until it has
to wait, and the first one that stops early stops the run.
-/

namespace ObliviousRouting.Switching

/-- How a part of a run has ended, and what it leaves. -/
inductive Ending where
  | planner (result : Outcome SwitchError Unit) (state : PlannerState)
  | owner (result : Outcome SwitchError Unit) (state : OwnerState)
  | helper (result : Outcome SwitchError Unit) (tape : Tape)

namespace Ending

def result : Ending → Outcome SwitchError Unit
  | planner r _ => r
  | owner r _ => r
  | helper r _ => r

def failed (e : Ending) : Bool :=
  match e.result with
  | .ok _ => false
  | .error _ => true

end Ending

variable (x : Expansion) (parties : Parties)

def plannerSeat (kind : Kind) (mode : Mode) (size : BatchSize) (s : PlannerState) : Seat Ending :=
  ⟨parties.planner, (planner x parties kind mode size).start s >>= fun (r, s) => pure (.planner r s)⟩

def ownerSeat (kind : Kind) (source : RowBuffer) (mode : Mode) (size : BatchSize) (s : OwnerState) :
    Seat Ending :=
  ⟨parties.owner, (owner x parties kind source mode size).start s >>= fun (r, s) =>
    pure (.owner r s)⟩

def helperSeat (shape : Shape) (tape : Tape) : Seat Ending :=
  ⟨parties.helper, (helper x parties shape).start tape >>= fun (r, tape) => pure (.helper r tape)⟩

/-- What goes from one run to the next: the planner's and the owner's states and the helper's tape. -/
structure Setting where
  planner : PlannerState
  owner : OwnerState
  helper : Tape

namespace Setting

/-- All parts, at the first three ends of a mesh. -/
def seats (s : Setting) (kind : Kind) (source : RowBuffer) (mode : Mode) (size : BatchSize) :
    List (Seat Ending) :=
  let shape : Shape := ⟨kind, source.size, s.planner.plan.destinationRows, source.stride, size⟩
  [plannerSeat .keystreams {} kind mode size s.planner,
    ownerSeat .keystreams {} kind source mode size s.owner,
    helperSeat .keystreams {} shape s.helper]

def record (s : Setting) : Ending → Setting
  | .planner _ state => { s with planner := state }
  | .owner _ state => { s with owner := state }
  | .helper _ tape => { s with helper := tape }

/-- Runs all parts on a mesh of their own. The result is that of the first part that has stopped early,
if one has. -/
def simulate (s : Setting) (kind : Kind) (source : RowBuffer) (mode : Mode) (size : BatchSize) :
    Outcome SwitchError Unit × Setting :=
  let (seats, _) :=
    Seat.run Ending.failed { parties := 3 } (s.seats kind source mode size)
  let endings := seats.filterMap fun seat => seat.process.result?
  let result := match endings.find? Ending.failed with
    | some e => e.result
    | none => .ok ()
  (result, endings.foldl record s)

end Setting

end ObliviousRouting.Switching
