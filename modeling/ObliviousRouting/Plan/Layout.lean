import ObliviousRouting.Pass.Target
import ObliviousRouting.Plan.Basic

/-!
# From source slots to compact rows to destinations

Routing a grouped plan takes two lists of targets. Selecting moves one copy of each routed source row
into a compact buffer that is ordered like the edges: the first edge of a group takes the slot of its
source, every further edge borrows the next free slot, and the slots left over are numbered on. Every
slot is used once, so this is a rearrangement of all slots. Scattering moves the compact rows to the
destinations of their edges and discards the others.
-/

namespace ObliviousRouting

/-! ### Free slots

The slots below a bound that are no edge's source, in ascending order. The search keeps a cursor, which only
moves forward, over the slots and over the edges; it finds all free slots if the edges are ordered by source. -/

namespace SlotCursor

/-- The edge cursor after the edges whose source lies before the current slot. -/
def skipEdges (c : SlotCursor) (edges : List Edge) : Nat :=
  c.edge + ((edges.drop c.edge).takeWhile fun e => e.source < c.slot).length

/-- The next free slot below the bound, and the cursor after it. -/
def next (c : SlotCursor) (edges : List Edge) (bound : Nat) : Option Nat × SlotCursor :=
  if c.slot < bound then
    let edge := c.skipEdges edges
    if edges[edge]?.any (·.source = c.slot) then next ⟨c.slot + 1, edge⟩ edges bound
    else (some c.slot, ⟨c.slot + 1, edge⟩)
  else (none, c)
termination_by bound - c.slot

end SlotCursor

namespace Plan

def rewind (p : Plan) : Plan := { p with cursor := {} }

/-- The next free slot, and the plan after the search. Slots beyond the source rows count as free, up
to the number of edges. -/
def nextFree (p : Plan) : Except PlanError Nat × Plan :=
  let (slot?, cursor) := p.cursor.next p.edges p.selectRows
  let p := { p with cursor }
  match slot? with
  | none => (.error .noFreeSlot, p)
  | some slot => (if slot < indexLimit then .ok slot else .error (.tooLarge slot), p)

/-! ### Targets -/

/-- Gives each edge from number `i` on a slot. `previous?` is the source of the edge before. -/
def assignSlots (edges : List Edge) (i : Nat) (previous? : Option Nat) (p : Plan)
    (targets : List Target) : Outcome PlanError (List Target × Plan) :=
  match edges with
  | [] => .ok (targets, p)
  | e :: rest => do
    let (slot, p) := if previous? = some e.source then p.nextFree else (.ok e.source, p)
    let slot ← slot.mapError .error
    if slot < targets.length then
      assignSlots rest (i + 1) (some e.source) p (targets.set slot (.ofRow i))
    else throw (.fault .outOfRange)

/-- Numbers the slots that no edge has taken, starting with `i`. -/
def numberRest (i : Nat) : List Target → List Target
  | [] => []
  | t :: targets =>
    if t = .discard then .ofRow i :: numberRest (i + 1) targets else t :: numberRest i targets

/-- The compact row of each source slot, and the plan with its search for free slots used up. -/
def selectTargets (p : Plan) : Outcome PlanError (List Target × Plan) := do
  let none := List.replicate p.selectRows Target.discard
  let (targets, after) ← assignSlots p.edges 0 .none p.rewind none
  return (numberRest p.edges.length targets, after)

/-- The destination of each compact row. -/
def scatterTargets (p : Plan) : List Target :=
  p.edges.map (fun e => .ofRow e.destination) ++
    List.replicate (p.selectRows - p.edges.length) .discard

end Plan

end ObliviousRouting
