import ObliviousRouting.Fault

/-!
# Routing plans

A plan lists edges, each of which says that a source row feeds a destination row. Edges are added one
by one. Grouping a plan orders them by source; after that no edge can be added. Grouped edges that share
a source stand next to each other, and those sources that no edge names are its free slots.
-/

namespace ObliviousRouting

/-- A source row and a destination row that it feeds. -/
structure Edge where
  source : Nat
  destination : Nat
deriving DecidableEq, Repr

/-- How far the search for free slots has come: the next slot, and the next edge to compare with. -/
structure SlotCursor where
  slot : Nat := 0
  edge : Nat := 0
deriving DecidableEq, Repr

/-- Which source row feeds which destination row. -/
structure Plan where
  sourceRows : Nat := 0
  destinationRows : Nat := 0
  /-- The edges, in the order in which they were added or, once grouped, by source. -/
  edges : List Edge := []
  grouped : Bool := false
  cursor : SlotCursor := {}
deriving DecidableEq, Repr

inductive PlanError where
  | sourceOutOfRange (source rows : Nat)
  | destinationOutOfRange (destination rows : Nat)
  | alreadyGrouped
  /-- The edge with this index has a smaller source than the one before it. -/
  | unsorted (index : Nat)
  | noFreeSlot
  /-- That many rows have no 32-bit indices. -/
  | tooLarge (rows : Nat)
deriving DecidableEq, Repr

def PlanError.message : PlanError → String
  | .sourceOutOfRange source rows => s!"source {source} is out of range for {rows} source rows"
  | .destinationOutOfRange destination rows =>
    s!"destination {destination} is out of range for {rows} destination rows"
  | .alreadyGrouped => "the routing program has already been finalized"
  | .unsorted index => s!"entry {index} has a smaller source than its predecessor"
  | .noFreeSlot => "all free source slots have been handed out"
  | .tooLarge rows => s!"{rows} rows do not fit into 32-bit row indices"

namespace Plan

/-- One more than the greatest row index. -/
def indexLimit : Nat := 0x100000000

def blank (sourceRows destinationRows : Nat) : Plan := { sourceRows, destinationRows }

def add (p : Plan) (source destination : Nat) : Except PlanError Plan :=
  if p.grouped then .error .alreadyGrouped
  else if p.sourceRows ≤ source then .error (.sourceOutOfRange source p.sourceRows)
  else if p.destinationRows ≤ destination then
    .error (.destinationOutOfRange destination p.destinationRows)
  else .ok { p with edges := p.edges ++ [⟨source, destination⟩] }

def addAll (p : Plan) (edges : List Edge) : Except PlanError Plan :=
  edges.foldlM (fun p e => p.add e.source e.destination) p

def checkSorted (p : Plan) : Except PlanError Unit :=
  match (p.edges.zip p.edges.tail).findIdx? fun (a, b) => b.source < a.source with
  | some i => .error (.unsorted (i + 1))
  | none => .ok ()

/-- The number of rows between selecting and scattering: room for each source row and for each edge. -/
def selectRows (p : Plan) : Nat := max p.sourceRows p.edges.length

def sourceAt? (p : Plan) (i : Nat) : Option Nat := p.edges[i]?.map Edge.source

/-- An edge repeats the source of the edge before it. -/
def RepeatsAt (p : Plan) (i : Nat) : Prop :=
  0 < i ∧ i < p.edges.length ∧ p.sourceAt? (i - 1) = p.sourceAt? i

instance (p : Plan) (i : Nat) : Decidable (p.RepeatsAt i) := by
  unfold RepeatsAt
  infer_instance

/-- For each of the first `rows` rows, whether it stands for an edge that repeats the source of the
edge before it, if a list of that length can be made. -/
def repeatFlags (p : Plan) (rows : Nat) : Checked (List Bool) := do
  let rows ← Size.buffer rows
  return (List.range rows).map fun i => decide (p.RepeatsAt i)

/-- Whether two neighbouring edges share a source. -/
def repeatsSource (p : Plan) : Bool :=
  (p.edges.zip p.edges.tail).any fun (a, b) => a.source = b.source

end Plan

end ObliviousRouting
