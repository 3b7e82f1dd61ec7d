import ObliviousRouting.Plan.Basic

/-!
# Grouping edges by source

Edges are grouped in place. A table gives for every source the first place of its group that has not
been filled by an exchange. Going through the places from the last to the first, the edge found there is
exchanged with the one at the next place of its group, as long as that place lies before; each exchange
puts one edge where it belongs. Edges of one source do not keep their order.
-/

namespace ObliviousRouting

/-- For each source, the next place of its group. -/
abbrev PlaceTable := List (Nat × Nat)

namespace PlaceTable

/-- The table in which each group is empty: it starts after all edges with a smaller source. -/
def ofEdges (edges : List Edge) : PlaceTable :=
  (edges.map Edge.source).eraseDups.map fun s => (s, edges.countP fun e => e.source < s)

/-- Moves on the next place of one group. -/
def advance (table : PlaceTable) (source : Nat) : PlaceTable :=
  table.map fun (s, place) => if s = source then (s, place + 1) else (s, place)

/-- How far the next places of all groups are from a given place, taken together. -/
def distance (table : PlaceTable) (i : Nat) : Nat :=
  table.foldr (fun entry total => i - entry.2 + total) 0

theorem distance_advance_le (table : PlaceTable) (source i : Nat) :
    distance (advance table source) i ≤ distance table i := by
  induction table with
  | nil => exact Nat.le_refl _
  | cons entry table ih =>
    simp only [distance, advance, List.map_cons, List.foldr_cons] at ih ⊢
    split <;> simp only <;> omega

theorem distance_advance_lt {table : PlaceTable} {source i place : Nat}
    (h : table.lookup source = some place) (hlt : place < i) :
    distance (advance table source) i < distance table i := by
  induction table with
  | nil => cases h
  | cons entry table ih =>
    obtain ⟨s, p⟩ := entry
    have hle := distance_advance_le table source i
    simp only [List.lookup_cons] at h
    by_cases hs : source = s
    · subst hs
      simp only [beq_self_eq_true] at h
      cases h
      simp only [distance, advance, List.map_cons, List.foldr_cons, if_true] at hle ⊢
      omega
    · have hbeq : (source == s) = false := by simpa using hs
      simp only [hbeq] at h
      have := ih h
      have hne : s ≠ source := fun h => hs h.symm
      simp only [distance, advance, List.map_cons, List.foldr_cons, if_neg hne] at this ⊢
      omega

end PlaceTable

namespace Plan

/-- Exchanges the edge at place `i` with the one at the next place of its group until that place does
not lie before `i`. -/
def settle (i : Nat) (edges : Array Edge) (table : PlaceTable) : Array Edge × PlaceTable :=
  match edges[i]? with
  | none => (edges, table)
  | some e =>
    match _found : table.lookup e.source with
    | none => (edges, table)
    | some place =>
      if _before : place < i then
        settle i (edges.swapIfInBounds i place) (table.advance e.source)
      else (edges, table)
termination_by table.distance i
decreasing_by exact PlaceTable.distance_advance_lt _found _before

/-- The edges grouped by source. -/
def groupEdges (edges : List Edge) : List Edge :=
  let places := (List.range edges.length).reverse
  (places.foldl (fun (edges, table) i => settle i edges table)
    (edges.toArray, PlaceTable.ofEdges edges)).1.toList

/-- Groups the edges of a plan, unless they are. -/
def group (p : Plan) : Plan :=
  if p.grouped then p else { p with edges := groupEdges p.edges, grouped := true }

/-- The grouped plan in which destination row `d` is fed by the `d`-th of the given sources. -/
def ofSources (sourceRows : Nat) (sources : List Nat) : Except PlanError Plan := do
  if indexLimit ≤ sources.length then throw (.tooLarge sources.length)
  let edges := sources.zipIdx.map fun (source, destination) => ⟨source, destination⟩
  let p ← (blank sourceRows sources.length).addAll edges
  return p.group

end Plan

end ObliviousRouting
