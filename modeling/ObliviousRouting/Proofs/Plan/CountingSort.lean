import Mathlib.Algebra.Order.BigOperators.Group.List
import Mathlib.Algebra.Order.Ring.Nat
import ObliviousRouting.Proofs.Plan.Grouping

/-!
# Grouping as a counting sort

A plan counts the edges of every source row while they are added. Grouping sums up the counts, so that each
count is replaced by the place where the group of its source begins, and then exchanges the edges in place.
Here every index is checked, and so is every sum that has to fit into 32 bits. No check fails, the edges end
up as `groupEdges` has them, and no more exchanges are made than there are edges: each of them moves on the
next place of one group, and no group is left behind its end.
-/

namespace ObliviousRouting.Plan

/-- The edges while they are exchanged, the next place of the group of each source row, and the number of
exchanges made so far. -/
structure Sorting where
  edges : Array Edge
  places : List Nat
  swaps : Nat

/-- How far the next places of all groups are from a given place, taken together. -/
def distance (places : List Nat) (i : Nat) : Nat := (places.map (i - ·)).sum

/-- What a change of one number changes of a sum over all of them. -/
theorem sum_map_set (f : Nat → Nat) {l : List Nat} {s p : Nat} (h : l[s]? = some p) (q : Nat) :
    ((l.set s q).map f).sum + f p = (l.map f).sum + f q := by
  induction l generalizing s with
  | nil => cases h
  | cons n l ih =>
    cases s with
    | zero =>
      cases h
      simp only [List.set_cons_zero, List.map_cons, List.sum_cons]
      omega
    | succ s =>
      have hrest := ih h
      simp only [List.set_cons_succ, List.map_cons, List.sum_cons]
      omega

theorem distance_set_lt {places : List Nat} {s place i : Nat} (h : places[s]? = some place)
    (hlt : place < i) : distance (places.set s (place + 1)) i < distance places i := by
  have hsum := sum_map_set (i - ·) h (place + 1)
  simp only [distance]
  omega

/-- Sums up counts: each is replaced by the sum of those before it and of `sum`. -/
def startsFrom (sum : Nat) : List Nat → Checked (List Nat)
  | [] => .ok []
  | count :: counts => do
    let starts ← if sum + count < indexLimit then startsFrom (sum + count) counts else throw .overflow
    return sum :: starts

/-- Exchanges the edge at place `i` with the one at the next place of its group until that place does not
lie before `i`. -/
def turn (i : Nat) (s : Sorting) : Checked Sorting :=
  match s.edges[i]? with
  | none => .error .outOfRange
  | some e =>
    match _found : s.places[e.source]? with
    | none => .error .outOfRange
    | some place =>
      if _before : place < i then
        if place + 1 < indexLimit then
          turn i ⟨s.edges.swapIfInBounds i place, s.places.set e.source (place + 1), s.swaps + 1⟩
        else .error .overflow
      else .ok s
termination_by distance s.places i
decreasing_by exact distance_set_lt _found _before

theorem turn_eq {i place : Nat} {s : Sorting} {e : Edge} (he : s.edges[i]? = some e)
    (hplace : s.places[e.source]? = some place) : turn i s =
      if place < i then
        if place + 1 < indexLimit then
          turn i ⟨s.edges.swapIfInBounds i place, s.places.set e.source (place + 1), s.swaps + 1⟩
        else .error .overflow
      else .ok s := by
  rw [turn]
  simp only [he]
  split
  · next hnone =>
    rw [hplace] at hnone
    cases hnone
  · next place' hplace' =>
    obtain rfl := Option.some.inj (hplace.symm.trans hplace')
    rfl

/-- The edges grouped by source, with the number of exchanges that have been made, from the number of edges of
each source row. -/
def countingSort (edges : List Edge) (counts : List Nat) : Checked (List Edge × Nat) := do
  let starts ← startsFrom 0 counts
  let s ← (List.range edges.length).reverse.foldlM (fun s i => turn i s) ⟨edges.toArray, starts, 0⟩
  return (s.edges.toList, s.swaps)

/-- The number of edges of each source row. -/
def countsOf (rows : Nat) (edges : List Edge) : List Nat :=
  (List.range rows).map fun s => edges.countP fun e => e.source = s

/-! ### Where the groups begin -/

theorem startsFrom_eq (edges : List Edge) {n s : Nat} (hlt : edges.length < indexLimit) :
    startsFrom (groupStart edges s) ((List.range' s n).map fun t => edges.countP fun e => e.source = t) =
      .ok ((List.range' s n).map (groupStart edges)) := by
  induction n generalizing s with
  | zero => rfl
  | succ n ih =>
    have hle : groupStart edges (s + 1) ≤ edges.length := List.countP_le_length
    rw [List.range'_succ, List.map_cons, List.map_cons, startsFrom, ← groupStart_succ,
      if_pos (Nat.lt_of_le_of_lt hle hlt), ih]
    rfl

theorem startsFrom_countsOf {edges : List Edge} (hlt : edges.length < indexLimit) (rows : Nat) :
    startsFrom 0 (countsOf rows edges) = .ok ((List.range rows).map (groupStart edges)) := by
  have hzero : groupStart edges 0 = 0 := List.countP_eq_zero.2 fun e _ => by simp
  have hstarts := startsFrom_eq edges (n := rows) (s := 0) hlt
  rwa [hzero, ← List.range_eq_range'] at hstarts

theorem sum_map_succ (f : Nat → Nat) (n : Nat) :
    ((List.range n).map fun s => f (s + 1)).sum + f 0 = ((List.range n).map f).sum + f n := by
  induction n with
  | zero => rfl
  | succ n ih =>
    simp only [List.range_succ, List.map_append, List.sum_append, List.map_singleton, List.sum_singleton]
    omega

/-- Each group ends where the next one begins, so all groups together have as many places as there are
edges. -/
theorem sum_groupEnds_le (edges : List Edge) (rows : Nat) :
    ((List.range rows).map fun s => groupStart edges (s + 1)).sum ≤
      ((List.range rows).map (groupStart edges)).sum + edges.length := by
  have hsum := sum_map_succ (groupStart edges) rows
  have hle : groupStart edges rows ≤ edges.length := List.countP_le_length
  omega

/-! ### One turn -/

/-- The next places are those of a table, and have moved on by one with every exchange. -/
structure Tracks (original : List Edge) (rows : Nat) (places : List Nat) (swaps : Nat) (table : PlaceTable) :
    Prop where
  length_places : places.length = rows
  agrees : ∀ t place, table.lookup t = some place → places[t]? = some place
  others : ∀ t < rows, table.lookup t = none → places[t]? = some (groupStart original t)
  sum_eq : places.sum = ((List.range rows).map (groupStart original)).sum + swaps

namespace Tracks

variable {original : List Edge} {rows i swaps : Nat} {places : List Nat} {edges : Array Edge}
  {table : PlaceTable}

theorem advance (h : Tracks original rows places swaps table) {s place : Nat}
    (hplace : table.lookup s = some place) :
    Tracks original rows (places.set s (place + 1)) (swaps + 1) (table.advance s) := by
  have hget := h.agrees s place hplace
  obtain ⟨hs, -⟩ := List.getElem?_eq_some_iff.1 hget
  constructor
  · rw [List.length_set, h.length_places]
  · intro t place' ht
    rw [PlaceTable.lookup_advance] at ht
    obtain ⟨p, hp, hp'⟩ := Option.map_eq_some_iff.1 ht
    by_cases hts : t = s
    · subst hts
      obtain rfl := Option.some.inj (hplace.symm.trans hp)
      rw [if_pos rfl] at hp'
      rw [List.getElem?_set_self hs, hp']
    · rw [if_neg hts] at hp'
      rw [List.getElem?_set_ne (Ne.symm hts), h.agrees t p hp, hp']
  · intro t ht hnone
    rw [PlaceTable.lookup_advance, Option.map_eq_none_iff] at hnone
    have hts : s ≠ t := by
      rintro rfl
      rw [hplace] at hnone
      cases hnone
    rw [List.getElem?_set_ne hts, h.others t ht hnone]
  · have hsum := sum_map_set id hget (place + 1)
    rw [List.map_id, List.map_id, h.sum_eq] at hsum
    simp only [id_eq] at hsum
    omega

/-- A turn does what `settle` does, and finds every index in range. -/
theorem turn (h : Tracks original rows places swaps table)
    (hsettling : Settling original (i + 1) edges table) (hi : i < edges.size) (hlimit : i < indexLimit) :
    ∃ places' swaps', Plan.turn i ⟨edges, places, swaps⟩ = .ok ⟨(settle i edges table).1, places', swaps'⟩ ∧
      Tracks original rows places' swaps' (settle i edges table).2 := by
  fun_induction settle i edges table generalizing places swaps with
  | case1 edges table hnone =>
    rw [Array.getElem?_eq_getElem hi] at hnone
    cases hnone
  | case2 edges table e he hnone =>
    have hmem : e ∈ edges.toList := Array.mem_toList_iff.2 (Array.mem_of_getElem? he)
    obtain ⟨place, hplace⟩ := hsettling.known e (hsettling.perm.mem_iff.1 hmem)
    rw [hnone] at hplace
    cases hplace
  | case3 edges table e he place hplace hlt ih =>
    obtain ⟨places', swaps', hturn, htracks⟩ := ih (h.advance hplace) (hsettling.swap he hplace hlt)
      (by rwa [Array.size_swapIfInBounds])
    refine ⟨places', swaps', ?_, htracks⟩
    rw [turn_eq he (h.agrees _ _ hplace), if_pos hlt, if_pos (Nat.lt_of_le_of_lt hlt hlimit)]
    exact hturn
  | case4 edges table e he place hplace hnot =>
    refine ⟨places, swaps, ?_, h⟩
    rw [turn_eq he (h.agrees _ _ hplace), if_neg hnot]

/-- No group is left behind its end. -/
theorem swaps_le (h : Tracks original rows places swaps table) (hsettling : Settling original i edges table) :
    swaps ≤ original.length := by
  have hplaces : places.sum ≤ ((List.range rows).map fun s => groupStart original (s + 1)).sum := by
    refine List.Forall₂.sum_le_sum (List.forall₂_iff_get.2 ⟨?_, fun t ht _ => ?_⟩)
    · rw [h.length_places, List.length_map, List.length_range]
    · have hlt : t < rows := h.length_places ▸ ht
      have hget := List.getElem?_eq_getElem ht
      rw [List.get_eq_getElem, List.get_eq_getElem, List.getElem_map, List.getElem_range]
      cases hlookup : table.lookup t with
      | none =>
        rw [Option.some.inj (hget.symm.trans (h.others t hlt hlookup))]
        exact groupStart_mono original (Nat.le_succ t)
      | some place =>
        rw [Option.some.inj (hget.symm.trans (h.agrees t place hlookup))]
        exact hsettling.place_le hlookup
  have hends := sum_groupEnds_le original rows
  have hsum := h.sum_eq
  omega

/-- All turns, the last place first. -/
theorem foldlM_turn {n : Nat} (h : Tracks original rows places swaps table)
    (hsettling : Settling original n edges table) (hn : n ≤ original.length) (hlimit : n ≤ indexLimit) :
    ∃ places' swaps', swaps' ≤ original.length ∧
      (List.range n).reverse.foldlM (fun s i => Plan.turn i s) ⟨edges, places, swaps⟩ =
        .ok ⟨((List.range n).reverse.foldl (fun (edges, table) i => settle i edges table) (edges, table)).1,
          places', swaps'⟩ := by
  induction n generalizing edges places swaps table with
  | zero => exact ⟨places, swaps, h.swaps_le hsettling, rfl⟩
  | succ n ih =>
    have hsize : n < edges.size := by
      rw [← Array.length_toList, hsettling.perm.length_eq]
      exact hn
    obtain ⟨places', swaps', hturn, htracks⟩ := h.turn hsettling hsize hlimit
    obtain ⟨places'', swaps'', hle, hrest⟩ := ih htracks hsettling.settle (Nat.le_of_succ_le hn)
      (Nat.le_of_succ_le hlimit)
    refine ⟨places'', swaps'', hle, ?_⟩
    rw [List.range_succ, List.reverse_concat, List.foldlM_cons, List.foldl_cons, hturn]
    exact hrest

end Tracks

theorem tracks_start {edges : List Edge} {rows : Nat} (hsource : ∀ e ∈ edges, e.source < rows) :
    Tracks edges rows ((List.range rows).map (groupStart edges)) 0 (PlaceTable.ofEdges edges) := by
  have hget {t : Nat} (ht : t < rows) :
      ((List.range rows).map (groupStart edges))[t]? = some (groupStart edges t) := by
    rw [List.getElem?_map, List.getElem?_range ht, Option.map_some]
  constructor
  · rw [List.length_map, List.length_range]
  · intro t place hlookup
    rw [PlaceTable.lookup_ofEdges] at hlookup
    split at hlookup
    · next hmem =>
      cases hlookup
      obtain ⟨e, he, rfl⟩ := List.mem_map.1 hmem
      exact hget (hsource e he)
    · cases hlookup
  · exact fun t ht _ => hget ht
  · rfl

/-- A counting sort over the counts of the edges groups them as `groupEdges` does. It goes through, and makes
no more exchanges than there are edges. -/
theorem countingSort_eq {edges : List Edge} {rows : Nat} (hsource : ∀ e ∈ edges, e.source < rows)
    (hlt : edges.length < indexLimit) :
    ∃ swaps ≤ edges.length, countingSort edges (countsOf rows edges) = .ok (groupEdges edges, swaps) := by
  obtain ⟨places, swaps, hle, hturns⟩ := (tracks_start hsource).foldlM_turn (settling_start edges)
    (Nat.le_refl _) (Nat.le_of_lt hlt)
  refine ⟨swaps, hle, ?_⟩
  rw [countingSort, startsFrom_countsOf hlt]
  exact congrArg (fun s : Checked Sorting => s >>= fun s => pure (s.edges.toList, s.swaps)) hturns

end ObliviousRouting.Plan
