import ObliviousRouting.Proofs.Plan.Calls
import ObliviousRouting.Proofs.Plan.Layout

/-!
# Where a selection puts its rows

A selection is a rearrangement of its slots, and which row each slot gets is known. There are slots that are
sources, and slots that are not. A source takes the row of the first edge of its group. The others are dealt
out in ascending order, first to the edges that repeat a source, in the order of the edges, and then to the
rows that stand for no edge.
-/

namespace ObliviousRouting.Plan

open Target

/-- The indices below a bound with a property are zero, if it has it, and those that follow on. -/
theorem filter_range_succ (q : Nat → Bool) (n : Nat) : (List.range (n + 1)).filter q =
    (if q 0 then [0] else []) ++ ((List.range n).filter fun k => q (k + 1)).map Nat.succ := by
  rw [List.range_succ_eq_map, List.filter_cons, List.filter_map]
  split <;> rfl

/-! ### The edges that borrow a slot -/

/-- The edges that repeat the source of the edge before them, in order. -/
def repeating (p : Plan) : List Nat := (List.range p.edges.length).filter fun i => p.RepeatsAt i

/-- The edges that repeat the source of the edge before them, which for the first one is given. -/
def repeatPlaces (previous? : Option Nat) (edges : List Edge) : List Nat :=
  (List.range edges.length).filter fun k => sourceBefore? previous? edges k = edges[k]?.map Edge.source

section Borrowing

variable {edges : List Edge} {free : List Nat} {previous? : Option Nat}

theorem repeatPlaces_cons (e : Edge) : repeatPlaces previous? (e :: edges) =
    (if previous? = some e.source then [0] else []) ++
      (repeatPlaces (some e.source) edges).map Nat.succ := by
  have hzero : sourceBefore? previous? (e :: edges) 0 = previous? := rfl
  have hnext (k : Nat) : sourceBefore? previous? (e :: edges) (k + 1) =
      sourceBefore? (some e.source) edges k := by cases k <;> rfl
  rw [repeatPlaces, List.length_cons, filter_range_succ, repeatPlaces]
  simp only [hzero, hnext, List.getElem?_cons_zero, List.getElem?_cons_succ, Option.map_some,
    decide_eq_true_eq]

theorem length_repeatPlaces (previous? : Option Nat) (edges : List Edge) :
    (repeatPlaces previous? edges).length = repeats previous? edges := by
  induction edges generalizing previous? with
  | nil => rfl
  | cons e edges ih =>
    rw [repeatPlaces_cons, repeats, List.length_append, List.length_map, ih]
    split <;> rfl

/-- The edges that repeat a source have the free slots, one after the other. -/
theorem map_edgeSlots (h : repeats previous? edges ≤ free.length) :
    (repeatPlaces previous? edges).map (fun i => (edgeSlots previous? edges free)[i]?) =
      (free.take (repeats previous? edges)).map some := by
  induction edges generalizing previous? free with
  | nil => rfl
  | cons e edges ih =>
    rw [repeats] at h ⊢
    simp only [repeatPlaces_cons, edgeSlots]
    split
    · next heq =>
      rw [if_pos heq] at h
      cases free with
      | nil =>
        rw [List.length_nil] at h
        omega
      | cons s free =>
        rw [List.length_cons] at h
        rw [List.map_append, List.map_map, Nat.add_comm, List.take_succ_cons, List.map_cons]
        exact congrArg (some s :: ·) (ih (by omega))
    · next hne =>
      rw [if_neg hne] at h
      rw [List.nil_append, List.map_map, Nat.zero_add, ← ih (by omega)]
      rfl

end Borrowing

variable {p : Plan}

theorem repeatsAt_iff {i : Nat} (hi : i < p.edges.length) :
    p.RepeatsAt i ↔ sourceBefore? none p.edges i = p.edges[i]?.map Edge.source := by
  cases i with
  | zero =>
    rw [List.getElem?_eq_getElem hi]
    exact iff_of_false (fun h => Nat.lt_irrefl 0 h.1) fun h => nomatch h
  | succ i => exact ⟨fun h => h.2.2, fun h => ⟨Nat.succ_pos i, hi, h⟩⟩

theorem repeating_eq (p : Plan) : p.repeating = repeatPlaces none p.edges := by
  apply List.filter_congr
  intro i hi
  rw [decide_eq_decide]
  exact repeatsAt_iff (List.mem_range.1 hi)

theorem length_repeating (p : Plan) : p.repeating.length = repeats none p.edges := by
  rw [repeating_eq, length_repeatPlaces]

/-! ### The slots that no edge takes -/

/-- The places of a list of targets that are still to be numbered. -/
def holes (targets : List Target) : List Nat :=
  (List.range targets.length).filter fun s => targets[s]? = some .discard

theorem holes_cons (t : Target) (targets : List Target) :
    holes (t :: targets) = (if t = .discard then [0] else []) ++ (holes targets).map Nat.succ := by
  rw [holes, List.length_cons, filter_range_succ, holes]
  simp only [List.getElem?_cons_zero, List.getElem?_cons_succ, Option.some.injEq, decide_eq_true_eq]

/-- The places to be numbered get their numbers in ascending order. -/
theorem map_numberRest (i : Nat) (targets : List Target) :
    (holes targets).map (fun s => (numberRest i targets)[s]?) =
      (List.range' i (targets.count .discard)).map fun k => some (.ofRow k) := by
  induction targets generalizing i with
  | nil => rfl
  | cons t targets ih =>
    rw [holes_cons, numberRest]
    by_cases ht : t = .discard
    · rw [if_pos ht, if_pos ht, ht, List.count_cons_self, List.range'_succ, List.map_append, List.map_map,
        List.map_cons]
      exact congrArg (some (ofRow i) :: ·) (ih (i + 1))
    · rw [if_neg ht, if_neg ht, List.count_cons_of_ne ht, List.nil_append, List.map_map, ← ih]
      rfl

/-- Behind some places the numbers go on with as many more as places among them got one. -/
theorem numberRest_append (i : Nat) (targets targets' : List Target) :
    numberRest i (targets ++ targets') =
      numberRest i targets ++ numberRest (i + targets.count .discard) targets' := by
  induction targets generalizing i with
  | nil => rfl
  | cons t targets ih =>
    rw [List.cons_append, numberRest, numberRest]
    by_cases ht : t = .discard
    · rw [if_pos ht, if_pos ht, ih, ht, List.count_cons_self, List.cons_append, Nat.add_assoc,
        Nat.add_comm 1]
    · rw [if_neg ht, if_neg ht, ih, List.count_cons_of_ne ht, List.cons_append]

/-- The edges that repeat a source take the first free slots. -/
theorem map_slots (p : Plan) : p.repeating.map (fun i => p.slots[i]?) =
    ((freeSlots p.edges 0 p.selectRows).take p.repeating.length).map some := by
  rw [length_repeating, repeating_eq]
  exact map_edgeSlots p.repeats_le_length_freeSlots

/-- Every source is that of an edge that does not repeat it. -/
theorem exists_first {s : Nat} (hs : s ∈ p.edges.map Edge.source) :
    ∃ i e, p.edges[i]? = some e ∧ e.source = s ∧ ¬ p.RepeatsAt i := by
  obtain ⟨e, he, hsource⟩ := List.mem_map.1 hs
  have hex : ∃ i, p.sourceAt? i = some s := by
    obtain ⟨i, hi⟩ := List.mem_iff_getElem?.1 he
    exact ⟨i, by rw [sourceAt?, hi, Option.map_some, hsource]⟩
  have hfind := Nat.find_spec hex
  obtain ⟨e', he', hsource'⟩ := Option.map_eq_some_iff.1 hfind
  refine ⟨Nat.find hex, e', he', hsource', fun hrepeats => ?_⟩
  have hbefore : p.sourceAt? (Nat.find hex - 1) = some s := hrepeats.2.2.trans hfind
  have hle := Nat.find_min' hex hbefore
  have hpos := hrepeats.1
  omega

/-- The taken slots are the sources, and the first free slots. -/
theorem mem_slots {s : Nat} : s ∈ p.slots ↔ s ∈ p.edges.map Edge.source ∨
    s ∈ (freeSlots p.edges 0 p.selectRows).take p.repeating.length := by
  constructor
  · intro hs
    obtain ⟨i, hi⟩ := List.mem_iff_getElem?.1 hs
    obtain ⟨hlt, -⟩ := List.getElem?_eq_some_iff.1 hi
    rw [length_slots] at hlt
    by_cases hrepeats : p.RepeatsAt i
    · right
      have hmem : some s ∈ p.repeating.map fun i => p.slots[i]? :=
        List.mem_map.2 ⟨i, List.mem_filter.2 ⟨List.mem_range.2 hlt, decide_eq_true hrepeats⟩, hi⟩
      rw [map_slots] at hmem
      obtain ⟨s', hs', heq⟩ := List.mem_map.1 hmem
      cases heq
      exact hs'
    · left
      have hown := getElem?_slots (List.getElem?_eq_getElem hlt) hrepeats
      rw [hi, Option.some.injEq] at hown
      rw [hown]
      exact List.mem_map_of_mem (List.getElem_mem hlt)
  · intro hs
    rcases hs with hs | hs
    · obtain ⟨i, e, he, rfl, hfirst⟩ := exists_first hs
      exact List.mem_of_getElem? (getElem?_slots he hfirst)
    · have hmem := List.mem_map_of_mem (f := some) hs
      rw [← map_slots] at hmem
      obtain ⟨i, -, hi⟩ := List.mem_map.1 hmem
      exact List.mem_of_getElem? hi

/-- The targets of the slots before the rows of no edge are numbered. -/
abbrev assigned (p : Plan) : List Target := assign 0 p.slots (List.replicate p.selectRows .discard)

/-- A slot is assigned a row if it is taken. -/
theorem getElem?_assigned_eq_discard (hsorted : SortedEdges p.edges) (hlimit : p.selectRows ≤ Target.rowLimit)
    {s : Nat} (hs : s < p.selectRows) : p.assigned[s]? = some .discard ↔ s ∉ p.slots := by
  have hedges := p.length_edges_le
  by_cases hmem : s ∈ p.slots
  · obtain ⟨k, hk⟩ := List.mem_iff_getElem?.1 hmem
    obtain ⟨hlt, -⟩ := List.getElem?_eq_some_iff.1 hk
    rw [length_slots] at hlt
    rw [getElem?_assign (nodup_slots hsorted) hk (by rwa [List.length_replicate]), Option.some.injEq]
    exact iff_of_false (ofRow_ne_discard (by omega)) (not_not_intro hmem)
  · rw [getElem?_assign_of_not_mem hmem, List.getElem?_replicate, if_pos hs]
    exact iff_of_true rfl hmem

theorem filter_not_mem_take {α : Type} [DecidableEq α] {l : List α} (h : l.Nodup) (k : Nat) :
    l.filter (fun a => a ∉ l.take k) = l.drop k := by
  have hdisjoint : List.Disjoint (l.take k) (l.drop k) := List.disjoint_take_drop h (Nat.le_refl k)
  conv => lhs; arg 2; rw [← List.take_append_drop k l]
  rw [List.filter_append, List.filter_eq_nil_iff.2 fun a ha => by simpa using ha, List.nil_append,
    List.filter_eq_self]
  intro a ha
  exact decide_eq_true fun hin => hdisjoint hin ha

/-- The free slots that are not borrowed are the slots that nothing is assigned to. -/
theorem holes_assigned (hsorted : SortedEdges p.edges) (hlimit : p.selectRows ≤ Target.rowLimit) :
    holes p.assigned = (freeSlots p.edges 0 p.selectRows).drop p.repeating.length := by
  have hnodup : (freeSlots p.edges 0 p.selectRows).Nodup := nodup_freeSlots
  rw [← filter_not_mem_take hnodup, holes, length_assign, List.length_replicate]
  conv => rhs; arg 2; rw [freeSlots, Nat.sub_zero, ← List.range_eq_range']
  rw [List.filter_filter]
  apply List.filter_congr
  intro s hs
  rw [← Bool.decide_and, decide_eq_decide,
    getElem?_assigned_eq_discard hsorted hlimit (List.mem_range.1 hs), mem_slots, not_or, and_comm]

/-! ### The selection -/

/-- What is known about the rows that the slots get. -/
structure Selection (p : Plan) (rows : List Nat) : Prop where
  perm : rows.Perm (List.range p.selectRows)
  /-- The first edge of a group sits at its source. -/
  first (i : Nat) (e : Edge) : p.edges[i]? = some e → ¬ p.RepeatsAt i → rows[e.source]? = some i
  /-- The edges that repeat a source sit at the first slots that are no source. -/
  borrowed : ((freeSlots p.edges 0 p.selectRows).take p.repeating.length).map (fun s => rows[s]?) =
    p.repeating.map some
  /-- The other slots that are no source get the rows after those of the edges. -/
  rest : ((freeSlots p.edges 0 p.selectRows).drop p.repeating.length).map (fun s => rows[s]?) =
    (List.range' p.edges.length (p.selectRows - p.edges.length)).map some

section Rows

variable (hsorted : SortedEdges p.edges) (hsources : ∀ e ∈ p.edges, e.source < p.sourceRows)
  (hlimit : p.selectRows ≤ Target.rowLimit)

include hsorted hsources hlimit

/-- The rows that the targets of the slots stand for. -/
theorem exists_rows : ∃ rows : List Nat, p.slotTargets = rows.map ofRow ∧
    rows.Perm (List.range p.selectRows) ∧ ∀ s : Nat, p.slotTargets[s]?.bind row? = rows[s]? := by
  have hperm := filterMap_slotTargets hsorted hsources hlimit
  have hall : (p.slotTargets.filterMap row?).length = p.slotTargets.length := by
    rw [hperm.length_eq, List.length_range, length_slotTargets]
  have htargets := map_ofRow_filterMap hall
  generalize p.slotTargets.filterMap row? = rows at hperm htargets
  refine ⟨rows, htargets.symm, hperm, fun s => ?_⟩
  rw [← htargets, List.getElem?_map]
  cases hrow : rows[s]? with
  | none => rfl
  | some i =>
    have hi := List.mem_range.1 (hperm.mem_iff.1 (List.mem_of_getElem? hrow))
    exact row?_ofRow (Nat.lt_of_lt_of_le hi hlimit)

theorem count_assigned : p.edges.length + p.assigned.count .discard = p.selectRows := by
  have hedges := p.length_edges_le
  rw [← p.length_slots] at hedges ⊢
  exact count_assign (nodup_slots hsorted) (fun s => lt_of_mem_slots hsorted hsources)
    (Nat.le_trans hedges hlimit)

/-- Before each slot, and also behind the last one, the number that the next slot left over gets is an index. -/
theorem next_number_lt (k : Nat) : p.edges.length + (p.assigned.take k).count .discard < indexLimit := by
  have hcount := count_assigned hsorted hsources hlimit
  have hprefix := (List.take_sublist k p.assigned).count_le Target.discard
  exact Nat.lt_of_le_of_lt (by omega) (Nat.lt_succ_of_le hlimit)

/-- The slots that no edge takes are numbered on. -/
theorem map_slotTargets_drop :
    ((freeSlots p.edges 0 p.selectRows).drop p.repeating.length).map (fun s => p.slotTargets[s]?) =
      (List.range' p.edges.length (p.selectRows - p.edges.length)).map fun k => some (.ofRow k) := by
  have hcount := count_assigned hsorted hsources hlimit
  have hnumber : p.assigned.count .discard = p.selectRows - p.edges.length := by omega
  have hrest := map_numberRest p.edges.length p.assigned
  rwa [holes_assigned hsorted hlimit, hnumber] at hrest

theorem selection_slotTargets : ∃ rows, p.slotTargets = rows.map ofRow ∧ Selection p rows := by
  have hedges := p.length_edges_le
  obtain ⟨rows, htargets, hperm, hread⟩ := exists_rows hsorted hsources hlimit
  have hslot {i s : Nat} (hi : p.slots[i]? = some s) (hlt : i < p.edges.length) : rows[s]? = some i := by
    rw [← hread, getElem?_slotTargets hsorted hsources hlimit hi, Option.bind_some, row?_ofRow (by omega)]
  refine ⟨rows, htargets, hperm, ?_, ?_, ?_⟩
  · intro i e he hfirst
    obtain ⟨hlt, -⟩ := List.getElem?_eq_some_iff.1 he
    exact hslot (getElem?_slots he hfirst) hlt
  · have hborrowed := congrArg (List.map fun s? => s?.bind fun s => rows[s]?) p.map_slots
    rw [List.map_map, List.map_map] at hborrowed
    refine Eq.trans hborrowed.symm (List.map_congr_left fun i hi => ?_)
    have hlt := List.mem_range.1 (List.mem_of_mem_filter hi)
    have hget := List.getElem?_eq_getElem (l := p.slots) (i := i) (by rwa [length_slots])
    exact (congrArg (Option.bind · fun s => rows[s]?) hget).trans (hslot hget hlt)
  · have hrows := congrArg (List.map (Option.bind · row?)) (map_slotTargets_drop hsorted hsources hlimit)
    rw [List.map_map, List.map_map] at hrows
    refine (List.map_congr_left fun s _ => (hread s).symm).trans
      (hrows.trans (List.map_congr_left fun k hk => ?_))
    have hlt := (List.mem_range'_1.1 hk).2
    exact row?_ofRow (by omega)

end Rows

/-- A plan that has come up in any way, and is grouped, can be selected by, whatever free slots were asked for
before: every slot gets one of the rows, the sources those of the first edges of their groups, and the others
in ascending order those of the edges that repeat a source and then those of no edge. -/
theorem selects_rearrangement (h : p.Reachable) (hgrouped : p.grouped = true)
    (hlimit : p.selectRows < indexLimit) :
    ∃ rows cursor, p.selectTargets = .ok (rows.map ofRow, { p with cursor }) ∧ Selection p rows := by
  have hsources : ∀ e ∈ p.edges, e.source < p.sourceRows := fun e he => (h.mem_edges e he).1
  have hsorted := h.sorted hgrouped
  obtain ⟨cursor, hselect⟩ := selectTargets_eq hsorted hsources (Nat.le_of_lt hlimit)
  obtain ⟨rows, htargets, hrows⟩ := selection_slotTargets hsorted hsources (Nat.le_of_lt_succ hlimit)
  rw [htargets] at hselect
  exact ⟨rows, cursor, hselect, hrows⟩

/-- Three of six edges name source 4, and two of them name source 1; after two searches the plan is selected
by. There are slots for all edges though there are fewer source rows. -/
def crowdedCalls : List Call :=
  [.init 5 6, .add 4 0, .add 1 1, .add 4 2, .add 1 3, .add 4 4, .add 0 5, .group, .nextFree, .nextFree]

theorem selects_rearrangement_of_crowded : (History.run crowdedCalls).plan.grouped = true ∧
    (History.run crowdedCalls).plan.selectRows < indexLimit ∧
    (History.run crowdedCalls).plan.repeating = [2, 4, 5] ∧
    ∃ rows cursor, (History.run crowdedCalls).plan.selectTargets =
      .ok (rows.map ofRow, { (History.run crowdedCalls).plan with cursor }) ∧
        Selection (History.run crowdedCalls).plan rows :=
  have hgrouped : (History.run crowdedCalls).plan.grouped = true := by decide +kernel
  have hlimit : (History.run crowdedCalls).plan.selectRows < indexLimit := by decide +kernel
  ⟨hgrouped, hlimit, by decide +kernel,
    selects_rearrangement (History.faithful_run crowdedCalls).reachable hgrouped hlimit⟩

end ObliviousRouting.Plan
