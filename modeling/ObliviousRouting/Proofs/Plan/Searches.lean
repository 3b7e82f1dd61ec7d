import ObliviousRouting.Proofs.Plan.Consistency
import ObliviousRouting.Proofs.Plan.Selection

/-!
# What a search for free slots answers

To those who search, the two cursors are a list of slots of which some have been handed out: a search takes the
first one that is left, finds nothing once none is, and a restart puts all of them back. So after a
restart the answers are the free slots in ascending order, whatever was asked before. The slots of a grouped
plan are enough for all edges that repeat a source.
-/

namespace ObliviousRouting

/-- What is asked of a search: the next free slot, or to begin anew. -/
inductive Search where
  | next
  | restart
deriving DecidableEq

/-- The slots below a bound that are no edge's source, in ascending order. -/
structure FreeBelow (edges : List Edge) (bound : Nat) (slots : List Nat) : Prop where
  ascending : slots.Pairwise (· < ·)
  mem_iff (s : Nat) : s ∈ slots ↔ s < bound ∧ ∀ e ∈ edges, e.source ≠ s

theorem freeBelow_freeSlots (edges : List Edge) (bound : Nat) :
    FreeBelow edges bound (freeSlots edges 0 bound) := by
  constructor
  · exact (List.pairwise_lt_range' 1).filter _
  · intro s
    rw [mem_freeSlots, List.mem_map]
    simp only [Nat.zero_le, true_and, not_exists, not_and]

/-- The first so many elements of a list are its head and those of its tail, one fewer. -/
theorem map_getElem?_succ {α β : Type} (f : Option α → β) (l : List α) (k : Nat) :
    ((List.range (k + 1)).map fun i => f l[i]?) =
      f l.head? :: (List.range k).map fun i => f l.tail[i]? := by
  rw [List.range_succ_eq_map, List.map_cons, List.map_map, List.head?_eq_getElem?]
  simp only [Function.comp_def, Nat.succ_eq_add_one, List.getElem?_tail]

namespace SlotCursor

/-- The answers to a series of searches. -/
def answers (edges : List Edge) (bound : Nat) (c : SlotCursor) : List Search → List (Option Nat)
  | [] => []
  | .next :: rest => (c.next edges bound).1 :: answers edges bound (c.next edges bound).2 rest
  | .restart :: rest => answers edges bound {} rest

/-- Whatever was asked before, after a restart some slots are handed out one after the other, and then none. -/
def HandsOut (edges : List Edge) (bound : Nat) (slots : List Nat) : Prop :=
  ∀ c before k, answers edges bound c (before ++ .restart :: List.replicate k .next) =
    answers edges bound c before ++ (List.range k).map fun i => slots[i]?

variable {edges : List Edge}

/-- The slots that are left are found one after the other. -/
theorem answers_replicate (hsorted : SortedEdges edges) (bound : Nat) {c : SlotCursor} (h : c.Passed edges)
    (k : Nat) : answers edges bound c (List.replicate k .next) =
      (List.range k).map fun i => (freeSlots edges c.slot bound)[i]? := by
  induction k generalizing c with
  | zero => rfl
  | succ k ih =>
    obtain ⟨hslot, hpassed, hrest⟩ := next_spec hsorted bound h
    rw [List.replicate_succ, answers, ih hpassed, hslot, hrest]
    exact (map_getElem?_succ id _ k).symm

/-- A restart makes earlier searches forgotten. -/
theorem answers_append_restart (bound : Nat) (c : SlotCursor) (before after : List Search) :
    answers edges bound c (before ++ .restart :: after) =
      answers edges bound c before ++ answers edges bound {} after := by
  induction before generalizing c with
  | nil => rfl
  | cons search before ih =>
    cases search with
    | next => exact congrArg ((c.next edges bound).1 :: ·) (ih _)
    | restart => exact ih _

theorem handsOut_freeSlots (hsorted : SortedEdges edges) (bound : Nat) :
    HandsOut edges bound (freeSlots edges 0 bound) := by
  intro c before k
  rw [answers_append_restart, answers_replicate hsorted bound (passed_start edges)]

end SlotCursor

namespace Plan

/-- The answers of a plan to a series of searches. -/
def answers (p : Plan) : List Search → List (Except PlanError Nat)
  | [] => []
  | .next :: rest => p.nextFree.1 :: p.nextFree.2.answers rest
  | .restart :: rest => p.rewind.answers rest

/-- Some slots are handed out one after the other, and then it is said that there is none: after a restart, whatever
was asked before, and without a restart if nothing was asked. -/
structure HandsOut (p : Plan) (slots : List Nat) : Prop where
  restarted (before : List Search) (k : Nat) : p.answers (before ++ .restart :: List.replicate k .next) =
    p.answers before ++ (List.range k).map fun i => slotAnswer slots[i]?
  untouched (k : Nat) : p.cursor = {} →
    p.answers (List.replicate k .next) = (List.range k).map fun i => slotAnswer slots[i]?

variable {p : Plan}

theorem answers_replicate (hsorted : SortedEdges p.edges) (hpassed : p.cursor.Passed p.edges)
    (hlimit : p.selectRows ≤ indexLimit) (k : Nat) : p.answers (List.replicate k .next) =
      (List.range k).map fun i => slotAnswer (freeSlots p.edges p.cursor.slot p.selectRows)[i]? := by
  induction k generalizing p with
  | zero => rfl
  | succ k ih =>
    obtain ⟨cursor, hnext, hpassed', hrest⟩ := nextFree_eq hsorted hpassed hlimit
    have hlater := ih (p := { p with cursor }) hsorted hpassed' hlimit
    change _ = (List.range k).map fun i => slotAnswer (freeSlots p.edges cursor.slot p.selectRows)[i]? at hlater
    rw [List.replicate_succ, answers, hnext, hlater, hrest]
    exact (map_getElem?_succ slotAnswer _ k).symm

theorem answers_append_restart (before after : List Search) :
    p.answers (before ++ .restart :: after) = p.answers before ++ p.rewind.answers after := by
  induction before generalizing p with
  | nil => rfl
  | cons search before ih =>
    cases search with
    | next =>
      obtain ⟨cursor, hcursor⟩ := nextFree_cursor p
      have hrest := ih (p := p.nextFree.2)
      rw [show p.nextFree.2.rewind = p.rewind by rw [hcursor]; rfl] at hrest
      exact congrArg (p.nextFree.1 :: ·) hrest
    | restart => exact ih

theorem handsOut_freeSlots (hsorted : SortedEdges p.edges) (hlimit : p.selectRows ≤ indexLimit) :
    p.HandsOut (freeSlots p.edges 0 p.selectRows) := by
  have hstart := SlotCursor.passed_start p.edges
  constructor
  · intro before k
    have hrestarted := answers_replicate (p := p.rewind) hsorted hstart hlimit k
    rw [answers_append_restart, hrestarted]
    rfl
  · intro k hcursor
    rw [answers_replicate hsorted (by rw [hcursor]; exact hstart) hlimit k, hcursor]

/-- The free slots are handed out in ascending order, each one once: by the cursors alone, for any edges that are
ordered by source and any bound, and by every grouped plan, which has such a slot for each edge that repeats a
source. -/
theorem searches_find_free_slots :
    (∀ edges bound, SortedEdges edges →
      ∃ slots, FreeBelow edges bound slots ∧ SlotCursor.HandsOut edges bound slots) ∧
    ∀ calls t, (∀ call ∈ calls, call.Fits) → Tally.run calls = .ok t → t.plan.grouped = true →
      ∃ slots, FreeBelow t.plan.edges (max t.plan.sourceRows t.plan.edges.length) slots ∧
        t.plan.HandsOut slots ∧ t.plan.repeating.length ≤ slots.length := by
  constructor
  · intro edges bound hsorted
    exact ⟨freeSlots edges 0 bound, freeBelow_freeSlots edges bound,
      SlotCursor.handsOut_freeSlots hsorted bound⟩
  · intro calls t hfits hrun hgrouped
    have hconsistent := Tally.consistent_run hfits hrun
    have hsorted := hconsistent.reachable.sorted hgrouped
    have hlimit : t.plan.selectRows < indexLimit :=
      max_lt hconsistent.rows_lt (hconsistent.edges_lt hgrouped)
    refine ⟨freeSlots t.plan.edges 0 t.plan.selectRows, freeBelow_freeSlots _ _,
      handsOut_freeSlots hsorted (Nat.le_of_lt hlimit), ?_⟩
    rw [length_repeating]
    exact t.plan.repeats_le_length_freeSlots

/-- Two edges from source 1 and two others, searched beyond the source of the last one, and a plan that has been
searched twice before. -/
theorem searches_find_free_slots_of_crowded :
    (SortedEdges [⟨1, 1⟩, ⟨1, 3⟩, ⟨3, 2⟩, ⟨7, 0⟩] ∧
      ∃ slots, FreeBelow [⟨1, 1⟩, ⟨1, 3⟩, ⟨3, 2⟩, ⟨7, 0⟩] 10 slots ∧
        SlotCursor.HandsOut [⟨1, 1⟩, ⟨1, 3⟩, ⟨3, 2⟩, ⟨7, 0⟩] 10 slots) ∧
    (∀ call ∈ crowdedCalls, call.Fits) ∧ ∃ t, Tally.run crowdedCalls = .ok t ∧ t.plan.grouped = true ∧
      ∃ slots, FreeBelow t.plan.edges (max t.plan.sourceRows t.plan.edges.length) slots ∧
        t.plan.HandsOut slots ∧ t.plan.repeating.length ≤ slots.length := by
  have hsorted : SortedEdges [⟨1, 1⟩, ⟨1, 3⟩, ⟨3, 2⟩, ⟨7, 0⟩] := by decide
  have hfits : ∀ call ∈ crowdedCalls, call.Fits := by simp [crowdedCalls, Call.Fits, indexLimit]
  have hlimit : ∀ before ∈ crowdedCalls.inits, (History.run before).accepted.length < indexLimit := by
    decide +kernel
  obtain ⟨t, hrun, hplan, -⟩ := Tally.run_eq crowdedCalls hlimit
  have hgrouped : t.plan.grouped = true := by
    rw [hplan]
    decide +kernel
  exact ⟨⟨hsorted, searches_find_free_slots.1 _ _ hsorted⟩, hfits, t, hrun, hgrouped,
    searches_find_free_slots.2 _ _ hfits hrun hgrouped⟩

end Plan

end ObliviousRouting
