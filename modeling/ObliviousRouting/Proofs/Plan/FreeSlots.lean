import Mathlib.Data.List.Nodup
import Mathlib.Data.List.TakeWhile
import ObliviousRouting.Plan.Layout

/-!
# The search finds the free slots

The two cursors never have to go back: every edge before the edge cursor has its source before the slot
cursor, so if the edges are ordered, the edge that the edge cursor stops at tells whether the slot is
free. Hence the search hands out all free slots below the bound, from the first one to the last.
-/

namespace ObliviousRouting

abbrev SortedEdges (edges : List Edge) : Prop := edges.Pairwise fun a b => a.source ≤ b.source

/-- The free slots from `slot` up to the bound, in ascending order. -/
def freeSlots (edges : List Edge) (slot bound : Nat) : List Nat :=
  (List.range' slot (bound - slot)).filter fun s => s ∉ edges.map Edge.source

section FreeSlots

variable {edges : List Edge} {slot bound : Nat}

theorem freeSlots_of_le (h : bound ≤ slot) : freeSlots edges slot bound = [] := by
  rw [freeSlots, Nat.sub_eq_zero_of_le h]
  rfl

theorem freeSlots_of_lt (h : slot < bound) :
    freeSlots edges slot bound = if slot ∈ edges.map Edge.source then freeSlots edges (slot + 1) bound
      else slot :: freeSlots edges (slot + 1) bound := by
  have hcount : bound - slot = bound - (slot + 1) + 1 := by omega
  rw [freeSlots, hcount, List.range'_succ, List.filter_cons]
  by_cases hmem : slot ∈ edges.map Edge.source
  · rw [if_pos hmem, if_neg (by simpa using hmem), freeSlots]
  · rw [if_neg hmem, if_pos (by simpa using hmem), freeSlots]

theorem mem_freeSlots {s : Nat} :
    s ∈ freeSlots edges slot bound ↔ (slot ≤ s ∧ s < bound) ∧ s ∉ edges.map Edge.source := by
  rw [freeSlots, List.mem_filter, List.mem_range', decide_eq_true_eq]
  apply and_congr_left
  intro _
  constructor
  · rintro ⟨i, hi, rfl⟩
    omega
  · rintro ⟨hle, hlt⟩
    exact ⟨s - slot, by omega, by omega⟩

theorem nodup_freeSlots : (freeSlots edges slot bound).Nodup :=
  List.Nodup.filter _ List.nodup_range'

end FreeSlots

namespace SlotCursor

/-- All edges before the edge cursor have their sources before the slot cursor. -/
def Passed (c : SlotCursor) (edges : List Edge) : Prop :=
  ∀ e ∈ edges.take c.edge, e.source < c.slot

theorem passed_start (edges : List Edge) : Passed {} edges := fun _ h => nomatch h

variable {c : SlotCursor} {edges : List Edge}

/-- The edges that are skipped are those with sources before the slot. -/
theorem Passed.skipEdges (h : c.Passed edges) : Passed ⟨c.slot, c.skipEdges edges⟩ edges := by
  intro e he
  rw [SlotCursor.skipEdges, List.take_add, ← List.prefix_iff_eq_take.1 (List.takeWhile_prefix _)] at he
  rcases List.mem_append.1 he with he | he
  · exact h e he
  · have hskipped := List.mem_takeWhile_imp he
    exact of_decide_eq_true hskipped

/-- The edge that the edge cursor stops at tells whether the slot is free. -/
theorem Passed.any_eq (h : c.Passed edges) (hsorted : SortedEdges edges) :
    (edges[c.skipEdges edges]?).any (·.source = c.slot) =
      decide (c.slot ∈ edges.map Edge.source) := by
  have hbefore := h.skipEdges
  have hrest : edges.drop (c.skipEdges edges) =
      (edges.drop c.edge).dropWhile fun e => e.source < c.slot := by
    rw [SlotCursor.skipEdges, ← List.drop_drop]
    conv => lhs; arg 2; rw [← List.takeWhile_append_dropWhile (p := fun e => e.source < c.slot)
      (l := edges.drop c.edge)]
    exact List.drop_left
  have hhead := List.head?_dropWhile_not (fun e : Edge => decide (e.source < c.slot)) (edges.drop c.edge)
  have hlater := hsorted.sublist (List.drop_sublist (c.skipEdges edges) edges)
  have hmem : c.slot ∈ edges.map Edge.source ↔
      c.slot ∈ (edges.drop (c.skipEdges edges)).map Edge.source := by
    conv => lhs; rw [← List.take_append_drop (c.skipEdges edges) edges, List.map_append]
    rw [List.mem_append, or_iff_right]
    intro hin
    obtain ⟨e, he, hsource⟩ := List.mem_map.1 hin
    exact absurd hsource (Nat.ne_of_lt (hbefore e he))
  rw [← List.head?_drop, Bool.eq_iff_iff, decide_eq_true_eq, hmem]
  rw [← hrest] at hhead
  cases hdrop : edges.drop (c.skipEdges edges) with
  | nil => simp
  | cons e rest =>
    rw [hdrop] at hhead hlater
    have hge : c.slot ≤ e.source := Nat.le_of_not_lt (of_decide_eq_false hhead)
    rw [List.head?_cons, Option.any_some, decide_eq_true_eq, List.map_cons, List.mem_cons]
    constructor
    · exact fun heq => .inl heq.symm
    · rintro (heq | hin)
      · exact heq.symm
      · obtain ⟨e', he', hsource⟩ := List.mem_map.1 hin
        have hle := (List.pairwise_cons.1 hlater).1 e' he'
        omega

theorem next_spec (hsorted : SortedEdges edges) (bound : Nat) (h : c.Passed edges) :
    (c.next edges bound).1 = (freeSlots edges c.slot bound).head? ∧
      (c.next edges bound).2.Passed edges ∧
      freeSlots edges (c.next edges bound).2.slot bound = (freeSlots edges c.slot bound).tail := by
  fun_induction c.next edges bound with
  | case1 c hlt edge hsource ih =>
    rw [h.any_eq hsorted, decide_eq_true_eq] at hsource
    rw [freeSlots_of_lt hlt, if_pos hsource]
    apply ih
    intro e he
    exact Nat.lt_succ_of_lt (h.skipEdges e he)
  | case2 c hlt edge hsource =>
    rw [h.any_eq hsorted, decide_eq_true_eq] at hsource
    rw [freeSlots_of_lt hlt, if_neg hsource]
    exact ⟨rfl, fun e he => Nat.lt_succ_of_lt (h.skipEdges e he), rfl⟩
  | case3 c hge =>
    rw [freeSlots_of_le (Nat.le_of_not_lt hge)]
    exact ⟨rfl, h, rfl⟩

end SlotCursor

end ObliviousRouting
