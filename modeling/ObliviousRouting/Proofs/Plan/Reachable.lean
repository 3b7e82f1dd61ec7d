import ObliviousRouting.Proofs.Plan.Feeding

/-!
# Plans that can come up

Every plan starts without edges. Edges are added one by one, also where a plan is made from a list of
sources; they are grouped, and every search for free slots, those of a run included, moves the cursor. So
once a plan is grouped its edges are in order and name rows of the plan only.
-/

namespace ObliviousRouting.Plan

/-- Plans that come of plans without edges. -/
inductive Reachable : Plan → Prop
  | blank (sourceRows destinationRows : Nat) : Reachable (blank sourceRows destinationRows)
  | add {p q : Plan} {source destination : Nat} :
      Reachable p → p.add source destination = .ok q → Reachable q
  | group {p : Plan} : Reachable p → Reachable p.group
  | search {p : Plan} (cursor : SlotCursor) : Reachable p → Reachable { p with cursor }

variable {p : Plan}

namespace Reachable

theorem mem_edges (h : p.Reachable) :
    ∀ e ∈ p.edges, e.source < p.sourceRows ∧ e.destination < p.destinationRows := by
  induction h with
  | blank m n => exact fun e he => nomatch he
  | @add p q source destination _ hadd ih =>
    rw [Plan.add] at hadd
    split_ifs at hadd with _ hsource hdestination
    cases hadd
    intro e he
    rcases List.mem_append.1 he with he | he
    · exact ih e he
    · rw [List.eq_of_mem_singleton he]
      exact ⟨Nat.lt_of_not_le hsource, Nat.lt_of_not_le hdestination⟩
  | @group p _ ih =>
    intro e he
    rw [group_sourceRows, group_destinationRows]
    exact ih e ((group_edges_perm p).mem_iff.1 he)
  | search cursor _ ih => exact ih

theorem sorted (h : p.Reachable) (hgrouped : p.grouped = true) : SortedEdges p.edges := by
  induction h with
  | blank m n => exact .nil
  | add _ hadd =>
    rw [Plan.add] at hadd
    split_ifs at hadd with hopen
    cases hadd
    exact absurd hgrouped hopen
  | @group p _ ih =>
    rw [Plan.group]
    split
    · next h => exact ih h
    · exact (groupEdges_spec p.edges).2
  | search cursor _ ih => exact ih hgrouped

theorem sound_group (h : p.Reachable) : p.group.Sound where
  sorted := h.group.sorted (grouped_group p)
  source_lt e he := (h.group.mem_edges e he).1
  destination_lt e he := (h.group.mem_edges e he).2

end Reachable

end ObliviousRouting.Plan
