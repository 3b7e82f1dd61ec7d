import ObliviousRouting.Proofs.Plan.Check

/-!
# Plans that were built

A plan is built by adding edges, in any order. Using it groups its edges and moves its search for free
slots, and does not change what it says. It feeds every destination row if one edge was added for each.
-/

namespace ObliviousRouting.Plan

theorem grouped_group (p : Plan) : p.group.grouped = true := by
  rw [group]
  split_ifs with h
  · exact h
  · rfl

theorem group_of_grouped {p : Plan} (h : p.grouped = true) : p.group = p := if_pos h

/-- A plan for `m` source rows and `n` destination rows was built by adding edges to one without any. It may
have been used since. -/
def Built (p : Plan) (m n : Nat) (edges : List Edge) : Prop :=
  ∃ q, (blank m n).addAll edges = .ok q ∧ (p = q ∨ ∃ cursor, p = { q.group with cursor })

/-- One edge was added for each of `n` destination rows, that of row `d` from row `f d` of `m` source rows,
in some order. -/
def Feeds (p : Plan) (m n : Nat) (f : Nat → Nat) : Prop :=
  ∃ edges, edges.Perm ((List.range n).map fun d => ⟨f d, d⟩) ∧ p.Built m n edges

variable {p : Plan} {m n : Nat} {f : Nat → Nat} {edges : List Edge}

namespace Built

theorem rows_eq (h : p.Built m n edges) : p.sourceRows = m ∧ p.destinationRows = n := by
  obtain ⟨q, hadd, hp⟩ := h
  obtain ⟨rfl, -, -⟩ := addAll_eq_ok hadd
  rcases hp with rfl | ⟨cursor, rfl⟩
  · exact ⟨rfl, rfl⟩
  · exact ⟨group_sourceRows _, group_destinationRows _⟩

/-- Whether the plan was used or not, it has the edges that were added, ordered by source. -/
theorem group_edges (h : p.Built m n edges) : SortedEdges p.group.edges ∧ p.group.edges.Perm edges := by
  obtain ⟨q, hadd, hp⟩ := h
  obtain ⟨hq, -, -⟩ := addAll_eq_ok hadd
  have hsorted := sorted_group_of_addAll hadd
  have hperm : q.group.edges.Perm edges := (group_edges_perm q).trans (by rw [hq]; exact .refl _)
  rcases hp with rfl | ⟨cursor, rfl⟩
  · exact ⟨hsorted, hperm⟩
  · rw [group_of_grouped (p := { q.group with cursor }) (grouped_group q)]
    exact ⟨hsorted, hperm⟩

theorem source_lt (h : p.Built m n edges) {e : Edge} (he : e ∈ edges) : e.source < m := by
  obtain ⟨q, hadd, -⟩ := h
  exact ((addAll_eq_ok hadd).2.2 e he).1

theorem group_source_lt (h : p.Built m n edges) : ∀ e ∈ p.group.edges, e.source < p.group.sourceRows := by
  intro e he
  rw [group_sourceRows, h.rows_eq.1]
  exact h.source_lt (h.group_edges.2.mem_iff.1 he)

end Built

namespace Feeds

theorem mem_edges_iff (h : p.Feeds m n f) {e : Edge} :
    e ∈ p.group.edges ↔ e.destination < n ∧ e.source = f e.destination := by
  obtain ⟨edges, hperm, hbuilt⟩ := h
  rw [(hbuilt.group_edges.2.trans hperm).mem_iff, List.mem_map]
  constructor
  · rintro ⟨d, hd, rfl⟩
    exact ⟨List.mem_range.1 hd, rfl⟩
  · rintro ⟨hd, hsource⟩
    exact ⟨e.destination, List.mem_range.2 hd, by rw [← hsource]⟩

theorem source_lt (h : p.Feeds m n f) {d : Nat} (hd : d < n) : f d < m := by
  have hmem := h.mem_edges_iff (e := ⟨f d, d⟩).2 ⟨hd, rfl⟩
  obtain ⟨edges, -, hbuilt⟩ := h
  exact hbuilt.source_lt (hbuilt.group_edges.2.mem_iff.1 hmem)

theorem complete (h : p.Feeds m n f) : p.group.Complete := by
  obtain ⟨edges, hperm, hbuilt⟩ := h
  refine ⟨hbuilt.group_source_lt, ?_⟩
  have hmap := (hbuilt.group_edges.2.trans hperm).map Edge.destination
  rw [List.map_map] at hmap
  rw [group_destinationRows, hbuilt.rows_eq.2]
  exact hmap.trans (.of_eq (List.map_id _))

theorem injective (h : p.Feeds m n f) (hf : ∀ d < n, ∀ d' < n, f d = f d' → d = d') :
    p.group.Injective := by
  obtain ⟨edges, hperm, hbuilt⟩ := h
  have hmap := (hbuilt.group_edges.2.trans hperm).map Edge.source
  rw [List.map_map] at hmap
  refine hmap.nodup_iff.2 (List.nodup_range.map_on ?_)
  intro d hd d' hd' heq
  exact hf d (List.mem_range.1 hd) d' (List.mem_range.1 hd') heq

end Feeds

end ObliviousRouting.Plan
