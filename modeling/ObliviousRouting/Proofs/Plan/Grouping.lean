import Mathlib.Data.Finset.Card
import Mathlib.Order.Interval.Finset.Nat
import ObliviousRouting.Plan.Grouping

/-!
# Grouped plans

The edges of a source belong to the places from the number of edges with a smaller source on. While the
edges are exchanged, all places that have had their turn hold an edge that belongs there, and so does the
filled beginning of each group. A group has room for its own edges only, so an edge whose next place does
not lie before it is where it belongs already. At the end all edges are, which means that they are ordered
by source.
-/

namespace ObliviousRouting

/-! ### Tables -/

namespace PlaceTable

theorem lookup_advance (table : PlaceTable) (source s : Nat) :
    (advance table source).lookup s =
      (table.lookup s).map fun place => if s = source then place + 1 else place := by
  induction table with
  | nil => rfl
  | cons entry table ih =>
    obtain ⟨t, place⟩ := entry
    simp only [advance, List.map_cons] at ih ⊢
    by_cases ht : t = source
    · rw [if_pos ht, List.lookup_cons, List.lookup_cons]
      by_cases hs : s = t
      · simp [hs, ht]
      · simp only [beq_eq_false_iff_ne.2 hs]
        exact ih
    · rw [if_neg ht, List.lookup_cons, List.lookup_cons]
      by_cases hs : s = t
      · simp [hs, ht]
      · simp only [beq_eq_false_iff_ne.2 hs]
        exact ih

theorem lookup_ofEdges (edges : List Edge) (s : Nat) :
    (ofEdges edges).lookup s =
      if s ∈ edges.map Edge.source then some (edges.countP fun e => e.source < s) else none := by
  rw [ofEdges]
  simp only [← List.mem_eraseDups (l := edges.map Edge.source)]
  induction (edges.map Edge.source).eraseDups with
  | nil => rfl
  | cons t sources ih =>
    rw [List.map_cons, List.lookup_cons]
    by_cases hs : s = t
    · simp [hs]
    · simp only [beq_eq_false_iff_ne.2 hs, List.mem_cons, hs, false_or]
      exact ih

end PlaceTable

namespace Plan

/-! ### Room for a group -/

/-- Where the group of a source begins. The next group begins where it ends. -/
def groupStart (edges : List Edge) (s : Nat) : Nat := edges.countP fun e => e.source < s

theorem groupStart_succ (edges : List Edge) (s : Nat) :
    groupStart edges (s + 1) = groupStart edges s + edges.countP fun e => e.source = s := by
  induction edges with
  | nil => rfl
  | cons e edges ih =>
    simp only [groupStart, List.countP_cons, decide_eq_true_eq] at ih ⊢
    split_ifs <;> omega

theorem groupStart_mono (edges : List Edge) {s t : Nat} (h : s ≤ t) :
    groupStart edges s ≤ groupStart edges t := by
  apply List.countP_mono_left
  intro e _ he
  rw [decide_eq_true_eq] at he ⊢
  omega

/-- A place is in one group only. -/
theorem eq_of_mem_group {edges : List Edge} {s t j : Nat} (hs : groupStart edges s ≤ j)
    (hs' : j < groupStart edges (s + 1)) (ht : groupStart edges t ≤ j)
    (ht' : j < groupStart edges (t + 1)) : s = t := by
  rcases Nat.lt_trichotomy s t with hlt | heq | hgt
  · have hmono := groupStart_mono edges (s := s + 1) (t := t) hlt
    omega
  · exact heq
  · have hmono := groupStart_mono edges (s := t + 1) (t := s) hgt
    omega

/-- The edges at some places are no more than all edges of their source. -/
theorem card_le_countP (edges : List Edge) {s : Nat} {places : Finset Nat}
    (h : ∀ j ∈ places, (edges[j]?).map Edge.source = some s) :
    places.card ≤ edges.countP fun e => e.source = s := by
  induction edges using List.reverseRecOn generalizing places with
  | nil =>
    have hempty : places = ∅ := by
      rw [Finset.eq_empty_iff_forall_notMem]
      intro j hj
      cases h j hj
    rw [hempty]
    exact Nat.le_refl _
  | append_singleton edges e ih =>
    have hbefore : (places.erase edges.length).card ≤ edges.countP fun e => e.source = s := by
      apply ih
      intro j hj
      obtain ⟨hne, hj⟩ := Finset.mem_erase.1 hj
      have hsource := h j hj
      rcases Nat.lt_or_ge j edges.length with hlt | hge
      · rwa [List.getElem?_append_left hlt] at hsource
      · rw [List.getElem?_eq_none] at hsource
        · cases hsource
        · rw [List.length_append, List.length_singleton]
          omega
    rw [List.countP_append]
    by_cases hlast : edges.length ∈ places
    · have hsource := h _ hlast
      rw [List.getElem?_concat_length] at hsource
      have hone : ([e].countP fun e => e.source = s) = 1 := by
        simpa using hsource
      have hcard := Finset.card_erase_add_one hlast
      omega
    · rw [Finset.erase_eq_of_notMem hlast] at hbefore
      omega

/-! ### Exchanging edges -/

/-- What holds between two turns, when the places from `i` on have had theirs. -/
structure Settling (original : List Edge) (i : Nat) (edges : Array Edge) (table : PlaceTable) : Prop where
  perm : edges.toList.Perm original
  home : ∀ j e, i ≤ j → edges[j]? = some e →
    groupStart original e.source ≤ j ∧ j < groupStart original (e.source + 1)
  filled : ∀ s place, table.lookup s = some place → groupStart original s ≤ place ∧
    ∀ j, groupStart original s ≤ j → j < place → (edges[j]?).map Edge.source = some s
  known : ∀ e ∈ original, ∃ place, table.lookup e.source = some place

namespace Settling

variable {original : List Edge} {i : Nat} {edges : Array Edge} {table : PlaceTable}

theorem card_le (h : Settling original i edges table) {s : Nat} (places : Finset Nat)
    (hplaces : ∀ j ∈ places, (edges[j]?).map Edge.source = some s) :
    places.card ≤ groupStart original (s + 1) - groupStart original s := by
  have hle := card_le_countP edges.toList (s := s) (by simpa using hplaces)
  rw [groupStart_succ, Nat.add_sub_cancel_left, ← h.perm.countP_eq]
  exact hle

theorem place_le (h : Settling original i edges table) {s place : Nat}
    (hplace : table.lookup s = some place) : place ≤ groupStart original (s + 1) := by
  obtain ⟨hstart, hfilled⟩ := h.filled s place hplace
  have hcard := h.card_le (s := s) (Finset.Ico (groupStart original s) place) (by
    intro j hj
    rw [Finset.mem_Ico] at hj
    exact hfilled j hj.1 hj.2)
  have hmono := groupStart_mono original (Nat.le_add_right s 1)
  rw [Nat.card_Ico] at hcard
  omega

/-- While an edge of a source stands outside the filled beginning of the group, the group has room. -/
theorem place_lt (h : Settling original i edges table) {s place k : Nat}
    (hplace : table.lookup s = some place) (hk : (edges[k]?).map Edge.source = some s)
    (hout : k < groupStart original s ∨ place ≤ k) : place < groupStart original (s + 1) := by
  obtain ⟨hstart, hfilled⟩ := h.filled s place hplace
  have hcard := h.card_le (s := s) (insert k (Finset.Ico (groupStart original s) place)) (by
    intro j hj
    rcases Finset.mem_insert.1 hj with rfl | hj
    · exact hk
    · rw [Finset.mem_Ico] at hj
      exact hfilled j hj.1 hj.2)
  rw [Finset.card_insert_of_notMem (by rw [Finset.mem_Ico]; omega), Nat.card_Ico] at hcard
  omega

/-- An edge whose next place lies before it is exchanged with the one there. -/
theorem swap (h : Settling original (i + 1) edges table) {e : Edge} {place : Nat}
    (he : edges[i]? = some e) (hplace : table.lookup e.source = some place) (hlt : place < i) :
    Settling original (i + 1) (edges.swapIfInBounds i place) (table.advance e.source) := by
  obtain ⟨hi, heq⟩ := Array.getElem?_eq_some_iff.1 he
  have hsource : (edges[i]?).map Edge.source = some e.source := by rw [he, Option.map_some]
  have hroom := h.place_lt hplace hsource (.inr (Nat.le_of_lt hlt))
  have hstart := (h.filled _ _ hplace).1
  have hi' : place < edges.size := Nat.lt_trans hlt hi
  have hswap (j : Nat) : (edges.swapIfInBounds i place)[j]? =
      if place = j then some e else if i = j then some edges[place] else edges[j]? := by
    rw [Array.swapIfInBounds_def, dif_pos hi, dif_pos hi', Array.getElem?_swap, heq]
  constructor
  · rw [Array.swapIfInBounds_def, dif_pos hi, dif_pos hi']
    exact (Array.swap_perm _ _).toList.trans h.perm
  · intro j e' hj he'
    rw [hswap, if_neg (by omega), if_neg (by omega)] at he'
    exact h.home j e' hj he'
  · intro s place' hs
    rw [PlaceTable.lookup_advance] at hs
    obtain ⟨p, hp, hp'⟩ := Option.map_eq_some_iff.1 hs
    obtain ⟨hbegin, hfilled⟩ := h.filled s p hp
    by_cases hes : s = e.source
    · subst hes
      obtain rfl := Option.some.inj (hplace.symm.trans hp)
      rw [if_pos rfl] at hp'
      subst hp'
      refine ⟨Nat.le_succ_of_le hbegin, fun j hj hj' => ?_⟩
      rw [hswap]
      split_ifs with hjp hji
      · rfl
      · omega
      · exact hfilled j hj (by omega)
    · rw [if_neg hes] at hp'
      subst hp'
      refine ⟨hbegin, fun j hj hj' => ?_⟩
      have hne : place ≠ j := by
        rintro rfl
        exact hes (eq_of_mem_group hj (Nat.lt_of_lt_of_le hj' (h.place_le hp)) hstart hroom)
      have hne' : i ≠ j := by
        rintro rfl
        have hother := hfilled i hj hj'
        rw [hsource] at hother
        exact hes (Option.some.inj hother).symm
      rw [hswap, if_neg hne, if_neg hne']
      exact hfilled j hj hj'
  · intro e' he'
    obtain ⟨p, hp⟩ := h.known e' he'
    rw [PlaceTable.lookup_advance, hp]
    exact ⟨_, rfl⟩

/-- An edge whose next place does not lie before it is where it belongs. -/
theorem stay (h : Settling original (i + 1) edges table) {e : Edge} {place : Nat}
    (he : edges[i]? = some e) (hplace : table.lookup e.source = some place) (hle : i ≤ place) :
    Settling original i edges table := by
  have hsource : (edges[i]?).map Edge.source = some e.source := by rw [he, Option.map_some]
  obtain ⟨hstart, hfilled⟩ := h.filled _ _ hplace
  have hhome : groupStart original e.source ≤ i ∧ i < groupStart original (e.source + 1) := by
    constructor
    · -- otherwise the whole group lies behind `i` and holds its edges, with no room for this one
      by_contra hbefore
      have hcard := h.card_le (s := e.source) (insert i (Finset.Ico
        (groupStart original e.source) (groupStart original (e.source + 1)))) (by
        intro j hj
        rcases Finset.mem_insert.1 hj with rfl | hj
        · exact hsource
        · rw [Finset.mem_Ico] at hj
          have hsize : groupStart original (e.source + 1) ≤ edges.size := by
            rw [← Array.length_toList, h.perm.length_eq]
            exact List.countP_le_length
          have hget := Array.getElem?_eq_getElem (Nat.lt_of_lt_of_le hj.2 hsize)
          have hother := h.home j _ (by omega) hget
          rw [hget, Option.map_some, eq_of_mem_group hother.1 hother.2 hj.1 hj.2])
      rw [Finset.card_insert_of_notMem (by rw [Finset.mem_Ico]; omega), Nat.card_Ico] at hcard
      omega
    · have hend := h.place_le hplace
      rcases Nat.lt_or_eq_of_le hle with hlt | rfl
      · omega
      · exact h.place_lt hplace hsource (.inr (Nat.le_refl i))
  refine ⟨h.perm, fun j e' hj he' => ?_, h.filled, h.known⟩
  rcases Nat.lt_or_eq_of_le hj with hlt | rfl
  · exact h.home j e' hlt he'
  · rw [he] at he'
    cases he'
    exact hhome

theorem settle (h : Settling original (i + 1) edges table) :
    Settling original i (settle i edges table).1 (settle i edges table).2 := by
  fun_induction Plan.settle i edges table with
  | case1 edges table hnone =>
    refine ⟨h.perm, fun j e hj he => ?_, h.filled, h.known⟩
    rcases Nat.lt_or_eq_of_le hj with hlt | rfl
    · exact h.home j e hlt he
    · rw [hnone] at he
      cases he
  | case2 edges table e he hnone =>
    have hmem : e ∈ edges.toList := Array.mem_toList_iff.2 (Array.mem_of_getElem? he)
    obtain ⟨place, hplace⟩ := h.known e (h.perm.mem_iff.1 hmem)
    rw [hnone] at hplace
    cases hplace
  | case3 edges table e he place hplace hlt ih => exact ih (h.swap he hplace hlt)
  | case4 edges table e he place hplace hnot => exact h.stay he hplace (Nat.le_of_not_lt hnot)

/-- The turns of all places, the last one first. -/
theorem foldl_settle {n : Nat} (start : Array Edge × PlaceTable)
    (h : Settling original n start.1 start.2) :
    ∃ table, Settling original 0
      (((List.range n).reverse.foldl (fun (edges, table) i => Plan.settle i edges table) start)).1
      table := by
  induction n generalizing start with
  | zero => exact ⟨_, h⟩
  | succ n ih =>
    rw [List.range_succ, List.reverse_concat, List.foldl_cons]
    exact ih _ h.settle

end Settling

theorem settling_start (edges : List Edge) :
    Settling edges edges.length edges.toArray (PlaceTable.ofEdges edges) where
  perm := .refl _
  home j e hj he := by
    rw [List.getElem?_toArray, List.getElem?_eq_none hj] at he
    cases he
  filled s place hs := by
    rw [PlaceTable.lookup_ofEdges] at hs
    split at hs
    · cases hs
      exact ⟨Nat.le_refl _, fun j hj hj' => absurd hj' (Nat.not_lt_of_le hj)⟩
    · cases hs
  known e he := ⟨_, (PlaceTable.lookup_ofEdges ..).trans (if_pos (List.mem_map_of_mem he))⟩

/-- Grouping rearranges the edges, and orders them by source. -/
theorem groupEdges_spec (edges : List Edge) :
    (groupEdges edges).Perm edges ∧ (groupEdges edges).Pairwise fun a b => a.source ≤ b.source := by
  obtain ⟨table, h⟩ := Settling.foldl_settle (edges.toArray, PlaceTable.ofEdges edges)
    (settling_start edges)
  refine ⟨h.perm, ?_⟩
  rw [List.pairwise_iff_getElem]
  intro i j hi hj hij
  have hhome (k : Nat) (hk : k < (groupEdges edges).length) :=
    h.home k (groupEdges edges)[k] (Nat.zero_le k) (by
      rw [← Array.getElem?_toList]
      exact List.getElem?_eq_getElem hk)
  have hfirst := hhome i hi
  have hsecond := hhome j hj
  by_contra hlt
  have hmono := groupStart_mono edges (s := (groupEdges edges)[j].source + 1) (Nat.lt_of_not_le hlt)
  omega

@[simp] theorem group_sourceRows (p : Plan) : p.group.sourceRows = p.sourceRows := by
  rw [group]
  split <;> rfl

@[simp] theorem group_destinationRows (p : Plan) : p.group.destinationRows = p.destinationRows := by
  rw [group]
  split <;> rfl

theorem group_edges_perm (p : Plan) : p.group.edges.Perm p.edges := by
  rw [group]
  split
  · exact .refl _
  · exact (groupEdges_spec p.edges).1

end Plan

end ObliviousRouting
