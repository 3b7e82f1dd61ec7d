import Mathlib.Data.List.GetD
import ObliviousRouting.Proofs.Plan.Check

/-!
# Edges that repeat a source

The edges of a source stand next to each other once a plan is grouped, and all of them but the first one
repeat it. A row that is made for the first edge of a group and copied for each further one is thus the
row of the source of its edge.
-/

namespace ObliviousRouting.Plan

variable {p : Plan} {rows i : Nat}

/-- Which of the first rows stand for an edge that repeats the source of the edge before it. -/
def copies (p : Plan) (rows : Nat) : List Bool :=
  (List.range rows).map fun i => decide (p.RepeatsAt i)

theorem repeatFlags_eq_ok (h : rows < Size.bufferLimit) : p.repeatFlags rows = .ok (p.copies rows) := by
  rw [repeatFlags, Size.buffer_eq_ok h]
  rfl

@[simp] theorem length_copies : (p.copies rows).length = rows := by
  rw [copies, List.length_map, List.length_range]

theorem getD_copies (hi : i < rows) : (p.copies rows).getD i false = decide (p.RepeatsAt i) := by
  rw [List.getD_eq_getElem _ _ (by rwa [length_copies])]
  simp only [copies, List.getElem_map, List.getElem_range]

theorem getD_copies_zero : (p.copies rows).getD 0 false = false := by
  cases rows with
  | zero => rfl
  | succ rows =>
    rw [getD_copies (Nat.succ_pos rows)]
    exact decide_eq_false fun h => Nat.lt_irrefl 0 h.1

theorem Injective.not_repeatsAt (h : p.Injective) (i : Nat) : ¬ p.RepeatsAt i := by
  rintro ⟨hpos, hi, heq⟩
  have hbefore : i - 1 < p.edges.length := by omega
  simp only [sourceAt?, List.getElem?_eq_getElem hi, List.getElem?_eq_getElem hbefore,
    Option.map_some, Option.some.injEq] at heq
  have hne := List.pairwise_iff_getElem.1 (List.pairwise_map.1 h) (i - 1) i hbefore hi (by omega)
  exact hne heq

/-- The rows are those of the sources if the first row of each group is and every other row is a copy. -/
theorem row_eq_source {α : Type} (row : Nat → α) {source : Nat → α}
    (hfirst : ∀ i e, p.edges[i]? = some e → ¬ p.RepeatsAt i → row i = source e.source)
    (hcopy : ∀ i, p.RepeatsAt i → row i = row (i - 1)) {i : Nat} {e : Edge}
    (he : p.edges[i]? = some e) : row i = source e.source := by
  induction i generalizing e with
  | zero => exact hfirst 0 e he fun h => Nat.lt_irrefl 0 h.1
  | succ i ih =>
    by_cases hrepeats : p.RepeatsAt (i + 1)
    · obtain ⟨hi, -⟩ := List.getElem?_eq_some_iff.1 he
      have hbefore := List.getElem?_eq_getElem (Nat.lt_of_succ_lt hi)
      have hsource := hrepeats.2.2
      rw [Nat.add_sub_cancel, sourceAt?, sourceAt?, he, hbefore, Option.map_some, Option.map_some,
        Option.some.injEq] at hsource
      rw [hcopy _ hrepeats, Nat.add_sub_cancel, ih hbefore, hsource]
    · exact hfirst _ e he hrepeats

end ObliviousRouting.Plan
