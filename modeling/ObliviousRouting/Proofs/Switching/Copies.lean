import Mathlib.Data.Nat.Find
import ObliviousRouting.Proofs.Pass.RoundTrip
import ObliviousRouting.Proofs.Plan.Calls
import ObliviousRouting.Proofs.Plan.Layout
import ObliviousRouting.Proofs.Plan.Repeats
import ObliviousRouting.Proofs.RowBuffer.Shapes
import ObliviousRouting.Proofs.Switching.Duplicate

/-!
# Copies of copies

The planner turns its rows into copies in place, from the first one on, and each copy is taken of a row that
may be a copy itself. Whichever rows are to be copies, the first one excepted, planner and helper then share
in each row what they shared before in the last row up to it that is no copy. The rows of a plan's edges that
repeat a source are such copies, so after a selection every edge gets the row of its source.
-/

namespace ObliviousRouting

namespace Switching.Duplicate

open Bytes RowBuffer

variable {copies : List Bool} {i n : Nat}

/-! ### The row that a copy is of -/

/-- The last row up to the given one that is no copy. -/
def original (copies : List Bool) (i : Nat) : Nat :=
  Nat.findGreatest (fun r => copies.getD r false = false) i

theorem original_le (copies : List Bool) (i : Nat) : original copies i ≤ i := Nat.findGreatest_le i

theorem not_copy_original (hfirst : copies.getD 0 false = false) (i : Nat) :
    copies.getD (original copies i) false = false :=
  Nat.findGreatest_spec (P := fun r => copies.getD r false = false) (Nat.zero_le i) hfirst

theorem copy_of_original_lt {j : Nat} (hlt : original copies i < j) (hle : j ≤ i) :
    copies.getD j false = true :=
  Bool.eq_true_of_not_eq_false (Nat.findGreatest_is_greatest hlt hle)

theorem original_of_copy (h : copies.getD (i + 1) false = true) :
    original copies (i + 1) = original copies i :=
  Nat.findGreatest_of_not (ne_true_of_eq_false · h)

theorem original_of_not_copy (h : copies.getD i false = false) : original copies i = i :=
  Nat.findGreatest_eq h

variable {rows own fresh rows' : List Bytes} {width : Nat}

/-- Planner and helper share what they shared before in the row that is copied, however often. -/
theorem shared_original (hrows : Uniform width rows) (hown : Uniform width own) (hfresh : Uniform width fresh)
    (hrows' : Uniform width rows') (hn : rows.length = n) (hn₁ : own.length = n) (hn₂ : fresh.length = n)
    (hcopies : copies.length = n) (hfirst : copies.getD 0 false = false)
    (h : Resolved (Reveal.pick copies (firstRows own fresh) (secondRows width fresh)) 0 copies rows rows')
    (hi : i < n) :
    (rows'.getD i []).xor (fresh.getD i []) =
      (rows.getD (original copies i) []).xor (own.getD (original copies i) []) := by
  have hshared {i : Nat} (hi : i < n) :=
    shared hrows hown hfresh hrows' hn hn₁ hn₂ hcopies hfirst h hi
  induction i with
  | zero => rw [original_of_not_copy hfirst, hshared hi, hfirst, if_neg Bool.false_ne_true]
  | succ i ih =>
    rw [hshared hi]
    cases hcopy : copies.getD (i + 1) false with
    | true => rw [if_pos rfl, Nat.add_sub_cancel, original_of_copy hcopy, ih (Nat.lt_of_succ_lt hi)]
    | false => rw [if_neg Bool.false_ne_true, original_of_not_copy hcopy]

/-! ### Buffers -/

/-- What the planner has of the pairs that the helper offers: one row of each, the second one for a copy. The
first row is not to be a copy. -/
structure Learned (compact own fresh learned : RowBuffer) (copies : List Bool) : Prop where
  fits : compact.data.size < Size.bufferLimit
  own_alike : own.Alike compact
  fresh_alike : fresh.Alike compact
  learned_alike : learned.Alike compact
  length_copies : copies.length = compact.size
  first : copies.getD 0 false = false
  rowAt_eq (i : Nat) : i < compact.size → learned.rowAt i =
    if copies.getD i false then (pairs own fresh).2.rowAt i else (pairs own fresh).1.rowAt i

variable {compact own fresh learned : RowBuffer}

theorem Learned.holds (h : Learned compact own fresh learned copies) {b : RowBuffer}
    (hb : b.Alike compact) : b.Holds compact.stride b.toList ∧ b.toList.length = compact.size :=
  ⟨⟨hb.stride_eq, rfl, hb.data_size_eq ▸ h.fits⟩, by rw [RowBuffer.length_toList, hb.size_eq]⟩

/-- What is learned is one row of each pair. -/
theorem Learned.toList_eq (h : Learned compact own fresh learned copies) : learned.toList =
    Reveal.pick copies (firstRows own.toList fresh.toList) (secondRows compact.stride fresh.toList) := by
  obtain ⟨hown, hn₁⟩ := h.holds h.own_alike
  obtain ⟨hfresh, hn₂⟩ := h.holds h.fresh_alike
  have hn := (h.holds h.learned_alike).2
  obtain ⟨hfirst, hsecond⟩ := holds_pairs hown hfresh (hn₁.trans hn₂.symm)
  have hsecondRows : (secondRows compact.stride fresh.toList).length = compact.size := length_secondRows hn₂
  have hlength := Reveal.length_pick h.length_copies (length_firstRows hn₁ hn₂) hsecondRows
  apply List.ext_getElem (hn.trans hlength.symm)
  intro i hi hi'
  have hlt : i < compact.size := hn ▸ hi
  rw [← List.getD_eq_getElem _ [] hi, ← List.getD_eq_getElem _ [] hi',
    getD_pick h.length_copies (length_firstRows hn₁ hn₂) hsecondRows hlt, ← hfirst.rowAt_eq, ← hsecond.rowAt_eq]
  exact h.rowAt_eq i hlt

/-- The copies are made without a fault, and planner and helper share in each row what they shared in the
row that it is a copy of. -/
theorem Learned.resolve_eq (h : Learned compact own fresh learned copies) :
    ∃ copied, resolve learned 0 copies compact = .ok copied ∧ copied.Alike compact ∧
      ∀ i < compact.size, (copied.rowAt i).xor (fresh.rowAt i) =
        (compact.rowAt (original copies i)).xor (own.rowAt (original copies i)) := by
  obtain ⟨hcompact, hn⟩ := h.holds (RowBuffer.Alike.refl compact)
  obtain ⟨hown, hn₁⟩ := h.holds h.own_alike
  obtain ⟨hfresh, hn₂⟩ := h.holds h.fresh_alike
  obtain ⟨hlearned, hn₃⟩ := h.holds h.learned_alike
  obtain ⟨copied, rows', hresolve, hholds, hresolved⟩ := resolve_spec (i := 0) hlearned hcompact
    (hn₃.trans hn.symm) (by rw [Nat.zero_add, h.length_copies, hn]) fun _ => h.first
  rw [h.toList_eq] at hresolved
  refine ⟨copied, hresolve, ⟨hholds.stride_eq, ?_⟩, fun i hi => ?_⟩
  · rw [hholds.data_size_eq, hcompact.data_size_eq, hresolved.1]
  · rw [hholds.rowAt_eq, hfresh.rowAt_eq, hcompact.rowAt_eq, hown.rowAt_eq]
    exact shared_original hcompact.uniform hown.uniform hfresh.uniform hholds.uniform hn hn₁ hn₂
      h.length_copies h.first hresolved hi

/-! ### Copies after a selection -/

/-- Planner and helper share the rows of a source that a plan has selected, and the planner copies the rows of
the edges that repeat a source. -/
structure Selected (p : Plan) (source compact own : RowBuffer) (copies : List Bool) : Prop where
  reachable : p.Reachable
  grouped : p.grouped = true
  rows_lt : p.selectRows < Plan.indexLimit
  source_size : source.size = p.sourceRows
  compact_size : compact.size = p.selectRows
  copies_eq : p.repeatFlags p.selectRows = .ok copies
  shared : ∃ padded targets after router collector, source.padTo p.selectRows = .ok padded ∧
    p.selectTargets = .ok (targets, after) ∧
    Pass.Shared .overwrite padded targets router collector compact own

namespace Selected

variable {p : Plan} {source : RowBuffer} (h : Selected p source compact own copies)
include h

/-- A row is to be a copy if its edge repeats the source of the edge before it. -/
theorem getD_copies (hi : i < p.selectRows) : copies.getD i false = decide (p.RepeatsAt i) := by
  have hflags := Plan.repeatFlags_eq_ok (p := p) (Nat.lt_trans h.rows_lt (by decide))
  rw [h.copies_eq] at hflags
  cases hflags
  exact Plan.getD_copies hi

/-- The first edge of a group has the row of its source. -/
theorem row_eq {e : Edge} (he : p.edges[i]? = some e) (hfirst : ¬ p.RepeatsAt i) :
    (compact.rowAt i).xor (own.rowAt i) = source.rowAt e.source := by
  obtain ⟨padded, targets, after, router, collector, hpadded, hselect, hshared⟩ := h.shared
  have hsources : ∀ e ∈ p.edges, e.source < p.sourceRows := fun e he => (h.reachable.mem_edges e he).1
  have hsorted := h.reachable.sorted h.grouped
  have hlimit : p.selectRows ≤ Target.rowLimit := Nat.le_of_lt_succ h.rows_lt
  have hedges := p.length_edges_le
  obtain ⟨cursor, hslots⟩ := Plan.selectTargets_eq hsorted hsources (Nat.le_of_lt h.rows_lt)
  rw [hselect] at hslots
  cases hslots
  have htarget := Plan.getElem?_slotTargets hsorted hsources hlimit
    (Plan.getElem?_slots he hfirst)
  obtain ⟨hi, -⟩ := List.getElem?_eq_some_iff.1 he
  have hsource : e.source < source.size := by
    rw [h.source_size]
    exact hsources e (List.mem_of_getElem? he)
  obtain ⟨hlt, hrow⟩ := RowBuffer.rowAt_of_padTo hpadded hsource
  rw [hshared.routed e.source hlt _ htarget i (Target.row?_ofRow (by omega)), ← hrow]
  rfl

end Selected

/-- Whichever rows are to be copies, the first one excepted, they are made without a fault, and planner and
helper share in each row what they shared before in the last row up to it that is no copy. If they shared
selected rows, and the copies are for the edges that repeat a source, then they share the row of its source for
each edge, and in the rows of no edge what they shared before. -/
theorem copies_come_out_right (h : Learned compact own fresh learned copies) :
    ∃ copied, resolve learned 0 copies compact = .ok copied ∧ copied.Alike compact ∧
      (∀ i < compact.size, original copies i ≤ i ∧ copies.getD (original copies i) false = false ∧
        (∀ j, original copies i < j → j ≤ i → copies.getD j false = true) ∧
        (copied.rowAt i).xor (fresh.rowAt i) =
          (compact.rowAt (original copies i)).xor (own.rowAt (original copies i))) ∧
      ∀ p source, Selected p source compact own copies →
        (∀ i e, p.edges[i]? = some e →
          (copied.rowAt i).xor (fresh.rowAt i) = source.rowAt e.source) ∧
        ∀ i, p.edges.length ≤ i → i < p.selectRows →
          (copied.rowAt i).xor (fresh.rowAt i) = (compact.rowAt i).xor (own.rowAt i) := by
  obtain ⟨copied, hresolve, halike, hcopied⟩ := h.resolve_eq
  refine ⟨copied, hresolve, halike, fun i hi => ⟨original_le copies i, not_copy_original h.first i,
    fun j => copy_of_original_lt, hcopied i hi⟩, fun p source hselected => ?_⟩
  have hedges := p.length_edges_le
  have hrow {i : Nat} (hi : i < p.selectRows) (hfirst : ¬ p.RepeatsAt i) :
      (copied.rowAt i).xor (fresh.rowAt i) = (compact.rowAt i).xor (own.rowAt i) := by
    have hflag := hselected.getD_copies hi
    rw [decide_eq_false hfirst] at hflag
    rw [hcopied i (hselected.compact_size ▸ hi), original_of_not_copy hflag]
  constructor
  · intro i e he
    refine Plan.row_eq_source (fun i => (copied.rowAt i).xor (fresh.rowAt i)) (fun i e he hfirst => ?_)
      (fun i hrepeats => ?_) he
    · obtain ⟨hi, -⟩ := List.getElem?_eq_some_iff.1 he
      rw [← hselected.row_eq he hfirst]
      exact hrow (by omega) hfirst
    · have hlt := hrepeats.2.1
      have hsize := hselected.compact_size
      have hflag := hselected.getD_copies (i := i) (by omega)
      rw [decide_eq_true hrepeats] at hflag
      cases i with
      | zero => exact absurd hrepeats.1 (Nat.lt_irrefl 0)
      | succ i =>
        change (copied.rowAt (i + 1)).xor (fresh.rowAt (i + 1)) = (copied.rowAt i).xor (fresh.rowAt i)
        rw [hcopied (i + 1) (by omega), hcopied i (by omega), original_of_copy hflag]
  · intro i hle hi
    exact hrow hi fun hrepeats => Nat.not_lt_of_le hle hrepeats.2.1

/-- Two edges of three name source row 0, and one names row 2. -/
def doubledPlan : Plan := (Plan.History.run [.init 3 3, .add 2 0, .add 0 1, .add 0 2, .group]).plan

/-- Rows of one byte. -/
def column (bytes : Bytes) : RowBuffer := ⟨bytes.toArray, 1, Nat.one_dvd _⟩

theorem selected_doubled : Selected doubledPlan (column [7, 8, 9]) (column [1, 2, 3]) (column [6, 10, 10])
    [false, true, false] where
  reachable := (Plan.History.faithful_run _).reachable
  grouped := by decide +kernel
  rows_lt := by decide +kernel
  source_size := by decide +kernel
  compact_size := by decide +kernel
  copies_eq := by decide +kernel
  shared := by
    have hpadded : (column [7, 8, 9]).padTo doubledPlan.selectRows = .ok (column [7, 8, 9]) := by
      decide +kernel
    have hselect : doubledPlan.selectTargets =
        .ok ([.ofRow 0, .ofRow 1, .ofRow 2], { doubledPlan with cursor := ⟨2, 2⟩ }) := by decide +kernel
    refine ⟨_, _, _, column [1, 2, 3], column [6, 10, 10], hpadded, hselect, ⟨rfl, rfl⟩, ⟨rfl, rfl⟩, ?_,
      fun d _ => ⟨rfl, rfl⟩⟩
    intro i hi t ht d hd
    change i < 3 at hi
    have hcases : i = 0 ∨ i = 1 ∨ i = 2 := by omega
    rcases hcases with rfl | rfl | rfl
    all_goals
      cases ht
      cases hd
      decide +kernel

/-- Planner and helper share the rows 7, 8 and 9, and the second one is to be a copy of the first. -/
theorem copies_come_out_right_of_doubled :
    Learned (column [1, 2, 3]) (column [6, 10, 10]) (column [5, 6, 7]) (column [3, 3, 13])
        [false, true, false] ∧
      Selected doubledPlan (column [7, 8, 9]) (column [1, 2, 3]) (column [6, 10, 10]) [false, true, false] ∧
      ∃ copied, resolve (column [3, 3, 13]) 0 [false, true, false] (column [1, 2, 3]) = .ok copied ∧
        ∀ i e, doubledPlan.edges[i]? = some e →
          (copied.rowAt i).xor ((column [5, 6, 7]).rowAt i) = (column [7, 8, 9]).rowAt e.source := by
  have hlearned : Learned (column [1, 2, 3]) (column [6, 10, 10]) (column [5, 6, 7]) (column [3, 3, 13])
      [false, true, false] :=
    ⟨by decide, ⟨rfl, rfl⟩, ⟨rfl, rfl⟩, ⟨rfl, rfl⟩, by decide, rfl, by decide +kernel⟩
  obtain ⟨copied, hresolve, -, -, hcopied⟩ := copies_come_out_right hlearned
  exact ⟨hlearned, selected_doubled, copied, hresolve, (hcopied _ _ selected_doubled).1⟩

end Switching.Duplicate

end ObliviousRouting
