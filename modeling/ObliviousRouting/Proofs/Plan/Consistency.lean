import ObliviousRouting.Proofs.Plan.Calls

/-!
# Plans after calls that went through

A number of edges that does not fit into 32 bits makes a call break off, so it is no number of a plan whose
calls went through. Each source row has its own count, and all of them are summed up only when the edges are
grouped; hence a plan may get more edges than that, but a grouped plan has fewer.
-/

namespace ObliviousRouting.Plan

/-- The numbers of source rows that a call names have 32 bits. -/
def Call.Fits : Call → Prop
  | .new sourceRows _ => sourceRows < indexLimit
  | .init sourceRows _ => sourceRows < indexLimit
  | .fromSources sourceRows _ => sourceRows < indexLimit
  | _ => True

/-! ### Sums of counts -/

/-- Counts that were summed up have a sum that fits. -/
theorem sum_lt_of_startsFrom {sum : Nat} {counts starts : List Nat} (h : startsFrom sum counts = .ok starts)
    (hsum : sum < indexLimit) : sum + counts.sum < indexLimit := by
  induction counts generalizing sum starts with
  | nil => exact hsum
  | cons count counts ih =>
    rw [startsFrom] at h
    split at h
    · next hlt =>
      obtain ⟨rest, hrest, -⟩ := Checked.of_bind h
      rw [List.sum_cons, ← Nat.add_assoc]
      exact ih hrest hlt
    · cases h

theorem sum_countsOf (rows : Nat) (edges : List Edge) : (countsOf rows edges).sum = groupStart edges rows := by
  rw [countsOf]
  induction rows with
  | zero =>
    apply Eq.symm
    rw [List.range_zero, List.map_nil, List.sum_nil, groupStart, List.countP_eq_zero]
    intro e _
    rw [decide_eq_true_eq]
    exact Nat.not_lt_zero e.source
  | succ rows ih =>
    rw [List.range_succ, List.map_append, List.sum_append, ih, groupStart_succ, List.map_singleton,
      List.sum_singleton]

/-- Edges that were sorted by their counts are fewer than 32 bits can count. -/
theorem length_lt_of_countingSort {edges : List Edge} {rows : Nat} {sorted : List Edge × Nat}
    (hsource : ∀ e ∈ edges, e.source < rows) (h : countingSort edges (countsOf rows edges) = .ok sorted) :
    edges.length < indexLimit := by
  obtain ⟨starts, hstarts, -⟩ := Checked.of_bind h
  have hsum := sum_lt_of_startsFrom hstarts (by decide)
  have hall : groupStart edges rows = edges.length := by
    rw [groupStart, List.countP_eq_length]
    intro e he
    exact decide_eq_true (hsource e he)
  rw [sum_countsOf, hall] at hsum
  omega

/-! ### Single calls -/

namespace Tally

/-- What holds of a plan and its counts as long as all calls go through. -/
structure Consistent (t : Tally) : Prop where
  reachable : t.plan.Reachable
  right : t.Right
  rows_lt : t.plan.sourceRows < indexLimit
  edges_lt : t.plan.grouped = true → t.plan.edges.length < indexLimit

theorem consistent_blank {m n : Nat} (hm : m < indexLimit) : (blank m n).Consistent :=
  ⟨.blank m n, right_blank m n, hm, fun h => nomatch h⟩

namespace Consistent

variable {t t' : Tally}

/-- The cursor of a search says nothing about the edges. -/
theorem search (h : t.Consistent) (cursor : SlotCursor) :
    Consistent { t with plan := { t.plan with cursor } } :=
  ⟨h.reachable.search cursor, ⟨h.right.open_eq, h.right.source_lt⟩, h.rows_lt, h.edges_lt⟩

theorem add (h : t.Consistent) {source destination : Nat} {answer : Except PlanError Unit}
    (hadd : t.add source destination = .ok (answer, t')) : t'.Consistent := by
  rw [Tally.add] at hadd
  split at hadd
  next => cases hadd; exact h
  next p hp =>
    obtain ⟨hcount, hright⟩ := h.right.count hp
    simp only [hcount] at hadd
    split at hadd
    · cases hadd
      obtain ⟨hopen, -, rfl⟩ := add_eq_ok hp
      refine ⟨h.reachable.add hp, hright, h.rows_lt, fun hgrouped => ?_⟩
      exact absurd hgrouped (Bool.eq_false_iff.1 hopen)
    · cases hadd

theorem group (h : t.Consistent) {swaps : Nat} (hgroup : t.group = .ok (t', swaps)) :
    t'.Consistent ∧ t'.plan = t.plan.group := by
  have hlt : t.plan.edges.length < indexLimit := by
    cases hgrouped : t.plan.grouped with
    | true => exact h.edges_lt hgrouped
    | false =>
      rw [Tally.group, if_neg (Bool.eq_false_iff.1 hgrouped), h.right.open_eq hgrouped] at hgroup
      obtain ⟨sorted, hsort, -⟩ := Checked.of_bind hgroup
      exact length_lt_of_countingSort h.right.source_lt hsort
  obtain ⟨t'', swaps', hgroup', -, hplan, hright⟩ := h.right.group hlt
  rw [hgroup] at hgroup'
  cases hgroup'
  refine ⟨⟨?_, hright, ?_, fun _ => ?_⟩, hplan⟩
  · rw [hplan]
    exact h.reachable.group
  · rw [hplan, group_sourceRows]
    exact h.rows_lt
  · rw [hplan, (group_edges_perm t.plan).length_eq]
    exact hlt

theorem ofSources {m : Nat} {sources : List Nat} (hm : m < indexLimit)
    (h : Tally.ofSources m sources = .ok (.ok t)) : t.Consistent := by
  rcases ofSources_eq m sources with ⟨t', hmade, hcounted, hright⟩ | ⟨e, -, hcounted⟩
  · rw [h] at hcounted
    cases hcounted
    obtain ⟨hlt, q, hadd, hplan⟩ := ofSources_eq_ok hmade
    obtain ⟨hq, -, -⟩ := addAll_eq_ok hadd
    refine ⟨?_, hright, ?_, fun _ => ?_⟩
    · rw [hplan]
      exact (Reachable.addAll (.blank _ _) hadd).group
    · rw [hplan, group_sourceRows, hq]
      exact hm
    · rw [hplan, (group_edges_perm q).length_eq, hq]
      change ([] ++ edgesOf sources).length < indexLimit
      rwa [List.nil_append, edgesOf, List.length_map, List.length_zipIdx]
  · rw [h] at hcounted
    cases hcounted

theorem after (h : t.Consistent) {call : Call} (hfits : call.Fits) (hafter : t.after call = .ok t') :
    t'.Consistent := by
  cases call with
  | new m n =>
    cases hafter
    exact consistent_blank hfits
  | init m n =>
    cases hafter
    exact consistent_blank hfits
  | fromSources m sources =>
    obtain ⟨made, hmade, hafter⟩ := Checked.of_bind hafter
    cases made with
    | error e => cases hafter; exact h
    | ok t'' => cases hafter; exact ofSources hfits hmade
  | add source destination =>
    obtain ⟨⟨answer, t''⟩, hadd, hafter⟩ := Checked.of_bind hafter
    cases hafter
    exact h.add hadd
  | group =>
    obtain ⟨⟨t'', swaps⟩, hgroup, hafter⟩ := Checked.of_bind hafter
    cases hafter
    exact (h.group hgroup).1
  | checkSorted =>
    cases hafter
    exact h
  | rewind =>
    cases hafter
    exact h.search {}
  | nextFree =>
    cases hafter
    obtain ⟨cursor, hcursor⟩ := nextFree_cursor t.plan
    rw [hcursor]
    exact h.search cursor

theorem foldlM_after (h : t.Consistent) {calls : List Call} (hfits : ∀ call ∈ calls, call.Fits)
    (hrun : calls.foldlM Tally.after t = .ok t') : t'.Consistent := by
  induction calls generalizing t with
  | nil =>
    cases hrun
    exact h
  | cons call calls ih =>
    rw [List.forall_mem_cons] at hfits
    rw [List.foldlM_cons] at hrun
    obtain ⟨next, hafter, hrest⟩ := Checked.of_bind hrun
    exact ih (h.after hfits.1 hafter) hfits.2 hrest

end Consistent

/-- Whatever calls went through, the plan and its counts are consistent. -/
theorem consistent_run {calls : List Call} {t : Tally} (hfits : ∀ call ∈ calls, call.Fits)
    (h : run calls = .ok t) : t.Consistent :=
  (consistent_blank (m := 0) (n := 0) (by decide)).foldlM_after hfits h

end Tally

end ObliviousRouting.Plan
