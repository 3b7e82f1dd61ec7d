import ObliviousRouting.Proofs.Plan.Consistency
import ObliviousRouting.Switching.Roles

/-!
# What a planner is told about its plan

A plan is a total function if each destination row is fed by one edge; where copies are left out, no source
may feed two rows. The check looks at neighbouring edges only, and at destinations only until it has found one
twice. It accepts total functions nevertheless, and no other plans, in whatever order the edges were added: the
edges have been sorted before, and as many destinations as rows, none of them twice, are all of them. What it
says of other plans is true of them. A planner that is told so has not sent anything.
-/

namespace ObliviousRouting

namespace Plan

open Switching

variable {p q : Plan} {kind : Kind}

/-- The number of edges that feed a destination row. -/
def feeders (p : Plan) (destination : Nat) : Nat := p.edges.countP fun e => e.destination = destination

/-- The number of edges that come from a source row. -/
def uses (p : Plan) (source : Nat) : Nat := p.edges.countP fun e => e.source = source

/-- The edges are a function from all destination rows to source rows, which is one-to-one where that is
required. -/
@[mk_iff]
structure Total (kind : Kind) (p : Plan) : Prop where
  fed : ∀ d < p.destinationRows, p.feeders d = 1
  injective : kind = .permutation → ∀ s, p.uses s ≤ 1

/-- What a planner is told about its plan, and when. -/
inductive Verdict (kind : Kind) (p : Plan) : Outcome SwitchError Unit → Prop
  | accepted : p.Total kind → Verdict kind p (.ok ())
  | incomplete : p.edges.length ≠ p.destinationRows →
      Verdict kind p (.error (.error (.incomplete p.edges.length p.destinationRows)))
  | destinationRepeated (d : Nat) : p.edges.length = p.destinationRows → 2 ≤ p.feeders d →
      Verdict kind p (.error (.error (.destinationRepeated d)))
  | sourceRepeated (s : Nat) : kind = .permutation → p.edges.length = p.destinationRows →
      (∀ d < p.destinationRows, p.feeders d = 1) → 2 ≤ p.uses s →
      Verdict kind p (.error (.error .sourceRepeated))

/-! ### Edges that are counted -/

theorem count_destinations (p : Plan) (d : Nat) : (p.edges.map Edge.destination).count d = p.feeders d := by
  rw [List.count, List.countP_map, feeders]
  rfl

theorem count_sources (p : Plan) (s : Nat) : (p.edges.map Edge.source).count s = p.uses s := by
  rw [List.count, List.countP_map, uses]
  rfl

theorem injective_iff_uses : p.Injective ↔ ∀ s, p.uses s ≤ 1 := by
  rw [Injective, List.nodup_iff_count_le_one]
  simp only [count_sources]

/-- Where every edge names rows of the plan, each row is fed once exactly if all rows are fed and no edge is too
many. -/
theorem complete_iff_feeders (hsource : ∀ e ∈ p.edges, e.source < p.sourceRows)
    (hdestination : ∀ e ∈ p.edges, e.destination < p.destinationRows) :
    p.Complete ↔ ∀ d < p.destinationRows, p.feeders d = 1 := by
  constructor
  · intro h d hd
    rw [← count_destinations, h.perm.count_eq]
    exact List.count_eq_one_of_mem List.nodup_range (List.mem_range.2 hd)
  · intro hfed
    refine ⟨hsource, List.perm_iff_count.2 fun d => ?_⟩
    rw [count_destinations]
    rcases Nat.lt_or_ge d p.destinationRows with hd | hd
    · rw [hfed d hd, List.count_eq_one_of_mem List.nodup_range (List.mem_range.2 hd)]
    · rw [List.count_eq_zero_of_not_mem fun hmem => Nat.not_lt_of_le hd (List.mem_range.1 hmem), feeders,
        List.countP_eq_zero]
      intro e he
      have hlt := hdestination e he
      rw [decide_eq_true_eq]
      omega

/-! ### The check of a grouped plan -/

/-- A destination that is refused is there for the second time. -/
theorem checkDestinations_eq_error {rows : Nat} {taken : List Nat} {edges : List Edge} {stop : Stop SwitchError}
    (hlt : ∀ e ∈ edges, e.destination < rows) (h : checkDestinations rows taken edges = .error stop) :
    ∃ d, stop = .error (.destinationRepeated d) ∧
      2 ≤ taken.count d + edges.countP fun e => e.destination = d := by
  induction edges generalizing taken with
  | nil => cases h
  | cons e edges ih =>
    rw [List.forall_mem_cons] at hlt
    rw [checkDestinations, if_neg (Nat.not_le_of_lt hlt.1)] at h
    split at h
    next htaken =>
      cases h
      refine ⟨e.destination, rfl, ?_⟩
      have hpos : 0 < taken.count e.destination := List.count_pos_iff.2 htaken
      rw [List.countP_cons, if_pos (decide_eq_true rfl)]
      omega
    next =>
      obtain ⟨d, hstop, hcount⟩ := ih hlt.2 h
      refine ⟨d, hstop, ?_⟩
      rw [List.count_cons] at hcount
      rw [List.countP_cons]
      simp only [beq_iff_eq, decide_eq_true_eq] at hcount ⊢
      omega

/-- A plan is accepted exactly if it is a total function. -/
theorem Sound.check_eq_ok_iff (h : p.Sound) (hlimit : p.selectRows < indexLimit) :
    p.check kind = .ok () ↔ p.Total kind := by
  have hcomplete := complete_iff_feeders h.source_lt h.destination_lt
  constructor
  · intro hcheck
    refine ⟨hcomplete.1 (complete_of_check h.source_lt hcheck), fun hkind => ?_⟩
    subst hkind
    exact injective_iff_uses.1 (injective_of_check h.sorted hcheck)
  · intro htotal
    have hinjective : kind = .permutation → p.Injective := fun hkind =>
      injective_iff_uses.2 (htotal.injective hkind)
    exact check_eq_ok (hcomplete.2 htotal.fed) h.sorted hinjective hlimit

/-- Some source is named twice if neighbours share one. -/
theorem exists_uses_of_repeatsSource (h : p.repeatsSource = true) : ∃ s, 2 ≤ p.uses s := by
  by_contra hnone
  have hinjective : p.Injective := injective_iff_uses.2 fun s =>
    Nat.le_of_lt_succ (Nat.lt_of_not_le fun hs => hnone ⟨s, hs⟩)
  rw [repeatsSource_eq_false hinjective] at h
  cases h

theorem Sound.verdict (h : p.Sound) (hlimit : p.selectRows < indexLimit) (kind : Kind) :
    Verdict kind p (p.check kind) := by
  cases hcheck : p.check kind with
  | ok => exact .accepted ((h.check_eq_ok_iff hlimit).1 hcheck)
  | error stop =>
    rw [check, checkSorted_eq_ok h.sorted] at hcheck
    by_cases hlength : p.edges.length = p.destinationRows
    · rw [if_neg (not_not_intro hlength)] at hcheck
      cases hdestinations : checkDestinations p.destinationRows [] p.edges with
      | error stop' =>
        rw [hdestinations] at hcheck
        cases hcheck
        obtain ⟨d, rfl, hcount⟩ := checkDestinations_eq_error h.destination_lt hdestinations
        rw [List.count_nil, Nat.zero_add] at hcount
        exact .destinationRepeated d hlength hcount
      | ok =>
        rw [hdestinations] at hcheck
        by_cases hrepeats : kind = .permutation ∧ p.repeatsSource = true
        · rw [if_pos hrepeats] at hcheck
          cases hcheck
          obtain ⟨s, hs⟩ := exists_uses_of_repeatsSource hrepeats.2
          have hcomplete : p.Complete := complete_of_destinations h.source_lt hlength hdestinations
          have hfed := (complete_iff_feeders h.source_lt h.destination_lt).1 hcomplete
          exact .sourceRepeated s hrepeats.1 hlength hfed hs
        · rw [if_neg hrepeats, if_neg (Nat.not_le_of_lt hlimit)] at hcheck
          cases hcheck
    · rw [if_pos hlength] at hcheck
      cases hcheck
      exact .incomplete hlength

/-! ### The edges as they were added -/

theorem feeders_group (p : Plan) (d : Nat) : p.group.feeders d = p.feeders d :=
  (group_edges_perm p).countP_eq _

theorem uses_group (p : Plan) (s : Nat) : p.group.uses s = p.uses s :=
  (group_edges_perm p).countP_eq _

theorem total_group : p.group.Total kind ↔ p.Total kind := by
  simp only [total_iff, feeders_group, uses_group, group_destinationRows]

/-- What is said of the grouped plan is said of the plan. -/
theorem verdict_of_group {answer : Outcome SwitchError Unit} (h : Verdict kind p.group answer) :
    Verdict kind p answer := by
  have hlength : p.group.edges.length = p.edges.length := (group_edges_perm p).length_eq
  have hrows : p.group.destinationRows = p.destinationRows := group_destinationRows p
  cases h with
  | accepted htotal => exact .accepted (total_group.1 htotal)
  | incomplete hne =>
    rw [hlength, hrows] at hne ⊢
    exact .incomplete hne
  | destinationRepeated d heq hcount =>
    rw [hlength, hrows] at heq
    rw [feeders_group] at hcount
    exact .destinationRepeated d heq hcount
  | sourceRepeated s hkind heq hfed hcount =>
    rw [hlength, hrows] at heq
    simp only [feeders_group, hrows] at hfed
    rw [uses_group] at hcount
    exact .sourceRepeated s hkind heq hfed hcount

/-- All that is known of the answer that a planner gets about its plan. -/
structure Judged (kind : Kind) (p : Plan) (answer : Outcome SwitchError Unit) : Prop where
  accepted_iff : answer = .ok () ↔ p.Total kind
  verdict : Verdict kind p answer
  sorted : ∀ e, answer ≠ .error (.error (.plan e))
  few : ∀ e, answer ≠ .error (.error (.pass e))
  inRange : ∀ f, answer ≠ .error (.fault f)

theorem Verdict.judged {answer : Outcome SwitchError Unit} (h : Verdict kind p answer)
    (hiff : answer = .ok () ↔ p.Total kind) : p.Judged kind answer := by
  refine ⟨hiff, h, fun e heq => ?_, fun e heq => ?_, fun f heq => ?_⟩
  · subst heq
    cases h
  · subst heq
    cases h
  · subst heq
    cases h

end Plan

namespace Switching

open Plan

/-- A planner that is told that its plan cannot be run ends there and then, and has only grouped the plan. -/
theorem start_planner_of_check {x : Expansion} {parties : Parties} {kind : Kind} {mode : Mode} {size : BatchSize}
    {s : PlannerState} {stop : Stop SwitchError} (h : s.plan.group.check kind = .error stop) :
    (planner x parties kind mode size).start s = .done (.error stop, { s with plan := s.plan.group }) := by
  change (Role.ofOutcome (s.plan.group.check kind) >>= _).start { s with plan := s.plan.group } = _
  rw [h]
  rfl

/-- Whatever was done with a plan before, as long as it has got fewer edges than 32 bits can count: the sort goes
through, the check accepts total functions and no other plans, what it says of others is true, and a planner that is
told so has not sent anything and has left its tape and its destination rows as they were. -/
theorem accepts_exactly_total_plans (calls : List Call) (t : Tally) (kind : Kind)
    (hfits : ∀ call ∈ calls, call.Fits) (hrun : Tally.run calls = .ok t)
    (hfew : t.plan.edges.length < indexLimit) :
    ∃ t' swaps, t.group = .ok (t', swaps) ∧ t'.plan = t.plan.group ∧
      t.plan.Judged kind (t'.plan.check kind) ∧
      ∀ stop, t'.plan.check kind = .error stop → ∀ x parties mode size s, s.plan = t.plan →
        (planner x parties kind mode size).start s = .done (.error stop, { s with plan := t'.plan }) := by
  have hconsistent := Tally.consistent_run hfits hrun
  obtain ⟨t', swaps, hgroup, -, hplan, -⟩ := hconsistent.right.group hfew
  refine ⟨t', swaps, hgroup, hplan, ?_, ?_⟩
  · have hsound : t.plan.group.Sound := hconsistent.reachable.sound_group
    have hlimit : t.plan.group.selectRows < indexLimit := by
      rw [selectRows, group_sourceRows, (group_edges_perm t.plan).length_eq]
      exact max_lt hconsistent.rows_lt hfew
    rw [hplan]
    apply (verdict_of_group (hsound.verdict hlimit kind)).judged
    rw [hsound.check_eq_ok_iff hlimit, total_group]
  · intro stop hstop x parties mode size s hs
    rw [hplan, ← hs] at hstop ⊢
    exact start_planner_of_check hstop

/-- Each of four rows is fed once, and two of them by the same source, though not one after the other. -/
def scatteredCalls : List Call := [.init 4 4, .add 3 0, .add 0 1, .add 3 2, .add 4 3, .add 1 3]

theorem accepts_exactly_total_plans_of_scattered :
    (∀ call ∈ scatteredCalls, call.Fits) ∧ ∃ t, Tally.run scatteredCalls = .ok t ∧
      t.plan.edges.length < indexLimit ∧ t.plan.group.check .general = .ok () ∧
      t.plan.group.check .permutation = .error (.error .sourceRepeated) ∧
      ∃ t' swaps, t.group = .ok (t', swaps) ∧ t'.plan = t.plan.group ∧
        t.plan.Judged .permutation (t'.plan.check .permutation) ∧
        ∀ stop, t'.plan.check .permutation = .error stop → ∀ x parties mode size s, s.plan = t.plan →
          (planner x parties .permutation mode size).start s = .done (.error stop, { s with plan := t'.plan }) := by
  have hfits : ∀ call ∈ scatteredCalls, call.Fits := by simp [scatteredCalls, Call.Fits, indexLimit]
  have hlimit : ∀ before ∈ scatteredCalls.inits, (History.run before).accepted.length < indexLimit := by
    decide +kernel
  obtain ⟨t, hrun, hplan, -⟩ := Tally.run_eq scatteredCalls hlimit
  have hfew : t.plan.edges.length < indexLimit := by
    rw [hplan]
    decide +kernel
  refine ⟨hfits, t, hrun, hfew, ?_, ?_, accepts_exactly_total_plans _ t .permutation hfits hrun hfew⟩
  · rw [hplan]
    decide +kernel
  · rw [hplan]
    decide +kernel

end Switching

end ObliviousRouting
