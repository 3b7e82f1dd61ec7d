import Mathlib.Data.List.Nodup
import Mathlib.Data.List.Perm.Basic
import ObliviousRouting.Proofs.Plan.FreeSlots
import ObliviousRouting.Proofs.Plan.Grouping
import ObliviousRouting.Switching.Roles

/-!
# Complete plans

A plan is complete if its edges name each destination row once. It does not matter in which order the
edges were added. A complete plan passes its check, and a plan that passes it is complete.
-/

namespace ObliviousRouting.Plan

open Switching

/-- Every destination row is fed by one edge, and every edge comes from a source row. -/
structure Complete (p : Plan) : Prop where
  source_lt : ∀ e ∈ p.edges, e.source < p.sourceRows
  perm : (p.edges.map Edge.destination).Perm (List.range p.destinationRows)

variable {p : Plan}

namespace Complete

theorem length_edges (h : p.Complete) : p.edges.length = p.destinationRows := by
  rw [← List.length_map (f := Edge.destination), h.perm.length_eq, List.length_range]

theorem nodup (h : p.Complete) : (p.edges.map Edge.destination).Nodup :=
  h.perm.nodup_iff.2 List.nodup_range

theorem destination_lt (h : p.Complete) {e : Edge} (he : e ∈ p.edges) :
    e.destination < p.destinationRows :=
  List.mem_range.1 (h.perm.mem_iff.1 (List.mem_map_of_mem he))

theorem selectRows_eq (h : p.Complete) : p.selectRows = max p.sourceRows p.destinationRows := by
  rw [selectRows, h.length_edges]

end Complete

/-! ### Adding edges -/

theorem addAll_eq_ok {p q : Plan} {edges : List Edge} (h : p.addAll edges = .ok q) :
    q = { p with edges := p.edges ++ edges } ∧ (edges ≠ [] → p.grouped = false) ∧
      ∀ e ∈ edges, e.source < p.sourceRows ∧ e.destination < p.destinationRows := by
  induction edges generalizing p with
  | nil =>
    cases h
    refine ⟨by rw [List.append_nil], fun hne => absurd rfl hne, fun e he => nomatch he⟩
  | cons e edges ih =>
    rw [addAll, List.foldlM_cons] at h
    cases hadd : p.add e.source e.destination with
    | error err =>
      rw [hadd] at h
      cases h
    | ok p' =>
      rw [hadd] at h
      obtain ⟨rfl, -, hrest⟩ := ih h
      rw [add] at hadd
      split_ifs at hadd with hgrouped hsource hdestination
      cases hadd
      refine ⟨by rw [List.append_assoc]; rfl, fun _ => Bool.eq_false_iff.2 hgrouped, ?_⟩
      rw [List.forall_mem_cons]
      exact ⟨⟨Nat.lt_of_not_le hsource, Nat.lt_of_not_le hdestination⟩, hrest⟩

theorem sorted_group_of_addAll {sourceRows destinationRows : Nat} {edges : List Edge}
    (h : (blank sourceRows destinationRows).addAll edges = .ok p) : SortedEdges p.group.edges := by
  obtain ⟨rfl, -, -⟩ := addAll_eq_ok h
  exact (groupEdges_spec edges).2

/-! ### The check -/

/-- Neighbours of a list are related if all elements are, in order. -/
theorem forall_zip_tail {α : Type} {r : α → α → Prop} {l : List α} (h : l.Pairwise r) :
    ∀ pair ∈ l.zip l.tail, r pair.1 pair.2 := by
  intro pair hpair
  obtain ⟨i, hi, rfl⟩ := List.mem_iff_getElem.1 hpair
  rw [List.length_zip, List.length_tail] at hi
  rw [List.getElem_zip, List.getElem_tail]
  exact List.pairwise_iff_getElem.1 h i (i + 1) (by omega) (by omega) (Nat.lt_succ_self i)

theorem checkSorted_eq_ok (h : SortedEdges p.edges) : p.checkSorted = .ok () := by
  have hnone : ((p.edges.zip p.edges.tail).findIdx? fun ab => ab.2.source < ab.1.source) = none := by
    rw [List.findIdx?_eq_none_iff]
    intro pair hpair
    exact decide_eq_false (Nat.not_lt_of_le (forall_zip_tail h pair hpair))
  rw [checkSorted, hnone]

theorem checkDestinations_eq_ok {rows : Nat} {taken : List Nat} {edges : List Edge} :
    checkDestinations rows taken edges = .ok () ↔ (edges.map Edge.destination).Nodup ∧
      ∀ e ∈ edges, e.destination < rows ∧ e.destination ∉ taken := by
  induction edges generalizing taken with
  | nil => simp [checkDestinations]
  | cons e edges ih =>
    rw [checkDestinations, List.map_cons, List.nodup_cons, List.forall_mem_cons]
    split_ifs with hrow htaken
    · refine iff_of_false (fun h => nomatch h) fun h => ?_
      exact absurd h.2.1.1 (Nat.not_lt_of_le hrow)
    · exact iff_of_false (fun h => nomatch h) fun h => h.2.1.2 htaken
    · rw [ih]
      constructor
      · rintro ⟨hnodup, hall⟩
        refine ⟨⟨fun hmem => ?_, hnodup⟩, ⟨Nat.lt_of_not_le hrow, htaken⟩, fun e' he' => ?_⟩
        · obtain ⟨e', he', heq⟩ := List.mem_map.1 hmem
          exact (hall e' he').2 (heq ▸ List.mem_cons_self)
        · exact ⟨(hall e' he').1, fun hin => (hall e' he').2 (List.mem_cons_of_mem _ hin)⟩
      · rintro ⟨⟨hnot, hnodup⟩, -, hall⟩
        refine ⟨hnodup, fun e' he' => ⟨(hall e' he').1, fun hin => ?_⟩⟩
        rcases List.mem_cons.1 hin with heq | hin
        · exact hnot (heq ▸ List.mem_map_of_mem he')
        · exact (hall e' he').2 hin

def Injective (p : Plan) : Prop := (p.edges.map Edge.source).Nodup

theorem repeatsSource_eq_false (h : p.Injective) : p.repeatsSource = false := by
  rw [repeatsSource, List.any_eq_false]
  intro pair hpair
  rw [decide_eq_true_eq]
  exact forall_zip_tail (List.pairwise_map.1 h) pair hpair

/-- All that a plan is checked for. -/
theorem check_eq_ok_iff {kind : Kind} : p.check kind = .ok () ↔
    p.checkSorted = .ok () ∧ p.edges.length = p.destinationRows ∧
      checkDestinations p.destinationRows [] p.edges = .ok () ∧
      ¬ (kind = .permutation ∧ p.repeatsSource = true) ∧ p.selectRows < indexLimit := by
  rw [check, ← Nat.not_le]
  cases p.checkSorted with
  | error e => exact ⟨fun h => (nomatch h), fun h => nomatch h.1⟩
  | ok =>
    by_cases hlength : p.edges.length = p.destinationRows
    · rw [if_neg (not_not_intro hlength)]
      cases checkDestinations p.destinationRows [] p.edges with
      | error stop => exact ⟨fun h => (nomatch h), fun h => nomatch h.2.2.1⟩
      | ok =>
        by_cases hrepeats : kind = .permutation ∧ p.repeatsSource = true
        · rw [if_pos hrepeats]
          exact ⟨fun h => (nomatch h), fun h => absurd hrepeats h.2.2.2.1⟩
        · rw [if_neg hrepeats]
          by_cases hlimit : indexLimit ≤ p.selectRows
          · rw [if_pos hlimit]
            exact ⟨fun h => (nomatch h), fun h => absurd hlimit h.2.2.2.2⟩
          · rw [if_neg hlimit]
            exact ⟨fun _ => ⟨rfl, hlength, rfl, hrepeats, hlimit⟩, fun _ => rfl⟩
    · rw [if_pos hlength]
      exact ⟨fun h => (nomatch h), fun h => absurd h.2.1 hlength⟩

/-- The errors of a check. -/
def Objection : SwitchError → Prop
  | .plan _ | .incomplete .. | .destinationRepeated _ | .sourceRepeated | .pass (.tooManyRows _) => True
  | _ => False

theorem objection_of_checkDestinations {rows : Nat} {taken : List Nat} {edges : List Edge} {e : SwitchError}
    (h : checkDestinations rows taken edges = .error (.error e)) : Objection e := by
  induction edges generalizing taken with
  | nil => cases h
  | cons first edges ih =>
    rw [checkDestinations] at h
    split_ifs at h with hrow htaken
    · cases h
    · cases h
      trivial
    · exact ih h

theorem objection_of_check {kind : Kind} {e : SwitchError} (h : p.check kind = .error (.error e)) :
    Objection e := by
  suffices hstop : ∀ stop, p.check kind = .error stop → ∀ e, stop = .error e → Objection e from
    hstop _ h e rfl
  have hobjection {e : SwitchError} (he : Objection e) : ∀ e', Stop.error e = .error e' → Objection e' := by
    rintro _ ⟨⟩
    exact he
  rw [check]
  refine Outcome.stop_of_bind ?_ fun _ => ?_
  · intro stop hsorted
    cases hplan : p.checkSorted with
    | error e =>
      rw [hplan] at hsorted
      cases hsorted
      exact hobjection trivial
    | ok =>
      rw [hplan] at hsorted
      cases hsorted
  refine Outcome.stop_of_guard (hobjection trivial) ?_
  refine Outcome.stop_of_bind (fun stop hstop e heq => ?_) fun _ => ?_
  · subst heq
    exact objection_of_checkDestinations hstop
  refine Outcome.stop_of_guard (hobjection trivial) fun stop hstop => ?_
  split at hstop
  · cases hstop
    exact hobjection trivial
  · cases hstop

theorem check_eq_ok {kind : Kind} (h : p.Complete) (hsorted : SortedEdges p.edges)
    (hkind : kind = .permutation → p.Injective) (hlt : p.selectRows < indexLimit) :
    p.check kind = .ok () := by
  refine check_eq_ok_iff.2 ⟨checkSorted_eq_ok hsorted, h.length_edges, ?_, ?_, hlt⟩
  · exact checkDestinations_eq_ok.2 ⟨h.nodup, fun e he => ⟨h.destination_lt he, List.not_mem_nil⟩⟩
  · rintro ⟨hperm, htrue⟩
    rw [repeatsSource_eq_false (hkind hperm)] at htrue
    cases htrue

/-- Edges in order that name rows of the plan only. -/
structure Sound (p : Plan) : Prop where
  sorted : SortedEdges p.edges
  source_lt : ∀ e ∈ p.edges, e.source < p.sourceRows
  destination_lt : ∀ e ∈ p.edges, e.destination < p.destinationRows

theorem checkDestinations_ne_fault {rows : Nat} {edges : List Edge}
    (h : ∀ e ∈ edges, e.destination < rows) (taken : List Nat) (f : Fault) :
    checkDestinations rows taken edges ≠ .error (.fault f) := by
  induction edges generalizing taken with
  | nil => exact fun heq => nomatch heq
  | cons e edges ih =>
    rw [List.forall_mem_cons] at h
    rw [checkDestinations, if_neg (Nat.not_le_of_lt h.1)]
    split
    · exact fun heq => nomatch heq
    · exact ih h.2 _

/-- Whatever a sound plan is checked for, the check gives an answer. -/
theorem Sound.check_ne_fault (h : p.Sound) (kind : Kind) (f : Fault) :
    p.check kind ≠ .error (.fault f) := by
  rw [check, checkSorted_eq_ok h.sorted]
  by_cases hlength : p.edges.length = p.destinationRows
  · rw [if_neg (not_not_intro hlength)]
    have hdestinations := checkDestinations_ne_fault h.destination_lt [] f
    cases hcheck : checkDestinations p.destinationRows [] p.edges with
    | error stop =>
      rw [hcheck] at hdestinations
      exact hdestinations
    | ok =>
      by_cases hrepeats : kind = .permutation ∧ p.repeatsSource = true
      · rw [if_pos hrepeats]
        exact fun heq => nomatch heq
      · rw [if_neg hrepeats]
        by_cases hlimit : indexLimit ≤ p.selectRows
        · rw [if_pos hlimit]
          exact fun heq => nomatch heq
        · rw [if_neg hlimit]
          exact fun heq => nomatch heq
  · rw [if_pos hlength]
    exact fun heq => nomatch heq

/-- As many destinations as there are rows, none of them twice, are all of them. -/
theorem complete_of_destinations (hsource : ∀ e ∈ p.edges, e.source < p.sourceRows)
    (hlength : p.edges.length = p.destinationRows)
    (h : checkDestinations p.destinationRows [] p.edges = .ok ()) : p.Complete := by
  obtain ⟨hnodup, hlt⟩ := checkDestinations_eq_ok.1 h
  refine ⟨hsource, (List.subperm_of_subset hnodup fun d hd => ?_).perm_of_length_le ?_⟩
  · obtain ⟨e, he, rfl⟩ := List.mem_map.1 hd
    exact List.mem_range.2 (hlt e he).1
  · rw [List.length_range, List.length_map, hlength]

/-- A plan that passes its check names each destination row once. -/
theorem complete_of_check {kind : Kind} (hsource : ∀ e ∈ p.edges, e.source < p.sourceRows)
    (h : p.check kind = .ok ()) : p.Complete := by
  obtain ⟨-, hlength, hdestinations, -⟩ := check_eq_ok_iff.1 h
  exact complete_of_destinations hsource hlength hdestinations

/-- Edges in order of their sources name no source twice if no two neighbours share one. -/
theorem pairwise_lt_of_neighbours {edges : List Edge} (hsorted : SortedEdges edges)
    (h : (edges.zip edges.tail).any (fun (a, b) => a.source = b.source) = false) :
    edges.Pairwise fun a b => a.source < b.source := by
  induction edges with
  | nil => exact .nil
  | cons a edges ih =>
    cases edges with
    | nil => exact List.pairwise_singleton ..
    | cons b edges =>
      obtain ⟨hle, hsorted'⟩ := List.pairwise_cons.1 hsorted
      rw [List.tail_cons, List.zip_cons_cons, List.any_cons, Bool.or_eq_false_iff,
        decide_eq_false_iff_not] at h
      have hlt : a.source < b.source := Nat.lt_of_le_of_ne (hle b List.mem_cons_self) h.1
      have hrest := ih hsorted' h.2
      refine List.pairwise_cons.2 ⟨List.forall_mem_cons.2 ⟨hlt, fun e he => ?_⟩, hrest⟩
      exact Nat.lt_trans hlt (List.rel_of_pairwise_cons hrest he)

/-- A plan that passes its check for distinct sources names no source twice. -/
theorem injective_of_check (hsorted : SortedEdges p.edges) (h : p.check .permutation = .ok ()) :
    p.Injective := by
  obtain ⟨-, -, -, hrepeats, -⟩ := check_eq_ok_iff.1 h
  have hneighbours : p.repeatsSource = false := Bool.eq_false_iff.2 fun htrue => hrepeats ⟨rfl, htrue⟩
  exact List.pairwise_map.2 ((pairwise_lt_of_neighbours hsorted hneighbours).imp Nat.ne_of_lt)

end ObliviousRouting.Plan
