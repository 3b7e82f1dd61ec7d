import ObliviousRouting.Proofs.Plan.CountingSort
import ObliviousRouting.Proofs.Plan.Reachable

/-!
# Plans under any calls

What a plan says about its edges while it is used in any way: after every call its edges are those that it has
accepted since it was begun, in the order in which they were accepted or, once they are grouped, ordered by
source. Next to that, the number of edges of each source row is kept for the counting sort, and is right as
long as edges can be added. So the sort never goes wrong.
-/

namespace ObliviousRouting.Plan

/-- What can be done with a plan. -/
inductive Call where
  | new (sourceRows destinationRows : Nat)
  | init (sourceRows destinationRows : Nat)
  | fromSources (sourceRows : Nat) (sources : List Nat)
  | add (source destination : Nat)
  | group
  | checkSorted
  | rewind
  | nextFree
deriving DecidableEq

/-- The edges with which the `d`-th of some sources feeds destination row `d`. -/
def edgesOf (sources : List Nat) : List Edge :=
  sources.zipIdx.map fun (source, destination) => ⟨source, destination⟩

/-! ### What single calls do -/

theorem add_eq_ok {p q : Plan} {source destination : Nat} (h : p.add source destination = .ok q) :
    p.grouped = false ∧ source < p.sourceRows ∧
      q = { p with edges := p.edges ++ [⟨source, destination⟩] } := by
  rw [add] at h
  split_ifs at h with hgrouped hsource hdestination
  cases h
  exact ⟨Bool.eq_false_iff.2 hgrouped, Nat.lt_of_not_le hsource, rfl⟩

theorem Reachable.addAll {p q : Plan} (hp : p.Reachable) {edges : List Edge} (h : p.addAll edges = .ok q) :
    q.Reachable := by
  induction edges generalizing p with
  | nil =>
    cases h
    exact hp
  | cons e edges ih =>
    rw [Plan.addAll, List.foldlM_cons] at h
    cases hadd : p.add e.source e.destination with
    | error err =>
      rw [hadd] at h
      cases h
    | ok p' =>
      rw [hadd] at h
      exact ih (hp.add hadd) h

theorem ofSources_eq (m : Nat) (sources : List Nat) : ofSources m sources =
    if indexLimit ≤ sources.length then .error (.tooLarge sources.length)
    else (blank m sources.length).addAll (edgesOf sources) >>= fun p => .ok p.group := by
  rw [ofSources]
  split <;> rfl

theorem ofSources_eq_ok {m : Nat} {sources : List Nat} {p : Plan} (h : ofSources m sources = .ok p) :
    sources.length < indexLimit ∧ ∃ q, (blank m sources.length).addAll (edgesOf sources) = .ok q ∧
      p = q.group := by
  rw [ofSources_eq] at h
  split at h
  next => cases h
  next hlt =>
    cases hadd : (blank m sources.length).addAll (edgesOf sources) with
    | error e =>
      rw [hadd] at h
      cases h
    | ok q =>
      rw [hadd] at h
      cases h
      exact ⟨Nat.lt_of_not_le hlt, q, rfl, rfl⟩

/-- A search moves the cursor and does nothing else. -/
theorem nextFree_cursor (p : Plan) : ∃ cursor, p.nextFree.2 = { p with cursor } := by
  rw [nextFree]
  simp only
  split <;> exact ⟨_, rfl⟩

/-! ### What is accepted -/

/-- A plan, and the edges that it has accepted since it was begun, in that order. -/
structure History where
  plan : Plan := {}
  accepted : List Edge := []

namespace History

/-- What a call makes of a plan. A plan that could not be made does not replace the one that there is. -/
def after (h : History) : Call → History
  | .new m n => ⟨blank m n, []⟩
  | .init m n => ⟨blank m n, []⟩
  | .fromSources m sources => match ofSources m sources with
    | .ok p => ⟨p, edgesOf sources⟩
    | .error _ => h
  | .add source destination => match h.plan.add source destination with
    | .ok p => ⟨p, h.accepted ++ [⟨source, destination⟩]⟩
    | .error _ => h
  | .group => { h with plan := h.plan.group }
  | .checkSorted => h
  | .rewind => { h with plan := h.plan.rewind }
  | .nextFree => { h with plan := h.plan.nextFree.2 }

def run (calls : List Call) : History := calls.foldl after {}

/-- A plan that could have come up otherwise has the edges that were accepted, and in their order as long as
others can be added. -/
structure Faithful (h : History) : Prop where
  reachable : h.plan.Reachable
  perm : h.plan.edges.Perm h.accepted
  inserted : h.plan.grouped = false → h.plan.edges = h.accepted

variable {h : History}

theorem Faithful.after (hfaithful : h.Faithful) (call : Call) : (h.after call).Faithful := by
  cases call with
  | new m n => exact ⟨.blank m n, .refl _, fun _ => rfl⟩
  | init m n => exact ⟨.blank m n, .refl _, fun _ => rfl⟩
  | fromSources m sources =>
    rw [History.after]
    split
    next p hp =>
      obtain ⟨-, q, hadd, rfl⟩ := ofSources_eq_ok hp
      obtain ⟨hq, -, -⟩ := addAll_eq_ok hadd
      refine ⟨(Reachable.addAll (.blank _ _) hadd).group, ?_, fun hopen => ?_⟩
      · rw [hq]
        exact group_edges_perm _
      · rw [grouped_group] at hopen
        cases hopen
    next => exact hfaithful
  | add source destination =>
    rw [History.after]
    split
    next p hadd =>
      obtain ⟨hopen, -, rfl⟩ := add_eq_ok hadd
      refine ⟨hfaithful.reachable.add hadd, hfaithful.perm.append_right _, fun _ => ?_⟩
      rw [hfaithful.inserted hopen]
    next => exact hfaithful
  | group =>
    refine ⟨hfaithful.reachable.group, (group_edges_perm h.plan).trans hfaithful.perm, fun hopen => ?_⟩
    rw [History.after, grouped_group] at hopen
    cases hopen
  | checkSorted => exact hfaithful
  | rewind => exact ⟨.search {} hfaithful.reachable, hfaithful.perm, hfaithful.inserted⟩
  | nextFree =>
    obtain ⟨cursor, hcursor⟩ := nextFree_cursor h.plan
    rw [History.after, hcursor]
    exact ⟨.search cursor hfaithful.reachable, hfaithful.perm, hfaithful.inserted⟩

theorem faithful_run (calls : List Call) : (run calls).Faithful := by
  induction calls using List.reverseRecOn with
  | nil => exact ⟨.blank 0 0, .refl _, fun _ => rfl⟩
  | append_singleton calls call ih =>
    rw [run, List.foldl_concat]
    exact ih.after call

end History

/-! ### Counting the edges -/

/-- A plan with the number of edges of each source row. Once the edges are grouped, nothing is counted. -/
structure Tally where
  plan : Plan := {}
  counts : List Nat := []

namespace Tally

def blank (sourceRows destinationRows : Nat) : Tally :=
  ⟨Plan.blank sourceRows destinationRows, List.replicate sourceRows 0⟩

/-- Adds an edge and counts it, or refuses it. -/
def add (t : Tally) (source destination : Nat) : Checked (Except PlanError Unit × Tally) :=
  match t.plan.add source destination with
  | .error e => .ok (.error e, t)
  | .ok plan =>
    match t.counts[source]? with
    | none => .error .outOfRange
    | some count =>
      if count + 1 < indexLimit then .ok (.ok (), ⟨plan, t.counts.set source (count + 1)⟩)
      else .error .overflow

/-- Adds edges until one is refused. -/
def addAll (t : Tally) : List Edge → Checked (Except PlanError Unit × Tally)
  | [] => .ok (.ok (), t)
  | e :: edges => do
    match ← t.add e.source e.destination with
    | (.ok (), t) => t.addAll edges
    | (.error err, t) => return (.error err, t)

/-- Groups the edges, unless they are, and gives the number of exchanges. -/
def group (t : Tally) : Checked (Tally × Nat) :=
  if t.plan.grouped then .ok (t, 0)
  else do
    let (edges, swaps) ← countingSort t.plan.edges t.counts
    return (⟨{ t.plan with edges, grouped := true }, []⟩, swaps)

def ofSources (sourceRows : Nat) (sources : List Nat) : Checked (Except PlanError Tally) := do
  if indexLimit ≤ sources.length then return .error (.tooLarge sources.length)
  match ← (blank sourceRows sources.length).addAll (edgesOf sources) with
  | (.error e, _) => return .error e
  | (.ok (), t) => do
    let (t, _) ← t.group
    return .ok t

/-- What a call makes of a plan and its counts. -/
def after (t : Tally) : Call → Checked Tally
  | .new m n => .ok (blank m n)
  | .init m n => .ok (blank m n)
  | .fromSources m sources => do
    match ← ofSources m sources with
    | .ok t => return t
    | .error _ => return t
  | .add source destination => do
    let (_, t) ← t.add source destination
    return t
  | .group => do
    let (t, _) ← t.group
    return t
  | .checkSorted => .ok t
  | .rewind => .ok { t with plan := t.plan.rewind }
  | .nextFree => .ok { t with plan := t.plan.nextFree.2 }

def run (calls : List Call) : Checked Tally := calls.foldlM after {}

/-- The counts are right as long as edges can be added. -/
structure Right (t : Tally) : Prop where
  open_eq : t.plan.grouped = false → t.counts = countsOf t.plan.sourceRows t.plan.edges
  source_lt : ∀ e ∈ t.plan.edges, e.source < t.plan.sourceRows

theorem right_blank (m n : Nat) : (blank m n).Right where
  open_eq _ := by
    change List.replicate m 0 = (List.range m).map fun _ => 0
    rw [List.map_const', List.length_range]
  source_lt e he := nomatch he

theorem getElem?_countsOf {rows s : Nat} (edges : List Edge) (hs : s < rows) :
    (countsOf rows edges)[s]? = some (edges.countP fun e => e.source = s) := by
  rw [countsOf, List.getElem?_map, List.getElem?_range hs, Option.map_some]

theorem length_countsOf (rows : Nat) (edges : List Edge) : (countsOf rows edges).length = rows := by
  rw [countsOf, List.length_map, List.length_range]

/-- An edge more is one more for its source. -/
theorem countsOf_concat (rows source : Nat) (edges : List Edge) (destination : Nat) :
    countsOf rows (edges ++ [⟨source, destination⟩]) =
      (countsOf rows edges).set source ((edges.countP fun e => e.source = source) + 1) := by
  apply List.ext_getElem?
  intro s
  rcases Nat.lt_or_ge s rows with hs | hs
  · rw [getElem?_countsOf _ hs, List.countP_append, List.countP_singleton]
    by_cases heq : source = s
    · subst heq
      rw [List.getElem?_set_self (by rwa [length_countsOf]), if_pos (decide_eq_true rfl)]
    · rw [List.getElem?_set_ne heq, getElem?_countsOf _ hs, if_neg (by simpa using heq), Nat.add_zero]
  · rw [List.getElem?_eq_none (by rwa [length_countsOf]),
      List.getElem?_eq_none (by rwa [List.length_set, length_countsOf])]

variable {t : Tally}

/-- The counts stay right if an edge that is accepted is counted. -/
theorem Right.count (h : t.Right) {source destination : Nat} {p : Plan}
    (hadd : t.plan.add source destination = .ok p) :
    t.counts[source]? = some (t.plan.edges.countP fun e => e.source = source) ∧
      Right ⟨p, t.counts.set source ((t.plan.edges.countP fun e => e.source = source) + 1)⟩ := by
  obtain ⟨hopen, hsource, hp⟩ := add_eq_ok hadd
  subst hp
  rw [h.open_eq hopen]
  refine ⟨getElem?_countsOf t.plan.edges hsource, fun _ => ?_, fun e he => ?_⟩
  · exact (countsOf_concat _ source t.plan.edges destination).symm
  · rcases List.mem_append.1 he with he | he
    · exact h.source_lt e he
    · rw [List.eq_of_mem_singleton he]
      exact hsource

/-- An edge that is accepted can be counted. -/
theorem Right.add (h : t.Right) {source destination : Nat} {p : Plan}
    (hadd : t.plan.add source destination = .ok p) (hlt : t.plan.edges.length + 1 < indexLimit) :
    ∃ counts, t.add source destination = .ok (.ok (), ⟨p, counts⟩) ∧ Right ⟨p, counts⟩ := by
  obtain ⟨hcount, hright⟩ := h.count hadd
  have hle : (t.plan.edges.countP fun e => e.source = source) ≤ t.plan.edges.length := List.countP_le_length
  refine ⟨_, ?_, hright⟩
  rw [Tally.add, hadd]
  simp only [hcount]
  rw [if_pos (by omega)]

theorem add_of_error {source destination : Nat} {e : PlanError}
    (hadd : t.plan.add source destination = .error e) : t.add source destination = .ok (.error e, t) := by
  rw [Tally.add, hadd]

theorem Right.addAll (h : t.Right) {edges : List Edge}
    (hlt : t.plan.edges.length + edges.length < indexLimit) :
    (∃ p counts, t.plan.addAll edges = .ok p ∧ t.addAll edges = .ok (.ok (), ⟨p, counts⟩) ∧
      Right ⟨p, counts⟩) ∨
      ∃ e t', t.plan.addAll edges = .error e ∧ t.addAll edges = .ok (.error e, t') := by
  induction edges generalizing t with
  | nil => exact .inl ⟨t.plan, t.counts, rfl, rfl, h⟩
  | cons e edges ih =>
    rw [List.length_cons] at hlt
    rw [Plan.addAll, List.foldlM_cons, Tally.addAll]
    cases hadd : t.plan.add e.source e.destination with
    | error err =>
      rw [add_of_error hadd]
      exact .inr ⟨err, t, rfl, rfl⟩
    | ok p =>
      obtain ⟨counts, hcounted, hright⟩ := h.add hadd (by omega)
      obtain ⟨-, -, hp⟩ := add_eq_ok hadd
      rw [hcounted]
      apply ih hright
      rw [hp, List.length_append, List.length_singleton]
      omega

/-- Grouping goes through. -/
theorem Right.group (h : t.Right) (hlt : t.plan.edges.length < indexLimit) :
    ∃ t' swaps, t.group = .ok (t', swaps) ∧ swaps ≤ t.plan.edges.length ∧ t'.plan = t.plan.group ∧
      t'.Right := by
  cases hgrouped : t.plan.grouped with
  | true =>
    refine ⟨t, 0, if_pos hgrouped, Nat.zero_le _, (group_of_grouped hgrouped).symm, h⟩
  | false =>
    obtain ⟨swaps, hle, hsort⟩ := countingSort_eq h.source_lt hlt
    have hne : ¬ t.plan.grouped = true := Bool.eq_false_iff.1 hgrouped
    have hplan : t.plan.group = { t.plan with edges := groupEdges t.plan.edges, grouped := true } := if_neg hne
    refine ⟨⟨t.plan.group, []⟩, swaps, ?_, hle, rfl, ?_, ?_⟩
    · rw [Tally.group, if_neg hne, h.open_eq hgrouped, hsort, hplan]
      rfl
    · intro hopen
      rw [grouped_group] at hopen
      cases hopen
    · intro e he
      rw [group_sourceRows]
      exact h.source_lt e ((group_edges_perm t.plan).mem_iff.1 he)

theorem ofSources_eq (m : Nat) (sources : List Nat) :
    (∃ t, Plan.ofSources m sources = .ok t.plan ∧ ofSources m sources = .ok (.ok t) ∧ t.Right) ∨
      ∃ e, Plan.ofSources m sources = .error e ∧ ofSources m sources = .ok (.error e) := by
  rw [Plan.ofSources_eq, ofSources]
  by_cases hle : indexLimit ≤ sources.length
  · rw [if_pos hle, if_pos hle]
    exact .inr ⟨_, rfl, rfl⟩
  · rw [if_neg hle, if_neg hle]
    have hlength : (edgesOf sources).length < indexLimit := by
      rw [edgesOf, List.length_map, List.length_zipIdx]
      exact Nat.lt_of_not_le hle
    have hadded := (right_blank m sources.length).addAll
      (show 0 + (edgesOf sources).length < indexLimit by rwa [Nat.zero_add])
    rcases hadded with ⟨p, counts, hplan, hcounted, hright⟩ | ⟨e, t', hplan, hcounted⟩
    · obtain ⟨hp, -, -⟩ := addAll_eq_ok hplan
      obtain ⟨t', swaps, hgroup, -, hplan', hright'⟩ := hright.group (by rw [hp]; exact hlength)
      refine .inl ⟨t', ?_, ?_, hright'⟩
      · rw [hplan']
        exact congrArg (· >>= fun p => .ok p.group) hplan
      · rw [hcounted]
        change (Tally.group _ >>= _) = _
        rw [hgroup]
        rfl
    · refine .inr ⟨e, ?_, ?_⟩
      · exact congrArg (· >>= fun p => .ok p.group) hplan
      · rw [hcounted]
        rfl

/-- The counts stay right, and with them a call goes through if not too many edges are accepted. -/
theorem Right.after {h : History} (hright : t.Right) (hplan : t.plan = h.plan) (hfaithful : h.Faithful)
    {call : Call} (hnow : h.accepted.length < indexLimit)
    (hnext : (h.after call).accepted.length < indexLimit) :
    ∃ t', t.after call = .ok t' ∧ t'.plan = (h.after call).plan ∧ t'.Right := by
  have hlength : t.plan.edges.length = h.accepted.length := by rw [hplan, hfaithful.perm.length_eq]
  cases call with
  | new m n => exact ⟨blank m n, rfl, rfl, right_blank m n⟩
  | init m n => exact ⟨blank m n, rfl, rfl, right_blank m n⟩
  | fromSources m sources =>
    rcases ofSources_eq m sources with ⟨t', hmade, hcounted, hright'⟩ | ⟨e, hmade, hcounted⟩
    · refine ⟨t', ?_, ?_, hright'⟩
      · rw [Tally.after, hcounted]
        rfl
      · rw [History.after, hmade]
    · refine ⟨t, ?_, ?_, hright⟩
      · rw [Tally.after, hcounted]
        rfl
      · rw [History.after, hmade]
        exact hplan
  | add source destination =>
    rw [History.after, ← hplan] at hnext ⊢
    cases hadd : t.plan.add source destination with
    | error e =>
      refine ⟨t, ?_, hplan, hright⟩
      rw [Tally.after, add_of_error hadd]
      rfl
    | ok p =>
      rw [hadd] at hnext
      simp only [List.length_append, List.length_singleton, ← hlength] at hnext
      obtain ⟨counts, hcounted, hright'⟩ := hright.add hadd hnext
      refine ⟨⟨p, counts⟩, ?_, rfl, hright'⟩
      rw [Tally.after, hcounted]
      rfl
  | group =>
    obtain ⟨t', swaps, hgroup, -, hplan', hright'⟩ := hright.group (hlength ▸ hnow)
    refine ⟨t', ?_, ?_, hright'⟩
    · rw [Tally.after, hgroup]
      rfl
    · rw [hplan', hplan, History.after]
  | checkSorted => exact ⟨t, rfl, hplan, hright⟩
  | rewind => exact ⟨_, rfl, by rw [hplan, History.after], ⟨hright.open_eq, hright.source_lt⟩⟩
  | nextFree =>
    obtain ⟨cursor, hcursor⟩ := nextFree_cursor t.plan
    refine ⟨_, rfl, by rw [hplan, History.after], ?_⟩
    rw [hcursor]
    exact ⟨hright.open_eq, hright.source_lt⟩

theorem run_eq (calls : List Call)
    (hlimit : ∀ before ∈ calls.inits, (History.run before).accepted.length < indexLimit) :
    ∃ t, run calls = .ok t ∧ t.plan = (History.run calls).plan ∧ t.Right := by
  induction calls using List.reverseRecOn with
  | nil => exact ⟨{}, rfl, rfl, right_blank 0 0⟩
  | append_singleton calls call ih =>
    have hbefore : ∀ before ∈ calls.inits, (History.run before).accepted.length < indexLimit := by
      intro before hmem
      refine hlimit before ((List.mem_inits ..).2 ?_)
      exact ((List.mem_inits ..).1 hmem).trans (List.prefix_append ..)
    obtain ⟨t, hrun, hplan, hright⟩ := ih hbefore
    have hnow := hbefore calls ((List.mem_inits ..).2 List.prefix_rfl)
    have hnext := hlimit (calls ++ [call]) ((List.mem_inits ..).2 List.prefix_rfl)
    rw [History.run, List.foldl_concat] at hnext ⊢
    obtain ⟨t', hafter, hrest⟩ := hright.after hplan (History.faithful_run calls) hnow hnext
    refine ⟨t', ?_, hrest⟩
    rw [run] at hrun
    rw [run, List.foldlM_append, hrun]
    exact (bind_pure _).trans hafter

/-- What adding answers is what the plan says, and an edge that is refused changes nothing. -/
theorem add_eq_error_iff {source destination : Nat} {e : PlanError} {t' : Tally} :
    t.add source destination = .ok (.error e, t') ↔ t' = t ∧ t.plan.add source destination = .error e := by
  constructor
  · intro h
    rw [add] at h
    split at h
    next e' hadd =>
      cases h
      exact ⟨rfl, hadd⟩
    next p hadd =>
      split at h
      next => cases h
      next =>
        split at h
        next => cases h
        next => cases h
  · rintro ⟨rfl, hadd⟩
    exact add_of_error hadd

end Tally

/-! ### Any calls -/

/-- A plan and its counts after some calls. -/
structure Orderly (h : History) (t : Tally) : Prop where
  plan_eq : t.plan = h.plan
  in_range : ∀ e ∈ h.plan.edges, e.source < h.plan.sourceRows ∧ e.destination < h.plan.destinationRows
  perm : h.plan.edges.Perm h.accepted
  inserted : h.plan.grouped = false → h.plan.edges = h.accepted
  counted : h.plan.grouped = false → t.counts = countsOf h.plan.sourceRows h.plan.edges
  sorted : h.plan.grouped = true → SortedEdges h.plan.edges
  checked : h.plan.grouped = true → h.plan.checkSorted = .ok ()
  /-- Grouping goes through, with no more exchanges than there are edges. -/
  groups : ∃ t' swaps, t.group = .ok (t', swaps) ∧ swaps ≤ h.plan.edges.length ∧ t'.plan = h.plan.group
  regrouped : h.plan.grouped = true → t.group = .ok (t, 0)
  closed : h.plan.grouped = true → ∀ source destination,
    t.add source destination = .ok (.error .alreadyGrouped, t)
  refused (source destination : Nat) (e : PlanError) (t' : Tally) :
    t.add source destination = .ok (.error e, t') ↔ t' = t ∧ h.plan.add source destination = .error e

/-- Whatever calls are made, and in whatever order, they go through as long as fewer edges are accepted than
can be counted, and a plan is in order after each of them. -/
theorem calls_keep_order (calls : List Call)
    (hlimit : ∀ before ∈ calls.inits, (History.run before).accepted.length < indexLimit) :
    ∃ t, Tally.run calls = .ok t ∧ Orderly (History.run calls) t := by
  obtain ⟨t, hrun, hplan, hright⟩ := Tally.run_eq calls hlimit
  have hfaithful := History.faithful_run calls
  have hnow := hlimit calls ((List.mem_inits ..).2 List.prefix_rfl)
  have hsorted := hfaithful.reachable.sorted
  have hadd : ∀ source destination e t', t.add source destination = .ok (.error e, t') ↔
      t' = t ∧ (History.run calls).plan.add source destination = .error e := by
    intro source destination e t'
    rw [← hplan]
    exact Tally.add_eq_error_iff
  rw [← hfaithful.perm.length_eq, ← hplan] at hnow
  refine ⟨t, hrun, hplan, hfaithful.reachable.mem_edges, hfaithful.perm, hfaithful.inserted, ?_, hsorted,
    fun hgrouped => checkSorted_eq_ok (hsorted hgrouped), ?_, ?_, ?_, hadd⟩
  · rw [← hplan]
    exact hright.open_eq
  · obtain ⟨t', swaps, hgroup, hle, hplan', -⟩ := hright.group hnow
    rw [hplan] at hle hplan'
    exact ⟨t', swaps, hgroup, hle, hplan'⟩
  · intro hgrouped
    exact if_pos (hplan ▸ hgrouped)
  · intro hgrouped source destination
    exact (hadd source destination _ t).2 ⟨rfl, if_pos hgrouped⟩

/-- A plan that is begun anew, gets four edges, refuses one, is grouped and searched, and refuses another. -/
def someCalls : List Call :=
  [.fromSources 2 [1, 1], .init 4 4, .add 3 0, .add 0 1, .add 4 2, .add 3 2, .add 1 3, .group, .checkSorted,
    .rewind, .nextFree, .add 0 0, .group]

theorem calls_keep_order_of_some :
    (∀ before ∈ someCalls.inits, (History.run before).accepted.length < indexLimit) ∧
      (History.run someCalls).accepted = [⟨3, 0⟩, ⟨0, 1⟩, ⟨3, 2⟩, ⟨1, 3⟩] ∧
      ∃ t, Tally.run someCalls = .ok t ∧ Orderly (History.run someCalls) t :=
  have hlimit : ∀ before ∈ someCalls.inits, (History.run before).accepted.length < indexLimit := by decide +kernel
  ⟨hlimit, by decide +kernel, calls_keep_order someCalls hlimit⟩

end ObliviousRouting.Plan
