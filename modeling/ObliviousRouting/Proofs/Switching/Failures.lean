import ObliviousRouting.Proofs.Pass.Failures
import ObliviousRouting.Proofs.Switching.Safety

/-!
# What a run leaves of the destination rows when it fails

Planner and owner write nothing into their destination rows before they scatter. The planner then writes all
of its own share at once, and all that can go wrong after that is that it cannot hand over its targets. The
owner goes on batch by batch, and stops between two of them.
-/

namespace ObliviousRouting

open Role

variable {σ : Type}

theorem Pass.keeps_send (blinding : Blinding) (collector : Nat) (data : RowBuffer) (size : BatchSize)
    (phase : String) (s : σ) : Keeps (send blinding collector data size phase) s := by
  simp only [send]
  refine Keeps.bind (.ofExcept _ s) fun _ => ?_
  refine Keeps.bind (.iterate (fun k rows => ?_) _ _) fun _ => .of_performs (.pure _ s)
  refine Keeps.bind (.ofChecked _ s) fun _ => ?_
  refine Keeps.bind (.ofChecked _ s) fun _ => ?_
  exact Keeps.bind (.mapError (.sendBytes _ _ _ s)) fun _ => .of_performs (.pure _ s)

theorem Reveal.keeps_choose (flips : Flips) (offering serving : Nat) (choices : List Bool) (stride : Nat)
    (size : BatchSize) (phase : String) (s : σ) :
    Keeps (choose flips offering serving choices stride size phase) s := by
  simp only [choose]
  refine Keeps.bind (.ofChecked _ s) fun chosen => .iterate (fun k chosen => ?_) _ _
  refine Keeps.bind (.ofChecked _ s) fun _ => ?_
  refine Keeps.bind (.ofChecked _ s) fun _ => ?_
  refine Keeps.bind (.mapError (.sendBytes _ _ _ s)) fun _ => ?_
  refine Keeps.bind (.mapError (.ofProcess _ s)) fun _ => ?_
  refine Keeps.bind (.ofChecked _ s) fun _ => ?_
  refine Keeps.bind (.ofExcept _ s) fun _ => ?_
  exact Keeps.bind (.ofExcept _ s) fun _ => .ofChecked _ s

theorem Reveal.keeps_serve (pads : Pads) (chooser rows stride : Nat) (size : BatchSize) (phase : String)
    (s : σ) : Keeps (serve pads chooser rows stride size phase) s := by
  simp only [serve]
  refine Keeps.iterate (fun k _ => ?_) _ _
  refine Keeps.bind (.ofChecked _ s) fun _ => ?_
  refine Keeps.bind (.ofChecked _ s) fun _ => ?_
  refine Keeps.bind (.ofChecked _ s) fun _ => ?_
  refine Keeps.bind (.mapError (.receiveBytes _ _ s)) fun packed => ?_
  split
  · exact .fail _ s
  · exact .mapError (.sendBytes _ _ _ s)

namespace Switching

variable {x : Expansion} {parties : Parties} {kind : Kind} {mode : Mode} {size : BatchSize}

/-! ### Everything before the scattering -/

/-- All that the planner does before it writes: it checks the plan, greets, selects, makes copies, and agrees
on the seed of the scattering pass. -/
def preparePlanner (x : Expansion) (parties : Parties) (kind : Kind) (size : BatchSize) :
    Role PlannerState SwitchError (RowBuffer × Seed) := do
  modify fun s => { s with plan := s.plan.group }
  let ⟨_, plan, dest⟩ ← get
  Role.ofOutcome (plan.check kind)
  if dest.size ≠ plan.destinationRows then
    Role.fail (.rowsMismatch plan.destinationRows dest.size)
  greet parties .planner ⟨kind, plan.sourceRows, plan.destinationRows, dest.stride, size⟩
  let compact ← Select.planner x parties dest.stride size
  let compact ← match kind with
    | .permutation => pure compact
    | .general => Duplicate.planner x parties compact size
  let seed ← PlannerState.onTape (toss parties .planner .helper "scatter seed")
  return (compact, seed)

/-- Writes the planner's share, and routes the helper's. -/
def scatterShares (x : Expansion) (parties : Parties) (mode : Mode) (size : BatchSize) (compact : RowBuffer)
    (seed : Seed) : Role PlannerState SwitchError Unit := do
  let ⟨_, plan, before⟩ ← get
  let dest ← Role.ofChecked (Scatter.writeShares mode compact 0 plan.edges before)
  modify fun s => { s with dest }
  PlannerState.onDest
    (Pass.route (x.scattering seed) parties.owner plan.scatterTargets .additive size "scatter")

theorem planner_eq : planner x parties kind mode size =
    preparePlanner x parties kind size >>= fun (compact, seed) =>
      scatterShares x parties mode size compact seed := by
  cases kind with
  | permutation =>
    simp only [planner, preparePlanner, Scatter.planner, scatterShares, bind_assoc, pure_bind]
    refine bind_congr fun _ => bind_congr fun s => bind_congr fun _ => ?_
    split
    · simp only [bind_assoc, pure_bind]
    · simp only [bind_assoc, pure_bind]
  | general =>
    simp only [planner, preparePlanner, Scatter.planner, scatterShares, bind_assoc]
    refine bind_congr fun _ => bind_congr fun s => bind_congr fun _ => ?_
    split
    · simp only [bind_assoc, pure_bind]
    · simp only [bind_assoc, pure_bind]

/-- All that the owner does before it scatters, with the shape of the run. -/
def prepareOwner (x : Expansion) (parties : Parties) (kind : Kind) (source : RowBuffer) (size : BatchSize) :
    Role OwnerState SwitchError Shape := do
  let ⟨_, dest⟩ ← get
  if source.stride ≠ dest.stride then Role.fail (.strideMismatch source.stride dest.stride)
  let shape : Shape := ⟨kind, source.size, dest.size, source.stride, size⟩
  greet parties .owner shape
  Select.owner x parties shape source
  match kind with
  | .permutation => pure ()
  | .general => Duplicate.owner x parties shape
  return shape

theorem owner_eq {source : RowBuffer} : owner x parties kind source mode size =
    prepareOwner x parties kind source size >>= fun shape => Scatter.owner parties shape mode := by
  simp only [owner, prepareOwner, bind_assoc]
  refine bind_congr fun s => ?_
  cases kind with
  | permutation =>
    split
    · simp only [bind_assoc, pure_bind]
    · simp only [bind_assoc, pure_bind]
  | general =>
    split
    · simp only [bind_assoc, pure_bind]
    · simp only [bind_assoc, pure_bind]

/-- The error of a planner that could not hand over targets of the scattering pass. -/
def Scatter.unsent (failure : SendFailure) : SwitchError := .pass (.link ⟨"scatter", .notSent failure⟩)

/-- Something else has gone wrong. -/
def Elsewhere (stop : Stop SwitchError) : Prop := ∀ failure, stop ≠ .error (Scatter.unsent failure)

theorem elsewhere_fault (f : Fault) : Elsewhere (.fault f) := fun _ => Stop.fault_ne_error

theorem elsewhere_error {e : SwitchError} (h : ∀ e', e ≠ .pass (.link e')) : Elsewhere (.error e) :=
  fun _ heq => h _ (Stop.error.inj heq)

theorem elsewhere_map {ε : Type} {f : ε → SwitchError} (h : ∀ e e', f e ≠ .pass (.link e'))
    (stop : Stop ε) : Elsewhere (stop.map f) := by
  cases stop with
  | error e => exact elsewhere_error (h e)
  | fault e => exact elsewhere_fault e

theorem ensures_greet (own : Part) (shape : Shape) (s : σ) :
    Ensures (greet parties own shape) s (fun _ _ s' => s' = s) fun _ stop s' => s' = s ∧ Elsewhere stop := by
  have hlink : ∀ stop : Stop LinkError, Elsewhere (stop.map SwitchError.link) :=
    elsewhere_map (by simp)
  refine Ensures.bind (Ensures.forM fun peer _ => (Keeps.sendBytes _ _ _ s).ensures_mapError hlink)
    fun _ _ s' hs => ?_
  subst hs
  refine Ensures.forM fun peer _ => Ensures.bind ((Keeps.receiveBytes _ _ s').ensures_mapError hlink)
    fun _ message s'' hs => ?_
  subst hs
  dsimp only
  split
  · exact Ensures.pure rfl
  · exact Ensures.fail ⟨rfl, elsewhere_error (by simp)⟩

theorem PlannerState.ensures_toss (own other : Part) (phase : String) (s : PlannerState) :
    Ensures (onTape (toss parties own other phase)) s (fun _ _ s' => ∃ tape, s' = { s with tape })
      fun _ stop s' => s'.dest = s.dest ∧ Elsewhere stop := by
  refine Ensures.within (Ensures.mapError ((Ensures.runs _ _).mono ?_ ?_))
  · exact fun _ _ tape _ => ⟨tape, rfl⟩
  · exact fun _ stop _ _ => ⟨rfl, elsewhere_map (f := SwitchError.toss) (by simp) stop⟩

theorem OwnerState.ensures_toss (own other : Part) (phase : String) (s : OwnerState) :
    Ensures (onTape (toss parties own other phase)) s (fun _ _ s' => s'.dest = s.dest)
      fun _ _ s' => s'.dest = s.dest :=
  Ensures.within (Ensures.mapError ((Ensures.runs _ _).mono (fun _ _ _ _ => rfl) fun _ _ _ _ => rfl))

/-! ### The planner -/

theorem elsewhere_of_check (p : Plan) (stop : Stop SwitchError) (h : p.check kind = .error stop) :
    Elsewhere stop := by
  cases stop with
  | fault f => exact elsewhere_fault f
  | error e =>
    refine elsewhere_error ?_
    rintro _ rfl
    exact Plan.objection_of_check h

/-- An error of a pass belongs to its phase. -/
theorem elsewhere_of_route {collector : Nat} {targets : List Target} {phase : String} {dest dest' : RowBuffer}
    {trace : Trace} {e : PassError} (h : Pass.RouteFailure collector targets phase dest trace e dest')
    (hphase : phase ≠ "scatter") : Elsewhere (.error (.pass e)) := by
  intro failure heq
  cases heq
  rcases h with ⟨hrows | htargets, -⟩ | ⟨_, heq, -⟩
  · rw [Pass.checkRows] at hrows
    split at hrows
    · cases hrows
    · cases hrows
  · rw [Pass.checkTargets] at htargets
    split at htargets
    · cases htargets
    · cases htargets
  · cases heq
    exact hphase rfl

theorem Select.ensures_planner {stride : Nat} {s : PlannerState} (hplan : s.plan.Sound)
    (hlimit : s.plan.selectRows ≤ Plan.indexLimit) :
    Ensures (planner x parties stride size) s
      (fun _ _ s' => s.plan.selectRows < Target.rowLimit ∧
        ∃ tape cursor, s' = ⟨tape, { s.plan with cursor }, s.dest⟩)
      fun _ stop s' => s'.dest = s.dest ∧ Elsewhere stop := by
  simp only [planner]
  refine Ensures.bind (PlannerState.ensures_toss _ _ _ s) ?_
  intro _ seed _ htape
  obtain ⟨tape, rfl⟩ := htape
  obtain ⟨cursor, htargets⟩ := Plan.selectTargets_eq hplan.sorted hplan.source_lt hlimit
  refine Ensures.bind_nil (Performs.get _) ?_
  refine Ensures.bind_nil (Performs.mapError SwitchError.plan (Performs.ofOutcome htargets _)) ?_
  refine Ensures.bind_nil (Performs.modify _ _) ?_
  refine Ensures.ofChecked_bind (fun e _ => ⟨rfl, elsewhere_fault e⟩) fun blank _ => ?_
  refine Ensures.bind (Q := fun _ _ s' => s.plan.selectRows < Target.rowLimit ∧
    s' = ⟨tape, { s.plan with cursor }, s.dest⟩)
    (Ensures.mapError (Ensures.privately ((Pass.ensures_route _ _ _ _ blank).mono ?_ ?_))) ?_
  · intro _ _ _ hrows
    rw [Plan.length_slotTargets] at hrows
    exact ⟨hrows, rfl⟩
  · intro _ stop _ hfails
    cases stop with
    | error e => exact ⟨rfl, elsewhere_of_route (hfails e rfl) (by decide)⟩
    | fault e => exact ⟨rfl, elsewhere_fault e⟩
  · intro _ compact _ hselected
    obtain ⟨hrows, rfl⟩ := hselected
    exact Ensures.pure ⟨hrows, tape, cursor, rfl⟩

theorem Duplicate.ensures_planner (compact : RowBuffer) (s : PlannerState) :
    Ensures (planner x parties compact size) s (fun _ _ s' => ∃ tape, s' = { s with tape })
      fun _ stop s' => s'.dest = s.dest ∧ Elsewhere stop := by
  simp only [planner]
  refine Ensures.bind (PlannerState.ensures_toss _ _ _ s) ?_
  intro _ seed _ htape
  obtain ⟨tape, rfl⟩ := htape
  refine Ensures.bind_nil (Performs.get _) ?_
  refine Ensures.ofChecked_bind (fun e _ => ⟨rfl, elsewhere_fault e⟩) fun copies _ => ?_
  refine Ensures.bind (((Reveal.keeps_choose _ _ _ _ _ _ _ _).ensures_mapError
    (elsewhere_map (f := SwitchError.reveal) (by simp))).mono (fun _ _ _ hs => hs) ?_) ?_
  · intro _ _ _ hs
    obtain ⟨rfl, helsewhere⟩ := hs
    exact ⟨rfl, helsewhere⟩
  · intro _ learned s' hs
    subst hs
    rw [← bind_pure (Role.ofChecked _)]
    exact Ensures.ofChecked_bind (fun e _ => ⟨rfl, elsewhere_fault e⟩) fun _ _ => .pure ⟨tape, rfl⟩

theorem ensures_preparePlanner {s : PlannerState} (hplan : s.plan.group.Sound) :
    Ensures (preparePlanner x parties kind size) s
      (fun _ _ s' => s'.dest = s.dest ∧ s'.plan.Complete ∧ s'.plan.selectRows < Target.rowLimit ∧
        s.dest.size = s'.plan.destinationRows)
      fun _ stop s' => s'.dest = s.dest ∧ Elsewhere stop := by
  simp only [preparePlanner]
  refine Ensures.bind_nil (Performs.modify _ s) ?_
  refine Ensures.bind_nil (Performs.get _) ?_
  refine Ensures.ofOutcome_bind (fun stop hstop => ⟨rfl, elsewhere_of_check _ stop hstop⟩) fun _ hcheck => ?_
  have hcomplete := Plan.complete_of_check hplan.source_lt hcheck
  have hlimit := Nat.le_of_lt (Plan.check_eq_ok_iff.1 hcheck).2.2.2.2
  split
  next => exact Ensures.fail_bind ⟨rfl, elsewhere_error (by simp)⟩
  next hmatch =>
  rw [not_not] at hmatch
  refine Ensures.bind ((ensures_greet _ _ _).mono (fun _ _ _ hs => hs) ?_) ?_
  · intro _ _ _ hs
    obtain ⟨rfl, helsewhere⟩ := hs
    exact ⟨rfl, helsewhere⟩
  intro _ _ s' hs
  subst hs
  refine Ensures.bind (Select.ensures_planner hplan hlimit) ?_
  intro _ compact _ hselected
  obtain ⟨hrows, tape, cursor, rfl⟩ := hselected
  have hagree (tape : Tape) (copied : RowBuffer) :
      Ensures (PlannerState.onTape (toss parties .planner .helper "scatter seed") >>= fun seed =>
          pure (copied, seed)) ⟨tape, { s.plan.group with cursor }, s.dest⟩
        (fun _ _ s' => s'.dest = s.dest ∧ s'.plan.Complete ∧ s'.plan.selectRows < Target.rowLimit ∧
          s.dest.size = s'.plan.destinationRows)
        fun _ stop s' => s'.dest = s.dest ∧ Elsewhere stop := by
    refine Ensures.bind (PlannerState.ensures_toss _ _ _ _) ?_
    intro _ seed _ htape
    obtain ⟨tape, rfl⟩ := htape
    exact Ensures.pure ⟨rfl, ⟨hcomplete.source_lt, hcomplete.perm⟩, hrows, hmatch⟩
  cases kind with
  | permutation => exact Ensures.bind_nil (.pure _ _) (hagree tape compact)
  | general =>
    refine Ensures.bind (Duplicate.ensures_planner compact _) ?_
    intro _ copied _ htape
    obtain ⟨tape, rfl⟩ := htape
    exact hagree tape copied

theorem alike_of_writeShares {compact : RowBuffer} {i : Nat} {edges : List Edge} {b c : RowBuffer}
    (h : Scatter.writeShares mode compact i edges b = .ok c) : c.Alike b := by
  induction edges generalizing i b with
  | nil =>
    cases h
    exact .refl c
  | cons e edges ih =>
    obtain ⟨share, -, h⟩ := Checked.of_bind h
    obtain ⟨b', hwrite, h⟩ := Checked.of_bind h
    exact (ih h).trans (.of_write hwrite)

/-- Once a plan is known to be complete, its targets are not objected to. -/
theorem ensures_scatterShares {compact : RowBuffer} {seed : Seed} {s : PlannerState}
    (hplan : s.plan.Complete) (hrows : s.plan.selectRows < Target.rowLimit)
    (hsize : s.dest.size = s.plan.destinationRows) :
    Ensures (scatterShares x parties mode size compact seed) s (fun _ _ _ => True) fun trace stop _ =>
      ∀ e, stop = .error e → ∃ failure, e = Scatter.unsent failure ∧
        Pass.Refused parties.owner "scatter" failure trace := by
  have hlt : s.plan.destinationRows ≤ Target.rowLimit := by
    rw [← hplan.length_edges]
    exact Nat.le_of_lt (Nat.lt_of_le_of_lt (Nat.le_max_right ..) hrows)
  simp only [scatterShares]
  refine Ensures.bind_nil (Performs.get _) ?_
  refine Ensures.ofChecked_bind (fun _ _ _ h => absurd h Stop.fault_ne_error) fun dest hwrite => ?_
  refine Ensures.bind_nil (Performs.modify _ _) ?_
  refine Ensures.mapError (Ensures.within ((Pass.ensures_route _ _ _ _ dest).mono
    (fun _ _ _ _ => trivial) ?_))
  intro trace stop _ hfails e heq
  cases stop with
  | fault fault => cases heq
  | error e' =>
    cases heq
    rcases hfails e' rfl with ⟨hchecks | htargets, -⟩ | ⟨failure, rfl, hrefused⟩
    · rw [Pass.checkRows_eq_ok (by rwa [Plan.length_scatterTargets])] at hchecks
      cases hchecks
    · rw [(alike_of_writeShares hwrite).size_eq, hsize,
        Pass.checkTargets_eq_ok (hplan.within_scatterTargets hlt)] at htargets
      cases htargets
    · exact ⟨failure, rfl, hrefused⟩

/-- How the planner fails: with its destination rows as they were, before it has agreed on the seed of the
scattering pass, or after that when targets cannot be handed over. -/
inductive PlannerFailure (x : Expansion) (parties : Parties) (kind : Kind) (size : BatchSize)
    (s : PlannerState) : Trace → SwitchError → PlannerState → Prop
  | early {trace : Trace} {e : SwitchError} {s' : PlannerState} :
      Runs (preparePlanner x parties kind size) s trace (.error (.error e)) s' → s'.dest = s.dest →
      (∀ failure, e ≠ Scatter.unsent failure) → PlannerFailure x parties kind size s trace e s'
  | unsent {before after : Trace} {compact : RowBuffer} {seed : Seed} {middle s' : PlannerState}
      {failure : SendFailure} :
      Runs (preparePlanner x parties kind size) s before (.ok (compact, seed)) middle →
      middle.dest = s.dest → Pass.Refused parties.owner "scatter" failure after →
      PlannerFailure x parties kind size s (before ++ after) (Scatter.unsent failure) s'

theorem planner_failure {s s' : PlannerState} (hplan : s.plan.group.Sound) {trace : Trace} {e : SwitchError}
    (h : Runs (planner x parties kind mode size) s trace (.error (.error e)) s') :
    PlannerFailure x parties kind size s trace e s' := by
  have hprepare : Ensures (preparePlanner x parties kind size) s _ _ := ensures_preparePlanner hplan
  rw [planner_eq] at h
  rcases h.of_bind with ⟨stop, heq, hstop⟩ | ⟨before, after, ⟨compact, seed⟩, middle, rfl, hbefore, hafter⟩
  · cases heq
    obtain ⟨hdest, helsewhere⟩ := hprepare.error hstop
    exact .early hstop hdest fun failure heq => helsewhere failure (congrArg Stop.error heq)
  · obtain ⟨hdest, hcomplete, hrows, hsize⟩ := hprepare.ok hbefore
    have hscatter : Ensures (scatterShares x parties mode size compact seed) middle _ _ :=
      ensures_scatterShares hcomplete hrows (hdest ▸ hsize)
    obtain ⟨failure, rfl, hrefused⟩ := hscatter.error hafter e rfl
    exact .unsent hbefore hdest hrefused

/-! ### The owner -/

theorem Select.ensures_owner (shape : Shape) (source : RowBuffer) (s : OwnerState) :
    Ensures (owner x parties shape source) s (fun _ _ s' => s'.dest = s.dest)
      fun _ _ s' => s'.dest = s.dest := by
  simp only [owner]
  refine Ensures.bind (OwnerState.ensures_toss _ _ _ s) fun _ seed s' hs => ?_
  refine Ensures.ofChecked_bind (fun _ _ => hs) fun padded _ => ?_
  refine (Keeps.mapError (Pass.keeps_send _ _ _ _ _ s')).mono ?_ ?_
  · rintro _ _ _ rfl
    exact hs
  · rintro _ _ _ rfl
    exact hs

theorem Duplicate.ensures_owner (shape : Shape) (s : OwnerState) :
    Ensures (owner x parties shape) s (fun _ _ s' => s'.dest = s.dest) fun _ _ s' => s'.dest = s.dest := by
  simp only [owner]
  refine Ensures.bind (OwnerState.ensures_toss _ _ _ s) fun _ seed s' hs => ?_
  refine (Keeps.mapError (Reveal.keeps_serve _ _ _ _ _ _ s')).mono ?_ ?_
  · intro _ _ _ hs'
    rw [hs', hs]
  · intro _ _ _ hs'
    rw [hs', hs]

theorem ensures_prepareOwner (source : RowBuffer) (s : OwnerState) :
    Ensures (prepareOwner x parties kind source size) s
      (fun _ shape s' => s'.dest = s.dest ∧ shape = ⟨kind, source.size, s.dest.size, source.stride, size⟩)
      fun _ _ s' => s'.dest = s.dest := by
  simp only [prepareOwner]
  refine Ensures.bind_nil (Performs.get s) ?_
  split
  next => exact Ensures.fail_bind rfl
  next =>
  refine Ensures.bind ((ensures_greet _ _ s).mono (fun _ _ _ hs => hs) ?_) fun _ _ s' hs => ?_
  · intro _ _ _ hs
    rw [hs.1]
  subst hs
  refine Ensures.bind (Select.ensures_owner _ source s') fun _ _ s hs => ?_
  cases kind with
  | permutation => exact Ensures.bind_nil (.pure _ s) (Ensures.pure ⟨hs, rfl⟩)
  | general =>
    rw [← hs]
    exact Ensures.bind (Duplicate.ensures_owner _ s) fun _ _ s'' hs' => Ensures.pure ⟨hs', rfl⟩

theorem Scatter.ensures_owner (shape : Shape) (s : OwnerState) :
    Ensures (owner parties shape mode) s (fun _ _ _ => True) fun trace stop s' =>
      ∀ e, stop = .error e → Pass.CollectFailure parties.helper parties.planner mode shape.size
        shape.selectRows s.dest trace s'.dest := by
  refine Ensures.mapError (Ensures.within ((Pass.ensures_collect _ _ _ _ s.dest).mono
    (fun _ _ _ _ => trivial) ?_))
  intro trace stop dest hfails e heq
  cases stop with
  | fault fault => cases heq
  | error e' => exact hfails e' rfl

/-- How the owner fails: with its destination rows as they were, before it scatters, or after that with some
batches placed in them, from the first one on. -/
inductive OwnerFailure (x : Expansion) (parties : Parties) (kind : Kind) (source : RowBuffer) (mode : Mode)
    (size : BatchSize) (s : OwnerState) : Trace → SwitchError → OwnerState → Prop
  | early {trace : Trace} {e : SwitchError} {s' : OwnerState} :
      Runs (prepareOwner x parties kind source size) s trace (.error (.error e)) s' → s'.dest = s.dest →
      OwnerFailure x parties kind source mode size s trace e s'
  | scattering {before after : Trace} {shape : Shape} {middle s' : OwnerState} {e : SwitchError} :
      Runs (prepareOwner x parties kind source size) s before (.ok shape) middle → middle.dest = s.dest →
      Pass.CollectFailure parties.helper parties.planner mode size (max source.size s.dest.size) s.dest after
        s'.dest →
      OwnerFailure x parties kind source mode size s (before ++ after) e s'

theorem owner_failure {source : RowBuffer} {s s' : OwnerState} {trace : Trace} {e : SwitchError}
    (h : Runs (owner x parties kind source mode size) s trace (.error (.error e)) s') :
    OwnerFailure x parties kind source mode size s trace e s' := by
  have hprepare : Ensures (prepareOwner x parties kind source size) s _ _ := ensures_prepareOwner source s
  rw [owner_eq] at h
  rcases h.of_bind with ⟨stop, heq, hstop⟩ | ⟨before, after, shape, middle, rfl, hbefore, hafter⟩
  · cases heq
    exact .early hstop (hprepare.error hstop)
  · obtain ⟨hdest, rfl⟩ := hprepare.ok hbefore
    have hcollect := (Scatter.ensures_owner _ middle).error hafter e rfl
    rw [hdest] at hcollect
    exact .scattering hbefore hdest hcollect

/-! ### Both roles -/

/-- Whatever a planner fails at before it has agreed on the seed of the scattering pass, and whatever an owner
fails at before it scatters, their destination rows are as they were. After that the planner can fail only in
handing over targets, and the owner only between two batches. -/
theorem failures_keep_rows :
    (∀ x parties kind mode size (s s' : PlannerState) trace e, s.plan.Reachable →
      Runs (planner x parties kind mode size) s trace (.error (.error e)) s' →
      PlannerFailure x parties kind size s trace e s' ∧
        ((∀ failure, e ≠ Scatter.unsent failure) → s'.dest = s.dest)) ∧
    (∀ x parties kind mode size (s s' : PlannerState) trace stop, s.plan.Reachable →
      Runs (preparePlanner x parties kind size) s trace (.error stop) s' →
      Runs (planner x parties kind mode size) s trace (.error stop) s' ∧ s'.dest = s.dest) ∧
    (∀ x parties kind source mode size (s s' : OwnerState) trace e,
      Runs (owner x parties kind source mode size) s trace (.error (.error e)) s' →
      OwnerFailure x parties kind source mode size s trace e s') ∧
    ∀ x parties kind source mode size (s s' : OwnerState) trace stop,
      Runs (prepareOwner x parties kind source size) s trace (.error stop) s' →
      Runs (owner x parties kind source mode size) s trace (.error stop) s' ∧ s'.dest = s.dest := by
  refine ⟨?_, ?_, fun _ _ _ _ _ _ _ _ _ _ h => owner_failure h, ?_⟩
  · intro x parties kind mode size s s' trace e hplan h
    have hfailure := planner_failure hplan.sound_group h
    refine ⟨hfailure, fun helsewhere => ?_⟩
    cases hfailure with
    | early _ hdest _ => exact hdest
    | unsent _ _ _ => exact absurd rfl (helsewhere _)
  · intro x parties kind mode size s s' trace stop hplan h
    rw [planner_eq]
    exact ⟨h.bind_left _, ((ensures_preparePlanner hplan.sound_group).error h).1⟩
  · intro x parties kind source mode size s s' trace stop h
    rw [owner_eq]
    exact ⟨h.bind_left _, (ensures_prepareOwner source s).error h⟩

/-- What passes at a part of a run until it is refused the last thing that it does. -/
def Run.refusedLast (r : Run) (s : Setting) (own : Part) : Trace :=
  let course := r.timetable .keystreams s (r.parties.of own)
  course.refusedAt (course.length - 1)

/-- In a run that copies one row, planner and owner are refused the last thing that they do. -/
theorem failures_keep_rows_of_copying :
    (∃ e s', Runs (planner .keystreams {} .general .additive ⟨1⟩)
        { Run.pairSetting.planner with plan := Run.copyRun.plan }
        (Run.copyRun.refusedLast Run.pairSetting .planner) (.error (.error e)) s' ∧
      PlannerFailure .keystreams {} .general ⟨1⟩ { Run.pairSetting.planner with plan := Run.copyRun.plan }
        (Run.copyRun.refusedLast Run.pairSetting .planner) e s') ∧
    ∃ e s', Runs (owner .keystreams {} .general (Run.pair 5 6) .additive ⟨1⟩) Run.pairSetting.owner
        (Run.copyRun.refusedLast Run.pairSetting .owner) (.error (.error e)) s' ∧
      OwnerFailure .keystreams {} .general (Run.pair 5 6) .additive ⟨1⟩ Run.pairSetting.owner
        (Run.copyRun.refusedLast Run.pairSetting .owner) e s' := by
  have hready := Run.fits_copyRun.ready
  have hfirst := Plan.Reachable.add (.blank 2 2) (show Plan.add _ 1 1 = .ok _ from rfl)
  have hplan : Run.copyRun.plan.Reachable := .add hfirst (show Plan.add _ 1 0 = .ok _ from rfl)
  have hlawful : Expansion.Lawful .keystreams 2 1 ⟨1⟩ := Expansion.lawful_keystreams ..
  have hplanner : Role.Costs (fun _ => False) (planner .keystreams {} .general .additive ⟨1⟩)
      { Run.pairSetting.planner with plan := Run.copyRun.plan } _ _ :=
    costs_planner rfl hlawful hplan.sound_group (by decide) (by decide) (.inl (by decide)) .general
  have howner : Role.Costs (fun _ => False) (owner .keystreams {} .general (Run.pair 5 6) .additive ⟨1⟩)
      Run.pairSetting.owner _ _ := costs_owner rfl hlawful (by decide) (by decide) (by decide) .general
  have hgreets (own : Part) (h : 0 < (greetings {} (fun _ => Run.copyRun.shape) (Parties.of {} own)).length) :
      (Run.copyRun.timetable .keystreams Run.pairSetting (Parties.of {} own)).length - 1 <
        (Run.copyRun.timetable .keystreams Run.pairSetting (Parties.of {} own)).length := by
    apply Nat.sub_one_lt_of_lt (Nat.lt_of_lt_of_le h _)
    rw [Run.timetable, Timetable.andThen, List.length_append]
    exact Nat.le_add_right ..
  obtain ⟨_, _, _, -, -, -, hperforms, -⟩ := hready.performs_planner (by decide) (Expansion.lawful_keystreams ..)
  obtain ⟨_, hperforms', -⟩ := hready.performs_owner (by decide) (Expansion.lawful_keystreams ..)
  obtain ⟨e, s', hruns⟩ := hplanner.runs_refusedAt hperforms (hgreets .planner (by decide))
  obtain ⟨e', s'', hruns'⟩ := howner.runs_refusedAt hperforms' (hgreets .owner (by decide))
  exact ⟨⟨e, s', hruns, (failures_keep_rows.1 _ _ _ _ _ _ _ _ _ hplan hruns).1⟩,
    e', s'', hruns', failures_keep_rows.2.2.1 _ _ _ _ _ _ _ _ _ _ hruns'⟩

end Switching

end ObliviousRouting
