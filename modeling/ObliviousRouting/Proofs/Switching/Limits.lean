import ObliviousRouting.Proofs.Pass.Hiding
import ObliviousRouting.Proofs.Plan.Layout
import ObliviousRouting.Proofs.RowBuffer.Shapes
import ObliviousRouting.Proofs.Switching.Greeting
import ObliviousRouting.Switching.Simulation

/-!
# Too many rows, and rows that are too wide

A plan may have one row more than a pass takes: its check allows all 32-bit indices, but the greatest word is
no target. Then the first pass of a run stops all parts before they have sent a batch. Where a row would fill
more than a buffer, the planner stops before it routes anything, because it cannot make room for the mask of
a row. A buffer of such rows has no row in it, so the other parts, which may go on for a while, have no batch
to send either.
-/

namespace ObliviousRouting

open Role

variable {σ : Type} {P : Nat → String → Bytes → Prop}

theorem Role.SendsOnly.of_silent {ε α : Type} {x : Role σ ε α} {s : σ}
    (h : SendsOnly (fun _ _ _ => False) x s) : SendsOnly P x s :=
  Process.SendsOnly.mono h fun _ _ _ hfalse => hfalse.elim

/-- A toss sends messages of its own phase only. -/
theorem CoinToss.toss_sends (own other : Nat) {phase : String} (h : ∀ message, P other phase message)
    (tape : Tape) : SendsOnly P (toss own other phase) tape := by
  have hcommitment (tape : Tape) : SendsOnly P (receiveCommitment other phase) tape := by
    refine SendsOnly.bind_all (.receiveList ..) fun l tape => ?_
    split
    · exact .pure _ _
    · exact .fail _ _
  have hsecret (tape : Tape) : SendsOnly P (receiveSecret other phase) tape := by
    refine SendsOnly.bind_all (.receiveList ..) fun l tape => ?_
    split
    · exact .pure _ _
    · exact .fail _ _
  refine SendsOnly.bind_all (.modifyGet _ _) fun secret tape => ?_
  refine SendsOnly.bind_all (.mapError _ (.sendBytes (h _) _)) fun _ tape => ?_
  refine SendsOnly.bind_all (.mapError _ (hcommitment _)) fun _ tape => ?_
  refine SendsOnly.bind_all (.mapError _ (.sendBytes (h _) _)) fun _ tape => ?_
  refine SendsOnly.bind_all (.mapError _ (hsecret _)) fun _ tape => ?_
  split
  · exact .pure _ _
  · exact .fail _ _

/-! ### Passes and reveals -/

namespace Pass

/-- There are more rows than targets for them, or a row would fill more than a buffer. -/
def Exceeds (rows stride : Nat) : Prop := Target.rowLimit ≤ rows ∨ Size.bufferLimit ≤ stride

theorem checkRows_halts {α : Type} {rows : Nat} {f : Unit → Role σ PassError α}
    (h : Target.rowLimit ≤ rows) (s : σ) : Halts P (ofExcept (checkRows rows) >>= f) s := by
  refine Halts.ofExcept_bind fun _ hrows => ?_
  rw [checkRows, if_neg (Nat.not_lt_of_le h)] at hrows
  cases hrows

theorem send_halts (blinding : Blinding) (collector : Nat) {data : RowBuffer} (size : BatchSize)
    (phase : String) (h : Target.rowLimit ≤ data.size) (s : σ) :
    Halts P (send blinding collector data size phase) s := by
  rw [send]
  exact checkRows_halts h s

theorem collect_halts (sender router : Nat) {rows : Nat} (mode : Mode) (size : BatchSize) (phase : String)
    (dest : RowBuffer) (h : Target.rowLimit ≤ rows) :
    Halts P (collect sender router rows mode size phase) dest := by
  rw [collect]
  exact checkRows_halts h dest

theorem collect_silent (sender router rows : Nat) (mode : Mode) (size : BatchSize) (phase : String)
    (dest : RowBuffer) :
    SendsOnly (fun _ _ _ => False) (collect sender router rows mode size phase) dest := by
  refine SendsOnly.bind_all (.ofExcept _ _) fun _ dest => ?_
  refine SendsOnly.iterate (fun k _ dest => ?_) ..
  refine SendsOnly.bind_all (.ofChecked _ _) fun _ dest => ?_
  refine SendsOnly.bind_all (.mapError _ (.receiveBoth _)) fun _ dest => ?_
  refine SendsOnly.bind_all (.get _) fun _ dest => ?_
  have hplace {bytes : Bytes} {targets : List Target} {b : RowBuffer} (dest : RowBuffer) :
      SendsOnly (fun _ _ _ => False) (do
        Role.ofExcept (checkTargets targets b.size)
        let dest ← Role.ofChecked (place mode b (targets.zip (bytes.chunks b.stride)))
        set dest) dest :=
    SendsOnly.bind_all (.ofExcept _ _) fun _ dest =>
      SendsOnly.bind_all (.ofChecked _ _) fun _ dest => .set _ _
  split
  · exact .done _
  · refine SendsOnly.bind_all (.ofChecked _ _) fun _ dest => ?_
    split
    · exact .done _
    · exact hplace _

/-- Without rows, nothing is collected. -/
theorem performs_collect_none (sender router : Nat) (mode : Mode) (size : BatchSize) (phase : String)
    (dest : RowBuffer) : Performs (collect sender router 0 mode size phase) dest [] () dest := by
  rw [collect, BatchSize.count_zero]
  exact .done _

/-- A router stops before it sends anything if it has too many rows, or no room for the mask of one. -/
theorem route_halts (blinding : Blinding) (collector : Nat) {targets : List Target} (mode : Mode)
    (size : BatchSize) (phase : String) {dest : RowBuffer} (h : Exceeds targets.length dest.stride) :
    Halts P (route blinding collector targets mode size phase) dest := by
  simp only [route]
  rcases h with hmany | hwide
  · exact checkRows_halts hmany dest
  refine Halts.ofExcept_bind fun _ _ => ?_
  refine Halts.bind_nil (.get dest) ?_
  refine Halts.ofExcept_bind fun _ _ => ?_
  have hroom {f : Nat → Role RowBuffer PassError Unit} :
      Halts P (ofChecked (Size.buffer dest.stride) >>= f) dest := by
    refine Halts.ofChecked_bind fun n hn => ?_
    rw [Size.buffer, if_neg (Nat.not_lt_of_le hwide)] at hn
    cases hn
  split
  · exact hroom
  · exact Halts.bind_left (Halts.throw _ _) _

end Pass

namespace Reveal

theorem offer_silent (flips : Flips) (pads : Pads) (chooser : Nat) {m₀ : RowBuffer} (m₁ : RowBuffer)
    (size : BatchSize) (phase : String) (h : m₀.size = 0) (s : σ) :
    SendsOnly (fun _ _ _ => False) (offer flips pads chooser m₀ m₁ size phase) s := by
  rw [offer, h, BatchSize.count_zero]
  exact .pure _ _

theorem serve_silent (pads : Pads) (chooser stride : Nat) (size : BatchSize) (phase : String) (s : σ) :
    SendsOnly (fun _ _ _ => False) (serve pads chooser 0 stride size phase) s := by
  rw [serve, BatchSize.count_zero]
  exact .pure _ _

end Reveal

/-! ### The three parts -/

namespace Switching

/-- The phases in which batches are sent. -/
def batchPhases : List String := ["select", "duplicate", "scatter"]

/-- Messages that are no batches. -/
def NoBatches : Nat → String → Bytes → Prop := fun _ phase _ => phase ∉ batchPhases

theorem greet_sends (parties : Parties) (own : Part) (shape : Shape) (s : σ) :
    SendsOnly NoBatches (greet parties own shape) s := by
  refine SendsOnly.bind_all (.forM (fun peer s => ?_) s) fun _ s => .forM (fun peer s => ?_) s
  · exact .mapError _ (.sendBytes (show greetingPhase ∉ _ by decide) s)
  · refine SendsOnly.bind_all (.mapError _ (.receiveBytes ..)) fun message s => ?_
    dsimp only
    split
    · exact .pure _ _
    · exact .fail _ _

theorem toss_sends (parties : Parties) (own other : Part) {phase : String}
    (h : phase ∉ batchPhases) (tape : Tape) :
    SendsOnly NoBatches (toss parties own other phase) tape :=
  .mapError _ (CoinToss.toss_sends _ _ (fun _ => h) tape)

variable (x : Expansion) (parties : Parties)

/-! #### The planner -/

theorem select_halts {stride : Nat} (size : BatchSize) (s : PlannerState)
    (h : Pass.Exceeds s.plan.selectRows stride) :
    Halts NoBatches (Select.planner x parties stride size) s := by
  simp only [Select.planner]
  refine Halts.bind (.within (toss_sends _ _ _ (by decide) _)) fun seed s' hseed => ?_
  obtain ⟨tape, rfl⟩ := hseed.of_within
  refine Halts.bind_nil (.get _) ?_
  refine Halts.mapError_ofOutcome_bind fun p hselect => ?_
  obtain ⟨targets, plan⟩ := p
  refine Halts.bind_nil (.modify _ _) ?_
  refine Halts.ofChecked_bind fun blank hblank => ?_
  refine Halts.bind_left (Halts.mapError _ (Halts.privately (Pass.route_halts _ _ _ _ _ ?_) _)) _
  rw [Plan.length_of_selectTargets hselect, RowBuffer.stride_of_zeros hblank]
  exact h

theorem planner_halts (kind : Kind) (mode : Mode) (size : BatchSize) {s : PlannerState}
    (h : Pass.Exceeds s.plan.group.selectRows s.dest.stride) :
    Halts NoBatches (planner x parties kind mode size) s := by
  simp only [planner]
  refine Halts.bind_nil (.modify _ s) ?_
  refine Halts.bind_nil (.get _) ?_
  refine Halts.ofOutcome_bind fun _ _ => ?_
  split
  · exact Halts.bind_left (Halts.throw _ _) _
  · refine Halts.bind (greet_sends ..) fun _ s' hgreet => ?_
    rw [eq_of_returns_greet hgreet]
    exact Halts.bind_left (select_halts x parties size _ h) _

theorem plannerSeat_fails (kind : Kind) (mode : Mode) (size : BatchSize) {s : PlannerState}
    (h : Pass.Exceeds s.plan.group.selectRows s.dest.stride) (s' : PlannerState) :
    ¬ (plannerSeat x parties kind mode size s).process.CanEnd (.planner (.ok ()) s') := by
  intro hend
  obtain ⟨⟨r, t⟩, hplanner, hdone⟩ := hend.of_bind
  have heq := Process.canEnd_done hdone
  cases heq
  exact (planner_halts x parties kind mode size h).fails _ _ hplanner

/-! #### The owner and the helper, if there are no rows or too many -/

theorem select_owner_halts {shape : Shape} {source : RowBuffer} (h : Target.rowLimit ≤ shape.selectRows)
    (hwidth : 0 < source.stride) (s : OwnerState) :
    Halts NoBatches (Select.owner x parties shape source) s := by
  refine Halts.bind (.within (toss_sends _ _ _ (by decide) _)) fun seed s _ => ?_
  refine Halts.ofChecked_bind fun padded hpadded => ?_
  refine Halts.mapError _ (Pass.send_halts _ _ _ _ ?_ _)
  exact Nat.le_trans h (RowBuffer.le_size_of_padTo hpadded hwidth)

theorem select_owner_sends {shape : Shape} {source : RowBuffer} (h : shape.selectRows = 0)
    (hsource : source.size = 0) (s : OwnerState) :
    SendsOnly NoBatches (Select.owner x parties shape source) s := by
  refine SendsOnly.bind_all (.within (toss_sends _ _ _ (by decide) _)) fun seed s => ?_
  have hpadded : source.padTo shape.selectRows = .ok source := by
    rw [h]
    exact if_neg (Nat.not_lt_zero _)
  refine SendsOnly.bind_nil (.ofChecked hpadded _) ?_
  exact .mapError _ (.of_silent (Pass.send_silent _ _ _ _ (.inl hsource) _))

theorem owner_sends (kind : Kind) {source : RowBuffer} (mode : Mode) (size : BatchSize) {s : OwnerState}
    (h : Pass.NoBatch (max source.size s.dest.size)) :
    SendsOnly NoBatches (owner x parties kind source mode size) s := by
  have hrows : (⟨kind, source.size, s.dest.size, source.stride, size⟩ : Shape).selectRows =
    max source.size s.dest.size := rfl
  refine SendsOnly.bind_nil (.get s) ?_
  dsimp only
  generalize (⟨kind, source.size, s.dest.size, source.stride, size⟩ : Shape) = shape at hrows ⊢
  split
  · exact .done _
  next hstride =>
  rw [← hrows] at h
  rcases h with hnone | hmany
  · have hsource : source.size = 0 := by omega
    have hcopy (s : OwnerState) : SendsOnly NoBatches (Duplicate.owner x parties shape) s := by
      refine SendsOnly.bind_all (.within (toss_sends _ _ _ (by decide) _)) fun seed s => ?_
      rw [hnone]
      exact .mapError _ (.of_silent (Reveal.serve_silent ..))
    have hscatter (s : OwnerState) : SendsOnly NoBatches (Scatter.owner parties shape mode) s :=
      .mapError _ (.within (.of_silent (Pass.collect_silent ..)))
    refine SendsOnly.bind_all (greet_sends ..) fun _ s => ?_
    refine SendsOnly.bind_all (select_owner_sends x parties hnone hsource s) fun _ s => ?_
    cases kind with
    | permutation => exact hscatter s
    | general => exact SendsOnly.bind_all (hcopy s) fun _ s => hscatter s
  · have hpos : 0 < max source.size s.dest.size := hrows ▸ Nat.lt_of_lt_of_le (by decide) hmany
    have hwidth := RowBuffer.stride_pos_of_max_pos (not_not.1 hstride) hpos
    refine SendsOnly.bind_all (greet_sends ..) fun _ s => ?_
    exact (Halts.bind_left (select_owner_halts x parties hmany hwidth s) _).sends

namespace Duplicate

variable {compact : RowBuffer} {size : BatchSize} {tape : Tape}

theorem helper_sends (h : compact.size = 0) :
    SendsOnly NoBatches (Duplicate.helper x parties compact size) tape := by
  refine SendsOnly.bind_all (toss_sends _ _ _ (by decide) _) fun flips tape => ?_
  refine SendsOnly.bind_all (toss_sends _ _ _ (by decide) _) fun pads tape => ?_
  refine SendsOnly.bind_all (.modifyGet _ _) fun bytes tape => ?_
  refine SendsOnly.bind_all (.ofChecked _ _) fun fresh tape => ?_
  have hpairs : makePairs compact fresh = .ok (compact, fresh) := by
    rw [makePairs, h]
    rfl
  refine SendsOnly.bind_nil (Performs.ofChecked hpairs tape) ?_
  exact SendsOnly.bind_all (.mapError _ (.of_silent (Reveal.offer_silent _ _ _ _ _ _ h _)))
    fun _ tape => .pure _ _

/-- The helper has as many rows after copying as before. -/
theorem size_of_returns {fresh : RowBuffer} {tape' : Tape}
    (h : Returns (Duplicate.helper x parties compact size) tape fresh tape') :
    fresh.size = compact.size := by
  obtain ⟨_, _, -, h⟩ := h.of_bind
  obtain ⟨_, _, -, h⟩ := h.of_bind
  obtain ⟨_, _, -, h⟩ := h.of_bind
  obtain ⟨rows, _, hset, h⟩ := h.of_bind
  obtain ⟨_, _, -, h⟩ := h.of_bind
  obtain ⟨_, _, -, h⟩ := h.of_bind
  rw [h.of_pure]
  exact (RowBuffer.Alike.of_setRows hset.of_ofChecked).size_eq

end Duplicate

theorem performs_select_none (parties : Parties) {shape : Shape} (h : shape.selectRows = 0) (s : σ) :
    Performs (Select.helper parties shape) s [] (.blank 0 shape.stride) s := by
  have hzeros : RowBuffer.zeros 0 shape.stride = .ok (.blank 0 shape.stride) :=
    RowBuffer.zeros_eq_ok (by rw [Nat.zero_mul]; decide)
  simp only [Select.helper, h]
  refine Performs.bind_nil (Performs.ofChecked hzeros s) ?_
  refine Performs.bind_nil (Performs.mapError _ (Performs.privately
    (Pass.performs_collect_none ..) s)) ?_
  exact .pure _ s

theorem helper_halts {shape : Shape} (h : Target.rowLimit ≤ shape.selectRows) (tape : Tape) :
    Halts NoBatches (helper x parties shape) tape := by
  simp only [helper, Select.helper]
  refine Halts.bind (greet_sends ..) fun _ tape _ => ?_
  refine Halts.bind_left (Halts.ofChecked_bind fun blank _ => ?_) _
  exact Halts.bind_left (Halts.mapError _ (Halts.privately (Pass.collect_halts _ _ _ _ _ _ h) _)) _

theorem helper_sends {shape : Shape} (h : Pass.NoBatch shape.selectRows) (tape : Tape) :
    SendsOnly NoBatches (helper x parties shape) tape := by
  rcases h with hnone | hmany
  · have hblank : (RowBuffer.blank 0 shape.stride).size = 0 := RowBuffer.size_blank (.inl rfl)
    have hscatter {compact : RowBuffer} (hcompact : compact.size = 0) (tape : Tape) :
        SendsOnly NoBatches (Scatter.helper x parties compact shape.size) tape := by
      refine SendsOnly.bind_all (toss_sends _ _ _ (by decide) _) fun seed tape => ?_
      exact .mapError _ (.of_silent (Pass.send_silent _ _ _ _ (.inl hcompact) _))
    refine SendsOnly.bind_all (greet_sends ..) fun _ tape => ?_
    refine SendsOnly.bind_nil (performs_select_none parties hnone tape) ?_
    cases shape.kind with
    | permutation => exact SendsOnly.bind_nil (.pure _ _) (hscatter hblank tape)
    | general =>
      refine SendsOnly.bind (Duplicate.helper_sends x parties hblank) fun fresh tape hfresh => ?_
      exact hscatter ((Duplicate.size_of_returns x parties hfresh).trans hblank) tape
  · exact (helper_halts x parties hmany tape).sends

end Switching

end ObliviousRouting
