import ObliviousRouting.Proofs.Plan.Reachable
import ObliviousRouting.Proofs.Switching.Costs
import ObliviousRouting.Proofs.Switching.Routing

/-!
# No role can be crashed or stalled

What a role is sent can be anything, and its links can fail at any time. Still it ends after a number of
requests that its own shape bounds, and neither goes out of range nor overflows, as long as its own buffers
can exist. The only exception is a planner whose rows are too wide to mask even one of them. It has no rows
then, or else its buffer could not exist, but it makes room for a mask all the same.
-/

namespace ObliviousRouting

open Role

/-- Numbers of rows and bytes with which two buffers can exist, and a batch size. -/
structure Affordable (rows stride : Nat) (size : BatchSize) : Prop where
  rows_lt : rows < 2 ^ 62
  bytes_lt : 2 * rows * stride < 2 ^ 63
  batch_lt : size.rows < Size.limit

namespace Affordable

variable {rows stride : Nat} {size : BatchSize} (h : Affordable rows stride size)
include h

theorem rows_lt_bufferLimit : rows < Size.bufferLimit := Nat.lt_trans h.rows_lt (by decide)

theorem fits : size.Fits rows := ⟨h.batch_lt, Nat.le_of_lt h.rows_lt_bufferLimit⟩

theorem mul_lt : rows * stride < Size.bufferLimit := by
  refine Nat.lt_of_le_of_lt ?_ h.bytes_lt
  rw [Nat.mul_assoc]
  exact Nat.le_mul_of_pos_left _ Nat.two_pos

theorem mono {fewer : Nat} (hle : fewer ≤ rows) : Affordable fewer stride size :=
  ⟨Nat.lt_of_le_of_lt hle h.rows_lt, Nat.lt_of_le_of_lt
    (Nat.mul_le_mul_right _ (Nat.mul_le_mul_left _ hle)) h.bytes_lt, h.batch_lt⟩

end Affordable

variable {σ : Type} {rows stride : Nat} {size : BatchSize}

theorem CoinToss.safe_toss (own other : Nat) (phase : String) (tape : Tape) :
    Safe (toss own other phase) tape 4 :=
  (CoinToss.costs_toss own other phase tape).safe rfl

theorem Pass.safe_collect {dest : RowBuffer} (h : Affordable (max rows dest.size) dest.stride size)
    (sender router : Nat) (mode : Mode) (phase : String) :
    Safe (collect sender router rows mode size phase) dest (2 * size.count rows) := by
  have hdest : dest.data.size < Size.bufferLimit := by
    rw [← dest.size_mul_stride]
    exact (h.mono (Nat.le_max_right ..)).mul_lt
  refine Costs.safe (costs_collect hdest (h.mono (Nat.le_max_left ..)).mul_lt h.batch_lt ..) ?_
  rw [Multiset.card_nsmul, Nat.mul_comm]
  rfl

namespace Reveal

theorem safe_choose {choices : List Bool} (h : Affordable choices.length stride size) (seed : Seed)
    (offering serving : Nat) (phase : String) (s : σ) :
    Safe (choose (.ofSeed seed) offering serving choices stride size phase) s
      (3 * size.count choices.length) := by
  refine Costs.safe (costs_choose rfl (Keystream.length_bits ..) h.mul_lt h.fits ..) ?_
  rw [Multiset.card_nsmul, Nat.mul_comm]
  rfl

theorem safe_serve (h : Affordable rows stride size) (seed : Seed) (chooser : Nat) (phase : String) (s : σ) :
    Safe (serve (.ofSeed seed) chooser rows stride size phase) s (2 * size.count rows) := by
  refine Costs.safe (costs_serve _ h.mul_lt h.fits ..) ?_
  rw [Multiset.card_nsmul, Nat.mul_comm]
  rfl

end Reveal

namespace Switching

/-- How many requests a part makes in a run with so many batches of compact rows. -/
def requestCount (batches : Nat) : Kind → Part → Nat
  | .general, .planner => 16 + 5 * batches
  | .general, .owner => 12 + 5 * batches
  | .general, .helper => 16 + 4 * batches
  | .permutation, .planner => 12 + 2 * batches
  | .permutation, .owner => 8 + 3 * batches
  | .permutation, .helper => 8 + 3 * batches

theorem card_needs (parties : Parties) (kind : Kind) (batches : Nat) (own : Part) :
    Multiset.card (needs parties kind batches own) = requestCount batches kind own := by
  cases kind <;> cases own <;>
    simp [needs, greetNeeds, Select.needs, copyNeeds, Duplicate.needs, Scatter.needs, CoinToss.needs,
      Part.peers, Part.all, requestCount] <;> omega

variable (parties : Parties) (kind : Kind) (mode : Mode)

/-- The exception does not concern planners with rows of a width that a buffer could have. -/
theorem safe_planner {s : PlannerState} {n : Nat}
    (hn : max s.plan.sourceRows s.plan.destinationRows = n) (hplan : s.plan.Reachable)
    (h : Affordable n s.dest.stride size) (hwidth : s.dest.stride < Size.bufferLimit) :
    Safe (planner .keystreams parties kind mode size) s (requestCount (size.count n) kind .planner) :=
  Costs.safe (costs_planner hn (Expansion.lawful_keystreams ..) hplan.sound_group h.mul_lt h.batch_lt
    (.inl hwidth) kind) (card_needs ..)

theorem safe_owner {source : RowBuffer} {s : OwnerState} {n : Nat} (hn : max source.size s.dest.size = n)
    (h : Affordable n source.stride size) :
    Safe (owner .keystreams parties kind source mode size) s (requestCount (size.count n) kind .owner) :=
  Costs.safe (costs_owner hn (Expansion.lawful_keystreams ..) h.mul_lt h.rows_lt_bufferLimit h.batch_lt kind)
    (card_needs ..)

theorem safe_helper {shape : Shape} (h : Affordable shape.selectRows shape.stride shape.size)
    (tape : Tape) : Safe (helper .keystreams parties shape) tape
      (requestCount (shape.size.count shape.selectRows) shape.kind .helper) :=
  Costs.safe (costs_helper rfl (Expansion.lawful_keystreams ..) h.mul_lt h.batch_lt tape) (card_needs ..)

/-- Whatever it is sent, and whatever its links refuse, each role ends after a bounded number of requests,
with a value or with an error that it declares. -/
theorem roles_end :
    (∀ parties kind mode size (s : PlannerState), s.plan.Reachable →
      Affordable (max s.plan.sourceRows s.plan.destinationRows) s.dest.stride size →
      s.dest.stride < Size.bufferLimit →
      Safe (planner .keystreams parties kind mode size) s
        (requestCount (size.count (max s.plan.sourceRows s.plan.destinationRows)) kind .planner)) ∧
    (∀ parties kind source mode size (s : OwnerState),
      Affordable (max source.size s.dest.size) source.stride size →
      Safe (owner .keystreams parties kind source mode size) s
        (requestCount (size.count (max source.size s.dest.size)) kind .owner)) ∧
    (∀ parties (shape : Shape) tape, Affordable shape.selectRows shape.stride shape.size →
      Safe (helper .keystreams parties shape) tape
        (requestCount (shape.size.count shape.selectRows) shape.kind .helper)) ∧
    (∀ sender router rows mode size phase (dest : RowBuffer),
      Affordable (max rows dest.size) dest.stride size →
      Safe (Pass.collect sender router rows mode size phase) dest (2 * size.count rows)) ∧
    (∀ (σ : Type) seed offering serving (choices : List Bool) stride size phase (s : σ),
      Affordable choices.length stride size →
      Safe (Reveal.choose (.ofSeed seed) offering serving choices stride size phase) s
        (3 * size.count choices.length)) ∧
    (∀ (σ : Type) seed chooser rows stride size phase (s : σ), Affordable rows stride size →
      Safe (Reveal.serve (.ofSeed seed) chooser rows stride size phase) s (2 * size.count rows)) ∧
    ∀ own other phase tape, Safe (CoinToss.toss own other phase) tape 4 :=
  ⟨fun parties kind mode _ _ hplan h hwidth => safe_planner parties kind mode rfl hplan h hwidth,
    fun parties kind _ mode _ _ h => safe_owner parties kind mode rfl h,
    fun parties _ tape h => safe_helper parties h tape,
    fun sender router _ mode _ phase _ h => Pass.safe_collect h sender router mode phase,
    fun _ seed offering serving _ _ _ phase s h => Reveal.safe_choose h seed offering serving phase s,
    fun _ seed chooser _ _ _ phase s h => Reveal.safe_serve h seed chooser phase s,
    CoinToss.safe_toss⟩

/-- The roles of a run that copies one row, and the other ones with two rows of one byte. -/
theorem roles_end_of_copying :
    (Safe (planner .keystreams {} .general .additive ⟨1⟩)
        { Run.pairSetting.planner with plan := Run.copyRun.plan } 26 ∧
      Safe (owner .keystreams {} .general (Run.pair 5 6) .additive ⟨1⟩) Run.pairSetting.owner 22 ∧
      Safe (helper .keystreams {} Run.copyRun.shape) Run.pairSetting.helper 24) ∧
    Safe (Pass.collect 1 2 2 .additive ⟨1⟩ "collect") (Run.pair 1 2) 4 ∧
    Safe (Reveal.choose (.ofSeed .zero) 1 2 [true, false] 1 ⟨1⟩ "choose") () 6 ∧
    Safe (Reveal.serve (.ofSeed .zero) 0 2 1 ⟨1⟩ "serve") () 4 ∧
    Safe (CoinToss.toss 0 1 "toss") Run.pairSetting.helper 4 := by
  have haffordable : Affordable 2 1 ⟨1⟩ := by constructor <;> decide
  have hfirst := Plan.Reachable.add (.blank 2 2) (show Plan.add _ 1 1 = .ok _ from rfl)
  have hplan : Run.copyRun.plan.Reachable := .add hfirst (show Plan.add _ 1 0 = .ok _ from rfl)
  obtain ⟨hplanner, howner, hhelper, hcollect, hchoose, hserve, htoss⟩ := roles_end
  exact ⟨⟨hplanner _ _ _ _ _ hplan haffordable (by decide), howner _ _ _ _ _ _ haffordable,
    hhelper _ _ _ haffordable⟩, hcollect _ _ _ _ _ _ _ haffordable,
    hchoose _ _ _ _ _ _ _ _ _ haffordable, hserve _ _ _ _ _ _ _ _ haffordable, htoss ..⟩

/-! ### Rows that are too wide -/

/-- With rows that are too wide, a planner without rows gets as far as its first pass. -/
theorem faults_wide (parties : Parties) (kind : Kind) (mode : Mode) (size : BatchSize) :
    Faults (planner .keystreams parties kind mode size) wideSetting.planner .tooLarge := by
  have hcheck : wideSetting.planner.plan.group.check kind = .ok () := by cases kind <;> rfl
  have hrows : wideSetting.planner.dest.size = wideSetting.planner.plan.group.destinationRows := by decide
  have hselect : wideSetting.planner.plan.group.selectTargets = .ok ([], wideSetting.planner.plan.group) :=
    rfl
  have htoss := performs_toss parties .planner .owner .zero "select seed" wideSetting.planner.tape
  simp only [planner]
  refine Performs.bind_faults (Performs.modify _ _) ?_
  refine Performs.bind_faults (Performs.get _) ?_
  refine Performs.bind_faults (Performs.ofOutcome hcheck _) ?_
  rw [if_neg (not_not_intro hrows)]
  refine Performs.bind_faults (performs_greet ..) ?_
  refine Faults.bind_left ?_ _
  simp only [Select.planner]
  refine Performs.bind_faults (PlannerState.performs_onTape htoss) ?_
  refine Performs.bind_faults (Performs.get _) ?_
  refine Performs.bind_faults (Performs.mapError _ (Performs.ofOutcome hselect _)) ?_
  refine Performs.bind_faults (Performs.modify _ _) ?_
  refine Performs.bind_faults (Performs.ofChecked (RowBuffer.zeros_eq_ok (by decide)) _) ?_
  -- without targets, the pass has nothing left to do but to make room for a mask
  refine Faults.bind_left ?_ _
  exact ⟨[], _, Process.Follows.done (_, _)⟩

/-- Rows that are too wide crash a planner that has none of them. -/
theorem roles_end_fails_for_wide_rows : wideSetting.planner.plan.Reachable ∧
    Affordable (max wideSetting.planner.plan.sourceRows wideSetting.planner.plan.destinationRows)
      wideSetting.planner.dest.stride .standard ∧
    ∀ n, ¬ Safe (planner .keystreams {} .general .additive .standard) wideSetting.planner n :=
  ⟨.blank 0 0, by constructor <;> decide, (faults_wide ..).not_safe⟩

end Switching

end ObliviousRouting
