import ObliviousRouting.Proofs.Network.Losses
import ObliviousRouting.Proofs.Switching.Costs
import ObliviousRouting.Proofs.Switching.Routing

/-!
# Lost messages are noticed

In a run each part sends another one just as many messages as that one needs, stage by stage. So if a message
to some part is lost, then that part does not end well, even where later messages look like those that it has
waited for: at the end one is missing. It does not matter which messages are lost, in which order the parts
go on, or when they give up waiting or leave.
-/

namespace ObliviousRouting.Switching

open Multiset (count_add)

/-! ### Budgets fit together -/

section Balance

variable {parties : Parties} {ends : Nat} (h : parties.Seated ends) {a b : Part} (hne : a ≠ b)
include h hne

theorem greetNeeds_balance : (greetNeeds parties b).count (.message (parties.of a)) =
    (greetNeeds parties a).count (.room (parties.of b)) := by
  cases a <;> cases b <;> simp [greetNeeds, Part.peers, Part.all, h.of_inj] at hne ⊢

theorem Select.needs_balance (batches : Nat) :
    (Select.needs parties batches b).count (.message (parties.of a)) =
      (Select.needs parties batches a).count (.room (parties.of b)) := by
  cases a <;> cases b <;> simp [Select.needs, CoinToss.needs, h.of_inj] at hne ⊢

theorem Duplicate.needs_balance (batches : Nat) :
    (Duplicate.needs parties batches b).count (.message (parties.of a)) =
      (Duplicate.needs parties batches a).count (.room (parties.of b)) := by
  cases a <;> cases b <;> simp [Duplicate.needs, CoinToss.needs, h.of_inj] at hne ⊢

theorem Scatter.needs_balance (batches : Nat) :
    (Scatter.needs parties batches b).count (.message (parties.of a)) =
      (Scatter.needs parties batches a).count (.room (parties.of b)) := by
  cases a <;> cases b <;> simp [Scatter.needs, CoinToss.needs, h.of_inj] at hne ⊢

/-- In a run each part can send another one as many messages as that one needs. -/
theorem needs_balance (kind : Kind) (batches : Nat) :
    (needs parties kind batches b).count (.message (parties.of a)) =
      (needs parties kind batches a).count (.room (parties.of b)) := by
  have hcopy : (copyNeeds parties batches kind b).count (.message (parties.of a)) =
      (copyNeeds parties batches kind a).count (.room (parties.of b)) := by
    cases kind with
    | permutation => rfl
    | general => exact Duplicate.needs_balance h hne batches
  simp only [needs, count_add, greetNeeds_balance h hne, Select.needs_balance h hne, hcopy,
    Scatter.needs_balance h hne]

end Balance

/-! ### Runs that lose messages -/

theorem costs_ending {σ : Type} {x : Role σ SwitchError Unit} {s : σ} {b : Multiset Need}
    (hx : Role.Costs (fun _ => True) x s b fun _ _ => True) {f : Outcome SwitchError Unit × σ → Ending}
    (hf : ∀ r, (f r).result = r.1) :
    (x.start s >>= fun r => .done (f r)).Costs (fun _ => True) (fun e => e.failed) b := by
  refine Process.Costs.map hx (fun _ _ => trivial) ?_
  rintro r ⟨stop, hstop, -⟩
  rw [Ending.failed, hf, hstop]

namespace Run

variable {r : Run} {s : Setting}

/-- The mesh of a run that loses some messages. -/
def lossy (r : Run) (lost : (source target k : Nat) → Bool) (capacity : Nat) : Mesh where
  parties := r.ends
  capacity := capacity
  carriage := .losing lost

theorem Admitted.sound (h : r.Admitted s) : r.plan.group.Sound :=
  let ⟨_, hbuilt⟩ := h.built
  ⟨hbuilt.group_edges.1, hbuilt.group_source_lt, fun _ he => h.complete.destination_lt he⟩

/-- Whatever is lost, each part has its budget. -/
theorem costs_seats (h : r.Admitted s) : ∀ seat ∈ r.seats .keystreams s, ∃ a, seat.place = r.parties.of a ∧
    seat.process.Costs (fun _ => True) (fun e => e.failed)
      (needs r.parties r.kind (r.size.count r.rows) a) := by
  have hsound := h.sound
  have hx : Expansion.Lawful .keystreams r.rows r.source.stride r.size := Expansion.lawful_keystreams ..
  have hrows := h.rows_eq
  have hlimit : r.rows < Size.bufferLimit :=
    Nat.lt_trans (Plan.check_eq_ok_iff.1 h.check_eq).2.2.2.2 (by decide)
  obtain ⟨edges, hbuilt⟩ := h.built
  obtain ⟨hsource, hdestination⟩ := hbuilt.rows_eq
  have hmax : max r.source.size s.planner.dest.size = r.rows := by rw [hrows, hsource, hdestination]
  have hselect : r.shape.selectRows = r.rows := by
    rw [hrows, hsource]
    rfl
  have hlt : r.rows * r.source.stride < Size.bufferLimit := by
    rw [← hmax, ← Nat.mul_max_mul_right, r.source.size_mul_stride, ← h.planner_stride,
      s.planner.dest.size_mul_stride]
    exact Nat.max_lt.2 ⟨h.source_fits, h.planner_fits⟩
  refine List.forall_mem_cons.2 ⟨⟨.planner, rfl, ?_⟩, List.forall_mem_cons.2 ⟨⟨.owner, rfl, ?_⟩,
    List.forall_mem_cons.2 ⟨⟨.helper, rfl, ?_⟩, nofun⟩⟩⟩
  · exact costs_ending (costs_planner (s := { s.planner with plan := r.plan }) hrows.symm
      (h.planner_stride ▸ hx) hsound (h.planner_stride ▸ hlt) h.batch_lt (.inr trivial) r.kind) fun _ => rfl
  · exact costs_ending (costs_owner (h.owner_size ▸ hmax) hx hlt hlimit h.batch_lt r.kind) fun _ => rfl
  · exact costs_ending (costs_helper hselect hx hlt h.batch_lt s.helper) fun _ => rfl

/-- The parts need of each other what they can send to each other. -/
theorem accounted (h : r.Admitted s) (lost : (source target k : Nat) → Bool) (capacity : Nat) :
    Seat.Accounted (fun e : Ending => e.failed) lost
      (Function.extend r.parties.of (needs r.parties r.kind (r.size.count r.rows)) 0)
      (r.seats .keystreams s) (r.lossy lost capacity) := by
  have hinjective : Function.Injective r.parties.of := fun _ _ => h.seated.of_inj.1
  refine ⟨rfl, ?_, fun seat hseat => ?_, fun seat hseat seat' hseat' hne => .inr ?_⟩
  · simp [seats, plannerSeat, ownerSeat, helperSeat, h.seated.planner_ne_owner,
      h.seated.planner_ne_helper, h.seated.owner_ne_helper]
  · obtain ⟨a, hplace, hcosts⟩ := costs_seats h seat hseat
    rwa [hplace, hinjective.extend_apply]
  · obtain ⟨a, hplace, -⟩ := costs_seats h seat hseat
    obtain ⟨b, hplace', -⟩ := costs_seats h seat' hseat'
    have hab : a ≠ b := by
      rintro rfl
      exact hne (hplace.trans hplace'.symm)
    rw [hplace, hplace', hinjective.extend_apply, hinjective.extend_apply,
      needs_balance h.seated hab]
    exact (Nat.zero_add _).symm

/-- Some message from one part to another is lost. -/
def Misses (r : Run) (lost : (source target k : Nat) → Bool) (m : Mesh) (a b : Part) : Prop :=
  ∃ k < m.handed (r.parties.of a) (r.parties.of b), lost (r.parties.of a) (r.parties.of b) k

/-- Whatever messages are lost, and in whatever order the parts go on, give up waiting and leave, no part
ends well to which another one has sent a message that is lost. -/
theorem lost_messages_are_noticed (h : r.Admitted s) (lost : (source target k : Nat) → Bool)
    (capacity : Nat) {seats : List (Seat Ending)} {m : Mesh}
    (hrun : Relation.ReflTransGen Seat.Moves (r.seats .keystreams s, r.lossy lost capacity) (seats, m) ∨
      ∃ stop, Seat.run stop (r.lossy lost capacity) (r.seats .keystreams s) = (seats, m))
    {a b : Part} (hne : a ≠ b) (hmisses : r.Misses lost m a b) :
    ∃ seat ∈ seats, seat.place = r.parties.of b ∧ ∀ e, seat.process = .done e → e.failed := by
  have hmoves : Relation.ReflTransGen Seat.Moves (r.seats .keystreams s, r.lossy lost capacity) (seats, m) := by
    rcases hrun with hmoves | ⟨stop, hrun⟩
    · exact hmoves
    · exact hrun ▸ Seat.moves_run ..
  obtain ⟨B, haccounts⟩ := (accounted h lost capacity).run hmoves
  have hplaces : seats.map Seat.place = Part.all.map r.parties.of := Seat.map_place_of_moves hmoves
  have hseat (p : Part) : ∃ seat ∈ seats, seat.place = r.parties.of p :=
    List.mem_map.1 (hplaces ▸ List.mem_map_of_mem p.mem_all)
  obtain ⟨seat, hmem, hplace⟩ := hseat a
  obtain ⟨seat', hmem', hplace'⟩ := hseat b
  obtain ⟨k, hk, hlost⟩ := hmisses
  refine ⟨seat', hmem', hplace', fun e he => ?_⟩
  rw [← hplace, ← hplace'] at hk hlost
  refine haccounts.failed_of_lost hmem hmem' ?_ hk hlost he
  rw [hplace, hplace']
  exact h.seated.of_ne hne

/-- The first message of the helper to the planner is lost. -/
def firstLost : (source target k : Nat) → Bool := fun source target k => source == 2 && target == 0 && k == 0

theorem lost_greeting_is_noticed : ∃ seats m, Relation.ReflTransGen Seat.Moves
    (copyRun.seats .keystreams pairSetting, copyRun.lossy firstLost 1024) (seats, m) ∧
    (∀ next, ¬ Seat.Step (seats, m) next) ∧ copyRun.Misses firstLost m .helper .planner ∧
    ∃ seat ∈ seats, seat.place = 0 ∧ ∀ e, seat.process = .done e → e.failed := by
  obtain ⟨q, m₁, hfirst, hhanded⟩ : ∃ q m₁, Process.Step 2
      ((helperSeat .keystreams {} copyRun.shape pairSetting.helper).process, copyRun.lossy firstLost 1024)
      (q, m₁) ∧ 0 < m₁.handed 2 0 := ⟨_, _, .send rfl, Nat.one_pos⟩
  obtain ⟨after, hstart⟩ : ∃ after, Seat.Step
      (copyRun.seats .keystreams pairSetting, copyRun.lossy firstLost 1024) (after, m₁) :=
    ⟨_, .tail (.tail (.head hfirst))⟩
  obtain ⟨⟨seats, m⟩, hsteps, hlast⟩ := Seat.exists_complete (after, m₁)
  have hrest : Relation.ReflTransGen Seat.Moves _ (seats, m) :=
    Relation.ReflTransGen.mono (fun _ _ => .step) _ _ hsteps
  have hmoves := hrest.head (.step hstart)
  have hmisses : copyRun.Misses firstLost m .helper .planner :=
    ⟨0, hhanded.trans_le (Seat.handed_le_of_moves hrest 2 0), rfl⟩
  exact ⟨seats, m, hmoves, hlast, hmisses,
    lost_messages_are_noticed fits_copyRun.admitted firstLost 1024 (.inl hmoves) (by decide) hmisses⟩

end Run

end ObliviousRouting.Switching
