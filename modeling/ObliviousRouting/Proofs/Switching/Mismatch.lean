import ObliviousRouting.Proofs.Network.Histories
import ObliviousRouting.Proofs.Plan.Check
import ObliviousRouting.Proofs.Switching.Greeting
import ObliviousRouting.Switching.Simulation

/-!
# What a mismatch tells

A part ends in a mismatch only if the first message of some peer is not the line that it expects, and none of
the later stages declares that error. The first message that a part gives to the link to a peer is its greeting.
This holds of every trace, however the links behave, so on links that keep their order parts that see the same
shape do not end in a mismatch.
-/

namespace ObliviousRouting.Switching

open Role

variable {σ α : Type}

/-! ### Other errors -/

/-- Any other error than a mismatch. -/
def NoMismatch (e : SwitchError) : Prop := ∀ expected actual, e ≠ .greetingMismatch expected actual

theorem noMismatch_toss (e : TossError) : NoMismatch (.toss e) := by
  intro expected actual heq
  cases heq

theorem noMismatch_plan (e : PlanError) : NoMismatch (.plan e) := by
  intro expected actual heq
  cases heq

theorem noMismatch_pass (e : PassError) : NoMismatch (.pass e) := by
  intro expected actual heq
  cases heq

theorem noMismatch_reveal (e : RevealError) : NoMismatch (.reveal e) := by
  intro expected actual heq
  cases heq

/-! ### The greetings -/

/-- All that passes is one message, handed to some links. -/
def Hails (message : Bytes) (trace : Trace) : Prop :=
  ∀ x ∈ trace, ∃ target phase answer, x = .sent target phase message answer

namespace Hails

variable {message : Bytes} {trace : Trace} (h : Hails message trace)
include h

theorem filterMap_received? (source : Nat) : trace.filterMap (Exchange.received? source) = [] := by
  refine List.filterMap_eq_nil_iff.2 fun x hx => ?_
  obtain ⟨target, phase, answer, rfl⟩ := h x hx
  rfl

theorem eq_of_mem_sent? {target : Nat} {other : Bytes}
    (hother : other ∈ trace.filterMap (Exchange.sent? target)) : other = message := by
  obtain ⟨x, hx, hsent⟩ := List.mem_filterMap.1 hother
  obtain ⟨target', phase, answer, rfl⟩ := h x hx
  cases answer with
  | error failure => cases hsent
  | ok _ =>
    rw [Exchange.sent?] at hsent
    split at hsent
    · exact (Option.some.inj hsent).symm
    · cases hsent

end Hails

/-- The same message is handed to the links to all peers, up to the first link that refuses it. -/
theorem ensures_hail (parties : Parties) (message : Bytes) (peers : List Part) (s : σ) :
    Ensures (peers.forM fun peer =>
        Role.mapError SwitchError.link (Role.sendBytes (parties.of peer) greetingPhase message)) s
      (fun trace _ _ => Hails message trace ∧
        ∀ peer ∈ peers, message ∈ trace.filterMap (Exchange.sent? (parties.of peer)))
      fun trace stop _ => Hails message trace ∧ ∀ e, stop = .error e → NoMismatch e := by
  induction peers generalizing s with
  | nil => exact Ensures.pure ⟨fun x hx => absurd hx List.not_mem_nil, fun _ h => absurd h List.not_mem_nil⟩
  | cons first peers ih =>
    have hone (answer : Sent) : Hails message [.sent (parties.of first) greetingPhase message answer] :=
      List.forall_mem_singleton.2 ⟨_, _, _, rfl⟩
    rw [List.forM]
    refine Ensures.bind (Q := fun trace _ _ => trace = [.sent (parties.of first) greetingPhase message (.ok ())])
      (Ensures.mapError (Ensures.sendBytes rfl fun failure => ⟨hone _, ?_⟩)) ?_
    · rintro _ ⟨⟩ expected actual heq
      cases heq
    · rintro before _ s' rfl
      refine (ih s').mono (fun trace _ _ hrest => ?_) fun trace stop _ hrest => ?_
      · refine ⟨List.forall_mem_append.2 ⟨hone _, hrest.1⟩, ?_⟩
        rw [List.forall_mem_cons]
        refine ⟨?_, fun peer hpeer => ?_⟩
        · rw [List.filterMap_append, List.filterMap_cons_some Exchange.sent?_self]
          exact List.mem_append_left _ List.mem_cons_self
        · rw [List.filterMap_append]
          exact List.mem_append_right _ (hrest.2 peer hpeer)
      · exact ⟨List.forall_mem_append.2 ⟨hone _, hrest.1⟩, hrest.2⟩

/-- The first message of some peer is not the line that is expected of it. -/
def Misled (parties : Parties) (shape : Shape) (peers : List Part) (trace : Trace) : Prop :=
  ∃ peer ∈ peers, ∃ message ∈ (trace.filterMap (Exchange.received? (parties.of peer))).head?,
    message ≠ Text.encode (shape.greeting peer)

theorem ensures_receiveGreeting (party : Nat) (expected : String) (s : σ) :
    Ensures (receiveGreeting party expected) s
      (fun trace _ _ => ∃ message, trace = [.received party (.ok message)])
      fun trace stop _ => ∀ e a, stop = .error (.greetingMismatch e a) →
        ∃ message, trace = [.received party (.ok message)] ∧ message ≠ Text.encode expected := by
  refine Ensures.bind (Q := fun trace message _ => trace = [.received party (.ok message)])
    (Ensures.mapError (Ensures.receiveBytes (fun _ => rfl) fun failure e a heq => by cases heq)) ?_
  rintro before message s' rfl
  dsimp only
  split
  · exact Ensures.pure ⟨message, rfl⟩
  · next hne =>
    refine Ensures.fail fun _ _ _ => ⟨message, rfl, ?_⟩
    rintro rfl
    exact hne (Text.decode_encode expected)

/-- Parts at different ends are listened to one after the other, so what one of them says first is not missed
while others are listened to. -/
theorem ensures_listen {parties : Parties} (shape : Shape) {peers : List Part}
    (hpeers : (peers.map parties.of).Nodup) (s : σ) :
    Ensures (peers.forM fun peer => receiveGreeting (parties.of peer) (shape.greeting peer)) s
      (fun _ _ _ => True)
      fun trace stop _ => ∀ e a, stop = .error (.greetingMismatch e a) → Misled parties shape peers trace := by
  induction peers generalizing s with
  | nil => exact Ensures.pure trivial
  | cons first peers ih =>
    rw [List.map_cons, List.nodup_cons] at hpeers
    rw [List.forM]
    refine Ensures.bind ((ensures_receiveGreeting _ _ s).mono (fun _ _ _ h => h) ?_) ?_
    · intro trace stop _ h e a heq
      obtain ⟨message, rfl, hne⟩ := h e a heq
      refine ⟨first, List.mem_cons_self, message, ?_, hne⟩
      rw [List.filterMap_cons_some Exchange.received?_self]
      rfl
    · rintro before _ s' ⟨message, rfl⟩
      refine (ih hpeers.2 s').mono (fun _ _ _ _ => trivial) fun trace stop _ h e a heq => ?_
      obtain ⟨peer, hpeer, other, hother, hne⟩ := h e a heq
      refine ⟨peer, List.mem_cons_of_mem _ hpeer, other, ?_, hne⟩
      have hplace : parties.of first ≠ parties.of peer :=
        fun heq => hpeers.1 (heq ▸ List.mem_map_of_mem hpeer)
      rw [List.singleton_append, List.filterMap_cons_none (Exchange.received?_of_ne hplace)]
      exact hother

/-- The first message that the link to a peer takes is the greeting. -/
def Opens (parties : Parties) (shape : Shape) (own : Part) (trace : Trace) : Prop :=
  ∀ peer ∈ own.peers, ∀ message ∈ (trace.filterMap (Exchange.sent? (parties.of peer))).head?,
    message = Text.encode (shape.greeting own)

namespace Hails

variable {parties : Parties} {shape : Shape} {own : Part} {before : Trace}

theorem opens (h : Hails (Text.encode (shape.greeting own)) before) : Opens parties shape own before :=
  fun _ _ _ hmessage => h.eq_of_mem_sent? (List.mem_of_mem_head? hmessage)

/-- Once every link has taken the greeting, nothing that follows it is the first message. -/
theorem opens_append (h : Hails (Text.encode (shape.greeting own)) before)
    (htaken : ∀ peer ∈ own.peers,
      Text.encode (shape.greeting own) ∈ before.filterMap (Exchange.sent? (parties.of peer))) (after : Trace) :
    Opens parties shape own (before ++ after) := by
  intro peer hpeer message hmessage
  obtain ⟨first, hfirst⟩ := Option.isSome_iff_exists.1
    (List.isSome_head?.2 (List.ne_nil_of_mem (htaken peer hpeer)))
  rw [List.filterMap_append, List.head?_append, hfirst] at hmessage
  cases hmessage
  exact h.opens peer hpeer _ hfirst

/-- Nobody is heard while the greetings are sent. -/
theorem misled_append {message : Bytes} {peers : List Part} {after : Trace} (h : Hails message before)
    (hmisled : Misled parties shape peers after) : Misled parties shape peers (before ++ after) := by
  obtain ⟨peer, hpeer, other, hother, hne⟩ := hmisled
  refine ⟨peer, hpeer, other, ?_, hne⟩
  rwa [List.filterMap_append, h.filterMap_received?, List.nil_append]

end Hails

/-- How a part ends that greets its peers and listens to them before it does anything else. -/
structure Polite (parties : Parties) (shape : Shape) (own : Part) (trace : Trace)
    (result : Outcome SwitchError α) : Prop where
  opens : Opens parties shape own trace
  misled : ∀ e a, result = .error (.error (.greetingMismatch e a)) → Misled parties shape own.peers trace

theorem nodup_peers {parties : Parties} {ends : Nat} (h : parties.Seated ends) (own : Part) :
    (own.peers.map parties.of).Nodup := by
  refine List.Nodup.map (fun a b heq => (h.of_inj).1 heq) (List.Nodup.filter _ ?_)
  decide

/-- All runs of a role are those of such a part. -/
def EndsPolitely (parties : Parties) (shape : Shape) (own : Part) (x : Role σ SwitchError α) (s : σ) : Prop :=
  Ensures x s (fun trace a _ => Polite parties shape own trace (.ok a))
    fun trace stop _ => Polite (α := α) parties shape own trace (.error stop)

theorem EndsPolitely.polite {parties : Parties} {shape : Shape} {own : Part} {x : Role σ SwitchError α} {s s' : σ}
    (h : EndsPolitely parties shape own x s) {trace : Trace} {result : Outcome SwitchError α}
    (hrun : Runs x s trace result s') : Polite parties shape own trace result := by
  cases result with
  | ok a => exact Ensures.ok h hrun
  | error stop => exact Ensures.error h hrun

theorem polite_greet_bind {parties : Parties} {ends : Nat} (h : parties.Seated ends) (shape : Shape) (own : Part)
    {f : Unit → Role σ SwitchError α} (hf : ∀ u, Declares NoMismatch (f u)) (s : σ) :
    EndsPolitely parties shape own (greet parties own shape >>= f) s := by
  rw [greet, bind_assoc]
  refine Ensures.bind ((ensures_hail parties _ own.peers s).mono (fun _ _ _ h => h) ?_) ?_
  · rintro before stop _ ⟨hhails, hstop⟩
    exact ⟨hhails.opens, fun e a heq => absurd rfl (hstop _ (Except.error.inj heq) e a)⟩
  rintro before _ s' ⟨hhails, htaken⟩
  refine Ensures.bind ((ensures_listen shape (nodup_peers h own) s').mono (fun _ _ _ h => h) ?_) ?_
  · exact fun trace stop _ hstop => ⟨hhails.opens_append htaken _,
      fun e a heq => hhails.misled_append (hstop e a (Except.error.inj heq))⟩
  intro heard u s'' _
  refine (Ensures.runs (f u) s'').mono (fun _ _ _ _ => ?_) fun trace stop _ hstop => ?_
  · exact ⟨hhails.opens_append htaken _, fun _ _ heq => nomatch heq⟩
  · refine ⟨hhails.opens_append htaken _, fun e a heq => ?_⟩
    cases heq
    exact absurd rfl (hf u _ _ _ _ hstop e a)

/-! ### The stages behind the greetings -/

section Stages

variable (x : Expansion) (parties : Parties) (mode : Mode) (size : BatchSize) (shape : Shape)
  (compact : RowBuffer)

theorem declares_toss (own other : Part) (phase : String) :
    Declares NoMismatch (toss parties own other phase) := .mapError noMismatch_toss

theorem Select.declares_planner (stride : Nat) : Declares NoMismatch (planner x parties stride size) := by
  refine Declares.bind (.within (declares_toss _ _ _ _)) fun seed => ?_
  refine Declares.bind (.of_performs fun s => ⟨s, s, .get s⟩) fun before => ?_
  refine Declares.bind (.mapError noMismatch_plan) fun _ => ?_
  refine Declares.bind (.of_performs fun s => ⟨_, _, .modify _ s⟩) fun _ => ?_
  refine Declares.bind (.ofChecked _) fun _ => ?_
  exact Declares.bind (.mapError noMismatch_pass) fun _ => .pure _

theorem Select.declares_owner (source : RowBuffer) : Declares NoMismatch (owner x parties shape source) := by
  refine Declares.bind (.within (declares_toss _ _ _ _)) fun seed => ?_
  exact Declares.bind (.ofChecked _) fun _ => .mapError noMismatch_pass

theorem Select.declares_helper : Declares NoMismatch (helper parties shape : Role σ SwitchError RowBuffer) := by
  refine Declares.bind (.ofChecked _) fun _ => ?_
  exact Declares.bind (.mapError noMismatch_pass) fun _ => .pure _

theorem Duplicate.declares_planner : Declares NoMismatch (planner x parties compact size) := by
  refine Declares.bind (.within (declares_toss _ _ _ _)) fun seed => ?_
  refine Declares.bind (.of_performs fun s => ⟨s, s, .get s⟩) fun _ => ?_
  refine Declares.bind (.ofChecked _) fun _ => ?_
  exact Declares.bind (.mapError noMismatch_reveal) fun _ => .ofChecked _

theorem Duplicate.declares_owner : Declares NoMismatch (owner x parties shape) :=
  Declares.bind (.within (declares_toss _ _ _ _)) fun _ => .mapError noMismatch_reveal

theorem Duplicate.declares_helper : Declares NoMismatch (helper x parties compact size) := by
  refine Declares.bind (declares_toss _ _ _ _) fun flips => Declares.bind (declares_toss _ _ _ _) fun pads => ?_
  refine Declares.bind (.of_performs fun s => ⟨_, _, .modifyGet _ s⟩) fun _ => ?_
  refine Declares.bind (.ofChecked _) fun fresh => Declares.bind (.ofChecked _) fun _ => ?_
  exact Declares.bind (.mapError noMismatch_reveal) fun _ => .pure _

theorem Scatter.declares_planner : Declares NoMismatch (planner x parties compact mode size) := by
  refine Declares.bind (.within (declares_toss _ _ _ _)) fun seed => ?_
  refine Declares.bind (.of_performs fun s => ⟨s, s, .get s⟩) fun _ => ?_
  refine Declares.bind (.ofChecked _) fun _ => ?_
  exact Declares.bind (.of_performs fun s => ⟨_, _, .modify _ s⟩) fun _ => .mapError noMismatch_pass

theorem Scatter.declares_helper : Declares NoMismatch (helper x parties compact size) :=
  Declares.bind (declares_toss _ _ _ _) fun _ => .mapError noMismatch_pass

end Stages

/-! ### The parts -/

section Parts

variable {x : Expansion} {parties : Parties} {ends : Nat} {kind : Kind} {mode : Mode} {size : BatchSize}

/-- A part that stops before its greetings has neither said nor heard anything. -/
theorem polite_nil (shape : Shape) (own : Part) {stop : Stop SwitchError}
    (hstop : ∀ e, stop = .error e → NoMismatch e) :
    Polite (α := α) parties shape own [] (.error stop) where
  opens _ _ _ hmessage := nomatch hmessage
  misled e a heq := absurd rfl (hstop _ (Except.error.inj heq) e a)

theorem polite_planner (h : parties.Seated ends) (s : PlannerState) :
    EndsPolitely parties
      ⟨kind, s.plan.group.sourceRows, s.plan.group.destinationRows, s.dest.stride, size⟩ .planner
      (planner x parties kind mode size) s := by
  simp only [planner]
  refine Ensures.bind_nil (Performs.modify _ s) ?_
  refine Ensures.bind_nil (Performs.get _) ?_
  refine Ensures.ofOutcome_bind (fun stop hstop => polite_nil _ _ ?_) fun _ _ => ?_
  · rintro e rfl expected actual rfl
    exact Plan.objection_of_check hstop
  split
  · refine Ensures.fail_bind (polite_nil _ _ ?_)
    rintro e ⟨⟩ expected actual ⟨⟩
  · refine polite_greet_bind h _ .planner (fun _ => ?_) _
    refine Declares.bind (Select.declares_planner x parties size _) fun compact => ?_
    have hscatter := Scatter.declares_planner x parties mode size
    cases kind with
    | permutation => exact Declares.bind (.pure compact) hscatter
    | general => exact Declares.bind (Duplicate.declares_planner x parties size compact) hscatter

theorem polite_owner (h : parties.Seated ends) (source : RowBuffer) (s : OwnerState) :
    EndsPolitely parties ⟨kind, source.size, s.dest.size, source.stride, size⟩ .owner
      (owner x parties kind source mode size) s := by
  simp only [owner]
  refine Ensures.bind_nil (Performs.get s) ?_
  split
  · refine Ensures.fail_bind (polite_nil _ _ ?_)
    rintro e ⟨⟩ expected actual ⟨⟩
  · refine polite_greet_bind h _ .owner (fun _ => ?_) _
    refine Declares.bind (Select.declares_owner x parties _ source) fun _ => ?_
    cases kind with
    | permutation => exact .mapError noMismatch_pass
    | general => exact Declares.bind (Duplicate.declares_owner x parties _) fun _ => .mapError noMismatch_pass

theorem polite_helper (h : parties.Seated ends) (shape : Shape) (tape : Tape) :
    EndsPolitely parties shape .helper (helper x parties shape) tape := by
  simp only [helper]
  refine polite_greet_bind h _ .helper (fun _ => ?_) _
  refine Declares.bind (Select.declares_helper parties shape) fun compact => ?_
  have hscatter := Scatter.declares_helper x parties shape.size
  cases shape.kind with
  | permutation => exact Declares.bind (.pure compact) hscatter
  | general => exact Declares.bind (Duplicate.declares_helper x parties shape.size compact) hscatter

end Parts

end ObliviousRouting.Switching
