import ObliviousRouting.Proofs.Network.Phases
import ObliviousRouting.Proofs.Network.Rounds

/-!
# Processes that leave messages unread

A process that has seen enough may end before it has received all that is sent to it. Then the courses
are not balanced any more, but they would be if it went on to receive the rest and dropped it. So a run of
such processes is looked at beside one of processes that do: each step of the former is a step of the
latter. If all of them send first and receive then, nobody waits for a message that is not sent, so all
come to their ends, and all messages have been sent by then.
-/

namespace ObliviousRouting

open Course Timetable

variable {α β : Type}

namespace Process

/-- Waits for a message of each of the given parties in turn and drops it. -/
def drain (a : α) : (sources : List Nat) → Process α
  | [] => .done a
  | source :: rest => .receive source fun _ => drain a rest

theorem Step.bind {place : Nat} {p q : Process α} {m m' : Mesh} (h : Step place (p, m) (q, m'))
    (f : α → Process β) : Step place (p >>= f, m) (q >>= f, m') := by
  cases h with
  | send h => exact .send h
  | receive h => exact .receive h
  | first h => exact .first h
  | second h => exact .second h

/-- What is drained is received, and the result stays. -/
theorem follows_drain {a b : α} {sources : List Nat} {c : Course} (h : (drain a sources).Follows c b) :
    a = b ∧ ∀ x ∈ c, ¬ x.Sends := by
  induction sources generalizing c with
  | nil =>
    cases h
    exact ⟨rfl, fun _ hx => nomatch hx⟩
  | cons source rest ih =>
    cases h with
    | receive h =>
      rw [List.forall_mem_cons]
      exact ⟨(ih h).1, id, (ih h).2⟩

/-- A process that goes on to receive the rest of its messages takes the rest of its course. -/
theorem Follows.bind_drain {p : Process α} {c : Course} {a : α} (h : p.Follows c a)
    (rest : List (Nat × Bytes)) : (p >>= fun a => drain a (rest.map Prod.fst)).Follows
      (c ++ rest.map fun (source, message) => .receive source message) a := by
  apply h.bind
  clear h
  induction rest with
  | nil => exact .done a
  | cons x rest ih => exact .receive ih

end Process

namespace Seat

/-- Goes on, after the end of a process, to receive what is left for it. -/
def drained (rest : Nat → List Nat) (s : Seat α) : Seat α :=
  { s with process := s.process >>= fun a => Process.drain a (rest s.place) }

theorem Step.drained {seats seats' : List (Seat α)} {m m' : Mesh} (h : Step (seats, m) (seats', m'))
    (rest : Nat → List Nat) :
    Step (seats.map (Seat.drained rest), m) (seats'.map (Seat.drained rest), m') := by
  generalize hstart : (seats, m) = start at h
  generalize hstop : (seats', m') = stop at h
  induction h generalizing seats seats' with
  | head h =>
    cases hstart
    cases hstop
    exact .head (h.bind _)
  | tail _ ih =>
    cases hstart
    cases hstop
    exact .tail (ih rfl rfl)

theorem map_place_drained (rest : Nat → List Nat) (seats : List (Seat α)) :
    (seats.map (Seat.drained rest)).map Seat.place = seats.map Seat.place := by
  rw [List.map_map]
  rfl

end Seat

/-- Processes that send first and receive then are on their way to their results. The parties whose
messages each of them may leave unread are given by its place. -/
structure Leaving (rest : Nat → List Nat) (total : Nat → Nat → List (String × Bytes)) (results : List α)
    (seats : List (Seat α)) (m : Mesh) (A : Timetable) : Prop where
  underway : Underway total results (seats.map (Seat.drained rest)) m A
  volley : ∀ p, (A p).Volley
  count : ∀ p, (A p).count ≤ m.capacity

/-- All processes have ended with their results, and every link has carried its whole traffic. Some of it
may not have been received. -/
structure Left (total : Nat → Nat → List (String × Bytes)) (results : List α) (seats : List (Seat α))
    (m : Mesh) : Prop where
  results_eq : seats.map (·.process) = results.map .done
  traffic_eq : ∀ a b, m.traffic a b = total a b

namespace Leaving

variable {rest : Nat → List Nat} {total : Nat → Nat → List (String × Bytes)} {results : List α}
  {seats seats' : List (Seat α)} {m m' : Mesh} {A : Timetable}

theorem step (h : Leaving rest total results seats m A) (hstep : Seat.Step (seats, m) (seats', m')) :
    ∃ A', Leaving rest total results seats' m' A' := by
  obtain ⟨p, need, c, hnext, hunderway, hcap⟩ := h.underway.step_next (hstep.drained rest)
  refine ⟨Function.update A p c, hunderway, ?_, ?_⟩
  · exact (Function.forall_update_iff A fun _ course => course.Volley).2
      ⟨hnext.volley (h.volley p), fun q _ => h.volley q⟩
  · rw [hcap]
    exact (Function.forall_update_iff A fun _ course => course.count ≤ m.capacity).2
      ⟨Nat.le_trans (Nat.le_of_lt hnext.count_lt) (h.count p), fun q _ => h.count q⟩

/-- A process that has something to send can send it. -/
theorem exists_step_of_send (h : Leaving rest total results seats m A) {s : Seat α} {a : α}
    (hs : (s.drained rest).process.Follows (A s.place) a) {target : Nat} {phase : String}
    {message : Bytes} {c : Course} (hA : A s.place = .send target phase message :: c) :
    ∃ next, Process.Step s.place (s.process, m) next := by
  have hlink : m.Linked s.place target :=
    (h.underway.tracks.fits s.place _ (hA ▸ List.mem_cons_self)).2 target List.mem_cons_self
  have hroom : (m.queue s.place target).length < m.capacity := by
    have hlength := h.underway.tracks.length_queue s.place target
    have hle := Nat.le_trans (length_inbox_le (A target) s.place) (h.count target)
    rw [hA, outbox_cons, Action.outgoing, if_pos rfl, List.length_append, List.length_singleton] at hlength
    omega
  have hsend (phase : String) (message : Bytes) :=
    h.underway.tracks.reliable.send_eq hlink phase message
  simp only [if_neg (Nat.not_le.2 hroom)] at hsend
  rw [Seat.drained, hA] at hs
  generalize s.process = p at hs
  cases p with
  | done b => exact absurd trivial ((Process.follows_drain hs).2 _ List.mem_cons_self)
  | send target' phase' message' next =>
    cases hs
    exact ⟨_, .send (hsend _ _)⟩
  | receive source next => cases hs
  | receiveEither first second onFirst onSecond => cases hs

/-- If nobody has anything to send any more, then all that a process waits for has come. -/
theorem exists_step_or_done (h : Leaving rest total results seats m A)
    (hsent : ∀ p q, outbox (A p) q = []) {s : Seat α} {a : α}
    (hs : (s.drained rest).process.Follows (A s.place) a) :
    (∃ next, Process.Step s.place (s.process, m) next) ∨ s.process = .done a := by
  have hfits := h.underway.tracks.fits s.place
  have receives {source : Nat} (hlink : m.Linked s.place source) (hin : inbox (A s.place) source ≠ []) :
      ∃ r m', m.receive s.place source = some (r, m') := by
    have hqueue := h.underway.tracks.queue_append source s.place
    rw [hsent, List.map_nil, List.append_nil] at hqueue
    rw [h.underway.tracks.reliable.receive_eq hlink, hqueue]
    cases hcases : inbox (A s.place) source with
    | nil => exact absurd hcases hin
    | cons message rest => exact ⟨_, _, rfl⟩
  have hnot := hsent s.place
  rw [Seat.drained] at hs
  generalize hA : A s.place = c at hs hfits hnot receives
  generalize s.process = p at hs
  cases p with
  | done b => exact .inr (congrArg _ (Process.follows_drain hs).1)
  | send target phase message next =>
    cases hs
    have hnil := hnot target
    rw [outbox_cons, Action.outgoing, if_pos rfl] at hnil
    cases hnil
  | receive source next =>
    cases hs
    obtain ⟨r, m', hreceive⟩ := receives ((hfits _ List.mem_cons_self).2 source List.mem_cons_self)
      (by simp [Action.incoming])
    exact .inl ⟨_, .receive hreceive⟩
  | receiveEither first second onFirst onSecond =>
    cases hs
    obtain ⟨r, m', hreceive⟩ := receives ((hfits _ List.mem_cons_self).2 first List.mem_cons_self)
      (by simp [Action.incoming])
    exact .inl ⟨_, .first hreceive⟩

theorem exists_of_forall₂ {R : α → β → Prop} {l : List α} {l' : List β} (h : List.Forall₂ R l l') :
    ∀ a ∈ l, ∃ b, R a b := by
  induction h with
  | nil => exact fun _ ha => nomatch ha
  | cons hab _ ih => exact List.forall_mem_cons.2 ⟨⟨_, hab⟩, ih⟩

theorem step_or_left (h : Leaving rest total results seats m A) :
    (∃ next, Seat.Step (seats, m) next) ∨ Left total results seats m := by
  have hfollows := List.forall₂_map_left_iff.1 h.underway.follows
  by_cases hstuck : ∃ s ∈ seats, ∃ next, Process.Step s.place (s.process, m) next
  · obtain ⟨s, hs, ⟨q, m'⟩, hstep⟩ := hstuck
    obtain ⟨before, after, rfl⟩ := List.append_of_mem hs
    exact .inl ⟨_, .of_process hstep before after⟩
  · have hnone : ∀ s ∈ seats, ¬ ∃ next, Process.Step s.place (s.process, m) next :=
      fun s hs hstep => hstuck ⟨s, hs, hstep⟩
    have hsent (p q : Nat) : outbox (A p) q = [] := by
      refine (h.volley p).outbox_eq_nil (fun x hx hsends => ?_) q
      obtain ⟨c, hA⟩ := List.head?_eq_some_iff.1 hx
      have hp : p ∈ seats.map Seat.place := by
        by_contra hp
        rw [h.underway.elsewhere p (by rwa [Seat.map_place_drained])] at hA
        cases hA
      obtain ⟨s, hs, rfl⟩ := List.mem_map.1 hp
      obtain ⟨a, hcourse⟩ := exists_of_forall₂ hfollows s hs
      cases x with
      | send => exact hnone s hs (h.exists_step_of_send hcourse hA)
      | receive => exact hsends
      | receiveBoth => exact hsends
    refine .inr ⟨?_, fun a b => ?_⟩
    · have hdone {s : Seat α} {a : α} := h.exists_step_or_done hsent (s := s) (a := a)
      clear h hstuck
      induction hfollows with
      | nil => rfl
      | cons hs _ ih =>
        rw [List.forall_mem_cons] at hnone
        rw [List.map_cons, List.map_cons, ih hnone.2, (hdone hs).resolve_left hnone.1]
    · have htraffic := h.underway.tracks.traffic_append a b
      rwa [hsent, List.append_nil] at htraffic

/-- Whatever the order of steps, a run goes on until all processes have ended with their results. -/
theorem run_step_or_left (h : Leaving rest total results seats m A)
    (hrun : Relation.ReflTransGen Seat.Step (seats, m) (seats', m')) :
    (∃ next, Seat.Step (seats', m') next) ∨ Left total results seats' m' := by
  obtain ⟨A', h'⟩ := Seat.of_steps (P := fun seats m => ∃ A, Leaving rest total results seats m A)
    (fun ⟨_, h⟩ hstep => h.step hstep) hrun ⟨A, h⟩
  exact h'.step_or_left

theorem not_stopped {stop : α → Bool} (hstop : ∀ a ∈ results, stop a = false)
    (h : Leaving rest total results seats m A) : ∀ s ∈ seats, s.process.result?.any stop = false := by
  have hfollows := List.forall₂_map_left_iff.1 h.underway.follows
  clear h
  induction hfollows with
  | nil => exact fun _ hs => nomatch hs
  | @cons s a seats results hs _ ih =>
    rw [List.forall_mem_cons] at hstop ⊢
    refine ⟨?_, ih hstop.2⟩
    rw [Seat.drained] at hs
    generalize s.process = p at hs
    cases p with
    | done b =>
      rw [← (Process.follows_drain hs).1] at hstop
      exact hstop.1
    | _ => rfl

theorem kept {stop : α → Bool} (hstop : ∀ a ∈ results, stop a = false) :
    Seat.Kept stop fun seats m => ∃ A, Leaving rest total results seats m A where
  step := fun ⟨_, h⟩ hstep => h.step hstep
  with_line line := fun ⟨A, h⟩ => ⟨A, h.underway.with_line line, h.volley, h.count⟩
  not_stopped := fun ⟨_, h⟩ => h.not_stopped hstop
  not_waiting := fun ⟨_, h⟩ hstuck => by
    rcases h.step_or_left with ⟨next, hstep⟩ | hleft
    · exact absurd hstep (hstuck next)
    · exact not_waiting_of_done hleft.results_eq

theorem seat_run {stop : α → Bool} (h : Leaving rest total results seats m A)
    (hline : m.line.Tidy (seats.map Seat.place)) (hstop : ∀ a ∈ results, stop a = false) :
    Left total results (Seat.run stop m seats).1 (Seat.run stop m seats).2 := by
  have hdist := h.underway.distinct
  rw [Seat.map_place_drained] at hdist
  obtain ⟨⟨A', h'⟩, hstuck⟩ := (kept hstop).run hdist hline ⟨A, h⟩
  rcases h'.step_or_left with ⟨next, hstep⟩ | hleft
  · exact absurd hstep (hstuck next)
  · exact hleft

theorem mesh_run (h : Leaving rest total results seats m A) (hline : m.line = []) :
    (m.run seats).1 = results.map some ∧ ∀ a b, (m.run seats).2.traffic a b = total a b := by
  have htidy : m.line.Tidy (seats.map Seat.place) := by
    rw [hline]
    exact fun t ht => nomatch ht
  have hleft := h.seat_run htidy fun _ _ => rfl
  exact ⟨results_of_done hleft.results_eq, hleft.traffic_eq⟩

end Leaving

end ObliviousRouting
