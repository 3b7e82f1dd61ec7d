import ObliviousRouting.Proofs.Network.Schedule

/-!
# Runs in rounds

A run on a mesh lets the processes go on in turn, each until it has to wait. That is one of the orders
in which steps can be made, so it ends as every order does: where each process has an end of its own,
nobody waits in line for somebody else, no time passes while something can still move, and when nothing
moves any more all processes have ended as their courses say.
-/

namespace ObliviousRouting

open Course Timetable

variable {α : Type}

/-! ### Lines with one process at each end -/

/-- Each ticket belongs to the process at its place. -/
def Line.Tidy (places : List Nat) (line : Line) : Prop :=
  ∀ t ∈ line, places[t.waiter]? = some t.place

namespace Line.Tidy

variable {places : List Nat} {line : Line} {who place : Nat}

theorem serves (h : line.Tidy places) (hdist : places.Nodup) (hwho : places[who]? = some place)
    (need : Need) : line.serves ⟨who, place, need⟩ = true := by
  apply serves_of_alone
  intro u hu hplace
  have hwaiter := h u hu
  rw [hplace, ← hwho] at hwaiter
  obtain ⟨hlt, -⟩ := List.getElem?_eq_some_iff.1 (hwaiter.trans hwho)
  exact (List.getElem?_inj hlt hdist).1 hwaiter

theorem leave (h : line.Tidy places) (t : Ticket) : (line.leave t).Tidy places :=
  fun u hu => h u (List.mem_of_mem_erase hu)

theorem settle (h : line.Tidy places) (hwho : places[who]? = some place) (needs : List Need) :
    (line.settle who place needs).Tidy places := by
  have mem_foldl_erase (l tickets : List Ticket) (t : Ticket) (ht : t ∈ l.foldl List.erase tickets) :
      t ∈ tickets := by
    induction l generalizing tickets with
    | nil => exact ht
    | cons u l ih => exact List.mem_of_mem_erase (ih (tickets.erase u) ht)
  intro t ht
  rcases List.mem_append.1 ht with ht | ht
  · exact h t (List.mem_filter.1 ht).1
  · obtain ⟨need, -, rfl⟩ := List.mem_map.1 (mem_foldl_erase _ _ _ ht)
    exact hwho

end Line.Tidy

namespace Mesh

variable {m : Mesh} {places : List Nat} {who place : Nat}

theorem serve_eq {β : Type} (h : m.line.Tidy places) (hdist : places.Nodup)
    (hwho : places[who]? = some place) (need : Need) (answer : Option (β × Mesh)) :
    m.serve ⟨who, place, need⟩ answer =
      answer.map fun (b, m) => (b, { m with line := m.line.leave ⟨who, place, need⟩ }) := by
  rw [serve, if_pos (h.serves hdist hwho need)]

theorem line_of_send {a b : Nat} {phase : String} {message : Bytes} {r : Sent} {m' : Mesh}
    (h : m.send a b phase message = some (r, m')) : m'.line = m.line := by
  simp only [send] at h
  split_ifs at h
  all_goals
    cases h
    rfl

theorem line_of_receive {a b : Nat} {r : Received} {m' : Mesh} (h : m.receive a b = some (r, m')) :
    m'.line = m.line := by
  simp only [receive] at h
  split at h
  · cases h
    rfl
  · split at h
    · cases h
      rfl
    · split_ifs at h
      cases h
      rfl

end Mesh

theorem Tracks.with_line {total : Nat → Nat → List (String × Bytes)} {A : Timetable} {m : Mesh}
    (h : Tracks total A m) (line : Line) : Tracks total A { m with line } :=
  ⟨⟨h.reliable.carriage_eq, h.reliable.gone_eq⟩, h.fits, h.queue_append, h.traffic_append⟩

namespace Process

variable {m m' : Mesh} {places : List Nat} {who place : Nat} {p q : Process α}

theorem step_of_step? (hline : m.line.Tidy places) (hdist : places.Nodup)
    (hwho : places[who]? = some place) (h : p.step? who place m = some (q, m')) :
    ∃ m'', Step place (p, m) (q, m'') ∧ ∃ t, m' = { m'' with line := m.line.leave t } := by
  cases p with
  | done a => cases h
  | send target phase message next =>
    simp only [step?, m.serve_eq hline hdist hwho, Option.map_map, Option.map_eq_some_iff] at h
    obtain ⟨⟨r, m''⟩, hsend, heq⟩ := h
    cases heq
    exact ⟨m'', .send hsend, ⟨who, place, .room target⟩, by simp only [Mesh.line_of_send hsend]⟩
  | receive source next =>
    simp only [step?, m.serve_eq hline hdist hwho, Option.map_map, Option.map_eq_some_iff] at h
    obtain ⟨⟨r, m''⟩, hreceive, heq⟩ := h
    cases heq
    exact ⟨m'', .receive hreceive, ⟨who, place, .message source⟩, by simp only [Mesh.line_of_receive hreceive]⟩
  | receiveEither first second onFirst onSecond =>
    simp only [step?, m.serve_eq hline hdist hwho] at h
    split at h
    · next hfirst =>
      obtain ⟨⟨r, m''⟩, hreceive, heq⟩ := Option.map_eq_some_iff.1 hfirst
      cases heq
      cases h
      exact ⟨m'', .first hreceive, ⟨who, place, .message first⟩, by simp only [Mesh.line_of_receive hreceive]⟩
    · simp only [Option.map_map, Option.map_eq_some_iff] at h
      obtain ⟨⟨r, m''⟩, hreceive, heq⟩ := h
      cases heq
      exact ⟨m'', .second hreceive, ⟨who, place, .message second⟩, by simp only [Mesh.line_of_receive hreceive]⟩

theorem not_step_of_step?_eq_none (hline : m.line.Tidy places) (hdist : places.Nodup)
    (hwho : places[who]? = some place) (h : p.step? who place m = none) (next : Process α × Mesh) :
    ¬ Step place (p, m) next := by
  intro hstep
  cases hstep with
  | send hsend => simp [step?, m.serve_eq hline hdist hwho, hsend] at h
  | receive hreceive => simp [step?, m.serve_eq hline hdist hwho, hreceive] at h
  | first hreceive => simp [step?, m.serve_eq hline hdist hwho, hreceive] at h
  | @second _ _ first _ _ _ _ hreceive =>
    simp only [step?, m.serve_eq hline hdist hwho, hreceive] at h
    split at h <;> simp at h

end Process

/-! ### What steps keep -/

section Line

variable (m : Mesh) (line : Line) (a b : Nat)

/-- The line does not decide what becomes of a message. -/
theorem Mesh.send_line (phase : String) (message : Bytes) :
    Mesh.send { m with line } a b phase message =
      (m.send a b phase message).map fun (r, m') => (r, { m' with line }) := by
  have hpair := apply_ite (Option.map fun p : Sent × Mesh => (p.1, { p.2 with line }))
  simp only [Mesh.send, hpair, Option.map_some, Option.map_none]
  rfl

theorem Mesh.receive_line :
    Mesh.receive { m with line } a b =
      (m.receive a b).map fun (r, m') => (r, { m' with line }) := by
  have hpair := apply_ite (Option.map fun p : Received × Mesh => (p.1, { p.2 with line }))
  simp only [Mesh.receive, hpair, Option.map_some]
  cases m.queue b a with
  | nil =>
    simp only [hpair, Option.map_some, Option.map_none]
    rfl
  | cons message rest => rfl

end Line

theorem Process.Step.with_line {place : Nat} {p q : Process α} {m m' : Mesh}
    (h : Step place (p, m) (q, m')) (line : Line) :
    Step place (p, { m with line }) (q, { m' with line }) := by
  cases h with
  | send h => exact .send (by rw [Mesh.send_line, h]; rfl)
  | receive h => exact .receive (by rw [Mesh.receive_line, h]; rfl)
  | first h => exact .first (by rw [Mesh.receive_line, h]; rfl)
  | second h => exact .second (by rw [Mesh.receive_line, h]; rfl)

theorem Seat.Step.of_process {s : Seat α} {q : Process α} {m m' : Mesh}
    (h : Process.Step s.place (s.process, m) (q, m')) (before rest : List (Seat α)) :
    Step (before ++ s :: rest, m) (before ++ { s with process := q } :: rest, m') := by
  induction before with
  | nil => exact .head h
  | cons t before ih => exact .tail ih

/-- A step of several processes is a step of one of them. -/
theorem Seat.Step.exists_process {seats : List (Seat α)} {m : Mesh} {next : List (Seat α) × Mesh}
    (h : Step (seats, m) next) : ∃ s ∈ seats, ∃ next, Process.Step s.place (s.process, m) next := by
  generalize hstart : (seats, m) = start at h
  induction h generalizing seats with
  | head h =>
    cases hstart
    exact ⟨_, List.mem_cons_self, _, h⟩
  | tail _ ih =>
    cases hstart
    obtain ⟨s, hs, hstep⟩ := ih rfl
    exact ⟨s, List.mem_cons_of_mem _ hs, hstep⟩

/-- What holds of processes on a mesh whatever steps they make. Nobody waits in vain, and no process ends
in a way that would stop the others. -/
structure Seat.Kept (stop : α → Bool) (I : List (Seat α) → Mesh → Prop) : Prop where
  step {seats seats' : List (Seat α)} {m m' : Mesh} : I seats m → Step (seats, m) (seats', m') → I seats' m'
  with_line {seats : List (Seat α)} {m : Mesh} (line : Line) : I seats m → I seats { m with line }
  not_stopped {seats : List (Seat α)} {m : Mesh} : I seats m →
    ∀ s ∈ seats, s.process.result?.any stop = false
  not_waiting {seats : List (Seat α)} {m : Mesh} : I seats m → (∀ next, ¬ Step (seats, m) next) →
    (seats.any fun s => s.process.expire?.isSome) = false

namespace Seat.Kept

variable {stop : α → Bool} {I : List (Seat α) → Mesh → Prop} {places : List Nat}

/-- A process goes on step by step until it cannot make a step any more. -/
theorem advance (h : Kept stop I) (hdist : places.Nodup) {who place : Nat} {p : Process α} {m : Mesh}
    {before rest : List (Seat α)} (hwho : places[who]? = some place) (hline : m.line.Tidy places)
    (hI : I (before ++ ⟨place, p⟩ :: rest) m) :
    I (before ++ ⟨place, (p.advance who place m).1⟩ :: rest) (p.advance who place m).2.1 ∧
      (p.advance who place m).2.1.line.Tidy places ∧
      ((p.advance who place m).2.2 = false → (p.advance who place m).1 = p ∧
        (∃ line, (p.advance who place m).2.1 = { m with line }) ∧
        ∀ next, ¬ Process.Step place (p, m) next) := by
  fun_induction Process.advance who place m p with
  | case1 m p hnone =>
    exact ⟨h.with_line _ hI, hline.settle hwho _, fun _ => ⟨rfl, ⟨_, rfl⟩,
      Process.not_step_of_step?_eq_none hline hdist hwho hnone⟩⟩
  | case2 m p q m₁ hsome q' m' moved hadvance ih =>
    obtain ⟨m₂, hstep, t, rfl⟩ := Process.step_of_step? hline hdist hwho hsome
    have hI₂ := h.with_line (m.line.leave t) (h.step hI (Step.of_process hstep before rest))
    obtain ⟨hI', hline', -⟩ := ih (hline.leave t) hI₂
    rw [hadvance] at hI' hline'
    exact ⟨hI', hline', fun hmoved => absurd hmoved Bool.noConfusion⟩

/-- In a round nothing stops. If nothing moves either, no process can make a step. -/
theorem round (h : Kept stop I) (hdist : places.Nodup) (who : Nat) {m : Mesh}
    {before seats : List (Seat α)} (hplaces : places.drop who = seats.map Seat.place)
    (hline : m.line.Tidy places) (hI : I (before ++ seats) m) :
    I (before ++ (Seat.round stop who m seats).seats) (Seat.round stop who m seats).mesh ∧
      (Seat.round stop who m seats).seats.map Seat.place = seats.map Seat.place ∧
      (Seat.round stop who m seats).mesh.line.Tidy places ∧
      (Seat.round stop who m seats).stopped = false ∧
      ((Seat.round stop who m seats).moved = false →
        ∀ s ∈ seats, ∀ next, ¬ Process.Step s.place (s.process, m) next) := by
  induction seats generalizing who m before with
  | nil => exact ⟨hI, rfl, hline, rfl, fun _ s hs => nomatch hs⟩
  | cons s rest ih =>
    have hwho : places[who]? = some s.place := by
      rw [← Nat.add_zero who, ← List.getElem?_drop, hplaces]
      rfl
    have hplaces' : places.drop (who + 1) = rest.map Seat.place := by
      rw [← List.drop_drop, hplaces]
      rfl
    obtain ⟨hI₁, hline₁, hstuck₁⟩ := h.advance hdist hwho hline hI
    have hgoes := h.not_stopped hI₁ _ (List.mem_append_right before List.mem_cons_self)
    have hI₂ : I ((before ++ [⟨s.place, (s.process.advance who s.place m).1⟩]) ++ rest)
        (s.process.advance who s.place m).2.1 := by
      rwa [List.append_assoc]
    obtain ⟨hI', hplaces'', hline', hstopped, hstuck⟩ := ih (who + 1) hplaces' hline₁ hI₂
    simp only [Seat.round]
    rw [if_neg (by simp [hgoes])]
    rw [List.append_assoc] at hI'
    refine ⟨hI', ?_, hline', hstopped, fun hmoved => ?_⟩
    · rw [List.map_cons, List.map_cons, hplaces'']
    · obtain ⟨hmoved₁, hmoved'⟩ := Bool.or_eq_false_iff.1 hmoved
      obtain ⟨-, ⟨line, hmesh⟩, hnone⟩ := hstuck₁ hmoved₁
      rw [List.forall_mem_cons]
      refine ⟨hnone, fun t ht next hstep => ?_⟩
      have hstep' := hstep.with_line line
      rw [← hmesh] at hstep'
      exact hstuck hmoved' t ht _ hstep'

/-- A run in rounds keeps what steps keep, and it ends where no process can make a step. -/
theorem run (h : Kept stop I) {seats : List (Seat α)} {m : Mesh} (hdist : (seats.map Seat.place).Nodup)
    (hline : m.line.Tidy (seats.map Seat.place)) (hI : I seats m) :
    I (Seat.run stop m seats).1 (Seat.run stop m seats).2 ∧ ∀ next, ¬ Step (Seat.run stop m seats) next := by
  have round {m : Mesh} {seats : List (Seat α)} (hdist : (seats.map Seat.place).Nodup)
      (hline : m.line.Tidy (seats.map Seat.place)) (hI : I seats m) :=
    h.round hdist 0 rfl hline (show I ([] ++ seats) m from hI)
  have stuck {m : Mesh} {seats : List (Seat α)} (hnone : ∀ s ∈ seats, ∀ next,
      ¬ Process.Step s.place (s.process, m) next) : ∀ next, ¬ Step (seats, m) next := by
    intro next hstep
    obtain ⟨s, hs, next, hprocess⟩ := hstep.exists_process
    exact hnone s hs next hprocess
  fun_induction Seat.run stop m seats with
  | case1 m seats after hstopped =>
    obtain ⟨-, -, -, hgoes, -⟩ := round hdist hline hI
    exact absurd hstopped (Bool.eq_false_iff.1 hgoes)
  | case2 m seats after hstopped hmoved ih =>
    obtain ⟨hI', hplaces, hline', -, -⟩ := round hdist hline hI
    exact ih (hplaces ▸ hdist) (hplaces ▸ hline') hI'
  | case3 m seats after hstopped hmoved hwaiting =>
    obtain ⟨-, -, -, -, hnone⟩ := round hdist hline hI
    rw [h.not_waiting hI (stuck (hnone (Bool.eq_false_iff.2 hmoved)))] at hwaiting
    cases hwaiting
  | case4 m seats after hstopped hmoved hwaiting =>
    obtain ⟨-, -, -, -, hnone⟩ := round hdist hline hI
    exact ⟨hI, stuck (hnone (Bool.eq_false_iff.2 hmoved))⟩

end Seat.Kept

variable {total : Nat → Nat → List (String × Bytes)} {results : List α} {seats : List (Seat α)}
  {m : Mesh} {A : Timetable}

/-- Processes that have ended wait for nothing. -/
theorem not_waiting_of_done (h : seats.map (·.process) = results.map .done) :
    (seats.any fun s => s.process.expire?.isSome) = false := by
  rw [List.any_eq_false]
  intro s hs
  have hmem := List.mem_map_of_mem (f := (·.process)) hs
  rw [h] at hmem
  obtain ⟨a, -, ha⟩ := List.mem_map.1 hmem
  rw [← ha]
  exact Bool.false_ne_true

theorem results_of_done (h : seats.map (·.process) = results.map .done) :
    seats.map (fun s => s.process.result?) = results.map some := by
  have hresults := congrArg (List.map Process.result?) h
  rwa [List.map_map, List.map_map] at hresults

theorem not_step_of_done (h : seats.map (·.process) = results.map .done) (next : List (Seat α) × Mesh) :
    ¬ Seat.Step (seats, m) next := by
  intro hstep
  obtain ⟨s, hs, next, hprocess⟩ := hstep.exists_process
  have hmem := List.mem_map_of_mem (f := (·.process)) hs
  rw [h] at hmem
  obtain ⟨a, -, ha⟩ := List.mem_map.1 hmem
  rw [← ha] at hprocess
  cases hprocess

/-- In whatever order of steps, processes can end with the results of their courses only. -/
theorem Underway.eq_of_done {seats' : List (Seat α)} {m' : Mesh} {results' : List α}
    (h : Underway total results seats m A) (hsteps : Relation.ReflTransGen Seat.Step (seats, m) (seats', m'))
    (hdone : seats'.map (·.process) = results'.map .done) : results' = results := by
  rcases h.run_step_or_ended hsteps with ⟨next, hstep⟩ | hended
  · exact absurd hstep (not_step_of_done hdone next)
  · have heq := hdone.symm.trans hended.results_eq
    exact List.map_injective_iff.2 (fun a b hab => Process.done.inj hab) heq

/-- A process on its course can end with its result only. -/
theorem not_stopped_of_follows {stop : α → Bool} (hstop : ∀ a ∈ results, stop a = false)
    (hf : List.Forall₂ (fun s a => s.process.Follows (A s.place) a) seats results) :
    ∀ s ∈ seats, s.process.result?.any stop = false := by
  induction hf with
  | nil => exact fun _ hs => nomatch hs
  | @cons s a rest results hs _ ih =>
    rw [List.forall_mem_cons] at hstop ⊢
    refine ⟨?_, ih hstop.2⟩
    generalize s.process = p, A s.place = c at hs
    cases hs with
    | done => exact hstop.1
    | _ => rfl

theorem Underway.with_line (h : Underway total results seats m A) (line : Line) :
    Underway total results seats { m with line } A :=
  ⟨h.follows, h.distinct, h.elsewhere, h.tracks.with_line line, h.completes⟩

theorem Underway.kept {stop : α → Bool} (hstop : ∀ a ∈ results, stop a = false) :
    Seat.Kept stop fun seats m => ∃ A, Underway total results seats m A where
  step := fun ⟨_, h⟩ hstep => h.step hstep
  with_line line := fun ⟨A, h⟩ => ⟨A, h.with_line line⟩
  not_stopped := fun ⟨_, h⟩ => not_stopped_of_follows hstop h.follows
  not_waiting := fun ⟨_, h⟩ hstuck => by
    rcases h.step_or_ended with ⟨next, hstep⟩ | hended
    · exact absurd hstep (hstuck next)
    · exact not_waiting_of_done hended.results_eq

theorem Underway.seat_run {stop : α → Bool} (h : Underway total results seats m A)
    (hline : m.line.Tidy (seats.map Seat.place)) (hstop : ∀ a ∈ results, stop a = false) :
    Ended total results (Seat.run stop m seats).1 (Seat.run stop m seats).2 := by
  obtain ⟨⟨A', h'⟩, hstuck⟩ := (Underway.kept hstop).run h.distinct hline ⟨A, h⟩
  rcases h'.step_or_ended with ⟨next, hstep⟩ | hended
  · exact absurd hstep (hstuck next)
  · exact hended

/-- What running processes together gives, if they follow the courses of a timetable that can be brought
to its end: their results, nothing left on any link, and the traffic of the courses. -/
theorem Underway.mesh_run (h : Underway total results seats m A) (hline : m.line = []) :
    (m.run seats).1 = results.map some ∧ (∀ a b, (m.run seats).2.queue a b = []) ∧
      ∀ a b, (m.run seats).2.traffic a b = total a b := by
  have htidy : m.line.Tidy (seats.map Seat.place) := by
    rw [hline]
    exact fun t ht => nomatch ht
  have hended := h.seat_run htidy fun _ _ => rfl
  exact ⟨results_of_done hended.results_eq, hended.queue_eq, hended.traffic_eq⟩

end ObliviousRouting
