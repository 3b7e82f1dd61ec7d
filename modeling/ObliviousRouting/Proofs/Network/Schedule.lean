import Mathlib.Data.List.Forall2
import Mathlib.Logic.Relation
import ObliviousRouting.Mesh.Run
import ObliviousRouting.Proofs.Network.Timetable

/-!
# Every order of steps

Processes at different ends of a reliable mesh take their steps in any order: a process that sends
waits while the link is full, one that receives waits while the link is empty, and one that waits for
two messages takes them as they come. If the processes follow the courses of a balanced timetable that
some order of steps brings to its end, then every order does. `Tracks` is what all states on the way
have in common: what waits on a link, followed by what is still to be sent, is what is still to be
received. Once nothing is left to be done, the results and the traffic are those that the courses say,
whatever the order was (`Underway.step_or_ended`).
-/

namespace ObliviousRouting

open Course Timetable

variable {α : Type}

/-- One step of a process at an end that it shares with no other one. Of two messages that it waits for,
either may come first. -/
inductive Process.Step (place : Nat) : Process α × Mesh → Process α × Mesh → Prop
  | send {m m' : Mesh} {target : Nat} {phase : String} {message : Bytes} {next : Sent → Process α}
      {r : Sent} (h : m.send place target phase message = some (r, m')) :
      Step place (.send target phase message next, m) (next r, m')
  | receive {m m' : Mesh} {source : Nat} {next : Received → Process α} {r : Received}
      (h : m.receive place source = some (r, m')) :
      Step place (.receive source next, m) (next r, m')
  | first {m m' : Mesh} {first second : Nat} {onFirst onSecond : Received → Process α} {r : Received}
      (h : m.receive place first = some (r, m')) :
      Step place (.receiveEither first second onFirst onSecond, m) (onFirst r, m')
  | second {m m' : Mesh} {first second : Nat} {onFirst onSecond : Received → Process α} {r : Received}
      (h : m.receive place second = some (r, m')) :
      Step place (.receiveEither first second onFirst onSecond, m) (onSecond r, m')

/-- One step of one of several processes. -/
inductive Seat.Step : List (Seat α) × Mesh → List (Seat α) × Mesh → Prop
  | head {s : Seat α} {rest : List (Seat α)} {q : Process α} {m m' : Mesh}
      (h : Process.Step s.place (s.process, m) (q, m')) :
      Step (s :: rest, m) ({ s with process := q } :: rest, m')
  | tail {s : Seat α} {rest rest' : List (Seat α)} {m m' : Mesh} (h : Step (rest, m) (rest', m')) :
      Step (s :: rest, m) (s :: rest', m')

namespace Mesh

/-- Every message arrives once and unchanged, and no end is gone. -/
structure Reliable (m : Mesh) : Prop where
  carriage_eq : m.carriage = Carriage.reliable
  gone_eq : m.gone = []

def push (m : Mesh) (source target : Nat) (phase : String) (message : Bytes) : Mesh :=
  { m with sendings := ⟨source, target, phase, message⟩ :: m.sendings }.setQueue source target
    (m.queue source target ++ [message])

variable {m : Mesh} {a b : Nat}

theorem Reliable.send_eq (h : m.Reliable) (hlink : m.Linked a b) (phase : String) (message : Bytes) :
    m.send a b phase message =
      if m.capacity ≤ (m.queue a b).length then none else some (.ok (), m.push a b phase message) := by
  have harrive : m.arrivals a b message = [message] := by
    rw [arrivals, h.carriage_eq]
    rfl
  have hpresent : b ∉ m.gone := by
    rw [h.gone_eq]
    exact List.not_mem_nil
  simp only [send, harrive]
  rw [if_neg (List.cons_ne_nil _ _), if_neg (not_not_intro hlink), if_neg hpresent]
  rfl

theorem Reliable.receive_eq (h : m.Reliable) (hlink : m.Linked a b) :
    m.receive a b = match m.queue b a with
      | [] => none
      | message :: rest => some (.ok message, m.setQueue b a rest) := by
  rw [receive, if_neg (not_not_intro hlink)]
  cases m.queue b a with
  | nil => simp [h.gone_eq]
  | cons message rest => rfl

theorem queue_setQueue (messages : List Bytes) (c d : Nat) :
    (m.setQueue a b messages).queue c d = if c = a ∧ d = b then messages else m.queue c d := rfl

theorem queue_push (phase : String) (message : Bytes) (c d : Nat) :
    (m.push a b phase message).queue c d =
      if c = a ∧ d = b then m.queue a b ++ [message] else m.queue c d := rfl

theorem traffic_push (phase : String) (message : Bytes) (c d : Nat) :
    (m.push a b phase message).traffic c d =
      m.traffic c d ++ if c = a ∧ d = b then [(phase, message)] else [] := by
  simp only [push, setQueue, traffic, List.filter_cons, Sending.isOn]
  by_cases h : c = a ∧ d = b
  · simp [h]
  · have hne : ¬ (a = c ∧ b = d) := fun heq => h ⟨heq.1.symm, heq.2.symm⟩
    simp [h, hne]

end Mesh

/-- What an end has sent is missing from what it has still to send, and all else stays. -/
theorem Timetable.outbox_of_send {A : Timetable} {p target : Nat} {phase : String} {message : Bytes}
    {c : Course} (hA : A p = .send target phase message :: c) (a b : Nat) :
    outbox (A a) b =
      (if a = p ∧ b = target then [(phase, message)] else []) ++
        outbox (Function.update A p c a) b := by
  by_cases ha : a = p
  · subst ha
    rw [hA, Function.update_self, outbox_cons]
    simp only [Action.outgoing, true_and, eq_comm]
  · rw [Function.update_of_ne ha, if_neg (fun hab => ha hab.1), List.nil_append]

def Action.FitsAt (m : Mesh) (p : Nat) (x : Action) : Prop :=
  x.peers.Nodup ∧ ∀ q ∈ x.peers, m.Linked p q

/-- The mesh and what remains to be done make up the whole traffic of the courses. -/
structure Tracks (total : Nat → Nat → List (String × Bytes)) (A : Timetable) (m : Mesh) : Prop where
  reliable : m.Reliable
  fits : ∀ p, ∀ x ∈ A p, x.FitsAt m p
  queue_append : ∀ a b, m.queue a b ++ (outbox (A a) b).map Prod.snd = inbox (A b) a
  traffic_append : ∀ a b, m.traffic a b ++ outbox (A a) b = total a b

namespace Tracks

variable {total : Nat → Nat → List (String × Bytes)} {A : Timetable} {m m' : Mesh} {p : Nat}
  {c : Course}

theorem length_queue (h : Tracks total A m) (a b : Nat) :
    (m.queue a b).length + (outbox (A a) b).length = (inbox (A b) a).length := by
  rw [← h.queue_append a b, List.length_append, List.length_map]

theorem grants_room (h : Tracks total A m) (p target : Nat) :
    A.Grants m.capacity p (.room target) ↔ (m.queue p target).length < m.capacity := by
  have hlength := h.length_queue p target
  simp only [Grants]
  omega

theorem grants_message (h : Tracks total A m) (p source : Nat) :
    A.Grants m.capacity p (.message source) ↔ m.queue source p ≠ [] := by
  have hlength := h.length_queue source p
  rw [← List.length_pos_iff]
  simp only [Grants]
  omega

theorem send {target : Nat} {phase : String} {message : Bytes} (h : Tracks total A m)
    (hA : A p = .send target phase message :: c) :
    Tracks total (Function.update A p c)
      (m.push p target phase message) where
  reliable := ⟨h.reliable.carriage_eq, h.reliable.gone_eq⟩
  fits := (Function.forall_update_iff A fun q course => ∀ x ∈ course, x.FitsAt m q).2
    ⟨fun x hx => h.fits p x (hA ▸ List.mem_cons_of_mem _ hx), fun q _ => h.fits q⟩
  queue_append a b := by
    have hin : ∀ b, inbox (Function.update A p c b) a = inbox (A b) a := by
      rw [Function.forall_update_iff A fun b course => inbox course a = inbox (A b) a, hA]
      exact ⟨rfl, fun _ _ => rfl⟩
    rw [hin, Mesh.queue_push, ← h.queue_append a b, outbox_of_send hA a b]
    split
    · next hab =>
      obtain ⟨rfl, rfl⟩ := hab
      simp
    · rfl
  traffic_append a b := by
    rw [Mesh.traffic_push, ← h.traffic_append a b, outbox_of_send hA a b, List.append_assoc]

theorem receive {source : Nat} {r : Received} (h : Tracks total A m) (hlink : m.Linked p source)
    (hreceive : m.receive p source = some (r, m')) (hnext : Next (A p) (.message source) c)
    (hfits : ∀ x ∈ c, x.FitsAt m p) :
    ∃ message, r = .ok message ∧ inbox (A p) source = message :: inbox c source ∧
      A.Grants m.capacity p (.message source) ∧ Tracks total (Function.update A p c) m' ∧
      m'.capacity = m.capacity := by
  rw [h.reliable.receive_eq hlink] at hreceive
  cases hqueue : m.queue source p with
  | nil =>
    rw [hqueue] at hreceive
    cases hreceive
  | cons message rest =>
    rw [hqueue] at hreceive
    cases hreceive
    obtain ⟨⟨awaited, hsource⟩, hother, hout⟩ := hnext.of_message
    have hold := h.queue_append source p
    rw [hqueue, hsource, List.cons_append, List.cons.injEq] at hold
    have hout' : ∀ a b, outbox (Function.update A p c a) b = outbox (A a) b := by
      rw [Function.forall_update_iff A fun a course => ∀ b, outbox course b = outbox (A a) b]
      exact ⟨fun b => (hout b).symm, fun _ _ _ => rfl⟩
    refine ⟨message, rfl, by rw [hsource, hold.1], ?_, ⟨?_, ?_, ?_, ?_⟩, rfl⟩
    · rw [h.grants_message, hqueue]
      exact List.cons_ne_nil _ _
    · exact ⟨h.reliable.carriage_eq, h.reliable.gone_eq⟩
    · exact (Function.forall_update_iff A fun q course => ∀ x ∈ course, x.FitsAt m q).2
        ⟨hfits, fun q _ => h.fits q⟩
    · intro a b
      rw [hout', Mesh.queue_setQueue]
      by_cases hb : b = p
      · subst hb
        rw [Function.update_self]
        by_cases ha : a = source
        · subst ha
          rw [if_pos ⟨rfl, rfl⟩]
          exact hold.2
        · rw [if_neg (fun hab => ha hab.1), ← hother a ha]
          exact h.queue_append a b
      · rw [Function.update_of_ne hb, if_neg (fun hab => hb hab.2)]
        exact h.queue_append a b
    · intro a b
      rw [hout']
      exact h.traffic_append a b

/-- A step of a process is a step of the timetable, and both stay together. -/
theorem step {process process' : Process α} {a : α} (h : Tracks total A m)
    (hf : process.Follows (A p) a) (hstep : Process.Step p (process, m) (process', m')) :
    ∃ need c, Next (A p) need c ∧ A.Grants m.capacity p need ∧ process'.Follows c a ∧
      Tracks total (Function.update A p c) m' ∧ m'.capacity = m.capacity := by
  generalize hA : A p = course at hf
  have hfits : ∀ x ∈ course, x.FitsAt m p := hA ▸ h.fits p
  cases hf with
  | done => cases hstep
  | @send target phase message _ c _ hf =>
    cases hstep with
    | send hsend =>
      have hlink := (hfits _ List.mem_cons_self).2 target List.mem_cons_self
      rw [h.reliable.send_eq hlink] at hsend
      split at hsend
      · cases hsend
      · cases hsend
        refine ⟨.room target, c, .send, ?_, hf, h.send hA, rfl⟩
        rw [h.grants_room]
        omega
  | @receive source message _ c _ hf =>
    cases hstep with
    | receive hreceive =>
      have hlink := (hfits _ List.mem_cons_self).2 source List.mem_cons_self
      have hnext : Next (A p) (.message source) c := hA ▸ .receive
      obtain ⟨message', rfl, hin, hgrant, htracks, hcap⟩ :=
        h.receive hlink hreceive hnext fun x hx => hfits x (List.mem_cons_of_mem _ hx)
      simp only [hA, inbox_cons, Action.incoming, if_true, List.cons_append, List.nil_append,
        List.cons.injEq, and_true] at hin
      subst hin
      exact ⟨_, c, .receive, hgrant, hf, htracks, hcap⟩
  | @receiveBoth first second message₁ message₂ _ _ c _ hf₁ hf₂ =>
    have hpair := hfits _ List.mem_cons_self
    have hne : first ≠ second := by simpa [Action.peers] using hpair.1
    have hrest {source : Nat} {message : Bytes} (hmem : source ∈ [first, second]) :
        ∀ x ∈ Action.receive source message :: c, x.FitsAt m p := by
      intro x hx
      rcases List.mem_cons.1 hx with rfl | hx
      · exact ⟨by simp [Action.peers], fun q hq => hpair.2 q (List.mem_singleton.1 hq ▸ hmem)⟩
      · exact hfits x (List.mem_cons_of_mem _ hx)
    cases hstep with
    | first hreceive =>
      have hnext : Next (A p) (.message first) (.receive second message₂ :: c) := hA ▸ .first hne
      obtain ⟨message', rfl, hin, hgrant, htracks, hcap⟩ :=
        h.receive (hpair.2 first (by simp [Action.peers])) hreceive hnext (hrest (by simp))
      obtain rfl : message₁ = message' := by simpa [hA, Action.incoming, hne.symm] using hin
      exact ⟨_, _, .first hne, hgrant, hf₁, htracks, hcap⟩
    | second hreceive =>
      have hnext : Next (A p) (.message second) (.receive first message₁ :: c) := hA ▸ .second hne
      obtain ⟨message', rfl, hin, hgrant, htracks, hcap⟩ :=
        h.receive (hpair.2 second (by simp [Action.peers])) hreceive hnext (hrest (by simp))
      obtain rfl : message₂ = message' := by simpa [hA, Action.incoming, hne] using hin
      exact ⟨_, _, .second hne, hgrant, hf₂, htracks, hcap⟩

/-- Where the timetable can go on at an end, the process there can make a step. -/
theorem exists_step {process : Process α} {a : α} {need : Need} (h : Tracks total A m)
    (hf : process.Follows (A p) a) (hnext : Next (A p) need c)
    (hgrant : A.Grants m.capacity p need) : ∃ next, Process.Step p (process, m) next := by
  generalize hA : A p = course at hf hnext
  have hfits : ∀ x ∈ course, x.FitsAt m p := hA ▸ h.fits p
  have receives {source : Nat} (hlink : m.Linked p source)
      (hgrant : A.Grants m.capacity p (.message source)) :
      ∃ r m', m.receive p source = some (r, m') := by
    rw [h.grants_message] at hgrant
    rw [h.reliable.receive_eq hlink]
    cases hqueue : m.queue source p with
    | nil => exact absurd hqueue hgrant
    | cons message rest => exact ⟨_, _, rfl⟩
  cases hf with
  | done => cases hnext
  | @send target phase message =>
    cases hnext
    have hlink := (hfits _ List.mem_cons_self).2 target List.mem_cons_self
    rw [h.grants_room] at hgrant
    have hsend := h.reliable.send_eq hlink phase message
    rw [if_neg (by omega)] at hsend
    exact ⟨_, .send hsend⟩
  | @receive source =>
    cases hnext
    obtain ⟨r, m', hreceive⟩ :=
      receives ((hfits _ List.mem_cons_self).2 source List.mem_cons_self) hgrant
    exact ⟨_, .receive hreceive⟩
  | @receiveBoth first second =>
    have hlink := (hfits _ List.mem_cons_self).2
    cases hnext with
    | first =>
      obtain ⟨r, m', hreceive⟩ := receives (hlink first (by simp [Action.peers])) hgrant
      exact ⟨_, .first hreceive⟩
    | second =>
      obtain ⟨r, m', hreceive⟩ := receives (hlink second (by simp [Action.peers])) hgrant
      exact ⟨_, .second hreceive⟩

end Tracks

/-- Several processes are on their way to their results, on courses that can be brought to their ends. -/
structure Underway (total : Nat → Nat → List (String × Bytes)) (results : List α)
    (seats : List (Seat α)) (m : Mesh) (A : Timetable) : Prop where
  follows : List.Forall₂ (fun s a => s.process.Follows (A s.place) a) seats results
  distinct : (seats.map Seat.place).Nodup
  elsewhere : ∀ p ∉ seats.map Seat.place, A p = []
  tracks : Tracks total A m
  completes : A.Completes m.capacity

/-- All processes have ended with their results, nothing waits on any link, and every link has carried
its whole traffic. -/
structure Ended (total : Nat → Nat → List (String × Bytes)) (results : List α)
    (seats : List (Seat α)) (m : Mesh) : Prop where
  results_eq : seats.map (·.process) = results.map .done
  queue_eq : ∀ a b, m.queue a b = []
  traffic_eq : ∀ a b, m.traffic a b = total a b

/-- The processes at the ends of a list follow other courses if those at these ends are the same. -/
theorem follows_congr {A B : Timetable} {seats : List (Seat α)} {results : List α}
    (h : List.Forall₂ (fun s a => s.process.Follows (A s.place) a) seats results)
    (heq : ∀ s ∈ seats, B s.place = A s.place) :
    List.Forall₂ (fun s a => s.process.Follows (B s.place) a) seats results := by
  induction h with
  | nil => exact .nil
  | cons hf _ ih =>
    refine .cons ?_ (ih fun s hs => heq s (List.mem_cons_of_mem _ hs))
    rwa [heq _ List.mem_cons_self]

/-- A step of some process is a step of the timetable at its end. -/
theorem Tracks.seat_step {total : Nat → Nat → List (String × Bytes)} {A : Timetable}
    {results : List α} {seats seats' : List (Seat α)} {m m' : Mesh} (h : Tracks total A m)
    (hf : List.Forall₂ (fun s a => s.process.Follows (A s.place) a) seats results)
    (hdist : (seats.map Seat.place).Nodup) (hstep : Seat.Step (seats, m) (seats', m')) :
    ∃ p need c, p ∈ seats.map Seat.place ∧ Next (A p) need c ∧ A.Grants m.capacity p need ∧
      List.Forall₂ (fun s a => s.process.Follows (Function.update A p c s.place) a) seats' results ∧
      seats'.map Seat.place = seats.map Seat.place ∧ Tracks total (Function.update A p c) m' ∧
      m'.capacity = m.capacity := by
  induction hf generalizing seats' with
  | nil => cases hstep
  | @cons s a rest results hs hrest ih =>
    rw [List.map_cons, List.nodup_cons] at hdist
    cases hstep with
    | head hstep =>
      obtain ⟨need, c, hnext, hgrant, hs', htracks, hcap⟩ := h.step hs hstep
      refine ⟨s.place, need, c, List.mem_cons_self, hnext, hgrant, .cons ?_ ?_, rfl, htracks, hcap⟩
      · rwa [Function.update_self]
      · apply follows_congr hrest
        intro t ht
        have hne : t.place ≠ s.place := fun heq => hdist.1 (heq ▸ List.mem_map_of_mem ht)
        rw [Function.update_of_ne hne]
    | tail hstep =>
      obtain ⟨p, need, c, hp, hnext, hgrant, hrest', hplaces, htracks, hcap⟩ := ih hdist.2 hstep
      refine ⟨p, need, c, List.mem_cons_of_mem _ hp, hnext, hgrant, .cons ?_ hrest', ?_, htracks, hcap⟩
      · have hne : s.place ≠ p := fun heq => hdist.1 (heq ▸ hp)
        rwa [Function.update_of_ne hne]
      · rw [List.map_cons, List.map_cons, hplaces]

theorem exists_seat_step {total : Nat → Nat → List (String × Bytes)} {A : Timetable}
    {results : List α} {seats : List (Seat α)} {m : Mesh} {p : Nat} {need : Need} {c : Course}
    (h : Tracks total A m)
    (hf : List.Forall₂ (fun s a => s.process.Follows (A s.place) a) seats results)
    (hp : p ∈ seats.map Seat.place) (hnext : Next (A p) need c) (hgrant : A.Grants m.capacity p need) :
    ∃ next, Seat.Step (seats, m) next := by
  induction hf with
  | nil => cases hp
  | @cons s a rest results hs _ ih =>
    rcases List.mem_cons.1 hp with rfl | hp
    · obtain ⟨⟨q, m'⟩, hstep⟩ := h.exists_step hs hnext hgrant
      exact ⟨_, .head hstep⟩
    · obtain ⟨⟨rest', m'⟩, hstep⟩ := ih hp
      exact ⟨_, .tail hstep⟩

/-- What every step keeps, all steps together keep. -/
theorem Seat.of_steps {R : List (Seat α) × Mesh → List (Seat α) × Mesh → Prop}
    {P : List (Seat α) → Mesh → Prop} {seats seats' : List (Seat α)} {m m' : Mesh}
    (hstep : ∀ {seats m seats' m'}, P seats m → R (seats, m) (seats', m') → P seats' m')
    (hsteps : Relation.ReflTransGen R (seats, m) (seats', m')) (h : P seats m) : P seats' m' := by
  have hall {last : List (Seat α) × Mesh} (hsteps : Relation.ReflTransGen R (seats, m) last) :
      P last.1 last.2 := by
    induction hsteps with
    | refl => exact h
    | tail _ hlast ih => exact hstep ih hlast
  exact hall hsteps

namespace Underway

variable {total : Nat → Nat → List (String × Bytes)} {results : List α}
  {seats seats' : List (Seat α)} {m m' : Mesh} {A : Timetable}

/-- A step brings the processes on, one of them by one action of its course. -/
theorem step_next (h : Underway total results seats m A) (hstep : Seat.Step (seats, m) (seats', m')) :
    ∃ p need c, Next (A p) need c ∧ Underway total results seats' m' (Function.update A p c) ∧
      m'.capacity = m.capacity := by
  obtain ⟨p, need, c, hp, hnext, hgrant, hfollows, hplaces, htracks, hcap⟩ :=
    h.tracks.seat_step h.follows h.distinct hstep
  refine ⟨p, need, c, hnext, ⟨hfollows, hplaces ▸ h.distinct, ?_, htracks, ?_⟩, hcap⟩
  · intro q hq
    rw [hplaces] at hq
    have hne : q ≠ p := fun heq => hq (heq ▸ hp)
    rw [Function.update_of_ne hne]
    exact h.elsewhere q hq
  · rw [hcap]
    exact h.completes.of_advances ⟨p, need, c, hnext, hgrant, rfl⟩

theorem step (h : Underway total results seats m A) (hstep : Seat.Step (seats, m) (seats', m')) :
    ∃ A', Underway total results seats' m' A' := by
  obtain ⟨p, need, c, -, h', -⟩ := h.step_next hstep
  exact ⟨_, h'⟩

/-- As long as something is left to be done, some end gets what it needs. -/
theorem grants_or_ended (h : Underway total results seats m A) :
    (∃ p need c, p ∈ seats.map Seat.place ∧ Next (A p) need c ∧ A.Grants m.capacity p need) ∨
      Ended total results seats m := by
  cases h.completes with
  | finished hdone =>
    right
    refine ⟨?_, ?_, ?_⟩
    · have hfollows := h.follows
      clear h
      induction hfollows with
      | nil => rfl
      | @cons s a rest results hs _ ih =>
        rw [hdone] at hs
        rw [List.map_cons, List.map_cons, hs.eq_of_nil, ih]
    · intro a b
      have hqueue := h.tracks.queue_append a b
      rw [hdone a, hdone b] at hqueue
      simpa using hqueue
    · intro a b
      have htraffic := h.tracks.traffic_append a b
      rw [hdone a] at htraffic
      simpa using htraffic
  | step hadvance =>
    left
    obtain ⟨p, need, c, hnext, hgrant, -⟩ := hadvance
    have hp : p ∈ seats.map Seat.place := by
      by_contra hp
      rw [h.elsewhere p hp] at hnext
      cases hnext
    exact ⟨p, need, c, hp, hnext, hgrant⟩

theorem step_or_ended (h : Underway total results seats m A) :
    (∃ next, Seat.Step (seats, m) next) ∨ Ended total results seats m := by
  rcases h.grants_or_ended with ⟨p, need, c, hp, hnext, hgrant⟩ | hended
  · exact .inl (exists_seat_step h.tracks h.follows hp hnext hgrant)
  · exact .inr hended

/-- Whatever the order of steps, a run goes on until all processes have ended as their courses say. -/
theorem run_step_or_ended (h : Underway total results seats m A)
    (hrun : Relation.ReflTransGen Seat.Step (seats, m) (seats', m')) :
    (∃ next, Seat.Step (seats', m') next) ∨ Ended total results seats' m' := by
  obtain ⟨A', h'⟩ := Seat.of_steps (P := fun seats m => ∃ A, Underway total results seats m A)
    (fun ⟨_, h⟩ hstep => h.step hstep) hrun ⟨A, h⟩
  exact h'.step_or_ended

end Underway

/-- Processes that have not done anything yet, on a mesh that has not been used. -/
theorem underway_of_follows {results : List α} {seats : List (Seat α)} {A : Timetable} {parties : Nat}
    (hf : List.Forall₂ (fun s a => s.process.Follows (A s.place) a) seats results)
    (hdist : (seats.map Seat.place).Nodup) (helse : ∀ p ∉ seats.map Seat.place, A p = [])
    (hfits : ∀ p, ∀ x ∈ A p, x.FitsAt { parties } p) (hbal : A.Balanced)
    (hcomp : A.Completes 1024) :
    Underway (fun a b => outbox (A a) b) results seats { parties } A where
  follows := hf
  distinct := hdist
  elsewhere := helse
  tracks :=
    { reliable := ⟨rfl, rfl⟩
      fits := hfits
      queue_append := hbal
      traffic_append := fun _ _ => rfl }
  completes := hcomp

end ObliviousRouting
