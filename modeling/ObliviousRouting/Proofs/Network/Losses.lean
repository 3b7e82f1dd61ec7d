import ObliviousRouting.Proofs.Network.Costs
import ObliviousRouting.Proofs.Network.Rounds
import ObliviousRouting.Proofs.Network.Sendings

/-!
# Links that lose messages

On a mesh that loses some messages, a process may be given a later message instead of the one it should
have got, or wait in vain until it gives up. Still, messages are accounted for: as long as a process has not
stopped, what it needs of another one is what waits on the link from there, what that link has lost, and
what the other one can still send. A process that has ended well needs nothing any more. So no message to it
was lost, if the budgets of all processes fit together.

Processes may give up waiting at any time here, not only when nothing else can move, and ends may leave the
mesh, so that nothing more can be sent to them or waited for from them.
-/

namespace ObliviousRouting

variable {α : Type}

/-- Some messages are lost on their way, and all others arrive once and unchanged. -/
def Carriage.losing (lost : (source target k : Nat) → Bool) : Carriage := fun source target =>
  some fun k message => if lost source target k then [] else [message]

/-- What can happen to processes on a mesh: one makes a step, one gives up waiting for a message, an end
leaves, or the lines at their ends change. -/
inductive Seat.Moves : List (Seat α) × Mesh → List (Seat α) × Mesh → Prop
  | step {start next : List (Seat α) × Mesh} : Seat.Step start next → Moves start next
  | expire {before rest : List (Seat α)} {s : Seat α} {q : Process α} {m : Mesh} :
      s.process.expire? = some q →
      Moves (before ++ s :: rest, m) (before ++ { s with process := q } :: rest, m)
  | leave (seats : List (Seat α)) (m : Mesh) (place : Nat) : Moves (seats, m) (seats, m.drop place)
  | line (seats : List (Seat α)) (m : Mesh) (line : Line) : Moves (seats, m) (seats, { m with line })

/-! ### Runs in rounds -/

theorem Mesh.eq_of_serve {β : Type} {m m' : Mesh} {t : Ticket} {answer : Option (β × Mesh)} {r : β}
    (h : m.serve t answer = some (r, m')) :
    ∃ m'' line, answer = some (r, m'') ∧ m' = { m'' with line } := by
  rw [serve] at h
  split at h
  · obtain ⟨⟨r', m''⟩, hanswer, heq⟩ := Option.map_eq_some_iff.1 h
    cases heq
    exact ⟨m'', _, hanswer, rfl⟩
  · cases h

theorem Process.exists_step_of_step? {who place : Nat} {m m' : Mesh} {p q : Process α}
    (h : p.step? who place m = some (q, m')) :
    ∃ m'' line, Step place (p, m) (q, m'') ∧ m' = { m'' with line } := by
  cases p with
  | done a => cases h
  | send target phase message next =>
    obtain ⟨⟨r, _⟩, hserve, heq⟩ := Option.map_eq_some_iff.1 h
    cases heq
    obtain ⟨m'', line, hsend, rfl⟩ := Mesh.eq_of_serve hserve
    exact ⟨m'', line, .send hsend, rfl⟩
  | receive source next =>
    obtain ⟨⟨r, _⟩, hserve, heq⟩ := Option.map_eq_some_iff.1 h
    cases heq
    obtain ⟨m'', line, hreceive, rfl⟩ := Mesh.eq_of_serve hserve
    exact ⟨m'', line, .receive hreceive, rfl⟩
  | receiveEither first second onFirst onSecond =>
    simp only [step?] at h
    split at h
    · next hserve =>
      cases h
      obtain ⟨m'', line, hreceive, rfl⟩ := Mesh.eq_of_serve hserve
      exact ⟨m'', line, .first hreceive, rfl⟩
    · obtain ⟨⟨r, _⟩, hserve, heq⟩ := Option.map_eq_some_iff.1 h
      cases heq
      obtain ⟨m'', line, hreceive, rfl⟩ := Mesh.eq_of_serve hserve
      exact ⟨m'', line, .second hreceive, rfl⟩

namespace Seat

open Relation

theorem moves_advance (who place : Nat) (m : Mesh) (p : Process α) (before rest : List (Seat α)) :
    ReflTransGen Moves (before ++ ⟨place, p⟩ :: rest, m)
      (before ++ ⟨place, (p.advance who place m).1⟩ :: rest, (p.advance who place m).2.1) := by
  fun_induction Process.advance who place m p with
  | case1 m p hnone => exact .single (.line ..)
  | case2 m p q m₁ hsome q' m' moved hadvance ih =>
    obtain ⟨m₂, line, hstep, rfl⟩ := Process.exists_step_of_step? hsome
    rw [hadvance] at ih
    exact .head (.step (Step.of_process hstep before rest)) (.head (.line _ m₂ line) ih)

theorem moves_round (stop : α → Bool) (who : Nat) (m : Mesh) (before seats : List (Seat α)) :
    ReflTransGen Moves (before ++ seats, m)
      (before ++ (round stop who m seats).seats, (round stop who m seats).mesh) := by
  induction seats generalizing who m before with
  | nil => exact .refl
  | cons s rest ih =>
    have hfirst := moves_advance who s.place m s.process before rest
    have hrest := ih (who + 1) (s.process.advance who s.place m).2.1
      (before ++ [⟨s.place, (s.process.advance who s.place m).1⟩])
    simp only [List.append_assoc, List.cons_append, List.nil_append] at hrest
    simp only [round]
    split
    · exact hfirst
    · exact hfirst.trans hrest

theorem moves_expireAll (m : Mesh) (before seats : List (Seat α)) :
    ReflTransGen Moves (before ++ seats, m) (before ++ expireAll seats, m) := by
  induction seats generalizing before with
  | nil => exact .refl
  | cons s rest ih =>
    have hrest := ih (before ++ [s.expire])
    simp only [List.append_assoc, List.cons_append, List.nil_append] at hrest
    refine .trans ?_ hrest
    cases hexpire : s.process.expire? with
    | none =>
      have hs : s.expire = s := by simp [expire, hexpire]
      rw [hs]
    | some q =>
      have hs : s.expire = { s with process := q } := by simp [expire, hexpire]
      rw [hs]
      exact .single (.expire hexpire)

/-- A run in rounds is one of the orders in which things can happen. -/
theorem moves_run (stop : α → Bool) (m : Mesh) (seats : List (Seat α)) :
    ReflTransGen Moves (seats, m) (run stop m seats) := by
  fun_induction run stop m seats with
  | case1 m seats after => exact moves_round stop 0 m [] seats
  | case2 m seats after _ _ ih => exact (moves_round stop 0 m [] seats).trans ih
  | case3 m seats after _ _ _ ih =>
    exact .head (.line ..) ((moves_expireAll { m with line := m.line.expire } [] seats).trans ih)
  | case4 m seats => exact .refl

end Seat

/-! ### What is outstanding -/

variable {lost : (source target k : Nat) → Bool}

namespace Mesh

/-- How many of the messages that were handed to a link are lost. -/
def lostOn (lost : (source target k : Nat) → Bool) (m : Mesh) (a b : Nat) : Nat :=
  (List.range (m.handed a b)).countP (lost a b)

/-- How many messages were handed to a link, but not received: they wait, or are lost. -/
def outstanding (lost : (source target k : Nat) → Bool) (m : Mesh) (a b : Nat) : Nat :=
  (m.queue a b).length + m.lostOn lost a b

def note (m : Mesh) (t : Sending) : Mesh := { m with sendings := t :: m.sendings }

variable {m m' : Mesh} {a b c d : Nat} {phase : String} {message : Bytes}

theorem lostOn_note (m : Mesh) (t : Sending) (a b : Nat) :
    (m.note t).lostOn lost a b = m.lostOn lost a b +
      if t.isOn a b ∧ lost a b (m.handed a b) then 1 else 0 := by
  have hhanded : (m.note t).handed a b = m.handed a b + if t.isOn a b then 1 else 0 :=
    List.countP_cons ..
  rw [lostOn, hhanded]
  by_cases hon : t.isOn a b
  · rw [if_pos hon, List.range_succ, List.countP_append, List.countP_singleton, lostOn]
    simp only [hon, true_and]
  · rw [if_neg hon, Nat.add_zero, lostOn, if_neg fun h => hon h.1, Nat.add_zero]

theorem lostOn_pos {k : Nat} (hk : k < m.handed a b) (hlost : lost a b k) : 0 < m.lostOn lost a b :=
  List.countP_pos_iff.2 ⟨k, List.mem_range.2 hk, hlost⟩

/-- A message that is sent gets lost, is refused, or waits. -/
theorem send_cases {r : Sent} (hm : m.carriage = .losing lost)
    (h : m.send a b phase message = some (r, m')) :
    (lost a b (m.handed a b) = true ∧ r = .ok () ∧ m' = m.note ⟨a, b, phase, message⟩) ∨
    (lost a b (m.handed a b) = false ∧ (∃ e, r = .error e) ∧ m' = m.note ⟨a, b, phase, message⟩) ∨
    (lost a b (m.handed a b) = false ∧ r = .ok () ∧
      m' = (m.note ⟨a, b, phase, message⟩).setQueue a b (m.queue a b ++ [message])) := by
  have harrive : m.arrivals a b message = if lost a b (m.handed a b) then [] else [message] := by
    rw [arrivals, hm]
    rfl
  simp only [send, harrive] at h
  cases hlost : lost a b (m.handed a b) with
  | true =>
    rw [hlost, if_pos rfl, if_pos rfl] at h
    cases h
    exact .inl ⟨rfl, rfl, rfl⟩
  | false =>
    rw [hlost, if_neg Bool.false_ne_true, if_neg (List.cons_ne_nil _ _)] at h
    split_ifs at h
    · cases h
      exact .inr (.inl ⟨rfl, ⟨_, rfl⟩, rfl⟩)
    · cases h
      exact .inr (.inr ⟨rfl, rfl, rfl⟩)
    · cases h
      exact .inr (.inl ⟨rfl, ⟨_, rfl⟩, rfl⟩)

/-- A message that was sent is outstanding, unless the link has refused it. -/
theorem outstanding_send {r : Sent} (hm : m.carriage = .losing lost)
    (h : m.send a b phase message = some (r, m')) : m'.carriage = .losing lost ∧
      (∀ c d, ¬ (c = a ∧ d = b) → m'.outstanding lost c d = m.outstanding lost c d) ∧
      ((r = .ok () ∧ m'.outstanding lost a b = m.outstanding lost a b + 1) ∨
        (∃ e, r = .error e) ∧ m'.outstanding lost a b = m.outstanding lost a b) := by
  have hother (c d : Nat) (hne : ¬ (c = a ∧ d = b)) :
      (m.note ⟨a, b, phase, message⟩).lostOn lost c d = m.lostOn lost c d := by
    rw [lostOn_note, if_neg, Nat.add_zero]
    simp only [Sending.isOn, Bool.and_eq_true, beq_iff_eq]
    rintro ⟨⟨rfl, rfl⟩, -⟩
    exact hne ⟨rfl, rfl⟩
  have hon : (m.note ⟨a, b, phase, message⟩).lostOn lost a b =
      m.lostOn lost a b + if lost a b (m.handed a b) then 1 else 0 := by
    rw [lostOn_note]
    simp only [Sending.isOn, beq_self_eq_true, Bool.and_self, true_and]
  rcases send_cases hm h with ⟨hlost, rfl, rfl⟩ | ⟨hlost, he, rfl⟩ | ⟨hlost, rfl, rfl⟩ <;>
    rw [hlost] at hon
  · exact ⟨hm, fun c d hne => congrArg _ (hother c d hne), .inl ⟨rfl, congrArg (_ + ·) hon⟩⟩
  · exact ⟨hm, fun c d hne => congrArg _ (hother c d hne), .inr ⟨he, congrArg (_ + ·) hon⟩⟩
  · refine ⟨hm, fun c d hne => ?_, .inl ⟨rfl, ?_⟩⟩
    · exact congrArg₂ (· + ·) (congrArg List.length (if_neg hne)) (hother c d hne)
    · have hqueue : ((m.note ⟨a, b, phase, message⟩).setQueue a b (m.queue a b ++ [message])).queue a b =
          m.queue a b ++ [message] := if_pos ⟨rfl, rfl⟩
      have hlength := congrArg List.length hqueue
      rw [List.length_append, List.length_singleton] at hlength
      exact (congrArg₂ (· + ·) hlength hon).trans (Nat.add_right_comm ..)

theorem outstanding_receive (lost : (source target k : Nat) → Bool) {r : Received} (h : m.receive b a = some (r, m')) :
    m'.carriage = m.carriage ∧ (∀ c d, ¬ (c = a ∧ d = b) → m'.outstanding lost c d = m.outstanding lost c d) ∧
      ((∃ message, r = .ok message) ∧ m.outstanding lost a b = m'.outstanding lost a b + 1 ∨
        (∃ e, r = .error e) ∧ m' = m) := by
  rw [receive] at h
  split at h
  · cases h
    exact ⟨rfl, fun _ _ _ => rfl, .inr ⟨⟨_, rfl⟩, rfl⟩⟩
  · split at h
    · next message rest hqueue =>
      cases h
      refine ⟨rfl, fun c d hne => ?_, .inl ⟨⟨message, rfl⟩, ?_⟩⟩
      · exact congrArg (List.length · + _) (if_neg hne)
      · have hrest : (m.setQueue a b rest).queue a b = rest := if_pos ⟨rfl, rfl⟩
        rw [outstanding, outstanding, hqueue, hrest, List.length_cons, Nat.add_right_comm]
        rfl
    · split at h
      · cases h
        exact ⟨rfl, fun _ _ _ => rfl, .inr ⟨⟨_, rfl⟩, rfl⟩⟩
      · cases h

end Mesh

/-- From one mesh to the next, a process at one end spends part of its budget. If it goes on, then on what is
outstanding to it. -/
structure Process.Spends (failed : α → Prop) (lost : (source target k : Nat) → Bool) (place : Nat)
    (b c : Multiset Need) (m m' : Mesh) (q : Process α) : Prop where
  carriage_eq : m'.carriage = .losing lost
  costs : q.Costs (fun _ => True) failed c
  sent (t : Nat) : t ≠ place →
    m'.outstanding lost place t + c.count (.room t) = m.outstanding lost place t + b.count (.room t)
  received : q.Stopped failed ∨ ∀ s, s ≠ place →
    c.count (.message s) + m.outstanding lost s place = b.count (.message s) + m'.outstanding lost s place
  elsewhere (s t : Nat) : s ≠ place → t ≠ place → m'.outstanding lost s t = m.outstanding lost s t

namespace Process

variable {failed : α → Prop} {p q : Process α} {b : Multiset Need} {m m' : Mesh} {place : Nat}

/-- Giving up spends nothing. -/
theorem Stopped.spends (h : q.Stopped failed) (hm : m'.carriage = .losing lost)
    (hsame : ∀ s t, m'.outstanding lost s t = m.outstanding lost s t) : Spends failed lost place b b m m' q where
  carriage_eq := hm
  costs := h.costs b
  sent t _ := by rw [hsame]
  received := .inl h
  elsewhere s t _ _ := hsame s t

theorem spends_send {target : Nat} {phase : String} {message : Bytes} {next : Sent → Process α} {r : Sent}
    (hp : (Process.send target phase message next).Costs (fun _ => True) failed b)
    (hm : m.carriage = .losing lost) (h : m.send place target phase message = some (r, m')) :
    ∃ c, Spends failed lost place b c m m' (next r) := by
  obtain ⟨c, rfl, hnext, hstop⟩ := hp
  obtain ⟨hm', hother, hsent⟩ := Mesh.outstanding_send hm h
  rcases hsent with ⟨rfl, hsent⟩ | ⟨⟨e, rfl⟩, hrefused⟩
  · refine ⟨c, hm', hnext, fun t ht => ?_, .inr fun s hs => ?_, fun s t hs _ => hother s t fun h => hs h.1⟩
    · by_cases htarget : t = target
      · subst htarget
        rw [hsent, Multiset.count_cons_self]
        omega
      · rw [hother place t fun h => htarget h.2, Multiset.count_cons_of_ne (by simpa using htarget)]
    · rw [hother s place fun h => hs h.1, Multiset.count_cons_of_ne (by simp)]
  · refine ⟨_, (hstop e).spends hm' fun s t => ?_⟩
    by_cases hlink : s = place ∧ t = target
    · obtain ⟨rfl, rfl⟩ := hlink
      exact hrefused
    · exact hother s t hlink

/-- Whatever a process makes of a message of one source, it has spent what it needed of that source. -/
theorem spends_receive {source : Nat} {c : Multiset Need} {next : Received → Process α} {r : Received}
    (hnext : ∀ message, (next (.ok message)).Costs (fun _ => True) failed c)
    (hstop : ∀ e, (next (.error e)).Stopped failed) (hm : m.carriage = .losing lost)
    (h : m.receive place source = some (r, m')) :
    ∃ d, Spends failed lost place (.message source ::ₘ c) d m m' (next r) := by
  obtain ⟨hcarriage, hother, hreceived⟩ := Mesh.outstanding_receive lost h
  rcases hreceived with ⟨⟨message, rfl⟩, hreceived⟩ | ⟨⟨e, rfl⟩, rfl⟩
  · refine ⟨c, hcarriage.trans hm, hnext message, fun t ht => ?_, .inr fun s hs => ?_,
      fun s t _ ht => hother s t fun h => ht h.2⟩
    · rw [hother place t fun h => ht h.2, Multiset.count_cons_of_ne (by simp)]
    · by_cases hsource : s = source
      · subst hsource
        rw [hreceived, Multiset.count_cons_self]
        omega
      · rw [hother s place fun h => hsource h.1, Multiset.count_cons_of_ne (by simpa using hsource)]
  · exact ⟨_, (hstop e).spends hm fun _ _ => rfl⟩

theorem spends_step (hp : p.Costs (fun _ => True) failed b) (hm : m.carriage = .losing lost)
    (h : Step place (p, m) (q, m')) : ∃ c, Spends failed lost place b c m m' q := by
  cases h with
  | send hsend => exact spends_send hp hm hsend
  | receive hreceive =>
    obtain ⟨c, rfl, hnext, hstop⟩ := hp
    exact spends_receive hnext hstop hm hreceive
  | first hreceive =>
    obtain ⟨c, rfl, hfirst, -, hstop, -⟩ := hp
    exact spends_receive hfirst hstop hm hreceive
  | second hreceive =>
    obtain ⟨c, rfl, -, hsecond, -, hstop⟩ := hp
    rw [Multiset.cons_swap]
    exact spends_receive hsecond hstop hm hreceive

theorem stopped_of_expire? (hp : p.Costs (fun _ => True) failed b) (h : p.expire? = some q) :
    q.Stopped failed := by
  cases p with
  | done a => cases h
  | send target phase message next => cases h
  | receive source next =>
    cases h
    obtain ⟨c, -, -, hstop⟩ := hp
    exact hstop _
  | receiveEither first second onFirst onSecond =>
    cases h
    obtain ⟨c, -, -, -, hstop, -⟩ := hp
    exact hstop _

end Process

/-! ### Accounts of all processes -/

theorem Seat.Moves.map_place {start next : List (Seat α) × Mesh} (h : Moves start next) :
    next.1.map Seat.place = start.1.map Seat.place := by
  cases h with
  | step h =>
    induction h with
    | head _ => rfl
    | tail _ ih => exact congrArg (_ :: ·) ih
  | expire _ => rw [List.map_append, List.map_append, List.map_cons, List.map_cons]
  | leave => rfl
  | line => rfl

theorem Seat.map_place_of_moves {start last : List (Seat α) × Mesh}
    (h : Relation.ReflTransGen Moves start last) : last.1.map Seat.place = start.1.map Seat.place := by
  induction h with
  | refl => rfl
  | tail _ hlast ih => exact hlast.map_place.trans ih

/-- A step of several processes is a step of one of them. -/
theorem Seat.Step.exists_split {seats seats' : List (Seat α)} {m m' : Mesh} (h : Step (seats, m) (seats', m')) :
    ∃ before s q rest, seats = before ++ s :: rest ∧ seats' = before ++ { s with process := q } :: rest ∧
      Process.Step s.place (s.process, m) (q, m') := by
  generalize hstart : (seats, m) = start, hnext : (seats', m') = next at h
  induction h generalizing seats seats' with
  | head hstep =>
    cases hstart
    cases hnext
    exact ⟨[], _, _, _, rfl, rfl, hstep⟩
  | @tail s _ _ _ _ _ ih =>
    cases hstart
    cases hnext
    obtain ⟨before, t, q, rest, rfl, rfl, hstep⟩ := ih rfl rfl
    exact ⟨s :: before, t, q, rest, rfl, rfl, hstep⟩

theorem Process.Step.handed_le {place : Nat} {p q : Process α} {m m' : Mesh}
    (h : Step place (p, m) (q, m')) (a b : Nat) : m.handed a b ≤ m'.handed a b := by
  have hreceive {source : Nat} {r : Received} (h : m.receive place source = some (r, m')) :
      m.handed a b ≤ m'.handed a b := by
    rw [Mesh.handed, Mesh.handed, Mesh.sendings_of_receive h]
  cases h with
  | send h =>
    rw [Mesh.handed, Mesh.handed, Mesh.sendings_of_send h, List.countP_cons]
    exact Nat.le_add_right ..
  | receive h => exact hreceive h
  | first h => exact hreceive h
  | second h => exact hreceive h

theorem Seat.handed_le_of_moves {start last : List (Seat α) × Mesh}
    (h : Relation.ReflTransGen Moves start last) (a b : Nat) : start.2.handed a b ≤ last.2.handed a b := by
  induction h with
  | refl => exact Nat.le_refl _
  | tail _ hlast ih =>
    refine ih.trans ?_
    cases hlast with
    | step hstep =>
      obtain ⟨_, _, _, _, -, -, hprocess⟩ := hstep.exists_split
      exact hprocess.handed_le a b
    | expire _ => exact Nat.le_refl _
    | leave => exact Nat.le_refl _
    | line => exact Nat.le_refl _

namespace Seat

/-- Unless it has stopped, each process needs of each other one what is outstanding and what the other one
can still send. -/
structure Accounted (failed : α → Prop) (lost : (source target k : Nat) → Bool) (B : Nat → Multiset Need)
    (seats : List (Seat α)) (m : Mesh) : Prop where
  carriage_eq : m.carriage = .losing lost
  distinct : (seats.map Seat.place).Nodup
  costs : ∀ s ∈ seats, s.process.Costs (fun _ => True) failed (B s.place)
  balance : ∀ s ∈ seats, ∀ t ∈ seats, s.place ≠ t.place → t.process.Stopped failed ∨
    (B t.place).count (.message s.place) =
      m.outstanding lost s.place t.place + (B s.place).count (.room t.place)

namespace Accounted

variable {failed : α → Prop} {B : Nat → Multiset Need} {seats seats' : List (Seat α)} {m m' : Mesh}

theorem replace {before rest : List (Seat α)} {s : Seat α} {q : Process α} {c : Multiset Need}
    (h : Accounted failed lost B (before ++ s :: rest) m) (hgoes : ¬ s.process.Stopped failed)
    (hspends : Process.Spends failed lost s.place (B s.place) c m m' q) :
    Accounted failed lost (Function.update B s.place c) (before ++ { s with process := q } :: rest) m' := by
  have hmem {P : Seat α → Prop} {t : Seat α} :
      (∀ u ∈ before ++ t :: rest, P u) ↔ P t ∧ ∀ u ∈ before ++ rest, P u := by
    simp only [List.forall_mem_append, List.forall_mem_cons]
    tauto
  have hdistinct := h.distinct
  rw [List.map_append, List.map_cons, List.nodup_middle, ← List.map_append, List.nodup_cons] at hdistinct
  have hplace : ∀ t ∈ before ++ rest, t.place ≠ s.place := fun t ht heq =>
    hdistinct.1 (List.mem_map.2 ⟨t, ht, heq⟩)
  have hsame (t : Seat α) (ht : t ∈ before ++ rest) : Function.update B s.place c t.place = B t.place :=
    Function.update_of_ne (hplace t ht) ..
  have hself : Function.update B s.place c s.place = c := Function.update_self ..
  have hcosts := hmem.1 h.costs
  have hbalance := hmem.1 h.balance
  refine ⟨hspends.carriage_eq, ?_, hmem.2 ⟨?_, fun t ht => ?_⟩,
    hmem.2 ⟨hmem.2 ⟨fun hne => absurd rfl hne, fun t ht hne => ?_⟩,
      fun u hu => hmem.2 ⟨fun hne => ?_, fun t ht hne => ?_⟩⟩⟩
  · rw [List.map_append, List.map_cons]
    simpa only [List.map_append, List.map_cons] using h.distinct
  · rw [hself]
    exact hspends.costs
  · rw [hsame t ht]
    exact hcosts.2 t ht
  · -- what the process sends to another one
    refine ((hmem.1 hbalance.1).2 t ht hne).imp_right fun hbefore => ?_
    rw [hsame t ht, hself, hbefore, hspends.sent t.place (hplace t ht)]
  · -- what another one sends to the process
    refine hspends.received.imp_right fun hreceived => ?_
    have hbefore := ((hmem.1 (hbalance.2 u hu)).1 hne).resolve_left hgoes
    have hafter := hreceived u.place hne
    rw [hsame u hu, hself]
    change c.count (.message u.place) = m'.outstanding lost u.place s.place + (B u.place).count (.room s.place)
    omega
  · refine ((hmem.1 (hbalance.2 u hu)).2 t ht hne).imp_right fun hbefore => ?_
    rw [hsame t ht, hsame u hu, hbefore, hspends.elsewhere _ _ (hplace u hu) (hplace t ht)]

theorem moves (h : Accounted failed lost B seats m) (hmoves : Moves (seats, m) (seats', m')) :
    ∃ B', Accounted failed lost B' seats' m' := by
  cases hmoves with
  | step hstep =>
    obtain ⟨before, s, q, rest, rfl, rfl, hprocess⟩ := hstep.exists_split
    obtain ⟨c, hspends⟩ := Process.spends_step
      (h.costs s (List.mem_append_right _ List.mem_cons_self)) h.carriage_eq hprocess
    refine ⟨_, h.replace ?_ hspends⟩
    rintro ⟨a, hdone, -⟩
    rw [hdone] at hprocess
    cases hprocess
  | @expire before rest s q _ hexpire =>
    have hstopped := Process.stopped_of_expire?
      (h.costs s (List.mem_append_right _ List.mem_cons_self)) hexpire
    refine ⟨_, h.replace ?_ (hstopped.spends h.carriage_eq fun _ _ => rfl)⟩
    rintro ⟨a, hdone, -⟩
    rw [hdone] at hexpire
    cases hexpire
  | leave => exact ⟨B, h.carriage_eq, h.distinct, h.costs, h.balance⟩
  | line => exact ⟨B, h.carriage_eq, h.distinct, h.costs, h.balance⟩

theorem run (h : Accounted failed lost B seats m)
    (hmoves : Relation.ReflTransGen Moves (seats, m) (seats', m')) :
    ∃ B', Accounted failed lost B' seats' m' :=
  of_steps (P := fun seats m => ∃ B, Accounted failed lost B seats m) (fun ⟨_, h⟩ hmove => h.moves hmove) hmoves
    ⟨B, h⟩

/-- Nothing is outstanding to a process that has ended well. -/
theorem failed_of_lost (h : Accounted failed lost B seats m) {s t : Seat α} (hs : s ∈ seats) (ht : t ∈ seats)
    (hne : s.place ≠ t.place) {k : Nat} (hk : k < m.handed s.place t.place)
    (hlost : lost s.place t.place k) {a : α} (hdone : t.process = .done a) : failed a := by
  by_contra hgood
  have hcosts := h.costs t ht
  rw [hdone] at hcosts
  obtain ⟨-, hnone⟩ := hcosts.resolve_left hgood
  have hbalance := (h.balance s hs t ht hne).resolve_left ?_
  · have hpos := Mesh.lostOn_pos hk hlost
    rw [hnone, Multiset.count_zero, Mesh.outstanding] at hbalance
    omega
  · rintro ⟨a', heq, ha'⟩
    rw [hdone] at heq
    cases heq
    exact hgood ha'

end Accounted

end Seat

end ObliviousRouting
