import ObliviousRouting.Proofs.Network.Losses
import ObliviousRouting.Proofs.Network.Traces

/-!
# What comes in is what was sent

Any number of processes at the ends of a mesh take turns in any order, wait in vain until they give up, and ends
leave. A history lists all that passes between them and their links. On a reliable mesh the messages that have come
in from another end are the first ones of those that this end could send, in their order, and the others still wait
on the link. This is an account of one link at a time, so it holds whatever passes on the other ones.
-/

namespace ObliviousRouting

variable {α : Type}

/-! ### One exchange -/

namespace Exchange

/-- The end that a message goes to or is waited for from. -/
def peer : Exchange → Nat
  | sent target .. => target
  | received source _ => source

/-- The end that there is no link to, if that is the answer. -/
def noSuchParty? : Exchange → Option Nat
  | sent _ _ _ (.error (.noSuchParty party)) => some party
  | received _ (.error (.noSuchParty party)) => some party
  | _ => none

/-- A message that was sent to an end, if the link has taken it. -/
def sent? (target : Nat) : Exchange → Option Bytes
  | sent target' _ message (.ok ()) => if target' = target then some message else none
  | _ => none

/-- A message that came in from an end. -/
def received? (source : Nat) : Exchange → Option Bytes
  | received source' (.ok message) => if source' = source then some message else none
  | _ => none

variable {a b : Nat} {message : Bytes}

@[simp] theorem sent?_self {phase : String} : (sent a phase message (.ok ())).sent? a = some message := if_pos rfl

@[simp] theorem received?_self : (received a (.ok message)).received? a = some message := if_pos rfl

theorem received?_of_ne (h : a ≠ b) : (received a (.ok message)).received? b = none := if_neg h

end Exchange

namespace Mesh

variable {m m' : Mesh} {place : Nat} {x : Exchange}

/-- A message is sent, or what is waited for comes, or a wait that is in vain is given up. -/
inductive Passes (m : Mesh) (place : Nat) : Exchange → Mesh → Prop
  | send {target : Nat} {phase : String} {message : Bytes} {r : Sent} {m' : Mesh} :
      m.send place target phase message = some (r, m') → Passes m place (.sent target phase message r) m'
  | receive {source : Nat} {r : Received} {m' : Mesh} :
      m.receive place source = some (r, m') → Passes m place (.received source r) m'
  | expire {source : Nat} :
      m.receive place source = none → Passes m place (.received source (.error .timeout)) m

theorem send_eq_of_reliable (h : m.carriage = .reliable) (a b : Nat) (phase : String) (message : Bytes) :
    m.send a b phase message =
      if m.Linked a b then
        if b ∈ m.gone then some (.error .closed, m.note ⟨a, b, phase, message⟩)
        else if m.capacity ≤ (m.queue a b).length then none
        else some (.ok (), m.push a b phase message)
      else some (.error (.noSuchParty b), m.note ⟨a, b, phase, message⟩) := by
  have harrive : m.arrivals a b message = [message] := by
    rw [arrivals, h]
    rfl
  simp only [send, harrive, ite_not]
  rw [if_neg (List.cons_ne_nil _ _)]
  rfl

/-- What can become of a message that is sent. -/
theorem cases_of_send (h : m.carriage = .reliable) {a b : Nat} {phase : String} {message : Bytes} {r : Sent}
    (hsend : m.send a b phase message = some (r, m')) :
    (¬ m.Linked a b ∧ r = .error (.noSuchParty b) ∧ m' = m.note ⟨a, b, phase, message⟩) ∨
      (m.Linked a b ∧ r = .error .closed ∧ m' = m.note ⟨a, b, phase, message⟩) ∨
      (m.Linked a b ∧ r = .ok () ∧ m' = m.push a b phase message) := by
  rw [send_eq_of_reliable h] at hsend
  split_ifs at hsend with hlink <;> cases hsend
  · exact .inr (.inl ⟨hlink, rfl, rfl⟩)
  · exact .inr (.inr ⟨hlink, rfl, rfl⟩)
  · exact .inl ⟨hlink, rfl, rfl⟩

/-- What can be received. -/
theorem cases_of_receive {a b : Nat} {r : Received} (hreceive : m.receive b a = some (r, m')) :
    (¬ m.Linked b a ∧ r = .error (.noSuchParty a) ∧ m' = m) ∨
      (m.Linked b a ∧ r = .error .closed ∧ m' = m) ∨
      (m.Linked b a ∧ ∃ message rest, m.queue a b = message :: rest ∧ r = .ok message ∧
        m' = m.setQueue a b rest) := by
  simp only [receive, ite_not] at hreceive
  split at hreceive
  · next hlink =>
    split at hreceive
    · next message rest hqueue =>
      cases hreceive
      exact .inr (.inr ⟨hlink, message, rest, hqueue, rfl, rfl⟩)
    · split at hreceive <;> cases hreceive
      exact .inr (.inl ⟨hlink, rfl, rfl⟩)
  · next hlink =>
    cases hreceive
    exact .inl ⟨hlink, rfl, rfl⟩

/-- Neither the ends of a mesh nor its carriage change. -/
theorem Passes.unchanged (hx : m.Passes place x m') (h : m.carriage = .reliable) :
    m'.carriage = .reliable ∧ m'.parties = m.parties := by
  cases hx with
  | send hsend =>
    rcases cases_of_send h hsend with ⟨-, -, rfl⟩ | ⟨-, -, rfl⟩ | ⟨-, -, rfl⟩ <;> exact ⟨h, rfl⟩
  | receive hreceive =>
    rcases cases_of_receive hreceive with ⟨-, -, rfl⟩ | ⟨-, -, rfl⟩ | ⟨-, _, _, -, -, rfl⟩ <;> exact ⟨h, rfl⟩
  | expire => exact ⟨h, rfl⟩

/-- An exchange adds a message at the end of one link, takes the first one of one link, or leaves all links as they
are. -/
theorem Passes.queue_eq (hx : m.Passes place x m') (h : m.carriage = .reliable) (a b : Nat) :
    (if place = b then x.received? a else none).toList ++ m'.queue a b =
      m.queue a b ++ (if place = a then x.sent? b else none).toList := by
  cases hx with
  | @send target phase message r m' hsend =>
    rcases cases_of_send h hsend with ⟨-, rfl, rfl⟩ | ⟨-, rfl, rfl⟩ | ⟨-, rfl, rfl⟩
    · simp [note, Exchange.sent?, Exchange.received?]
    · simp [note, Exchange.sent?, Exchange.received?]
    · rw [queue_push]
      simp only [Exchange.sent?, Exchange.received?, ite_self]
      grind
  | @receive source r m' hreceive =>
    rcases cases_of_receive hreceive with ⟨-, rfl, rfl⟩ | ⟨-, rfl, rfl⟩ | ⟨-, message, rest, hqueue, rfl, rfl⟩
    · simp [Exchange.sent?, Exchange.received?]
    · simp [Exchange.sent?, Exchange.received?]
    · rw [queue_setQueue]
      simp only [Exchange.sent?, Exchange.received?, ite_self]
      grind
  | expire => simp [Exchange.sent?, Exchange.received?]

theorem Passes.noSuchParty?_eq (hx : m.Passes place x m') (h : m.carriage = .reliable) :
    x.noSuchParty? = if m.Linked place x.peer then none else some x.peer := by
  cases hx with
  | send hsend =>
    rcases cases_of_send h hsend with ⟨hlink, rfl, -⟩ | ⟨hlink, rfl, -⟩ | ⟨hlink, rfl, -⟩ <;>
      simp [Exchange.noSuchParty?, Exchange.peer, hlink]
  | receive hreceive =>
    rcases cases_of_receive hreceive with ⟨hlink, rfl, -⟩ | ⟨hlink, rfl, -⟩ | ⟨hlink, _, _, -, rfl, -⟩ <;>
      simp [Exchange.noSuchParty?, Exchange.peer, hlink]
  | @expire source hnone =>
    have hlink : m.Linked place source := by
      by_contra hlink
      rw [Mesh.receive, if_pos hlink] at hnone
      cases hnone
    exact (if_pos hlink).symm

end Mesh

namespace Process

/-- A process goes on after an exchange. -/
inductive Takes : Process α → Exchange → Process α → Prop
  | send {target : Nat} {phase : String} {message : Bytes} {next : Sent → Process α} (r : Sent) :
      Takes (.send target phase message next) (.sent target phase message r) (next r)
  | receive {source : Nat} {next : Received → Process α} (r : Received) :
      Takes (.receive source next) (.received source r) (next r)
  | first {first second : Nat} {onFirst onSecond : Received → Process α} (r : Received) :
      Takes (.receiveEither first second onFirst onSecond) (.received first r) (onFirst r)
  | second {first second : Nat} {onFirst onSecond : Received → Process α} (r : Received) :
      Takes (.receiveEither first second onFirst onSecond) (.received second r) (onSecond r)

theorem Takes.plays {p q : Process α} {x : Exchange} {trace : Trace} {a : α} (h : p.Takes x q)
    (hq : q.Plays trace a) : p.Plays (x :: trace) a := by
  cases h with
  | send r => exact .send r hq
  | receive r => exact .receive r hq
  | first r => exact .first r hq
  | second r => exact .second r hq

theorem Step.exists_exchange {place : Nat} {p q : Process α} {m m' : Mesh} (h : Step place (p, m) (q, m')) :
    ∃ x, p.Takes x q ∧ m.Passes place x m' := by
  cases h with
  | send hsend => exact ⟨_, .send _, .send hsend⟩
  | receive hreceive => exact ⟨_, .receive _, .receive hreceive⟩
  | first hreceive => exact ⟨_, .first _, .receive hreceive⟩
  | second hreceive => exact ⟨_, .second _, .receive hreceive⟩

end Process

/-! ### Histories -/

/-- An exchange, the number of the process that made it, and the end where it is. -/
structure Entry where
  who : Nat
  place : Nat
  exchange : Exchange

abbrev History := List Entry

namespace History

/-- The messages that the link from one end to another has taken. -/
def sent (history : History) (source target : Nat) : List Bytes :=
  history.filterMap fun e => if e.place = source then e.exchange.sent? target else none

/-- The messages of one end that have come in at another one. -/
def received (history : History) (source target : Nat) : List Bytes :=
  history.filterMap fun e => if e.place = target then e.exchange.received? source else none

/-- What has passed between one process and its links. -/
def trace (history : History) (who : Nat) : Trace :=
  history.filterMap fun e => if e.who = who then some e.exchange else none

variable (history : History) (e : Entry) (a b who : Nat)

theorem sent_concat : sent (history ++ [e]) a b =
    history.sent a b ++ (if e.place = a then e.exchange.sent? b else none).toList := by
  rw [sent, List.filterMap_append, List.filterMap_cons]
  cases (if e.place = a then e.exchange.sent? b else none) <;> rfl

theorem received_concat : received (history ++ [e]) a b =
    history.received a b ++ (if e.place = b then e.exchange.received? a else none).toList := by
  rw [received, List.filterMap_append, List.filterMap_cons]
  cases (if e.place = b then e.exchange.received? a else none) <;> rfl

theorem trace_concat : trace (history ++ [e]) who =
    history.trace who ++ if e.who = who then [e.exchange] else [] := by
  rw [trace, List.filterMap_append]
  by_cases h : e.who = who <;> simp [h, trace]

/-- What has passed at an end with one process is in the trace of that process. -/
theorem filterMap_place {history : History} {place who : Nat}
    (h : ∀ e ∈ history, e.place = place ↔ e.who = who) (f : Exchange → Option Bytes) :
    (history.filterMap fun e => if e.place = place then f e.exchange else none) =
      (history.trace who).filterMap f := by
  rw [trace, List.filterMap_filterMap]
  refine List.filterMap_congr fun e he => ?_
  by_cases hwho : e.who = who
  · rw [if_pos hwho, if_pos ((h e he).2 hwho)]
    rfl
  · rw [if_neg hwho, if_neg (mt (h e he).1 hwho)]
    rfl

end History

namespace Seat

/-- What can happen on a mesh, from a start on: a process takes its turn, or an end leaves. -/
inductive Goes (start : List (Seat α) × Mesh) : History → List (Seat α) × Mesh → Prop
  | start : Goes start [] start
  | pass {history : History} {seats : List (Seat α)} {m m' : Mesh} {who : Nat} {s : Seat α} {x : Exchange}
      {q : Process α} : Goes start history (seats, m) → seats[who]? = some s → s.process.Takes x q →
      m.Passes s.place x m' →
      Goes start (history ++ [⟨who, s.place, x⟩]) (seats.set who { s with process := q }, m')
  | leave {history : History} {seats : List (Seat α)} {m : Mesh} (place : Nat) :
      Goes start history (seats, m) → Goes start history (seats, m.drop place)

namespace Goes

variable {start last : List (Seat α) × Mesh} {history : History}

theorem unchanged (h : Goes start history last) (hm : start.2.carriage = .reliable) :
    last.2.carriage = .reliable ∧ last.2.parties = start.2.parties := by
  induction h with
  | start => exact ⟨hm, rfl⟩
  | pass _ _ _ hpasses ih =>
    obtain ⟨hcarriage, hparties⟩ := hpasses.unchanged ih.1
    exact ⟨hcarriage, hparties.trans ih.2⟩
  | leave place _ ih => exact ih

/-- What has come in on a link and what waits on it is what has been sent on it. -/
theorem received_append_queue (h : Goes start history last) (hm : start.2.carriage = .reliable) (a b : Nat) :
    history.received a b ++ last.2.queue a b = start.2.queue a b ++ history.sent a b := by
  induction h with
  | start => exact (List.append_nil _).symm
  | @pass history seats m m' who s x q hgoes _ _ hpasses ih =>
    have hqueue := hpasses.queue_eq (hgoes.unchanged hm).1 a b
    rw [History.received_concat, History.sent_concat, ← List.append_assoc, ← ih, List.append_assoc, List.append_assoc,
      hqueue]
  | leave place _ ih => exact ih

theorem noSuchParty?_eq (h : Goes start history last) (hm : start.2.carriage = .reliable) {e : Entry}
    (he : e ∈ history) : e.exchange.noSuchParty? =
      if start.2.Linked e.place e.exchange.peer then none else some e.exchange.peer := by
  induction h with
  | start => cases he
  | pass hgoes _ _ hpasses ih =>
    rcases List.mem_append.1 he with he | he
    · exact ih he
    · obtain rfl := List.mem_singleton.1 he
      obtain ⟨hcarriage, hparties⟩ := hgoes.unchanged hm
      rw [hpasses.noSuchParty?_eq hcarriage]
      simp only [Mesh.Linked, ← hparties]
  | leave place _ ih => exact ih he

theorem map_place (h : Goes start history last) : last.1.map Seat.place = start.1.map Seat.place := by
  induction h with
  | start => rfl
  | pass _ hs _ _ ih =>
    rw [← ih]
    apply List.ext_getElem?
    intro i
    rw [List.getElem?_map, List.getElem?_map, List.getElem?_set]
    grind
  | leave place _ ih => exact ih

/-- An entry belongs to the process that it names. -/
theorem place_eq (h : Goes start history last) {e : Entry} (he : e ∈ history) :
    start.1[e.who]?.map Seat.place = some e.place := by
  induction h with
  | start => cases he
  | pass hgoes hs _ _ ih =>
    rcases List.mem_append.1 he with he | he
    · exact ih he
    · obtain rfl := List.mem_singleton.1 he
      rw [← List.getElem?_map, ← hgoes.map_place, List.getElem?_map, hs]
      rfl
  | leave place _ ih => exact ih he

/-- Each process goes through its part of the history. -/
theorem plays (h : Goes start history last) {who : Nat} {s s' : Seat α} (hs : start.1[who]? = some s)
    (hs' : last.1[who]? = some s') {trace : Trace} {a : α} (hplays : s'.process.Plays trace a) :
    s.process.Plays (history.trace who ++ trace) a := by
  induction h generalizing s' trace with
  | start =>
    have hsame : s = s' := Option.some.inj (hs.symm.trans hs')
    subst hsame
    exact hplays
  | @pass history seats m m' who' t x q _ ht htakes _ ih =>
    rw [List.getElem?_set] at hs'
    rw [History.trace_concat]
    by_cases hwho : who' = who
    · subst hwho
      obtain ⟨hlt, -⟩ := List.getElem?_eq_some_iff.1 ht
      rw [if_pos rfl, if_pos hlt, Option.some.injEq] at hs'
      subst hs'
      rw [if_pos rfl, List.append_assoc]
      exact ih ht (htakes.plays hplays)
    · rw [if_neg hwho] at hs'
      rw [if_neg hwho, List.append_nil]
      exact ih hs' hplays
  | leave place _ ih => exact ih hs' hplays

/-- Every order of steps has a history. -/
theorem exists_of_steps (hsteps : Relation.ReflTransGen Step start last) : ∃ history, Goes start history last := by
  induction hsteps with
  | refl => exact ⟨[], .start⟩
  | @tail middle last _ hstep ih =>
    obtain ⟨history, hgoes⟩ := ih
    obtain ⟨seats, m⟩ := middle
    obtain ⟨seats', m'⟩ := last
    obtain ⟨before, s, q, rest, rfl, rfl, hmoved⟩ := hstep.exists_split
    obtain ⟨x, htakes, hpasses⟩ := hmoved.exists_exchange
    have hs : (before ++ s :: rest)[before.length]? = some s := by
      rw [List.getElem?_append_right (Nat.le_refl _), Nat.sub_self, List.getElem?_cons_zero]
    have hpass := hgoes.pass hs htakes hpasses
    rw [List.set_append_right _ _ (Nat.le_refl _), Nat.sub_self, List.set_cons_zero] at hpass
    exact ⟨_, hpass⟩

end Goes

/-- What holds of all that has passed on a mesh of so many ends. -/
structure InOrder (n : Nat) (seats seats' : List (Seat α)) (history : History) (m : Mesh) : Prop where
  /-- What has come in from another end is the first of what that one has sent. -/
  received_prefix (a b : Nat) : history.received a b <+: history.sent a b
  /-- What has not come in still waits. -/
  received_append_queue (a b : Nat) : history.received a b ++ m.queue a b = history.sent a b
  /-- There is no link to oneself, and none to a number that no end has. -/
  noSuchParty?_eq (e : Entry) : e ∈ history → e.place < n → e.exchange.noSuchParty? =
    if e.exchange.peer = e.place ∨ n ≤ e.exchange.peer then some e.exchange.peer else none
  place_eq (e : Entry) : e ∈ history → seats[e.who]?.map Seat.place = some e.place
  /-- A process that has ended has run through its part of the history. -/
  plays (who : Nat) (s s' : Seat α) (a : α) : seats[who]? = some s → seats'[who]? = some s' →
    s'.process = .done a → s.process.Plays (history.trace who) a

theorem Goes.inOrder {n : Nat} {seats seats' : List (Seat α)} {history : History} {m : Mesh}
    (h : Goes (seats, { parties := n }) history (seats', m)) : InOrder n seats seats' history m where
  received_prefix a b := ⟨_, h.received_append_queue rfl a b⟩
  received_append_queue := h.received_append_queue rfl
  noSuchParty?_eq e he hplace := by
    rw [h.noSuchParty?_eq rfl he]
    simp only [Mesh.Linked]
    grind
  place_eq _ := h.place_eq
  plays who s s' a hs hs' hdone := by
    have hplays := h.plays hs hs' (hdone ▸ Process.Plays.done a)
    rwa [List.append_nil] at hplays

end Seat

end ObliviousRouting
