import ObliviousRouting.Process.Script
import ObliviousRouting.Proofs.Network.Results

/-!
# What a process sends

A process alone, to which nothing is sent, still hands messages to its links: all of them, if its course
is nothing but sendings. And a process may be kept from sending some messages at all, whatever its links
answer, because no path in its tree comes to them.
-/

namespace ObliviousRouting

variable {α β : Type}

namespace Process

/-- What a process hands to its links if nothing is sent to it: each message with its target and phase. -/
def outgoing (p : Process α) : List (Nat × String × Bytes) :=
  (p.play { incoming := fun _ => [] }).2.sent

theorem play_of_follows {p : Process α} {sendings : List (Nat × String × Bytes)} {a : α}
    (h : p.Follows (sendings.map fun (target, phase, message) => .send target phase message) a)
    (s : Script) (hs : s.sendsLeft = none) : p.play s = (a, { s with sent := s.sent ++ sendings }) := by
  induction sendings generalizing p s with
  | nil =>
    rw [h.eq_of_nil, play, List.append_nil]
  | cons m sendings ih =>
    obtain ⟨target, phase, message⟩ := m
    cases h with
    | send h =>
      have hsend : s.send target phase message =
          (.ok (), { s with sent := s.sent ++ [(target, phase, message)] }) := by
        rw [Script.send, if_neg (by rw [hs]; exact Option.some_ne_none 0 |>.symm), hs]
        rfl
      rw [play, hsend]
      refine (ih h { s with sent := s.sent ++ [(target, phase, message)] } hs).trans ?_
      rw [List.append_assoc, List.singleton_append]

theorem outgoing_of_follows {p : Process α} {sendings : List (Nat × String × Bytes)} {a : α}
    (h : p.Follows (sendings.map fun (target, phase, message) => .send target phase message) a) :
    p.outgoing = sendings := by
  rw [outgoing, play_of_follows h _ rfl]
  rfl

/-! ### Messages that are never sent -/

/-- Whatever its links answer, a process sends messages of one kind only. -/
inductive SendsOnly (P : Nat → String → Bytes → Prop) : Process α → Prop
  | done (a : α) : SendsOnly P (.done a)
  | send {target : Nat} {phase : String} {message : Bytes} {next : Sent → Process α} :
      P target phase message → (∀ r, SendsOnly P (next r)) → SendsOnly P (.send target phase message next)
  | receive {source : Nat} {next : Received → Process α} :
      (∀ r, SendsOnly P (next r)) → SendsOnly P (.receive source next)
  | receiveEither {first second : Nat} {onFirst onSecond : Received → Process α} :
      (∀ r, SendsOnly P (onFirst r)) → (∀ r, SendsOnly P (onSecond r)) →
      SendsOnly P (.receiveEither first second onFirst onSecond)

variable {P : Nat → String → Bytes → Prop}

theorem SendsOnly.bind {p : Process α} {f : α → Process β} (hp : p.SendsOnly P)
    (hf : ∀ a, p.CanEnd a → (f a).SendsOnly P) : (p >>= f).SendsOnly P := by
  induction hp with
  | done a => exact hf a (.done a)
  | send hmessage _ ih => exact .send hmessage fun r => ih r fun a ha => hf a (.next (.send r) ha)
  | receive _ ih => exact .receive fun r => ih r fun a ha => hf a (.next (.receive r) ha)
  | receiveEither _ _ ih₁ ih₂ =>
    exact .receiveEither (fun r => ih₁ r fun a ha => hf a (.next (.first r) ha))
      (fun r => ih₂ r fun a ha => hf a (.next (.second r) ha))

theorem SendsOnly.map {p : Process α} (hp : p.SendsOnly P) (f : α → β) :
    (p >>= fun a => .done (f a)).SendsOnly P :=
  hp.bind fun a _ => .done (f a)

theorem SendsOnly.mono {Q : Nat → String → Bytes → Prop} {p : Process α} (hp : p.SendsOnly P)
    (h : ∀ target phase message, P target phase message → Q target phase message) : p.SendsOnly Q := by
  induction hp with
  | done a => exact .done a
  | send hmessage _ ih => exact .send (h _ _ _ hmessage) ih
  | receive _ ih => exact .receive ih
  | receiveEither _ _ ih₁ ih₂ => exact .receiveEither ih₁ ih₂

theorem mem_sent_send {s : Script} {target : Nat} {phase : String} {message : Bytes}
    {m : Nat × String × Bytes} (hm : m ∈ (s.send target phase message).2.sent) :
    m ∈ s.sent ∨ m = (target, phase, message) := by
  rw [Script.send] at hm
  split at hm
  · exact .inl hm
  · exact (List.mem_append.1 hm).imp_right List.mem_singleton.1

theorem sent_receive (s : Script) (source : Nat) : (s.receive source).2.sent = s.sent := by
  rw [Script.receive]
  split <;> rfl

theorem SendsOnly.play {p : Process α} (hp : p.SendsOnly P) {s : Script}
    (hs : ∀ m ∈ s.sent, P m.1 m.2.1 m.2.2) : ∀ m ∈ (p.play s).2.sent, P m.1 m.2.1 m.2.2 := by
  induction hp generalizing s with
  | done a => exact hs
  | @send target phase message next hmessage _ ih =>
    refine ih (s.send target phase message).1 (s := (s.send target phase message).2) fun m hm => ?_
    rcases mem_sent_send hm with hm | rfl
    · exact hs m hm
    · exact hmessage
  | @receive source next _ ih =>
    refine ih (s.receive source).1 (s := (s.receive source).2) ?_
    rw [sent_receive]
    exact hs
  | @receiveEither first second onFirst onSecond _ _ ih₁ ih₂ =>
    refine ih₁ (s.receive first).1 (s := (s.receive first).2) ?_
    rw [sent_receive]
    exact hs

theorem SendsOnly.outgoing {p : Process α} (hp : p.SendsOnly P) : ∀ m ∈ p.outgoing, P m.1 m.2.1 m.2.2 :=
  hp.play fun _ hm => absurd hm List.not_mem_nil

/-- A process that sends nothing hands nothing to its links. -/
theorem SendsOnly.outgoing_eq_nil {p : Process α} (hp : p.SendsOnly fun _ _ _ => False) :
    p.outgoing = [] :=
  List.eq_nil_iff_forall_not_mem.2 hp.outgoing

/-! ### What a process is told before it goes on -/

/-- Something that happens on the links of a process. -/
inductive Event where
  /-- A message is handed to a link, which may take it or not. -/
  | sent (target : Nat) (phase : String) (message : Bytes)
  | answered (source : Nat) (answer : Received)

namespace Event

/-- The messages that a process hands to its links. -/
def sendings (events : List Event) : List (Nat × String × Bytes) :=
  events.filterMap fun
    | sent target phase message => some (target, phase, message)
    | answered .. => none

/-- The answers that a process gets where it waits for a message of an end. -/
def answers (source : Nat) (events : List Event) : List Received :=
  events.filterMap fun
    | sent .. => none
    | answered source' answer => if source' = source then some answer else none

variable (events events' : List Event) (source : Nat)

theorem sendings_append : sendings (events ++ events') = sendings events ++ sendings events' :=
  List.filterMap_append

theorem answers_append : answers source (events ++ events') = answers source events ++ answers source events' :=
  List.filterMap_append

end Event

/-- Whatever its links answer: some events on its links bring a process to where it goes on with another
one. -/
inductive Meets : Process α → List Event → Process α → Prop
  | refl (p : Process α) : Meets p [] p
  | send {target : Nat} {phase : String} {message : Bytes} {next : Sent → Process α} {events : List Event}
      {q : Process α} (r : Sent) : Meets (next r) events q →
      Meets (.send target phase message next) (.sent target phase message :: events) q
  | receive {source : Nat} {next : Received → Process α} {events : List Event} {q : Process α}
      (r : Received) : Meets (next r) events q →
      Meets (.receive source next) (.answered source r :: events) q
  | first {first second : Nat} {onFirst onSecond : Received → Process α} {events : List Event}
      {q : Process α} (r : Received) : Meets (onFirst r) events q →
      Meets (.receiveEither first second onFirst onSecond) (.answered first r :: events) q
  | second {first second : Nat} {onFirst onSecond : Received → Process α} {events : List Event}
      {q : Process α} (r : Received) : Meets (onSecond r) events q →
      Meets (.receiveEither first second onFirst onSecond) (.answered second r :: events) q

theorem Meets.of_done {a : α} {events : List Event} {q : Process α} (h : (Process.done a).Meets events q) :
    events = [] ∧ q = .done a := by
  cases h with
  | refl => exact ⟨rfl, rfl⟩

/-- What a process can end with, some events bring it to. -/
theorem CanEnd.exists_meets {p : Process α} {a : α} (h : p.CanEnd a) : ∃ events, p.Meets events (.done a) := by
  induction h with
  | done a => exact ⟨[], .refl _⟩
  | next hnext _ ih =>
    obtain ⟨events, hmeets⟩ := ih
    cases hnext with
    | send r => exact ⟨_, .send r hmeets⟩
    | receive r => exact ⟨_, .receive r hmeets⟩
    | first r => exact ⟨_, .first r hmeets⟩
    | second r => exact ⟨_, .second r hmeets⟩

/-- A process that goes on where another one ends is still in the first one, or past it. -/
theorem Meets.of_bind {p : Process α} {f : α → Process β} {events : List Event} {q : Process β}
    (h : (p >>= f).Meets events q) :
    (∃ p', p.Meets events p' ∧ ∀ b, q ≠ .done b) ∨
      ∃ before after a, events = before ++ after ∧ p.Meets before (.done a) ∧ (f a).Meets after q := by
  induction p generalizing events with
  | done a => exact .inr ⟨[], events, a, rfl, .refl _, h⟩
  | send target phase message next ih =>
    cases h with
    | refl => exact .inl ⟨_, .refl _, fun _ heq => nomatch heq⟩
    | send r h =>
      rcases ih r h with ⟨p', hp, hq⟩ | ⟨before, after, a, rfl, hp, hf⟩
      · exact .inl ⟨p', .send r hp, hq⟩
      · exact .inr ⟨_ :: before, after, a, rfl, .send r hp, hf⟩
  | receive source next ih =>
    cases h with
    | refl => exact .inl ⟨_, .refl _, fun _ heq => nomatch heq⟩
    | receive r h =>
      rcases ih r h with ⟨p', hp, hq⟩ | ⟨before, after, a, rfl, hp, hf⟩
      · exact .inl ⟨p', .receive r hp, hq⟩
      · exact .inr ⟨_ :: before, after, a, rfl, .receive r hp, hf⟩
  | receiveEither first second onFirst onSecond ih₁ ih₂ =>
    cases h with
    | refl => exact .inl ⟨_, .refl _, fun _ heq => nomatch heq⟩
    | first r h =>
      rcases ih₁ r h with ⟨p', hp, hq⟩ | ⟨before, after, a, rfl, hp, hf⟩
      · exact .inl ⟨p', .first r hp, hq⟩
      · exact .inr ⟨_ :: before, after, a, rfl, .first r hp, hf⟩
    | second r h =>
      rcases ih₂ r h with ⟨p', hp, hq⟩ | ⟨before, after, a, rfl, hp, hf⟩
      · exact .inl ⟨p', .second r hp, hq⟩
      · exact .inr ⟨_ :: before, after, a, rfl, .second r hp, hf⟩

/-- A process sends no more than some first messages, unless the first answer of each of some ends is the
message that is expected of it. -/
def Awaits (hello : List (Nat × String × Bytes)) (expected : List (Nat × Bytes)) (p : Process α) : Prop :=
  ∀ events q, p.Meets events q → Event.sendings events <+: hello ∨
    ∀ key ∈ expected, (Event.answers key.1 events).head? = some (.ok key.2)

variable {hello : List (Nat × String × Bytes)} {expected : List (Nat × Bytes)}

theorem Awaits.done (a : α) : (Process.done a).Awaits hello expected := by
  intro events q h
  obtain ⟨rfl, -⟩ := h.of_done
  exact .inl List.nil_prefix

theorem Awaits.map {p : Process α} (hp : p.Awaits hello expected) (f : α → β) :
    (p >>= fun a => .done (f a)).Awaits hello expected := by
  intro events q h
  rcases h.of_bind with ⟨p', hp', -⟩ | ⟨before, after, a, rfl, hp', hf⟩
  · exact hp events p' hp'
  · obtain ⟨rfl, -⟩ := hf.of_done
    rw [List.append_nil]
    exact hp before _ hp'

end Process

namespace Role

variable {σ τ ε δ : Type} {P : Nat → String → Bytes → Prop}

/-- From the state `s` on, a role sends messages of one kind only. -/
def SendsOnly (P : Nat → String → Bytes → Prop) (x : Role σ ε α) (s : σ) : Prop := (x.start s).SendsOnly P

namespace SendsOnly

protected theorem pure (a : α) (s : σ) : SendsOnly P (pure a : Role σ ε α) s := .done _

protected theorem throw (stop : Stop ε) (s : σ) : SendsOnly P (throw stop : Role σ ε α) s := .done _

protected theorem bind {x : Role σ ε α} {f : α → Role σ ε β} {s : σ} (hx : SendsOnly P x s)
    (hf : ∀ a s', Returns x s a s' → SendsOnly P (f a) s') : SendsOnly P (x >>= f) s := by
  rw [SendsOnly, start_bind]
  refine Process.SendsOnly.bind hx ?_
  rintro ⟨_ | a, s'⟩ ha
  · exact .done _
  · exact hf a s' ha

theorem bind_nil {x : Role σ ε α} {f : α → Role σ ε β} {s s' : σ} {a : α} (hx : Performs x s [] a s')
    (hf : SendsOnly P (f a) s') : SendsOnly P (x >>= f) s := by
  rw [SendsOnly, start_bind, hx.eq_of_nil]
  exact hf

/-- Where the state does not matter. -/
theorem bind_all {x : Role σ ε α} {f : α → Role σ ε β} {s : σ} (hx : SendsOnly P x s)
    (hf : ∀ a s, SendsOnly P (f a) s) : SendsOnly P (x >>= f) s :=
  hx.bind fun a s' _ => hf a s'

protected theorem get (s : σ) : SendsOnly P (get : Role σ ε σ) s := .done _

protected theorem set (s t : σ) : SendsOnly P (set t : Role σ ε PUnit) s := .done _

protected theorem modifyGet (f : σ → α × σ) (s : σ) : SendsOnly P (modifyGet f : Role σ ε α) s := .done _

theorem fail (e : ε) (s : σ) : SendsOnly P (Role.fail e : Role σ ε α) s := .done _

theorem ofOutcome (x : Outcome ε α) (s : σ) : SendsOnly P (Role.ofOutcome x) s := by
  cases x <;> exact .done _

theorem ofExcept (x : Except ε α) (s : σ) : SendsOnly P (Role.ofExcept x) s := by
  cases x <;> exact .done _

theorem ofChecked (x : Checked α) (s : σ) : SendsOnly P (Role.ofChecked x : Role σ ε α) s := by
  cases x <;> exact .done _

theorem ofProcess {p : Process (Except ε α)} (h : p.SendsOnly P) (s : σ) :
    SendsOnly P (Role.ofProcess p) s :=
  Process.SendsOnly.map h fun r => (Except.mapError Stop.error r, s)

theorem mapError (f : ε → δ) {x : Role σ ε α} {s : σ} (h : SendsOnly P x s) :
    SendsOnly P (Role.mapError f x) s :=
  Process.SendsOnly.map h fun ending => (ending.1.mapError (Stop.map f), ending.2)

theorem within {part : σ → τ} {replace : τ → σ → σ} {x : Role τ ε α} {s : σ} (h : SendsOnly P x (part s)) :
    SendsOnly P (Role.within part replace x) s :=
  Process.SendsOnly.map h fun ending => (ending.1, replace ending.2 s)

theorem privately {x : Role τ ε α} {t : τ} (h : SendsOnly P x t) (s : σ) :
    SendsOnly P (Role.privately x t) s :=
  Process.SendsOnly.map h fun ending => ((ending.1.map (·, ending.2) : Outcome ε (α × τ)), s)

theorem iterate {body : Nat → β → Role σ ε β} (h : ∀ k b s, SendsOnly P (body k b) s) (count k : Nat) (b : β)
    (s : σ) : SendsOnly P (Role.iterate body count k b) s := by
  induction count generalizing k b s with
  | zero => exact .done _
  | succ count ih => exact bind_all (h k b s) fun b s => ih (k + 1) b s

theorem forM {body : β → Role σ ε PUnit} {l : List β} (h : ∀ b s, SendsOnly P (body b) s) (s : σ) :
    SendsOnly P (l.forM body) s := by
  induction l generalizing s with
  | nil => exact .done _
  | cons b l ih =>
    rw [List.forM]
    exact bind_all (h b s) fun _ s => ih s

theorem sendBytes {target : Nat} {phase : String} {message : Bytes} (h : P target phase message) (s : σ) :
    SendsOnly P (Role.sendBytes target phase message) s :=
  ofProcess (.send h fun _ => .done _) s

theorem receiveBytes (source : Nat) (phase : String) (s : σ) :
    SendsOnly P (Role.receiveBytes source phase) s :=
  ofProcess (.receive fun _ => .done _) s

theorem receiveList (k : Codec α) (source : Nat) (phase : String) (s : σ) :
    SendsOnly P (Role.receiveList k source phase) s :=
  bind_all (receiveBytes source phase s) fun _ s => ofExcept _ s

theorem receiveBoth {first second : Nat} {readFirst : Received → Except ε α}
    {readSecond : Received → Except ε β} (s : σ) :
    SendsOnly P (Role.ofProcess (Process.receiveBoth first second readFirst readSecond)) s := by
  refine ofProcess (.receiveEither (fun r => ?_) fun r => ?_) s
  · cases readFirst r with
    | error e => exact .done _
    | ok a => exact .receive fun _ => .done _
  · cases readSecond r with
    | error e => exact .done _
    | ok b => exact .receive fun _ => .done _

theorem ofOutcome_bind {x : Outcome ε α} {f : α → Role σ ε β} {s : σ}
    (h : ∀ a, x = .ok a → SendsOnly P (f a) s) : SendsOnly P (Role.ofOutcome x >>= f) s := by
  cases x with
  | ok a => exact bind_nil (.pure a s) (h a rfl)
  | error stop => exact .done _

theorem ofExcept_bind {x : Except ε α} {f : α → Role σ ε β} {s : σ}
    (h : ∀ a, x = .ok a → SendsOnly P (f a) s) : SendsOnly P (Role.ofExcept x >>= f) s := by
  cases x with
  | ok a => exact bind_nil (.pure a s) (h a rfl)
  | error e => exact .done _

theorem ofChecked_bind {x : Checked α} {f : α → Role σ ε β} {s : σ}
    (h : ∀ a, x = .ok a → SendsOnly P (f a) s) : SendsOnly P (Role.ofChecked x >>= f) s := by
  cases x with
  | ok a => exact bind_nil (.pure a s) (h a rfl)
  | error e => exact .done _

end SendsOnly

/-- From the state `s` on, a role stops early whatever its links answer, and sends messages of one kind
only. -/
structure Halts (P : Nat → String → Bytes → Prop) (x : Role σ ε α) (s : σ) : Prop where
  sends : SendsOnly P x s
  fails : Fails x s

namespace Halts

protected theorem bind {x : Role σ ε α} {f : α → Role σ ε β} {s : σ} (hx : SendsOnly P x s)
    (hf : ∀ a s', Returns x s a s' → Halts P (f a) s') : Halts P (x >>= f) s :=
  ⟨hx.bind fun a s' ha => (hf a s' ha).sends, Fails.bind fun a s' ha => (hf a s' ha).fails⟩

theorem bind_nil {x : Role σ ε α} {f : α → Role σ ε β} {s s' : σ} {a : α} (hx : Performs x s [] a s')
    (hf : Halts P (f a) s') : Halts P (x >>= f) s :=
  ⟨SendsOnly.bind_nil hx hf.sends, Fails.bind_nil hx hf.fails⟩

theorem bind_left {x : Role σ ε α} {s : σ} (hx : Halts P x s) (f : α → Role σ ε β) :
    Halts P (x >>= f) s :=
  ⟨hx.sends.bind fun a s' ha => absurd ha (hx.fails a s'), Fails.bind_left hx.fails⟩

theorem throw (stop : Stop ε) (s : σ) : Halts P (throw stop : Role σ ε α) s :=
  ⟨SendsOnly.throw stop s, Fails.throw stop s⟩

theorem ofOutcome_bind {x : Outcome ε α} {f : α → Role σ ε β} {s : σ}
    (h : ∀ a, x = .ok a → Halts P (f a) s) : Halts P (Role.ofOutcome x >>= f) s :=
  ⟨SendsOnly.ofOutcome_bind fun a ha => (h a ha).sends, Fails.ofOutcome_bind fun a ha => (h a ha).fails⟩

theorem ofExcept_bind {x : Except ε α} {f : α → Role σ ε β} {s : σ}
    (h : ∀ a, x = .ok a → Halts P (f a) s) : Halts P (Role.ofExcept x >>= f) s :=
  ⟨SendsOnly.ofExcept_bind fun a ha => (h a ha).sends, Fails.ofExcept_bind fun a ha => (h a ha).fails⟩

theorem ofChecked_bind {x : Checked α} {f : α → Role σ ε β} {s : σ}
    (h : ∀ a, x = .ok a → Halts P (f a) s) : Halts P (Role.ofChecked x >>= f) s :=
  ⟨SendsOnly.ofChecked_bind fun a ha => (h a ha).sends, Fails.ofChecked_bind fun a ha => (h a ha).fails⟩

theorem mapError (f : ε → δ) {x : Role σ ε α} {s : σ} (h : Halts P x s) : Halts P (Role.mapError f x) s :=
  ⟨h.sends.mapError f, h.fails.mapError f⟩

theorem privately {x : Role τ ε α} {t : τ} (h : Halts P x t) (s : σ) : Halts P (Role.privately x t) s :=
  ⟨h.sends.privately s, h.fails.privately s⟩

theorem mapError_ofOutcome_bind {x : Outcome ε α} {g : ε → δ} {f : α → Role σ δ β} {s : σ}
    (h : ∀ a, x = .ok a → Halts P (f a) s) : Halts P (Role.mapError g (Role.ofOutcome x) >>= f) s := by
  cases x with
  | ok a => exact bind_nil (.mapError g (.pure a s)) (h a rfl)
  | error stop => exact bind_left (mapError g (throw stop s)) f

end Halts

/-- From the state `s` on, a role waits for expected messages before it sends more than some first ones. -/
def Awaits (hello : List (Nat × String × Bytes)) (expected : List (Nat × Bytes)) (x : Role σ ε α) (s : σ) :
    Prop := (x.start s).Awaits hello expected

namespace Awaits

variable {hello : List (Nat × String × Bytes)} {expected : List (Nat × Bytes)}

theorem bind_nil {x : Role σ ε α} {f : α → Role σ ε β} {s s' : σ} {a : α} (hx : Performs x s [] a s')
    (hf : Awaits hello expected (f a) s') : Awaits hello expected (x >>= f) s := by
  rw [Awaits, start_bind, hx.eq_of_nil]
  exact hf

theorem ofOutcome_bind {x : Outcome ε α} {f : α → Role σ ε β} {s : σ}
    (h : ∀ a, x = .ok a → Awaits hello expected (f a) s) :
    Awaits hello expected (Role.ofOutcome x >>= f) s := by
  cases x with
  | ok a => exact bind_nil (.pure a s) (h a rfl)
  | error stop => exact Process.Awaits.done _

end Awaits

/-- A role goes well only if exactly these events happen, and until then it sends no other messages. It
leaves the state as it is. -/
def Needs (x : Role σ ε α) (s : σ) (whole : List Process.Event) : Prop :=
  ∀ events q, (x.start s).Meets events q →
    Process.Event.sendings events <+: Process.Event.sendings whole ∧
      ∀ a s', q = .done (.ok a, s') → s' = s ∧ events = whole

namespace Needs

open Process Event

variable {whole whole' : List Process.Event}

protected theorem pure (a : α) (s : σ) : Needs (pure a : Role σ ε α) s [] := by
  intro events q h
  obtain ⟨rfl, rfl⟩ := h.of_done
  exact ⟨List.nil_prefix, fun b s' heq => by cases heq; exact ⟨rfl, rfl⟩⟩

protected theorem bind {x : Role σ ε α} {f : α → Role σ ε β} {s : σ} (hx : Needs x s whole)
    (hf : ∀ a, Needs (f a) s whole') : Needs (x >>= f) s (whole ++ whole') := by
  intro events q h
  rw [start_bind] at h
  rw [sendings_append]
  rcases h.of_bind with ⟨p', hp, hq⟩ | ⟨before, after, ⟨r, s'⟩, rfl, hp, hrest⟩
  · exact ⟨(hx events p' hp).1.trans (List.prefix_append ..), fun b s' hdone => absurd hdone (hq _)⟩
  · obtain ⟨hsendings, hwhole⟩ := hx before _ hp
    cases r with
    | ok a =>
      obtain ⟨rfl, rfl⟩ := hwhole a s' rfl
      obtain ⟨hsendings', hwhole'⟩ := hf a after q hrest
      rw [sendings_append, List.prefix_append_right_inj]
      refine ⟨hsendings', fun b t hdone => ?_⟩
      obtain ⟨rfl, rfl⟩ := hwhole' b t hdone
      exact ⟨rfl, rfl⟩
    | error stop =>
      obtain ⟨rfl, rfl⟩ := hrest.of_done
      rw [List.append_nil]
      exact ⟨hsendings.trans (List.prefix_append ..), fun b t hdone => by cases hdone⟩

theorem mapError {x : Role σ ε α} {s : σ} (f : ε → δ) (h : Needs x s whole) :
    Needs (Role.mapError f x) s whole := by
  intro events q hmeets
  rcases Meets.of_bind hmeets with ⟨p', hp, hq⟩ | ⟨before, after, ⟨r, s'⟩, rfl, hp, hrest⟩
  · exact ⟨(h events p' hp).1, fun a s' hdone => absurd hdone (hq _)⟩
  · obtain ⟨rfl, rfl⟩ := hrest.of_done
    rw [List.append_nil]
    refine ⟨(h before _ hp).1, fun a t hdone => ?_⟩
    cases r with
    | ok b =>
      cases hdone
      exact (h before _ hp).2 _ _ rfl
    | error stop => cases hdone

theorem sendBytes (target : Nat) (phase : String) (message : Bytes) (s : σ) :
    Needs (Role.sendBytes target phase message) s [.sent target phase message] := by
  intro events q h
  cases h with
  | refl => exact ⟨List.nil_prefix, fun a s' hdone => by cases hdone⟩
  | send r h =>
    obtain ⟨rfl, rfl⟩ := Meets.of_done h
    refine ⟨List.prefix_rfl, fun a s' hdone => ?_⟩
    cases r with
    | ok _ =>
      cases hdone
      exact ⟨rfl, rfl⟩
    | error failure => cases hdone

theorem forM {body : β → Role σ ε PUnit} {l : List β} {whole : β → List Process.Event} {s : σ}
    (h : ∀ b ∈ l, Needs (body b) s (whole b)) : Needs (l.forM body) s (l.flatMap whole) := by
  induction l with
  | nil => exact .pure _ s
  | cons b l ih =>
    rw [List.forM, List.flatMap_cons]
    exact (h b List.mem_cons_self).bind fun _ => ih fun c hc => h c (List.mem_cons_of_mem b hc)

theorem eq_of_returns {x : Role σ ε α} {a : α} {s s' : σ} (h : Needs x s whole) (hx : Returns x s a s') :
    s' = s :=
  let ⟨_, hmeets⟩ := hx.exists_meets
  ((h _ _ hmeets).2 a s' rfl).1

/-- What is behind such a role is not reached without the answers that it needs. -/
theorem awaits {x : Role σ ε α} {s : σ} (h : Needs x s whole) {expected : List (Nat × Bytes)}
    (hexpected : ∀ key ∈ expected, (answers key.1 whole).head? = some (.ok key.2))
    (f : α → Role σ ε β) : Role.Awaits (sendings whole) expected (x >>= f) s := by
  intro events q hmeets
  rw [start_bind] at hmeets
  rcases hmeets.of_bind with ⟨p', hp, -⟩ | ⟨before, after, ⟨r, s'⟩, rfl, hp, hrest⟩
  · exact .inl (h events p' hp).1
  · cases r with
    | ok a =>
      obtain ⟨-, rfl⟩ := (h before _ hp).2 a s' rfl
      refine .inr fun key hkey => ?_
      rw [answers_append, List.head?_append, hexpected key hkey]
      rfl
    | error stop =>
      obtain ⟨rfl, -⟩ := hrest.of_done
      rw [List.append_nil]
      exact .inl (h before _ hp).1

end Needs

end Role

end ObliviousRouting
