import ObliviousRouting.Proofs.Network.Costs

/-!
# Traces

A trace lists what passes between a process and its links in one run, with all answers of the links, those
that are failures included. Nothing is assumed of the links, so what holds of every trace holds however
they behave.

What a role does is described by two properties of its runs, one of those that give a value and one of
those that stop early (`Role.Ensures`). Such descriptions compose like the roles they belong to.
-/

namespace ObliviousRouting

variable {α β : Type}

/-- Something that passes between a process and its links. -/
inductive Exchange where
  /-- A message was handed to a link. -/
  | sent (target : Nat) (phase : String) (message : Bytes) (answer : Sent)
  /-- A message was waited for. -/
  | received (source : Nat) (answer : Received)
deriving DecidableEq

abbrev Trace := List Exchange

namespace Process

/-- Some answers of its links make a process run through a trace and end with a result. -/
inductive Plays : Process α → Trace → α → Prop
  | done (a : α) : Plays (.done a) [] a
  | send {target : Nat} {phase : String} {message : Bytes} {next : Sent → Process α} {trace : Trace} {a : α}
      (r : Sent) : Plays (next r) trace a →
      Plays (.send target phase message next) (.sent target phase message r :: trace) a
  | receive {source : Nat} {next : Received → Process α} {trace : Trace} {a : α} (r : Received) :
      Plays (next r) trace a → Plays (.receive source next) (.received source r :: trace) a
  | first {first second : Nat} {onFirst onSecond : Received → Process α} {trace : Trace} {a : α}
      (r : Received) : Plays (onFirst r) trace a →
      Plays (.receiveEither first second onFirst onSecond) (.received first r :: trace) a
  | second {first second : Nat} {onFirst onSecond : Received → Process α} {trace : Trace} {a : α}
      (r : Received) : Plays (onSecond r) trace a →
      Plays (.receiveEither first second onFirst onSecond) (.received second r :: trace) a

theorem Plays.of_done {a b : α} {trace : Trace} (h : (Process.done a).Plays trace b) :
    trace = [] ∧ b = a := by
  cases h with
  | done => exact ⟨rfl, rfl⟩

theorem Plays.of_bind {p : Process α} {f : α → Process β} {trace : Trace} {b : β}
    (h : (p >>= f).Plays trace b) : ∃ before after a,
      trace = before ++ after ∧ p.Plays before a ∧ (f a).Plays after b := by
  induction p generalizing trace with
  | done a => exact ⟨[], trace, a, rfl, .done a, h⟩
  | send target phase message next ih =>
    cases h with
    | send r h =>
      obtain ⟨before, after, a, rfl, hp, hf⟩ := ih r h
      exact ⟨_ :: before, after, a, rfl, .send r hp, hf⟩
  | receive source next ih =>
    cases h with
    | receive r h =>
      obtain ⟨before, after, a, rfl, hp, hf⟩ := ih r h
      exact ⟨_ :: before, after, a, rfl, .receive r hp, hf⟩
  | receiveEither first second onFirst onSecond ih₁ ih₂ =>
    cases h with
    | first r h =>
      obtain ⟨before, after, a, rfl, hp, hf⟩ := ih₁ r h
      exact ⟨_ :: before, after, a, rfl, .first r hp, hf⟩
    | second r h =>
      obtain ⟨before, after, a, rfl, hp, hf⟩ := ih₂ r h
      exact ⟨_ :: before, after, a, rfl, .second r hp, hf⟩

theorem Plays.bind {p : Process α} {f : α → Process β} {before after : Trace} {a : α} {b : β}
    (hp : p.Plays before a) (hf : (f a).Plays after b) : (p >>= f).Plays (before ++ after) b := by
  induction hp with
  | done a => exact hf
  | send r _ ih => exact .send r (ih hf)
  | receive r _ ih => exact .receive r (ih hf)
  | first r _ ih => exact .first r (ih hf)
  | second r _ ih => exact .second r (ih hf)

theorem Plays.of_map {p : Process α} {f : α → β} {trace : Trace} {b : β}
    (h : (p >>= fun a => .done (f a)).Plays trace b) : ∃ a, p.Plays trace a ∧ b = f a := by
  obtain ⟨before, after, a, rfl, hp, hf⟩ := h.of_bind
  obtain ⟨rfl, rfl⟩ := hf.of_done
  exact ⟨a, by rwa [List.append_nil], rfl⟩

end Process

namespace Role

variable {σ τ ε δ : Type}

/-- Some answers of its links make a role run from the state `s` through a trace, end and leave the state
`s'`. -/
def Runs (x : Role σ ε α) (s : σ) (trace : Trace) (result : Outcome ε α) (s' : σ) : Prop :=
  (x.start s).Plays trace (result, s')

/-- Where a role stops early, nothing that comes after it is run. -/
theorem Runs.bind_left {x : Role σ ε α} {s s' : σ} {trace : Trace} {stop : Stop ε}
    (h : Runs x s trace (.error stop) s') (f : α → Role σ ε β) : Runs (x >>= f) s trace (.error stop) s' := by
  rw [Runs, start_bind, ← List.append_nil trace]
  exact Process.Plays.bind h (.done _)

/-- A run of two roles in turn ends in the first one, or goes on where that one has given a value. -/
theorem Runs.of_bind {x : Role σ ε α} {f : α → Role σ ε β} {s s'' : σ} {trace : Trace} {result : Outcome ε β}
    (h : Runs (x >>= f) s trace result s'') :
    (∃ stop, result = .error stop ∧ Runs x s trace (.error stop) s'') ∨
      ∃ before after a s', trace = before ++ after ∧ Runs x s before (.ok a) s' ∧
        Runs (f a) s' after result s'' := by
  rw [Runs, start_bind] at h
  obtain ⟨before, after, ⟨r, s'⟩, rfl, hx, hrest⟩ := Process.Plays.of_bind h
  cases r with
  | ok a => exact .inr ⟨before, after, a, s', rfl, hx, hrest⟩
  | error stop =>
    obtain ⟨rfl, heq⟩ := hrest.of_done
    cases heq
    rw [List.append_nil]
    exact .inl ⟨stop, rfl, hx⟩

/-- What holds of all runs of a role from the state `s` on: `Q` of those that give a value, and `E` of those
that stop early. -/
def Ensures (x : Role σ ε α) (s : σ) (Q : Trace → α → σ → Prop) (E : Trace → Stop ε → σ → Prop) : Prop :=
  ∀ trace result s', Runs x s trace result s' → match result with
    | .ok a => Q trace a s'
    | .error stop => E trace stop s'

namespace Ensures

variable {x : Role σ ε α} {s : σ} {Q : Trace → α → σ → Prop} {E : Trace → Stop ε → σ → Prop}

theorem ok (h : Ensures x s Q E) {trace : Trace} {a : α} {s' : σ} (hx : Runs x s trace (.ok a) s') :
    Q trace a s' := h trace _ s' hx

theorem error (h : Ensures x s Q E) {trace : Trace} {stop : Stop ε} {s' : σ}
    (hx : Runs x s trace (.error stop) s') : E trace stop s' := h trace _ s' hx

protected theorem pure {a : α} (h : Q [] a s) : Ensures (pure a : Role σ ε α) s Q E := by
  intro trace result s' hx
  obtain ⟨rfl, heq⟩ := Process.Plays.of_done hx
  cases heq
  exact h

theorem throw {stop : Stop ε} (h : E [] stop s) : Ensures (throw stop : Role σ ε α) s Q E := by
  intro trace result s' hx
  obtain ⟨rfl, heq⟩ := Process.Plays.of_done hx
  cases heq
  exact h

theorem fail {e : ε} (h : E [] (.error e) s) : Ensures (Role.fail e : Role σ ε α) s Q E := throw h

/-- Every run does what runs can do. -/
theorem runs (x : Role σ ε α) (s : σ) :
    Ensures x s (fun trace a s' => Runs x s trace (.ok a) s')
      (fun trace stop s' => Runs x s trace (.error stop) s') := by
  intro trace result s' hx
  cases result with
  | ok a => exact hx
  | error stop => exact hx

theorem mono {Q' : Trace → α → σ → Prop} {E' : Trace → Stop ε → σ → Prop} (h : Ensures x s Q E)
    (hQ : ∀ trace a s', Q trace a s' → Q' trace a s')
    (hE : ∀ trace stop s', E trace stop s' → E' trace stop s') : Ensures x s Q' E' := by
  intro trace result s' hx
  cases result with
  | ok a => exact hQ trace a s' (h.ok hx)
  | error stop => exact hE trace stop s' (h.error hx)

protected theorem bind {f : α → Role σ ε β} {R : Trace → β → σ → Prop} (hx : Ensures x s Q E)
    (hf : ∀ before a s', Q before a s' →
      Ensures (f a) s' (fun trace => R (before ++ trace)) fun trace => E (before ++ trace)) :
    Ensures (x >>= f) s R E := by
  intro trace result s'' hrun
  rcases hrun.of_bind with ⟨stop, rfl, hstop⟩ | ⟨before, after, a, s', rfl, hfirst, hrest⟩
  · exact hx.error hstop
  · exact hf before a s' (hx.ok hfirst) after result s'' hrest

/-- A part that leaves the links alone. -/
theorem bind_nil {f : α → Role σ ε β} {s' : σ} {a : α} {R : Trace → β → σ → Prop}
    (hx : Performs x s [] a s') (hf : Ensures (f a) s' R E) : Ensures (x >>= f) s R E := by
  intro trace result s'' hrun
  rw [Runs, start_bind, hx.eq_of_nil] at hrun
  exact hf trace result s'' hrun

theorem of_performs {s' : σ} {a : α} (hx : Performs x s [] a s') (h : Q [] a s') : Ensures x s Q E := by
  intro trace result s'' hrun
  rw [Runs, hx.eq_of_nil] at hrun
  obtain ⟨rfl, heq⟩ := hrun.of_done
  cases heq
  exact h

theorem fail_bind {e : ε} {f : α → Role σ ε β} {R : Trace → β → σ → Prop} (h : E [] (.error e) s) :
    Ensures (Role.fail e >>= f) s R E :=
  Ensures.bind (fail (Q := fun _ _ _ => False) h) fun _ _ _ hfalse => hfalse.elim

theorem ofExcept_bind {y : Except ε α} {f : α → Role σ ε β} {R : Trace → β → σ → Prop}
    (hy : ∀ e, y = .error e → E [] (.error e) s) (hf : ∀ a, y = .ok a → Ensures (f a) s R E) :
    Ensures (Role.ofExcept y >>= f) s R E := by
  cases y with
  | ok a => exact bind_nil (.pure a s) (hf a rfl)
  | error e => exact fail_bind (hy e rfl)

theorem ofOutcome_bind {y : Outcome ε α} {f : α → Role σ ε β} {R : Trace → β → σ → Prop}
    (hy : ∀ stop, y = .error stop → E [] stop s) (hf : ∀ a, y = .ok a → Ensures (f a) s R E) :
    Ensures (Role.ofOutcome y >>= f) s R E := by
  cases y with
  | ok a => exact bind_nil (.pure a s) (hf a rfl)
  | error stop =>
    exact Ensures.bind (throw (Q := fun _ _ _ => False) (hy stop rfl)) fun _ _ _ hfalse => hfalse.elim

theorem ofChecked_bind {y : Checked α} {f : α → Role σ ε β} {R : Trace → β → σ → Prop}
    (hy : ∀ fault, y = .error fault → E [] (.fault fault) s) (hf : ∀ a, y = .ok a → Ensures (f a) s R E) :
    Ensures (Role.ofChecked y >>= f) s R E := by
  cases y with
  | ok a => exact bind_nil (.pure a s) (hf a rfl)
  | error fault =>
    exact Ensures.bind (throw (Q := fun _ _ _ => False) (hy fault rfl)) fun _ _ _ hfalse => hfalse.elim

theorem mapError {f : ε → δ} {E : Trace → Stop δ → σ → Prop}
    (h : Ensures x s Q fun trace stop s' => E trace (stop.map f) s') : Ensures (Role.mapError f x) s Q E := by
  intro trace result s' hrun
  obtain ⟨⟨r, t⟩, hx, heq⟩ := Process.Plays.of_map (f := fun r : Outcome ε α × σ =>
    (r.1.mapError (Stop.map f), r.2)) hrun
  cases heq
  cases r with
  | ok a => exact h.ok hx
  | error stop => exact h.error hx

theorem within {y : Role τ ε α} {part : σ → τ} {replace : τ → σ → σ}
    (h : Ensures y (part s) (fun trace a t => Q trace a (replace t s))
      fun trace stop t => E trace stop (replace t s)) : Ensures (Role.within part replace y) s Q E := by
  intro trace result s' hrun
  obtain ⟨⟨r, t⟩, hx, heq⟩ := Process.Plays.of_map (f := fun r : Outcome ε α × τ =>
    (r.1, replace r.2 s)) hrun
  cases heq
  exact h trace r t hx

theorem privately {y : Role τ ε α} {t : τ} {Q : Trace → α × τ → σ → Prop}
    (h : Ensures y t (fun trace a t' => Q trace (a, t') s) fun trace stop _ => E trace stop s) :
    Ensures (Role.privately y t) s Q E := by
  intro trace result s' hrun
  obtain ⟨⟨r, t'⟩, hx, heq⟩ := Process.Plays.of_map (f := fun r : Outcome ε α × τ =>
    ((r.1.map (·, r.2) : Outcome ε (α × τ)), s)) hrun
  cases heq
  cases r with
  | ok a => exact h.ok hx
  | error stop => exact h.error hx

theorem ofProcess {p : Process (Except ε α)}
    (h : ∀ trace r, p.Plays trace r → match r with
      | .ok a => Q trace a s
      | .error e => E trace (.error e) s) : Ensures (Role.ofProcess p) s Q E := by
  intro trace result s' hrun
  obtain ⟨r, hp, heq⟩ := Process.Plays.of_map (f := fun r : Except ε α => (r.mapError Stop.error, s)) hrun
  cases heq
  cases r with
  | ok a => exact h trace _ hp
  | error e => exact h trace _ hp

theorem sendBytes {target : Nat} {phase : String} {message : Bytes} {Q : Trace → Unit → σ → Prop}
    {E : Trace → Stop LinkError → σ → Prop} (hok : Q [.sent target phase message (.ok ())] () s)
    (herror : ∀ failure, E [.sent target phase message (.error failure)]
      (.error ⟨phase, .notSent failure⟩) s) : Ensures (Role.sendBytes target phase message) s Q E := by
  apply ofProcess
  intro trace r hp
  cases hp with
  | send answer hdone =>
    obtain ⟨rfl, rfl⟩ := hdone.of_done
    cases answer with
    | ok _ => exact hok
    | error failure => exact herror failure

theorem receiveBytes {source : Nat} {phase : String} {Q : Trace → Bytes → σ → Prop}
    {E : Trace → Stop LinkError → σ → Prop} (hok : ∀ message, Q [.received source (.ok message)] message s)
    (herror : ∀ failure, E [.received source (.error failure)] (.error ⟨phase, .notReceived failure⟩) s) :
    Ensures (Role.receiveBytes source phase) s Q E := by
  apply ofProcess
  intro trace r hp
  cases hp with
  | receive answer hdone =>
    obtain ⟨rfl, rfl⟩ := hdone.of_done
    cases answer with
    | ok message => exact hok message
    | error failure => exact herror failure

/-- A loop whose rounds keep a property of what has passed so far. -/
theorem iterate {body : Nat → β → Role σ ε β} {count : Nat} {I : Nat → Trace → β → σ → Prop} {b : β}
    (hstart : I 0 [] b s)
    (hbody : ∀ k < count, ∀ before b s, I k before b s → Ensures (body k b) s
      (fun trace b' s' => I (k + 1) (before ++ trace) b' s') fun trace stop s' => E (before ++ trace) stop s') :
    Ensures (Role.iterate body count 0 b) s (I count) E := by
  suffices from_ : ∀ n k, k + n = count → ∀ before b s, I k before b s →
      Ensures (Role.iterate body n k b) s (fun trace => I count (before ++ trace))
        fun trace => E (before ++ trace) from
    from_ count 0 (Nat.zero_add _) [] b s hstart
  intro n
  induction n with
  | zero =>
    rintro k rfl before b s hI
    apply Ensures.pure
    rwa [List.append_nil]
  | succ n ih =>
    intro k hk before b s hI
    refine Ensures.bind (hbody k (by omega) before b s hI) fun middle b' s' hI' => ?_
    simp only [← List.append_assoc]
    exact ih (k + 1) (by omega) (before ++ middle) b' s' hI'

theorem forM {body : β → Role σ ε PUnit} {F : Stop ε → σ → Prop} {l : List β}
    (h : ∀ b ∈ l, Ensures (body b) s (fun _ _ s' => s' = s) fun _ => F) :
    Ensures (l.forM body) s (fun _ _ s' => s' = s) fun _ => F := by
  induction l with
  | nil => exact Ensures.pure rfl
  | cons b l ih =>
    rw [List.forall_mem_cons] at h
    rw [List.forM]
    refine Ensures.bind h.1 fun _ _ s' hs => ?_
    subst hs
    exact ih h.2

end Ensures

/-! ### Roles that leave their state alone -/

/-- However a role ends, its state is as before. -/
def Keeps (x : Role σ ε α) (s : σ) : Prop := Ensures x s (fun _ _ s' => s' = s) fun _ _ s' => s' = s

namespace Keeps

variable {s : σ}

theorem of_performs {x : Role σ ε α} {a : α} (h : Performs x s [] a s) : Keeps x s :=
  Ensures.of_performs h rfl

theorem throw (stop : Stop ε) (s : σ) : Keeps (throw stop : Role σ ε α) s := Ensures.throw rfl

theorem fail (e : ε) (s : σ) : Keeps (Role.fail e : Role σ ε α) s := throw _ s

protected theorem bind {x : Role σ ε α} {f : α → Role σ ε β} (hx : Keeps x s) (hf : ∀ a, Keeps (f a) s) :
    Keeps (x >>= f) s := by
  refine Ensures.bind hx fun _ a s' hs => ?_
  subst hs
  exact hf a

theorem ofExcept (y : Except ε α) (s : σ) : Keeps (Role.ofExcept y) s := by
  cases y with
  | ok a => exact of_performs (.pure a s)
  | error e => exact fail e s

theorem ofChecked (y : Checked α) (s : σ) : Keeps (Role.ofChecked y : Role σ ε α) s := by
  cases y with
  | ok a => exact of_performs (.pure a s)
  | error fault => exact throw _ s

theorem ofProcess (p : Process (Except ε α)) (s : σ) : Keeps (Role.ofProcess p) s := by
  refine Ensures.ofProcess fun _ r _ => ?_
  cases r with
  | ok a => rfl
  | error e => rfl

theorem mapError {f : ε → δ} {x : Role σ ε α} (h : Keeps x s) : Keeps (Role.mapError f x) s :=
  Ensures.mapError h

/-- What is known of all errors that come of a translation. -/
theorem ensures_mapError {f : ε → δ} {x : Role σ ε α} (h : Keeps x s) {F : Stop δ → Prop}
    (hf : ∀ stop : Stop ε, F (stop.map f)) :
    Ensures (Role.mapError f x) s (fun _ _ s' => s' = s) fun _ stop s' => s' = s ∧ F stop :=
  Ensures.mapError (h.mono (fun _ _ _ hs => hs) fun _ stop _ hs => ⟨hs, hf stop⟩)

theorem iterate {body : Nat → β → Role σ ε β} (h : ∀ k b, Keeps (body k b) s) (count : Nat) (b : β) :
    Keeps (Role.iterate body count 0 b) s := by
  refine Ensures.iterate (I := fun _ _ _ s' => s' = s) rfl fun k _ _ b s' hs => ?_
  subst hs
  exact h k b

theorem sendBytes (target : Nat) (phase : String) (message : Bytes) (s : σ) :
    Keeps (Role.sendBytes target phase message) s := ofProcess _ s

theorem receiveBytes (source : Nat) (phase : String) (s : σ) : Keeps (Role.receiveBytes source phase) s :=
  ofProcess _ s

end Keeps

/-! ### Errors that a role declares -/

/-- From whatever state on, a role stops early only with a fault or with an error of one kind. -/
def Declares (P : ε → Prop) (x : Role σ ε α) : Prop :=
  ∀ s trace e s', Runs x s trace (.error (.error e)) s' → P e

namespace Declares

variable {P : ε → Prop}

protected theorem bind {x : Role σ ε α} {f : α → Role σ ε β} (hx : Declares P x) (hf : ∀ a, Declares P (f a)) :
    Declares P (x >>= f) := by
  intro s trace e s'' h
  rcases h.of_bind with ⟨stop, heq, hstop⟩ | ⟨before, after, a, s', -, -, hrest⟩
  · cases heq
    exact hx s trace e s'' hstop
  · exact hf a s' after e s'' hrest

/-- A part that ends at once, with a value. -/
theorem of_performs {x : Role σ ε α} (h : ∀ s, ∃ a s', Performs x s [] a s') : Declares P x := by
  intro s trace e s' hrun
  obtain ⟨a, t, hx⟩ := h s
  rw [Runs, hx.eq_of_nil] at hrun
  obtain ⟨-, heq⟩ := hrun.of_done
  cases heq

protected theorem pure (a : α) : Declares P (pure a : Role σ ε α) := of_performs fun s => ⟨a, s, .pure a s⟩

theorem ofOutcome {y : Outcome ε α} (h : ∀ e, y = .error (.error e) → P e) :
    Declares P (Role.ofOutcome y : Role σ ε α) := by
  intro s trace e s' hrun
  cases y with
  | ok a =>
    obtain ⟨-, heq⟩ := Process.Plays.of_done hrun
    cases heq
  | error stop =>
    obtain ⟨-, heq⟩ := Process.Plays.of_done hrun
    cases heq
    exact h e rfl

theorem ofChecked (y : Checked α) : Declares P (Role.ofChecked y : Role σ ε α) := by
  intro s trace e s' hrun
  cases y with
  | ok a =>
    obtain ⟨-, heq⟩ := Process.Plays.of_done hrun
    cases heq
  | error fault =>
    obtain ⟨-, heq⟩ := Process.Plays.of_done hrun
    cases heq

/-- All errors that come of a translation. -/
theorem mapError {f : δ → ε} {x : Role σ δ α} (h : ∀ e, P (f e)) : Declares P (Role.mapError f x) := by
  intro s trace e s' hrun
  obtain ⟨⟨r, t⟩, -, heq⟩ := Process.Plays.of_map (f := fun r : Outcome δ α × σ =>
    (r.1.mapError (Stop.map f), r.2)) hrun
  cases r with
  | ok a => cases heq
  | error stop =>
    cases stop with
    | fault _ => cases heq
    | error e' =>
      cases heq
      exact h e'

theorem within {part : σ → τ} {replace : τ → σ → σ} {y : Role τ ε α} (h : Declares P y) :
    Declares P (Role.within part replace y) := by
  intro s trace e s' hrun
  obtain ⟨⟨r, t⟩, hy, heq⟩ := Process.Plays.of_map (f := fun r : Outcome ε α × τ =>
    (r.1, replace r.2 s)) hrun
  cases heq
  exact h _ _ _ _ hy

end Declares

end Role

/-! ### Runs that go well, and runs that are cut short -/

/-- What passes in an action that goes well. Of two messages the first one comes first. -/
def Action.exchanges : Action → Trace
  | .send target phase message => [.sent target phase message (.ok ())]
  | .receive source message => [.received source (.ok message)]
  | .receiveBoth first message₁ second message₂ =>
    [.received first (.ok message₁), .received second (.ok message₂)]

/-- A course that goes well passes. -/
theorem Process.Follows.plays {p : Process α} {course : Course} {a : α} (h : p.Follows course a) :
    p.Plays (course.flatMap Action.exchanges) a := by
  induction h with
  | done a => exact .done a
  | send _ ih => exact .send _ ih
  | receive _ ih => exact .receive _ ih
  | receiveBoth _ _ ih _ => exact .first _ ih

/-- The other end is gone when an action is due. -/
def Action.refused : Action → Exchange
  | .send target phase message => .sent target phase message (.error .closed)
  | .receive source _ => .received source (.error .closed)
  | .receiveBoth first _ _ _ => .received first (.error .closed)

namespace Process

variable {good failed : α → Prop}

/-- A process that ends badly once a link has failed does so wherever that happens on its course. -/
theorem Costs.plays_refused {p : Process α} {b : Multiset Need} (hp : p.Costs good failed b)
    {before after : Course} {action : Action} {a : α} (h : p.Follows (before ++ action :: after) a) :
    ∃ a', failed a' ∧ p.Plays (before.flatMap Action.exchanges ++ [action.refused]) a' := by
  generalize hcourse : before ++ action :: after = course at h
  induction h generalizing before b with
  | done a => exact absurd hcourse (List.append_ne_nil_of_right_ne_nil _ (List.cons_ne_nil _ _))
  | @send target phase message next _ _ hnext ih =>
    obtain ⟨c, rfl, hcosts, hstop⟩ := hp
    cases before with
    | nil =>
      cases hcourse
      obtain ⟨a', hdone, ha'⟩ := hstop .closed
      exact ⟨a', ha', .send _ (hdone ▸ .done a')⟩
    | cons _ before =>
      cases hcourse
      obtain ⟨a', ha', hplays⟩ := ih hcosts rfl
      exact ⟨a', ha', .send _ hplays⟩
  | @receive source message next _ _ hnext ih =>
    obtain ⟨c, rfl, hcosts, hstop⟩ := hp
    cases before with
    | nil =>
      cases hcourse
      obtain ⟨a', hdone, ha'⟩ := hstop .closed
      exact ⟨a', ha', .receive _ (hdone ▸ .done a')⟩
    | cons _ before =>
      cases hcourse
      obtain ⟨a', ha', hplays⟩ := ih (hcosts message) rfl
      exact ⟨a', ha', .receive _ hplays⟩
  | @receiveBoth first second message₁ message₂ onFirst onSecond _ _ hfirst hsecond ih _ =>
    obtain ⟨c, rfl, hcosts, -, hstop, -⟩ := hp
    cases before with
    | nil =>
      cases hcourse
      obtain ⟨a', hdone, ha'⟩ := hstop .closed
      exact ⟨a', ha', .first _ (hdone ▸ .done a')⟩
    | cons _ before =>
      cases hcourse
      obtain ⟨a', ha', hplays⟩ := ih (hcosts message₁)
        (show (.receive second message₂ :: before) ++ action :: after = _ from rfl)
      exact ⟨a', ha', .first _ hplays⟩

end Process

/-- All actions of a course up to number `k` go well, and that one is refused. -/
def Course.refusedAt (course : Course) (k : Nat) : Trace :=
  (course.take k).flatMap Action.exchanges ++ (course[k]?.map Action.refused).toList

/-- Wherever on its course a role is refused something, it stops early with an error that it declares. -/
theorem Role.Costs.runs_refusedAt {σ ε : Type} {x : Role σ ε α} {s s' : σ} {b : Multiset Need}
    {Q : α → σ → Prop} {course : Course} {a : α} (hx : Role.Costs (fun _ => False) x s b Q)
    (h : Performs x s course a s') {k : Nat} (hk : k < course.length) :
    ∃ e s'', Runs x s (course.refusedAt k) (.error (.error e)) s'' := by
  have hcourse : course = course.take k ++ course[k] :: course.drop (k + 1) := by
    rw [← List.drop_eq_getElem_cons hk, List.take_append_drop]
  rw [Performs, hcourse] at h
  obtain ⟨⟨_, s''⟩, ⟨stop, rfl, hstop⟩, hplays⟩ := Process.Costs.plays_refused hx h
  cases stop with
  | fault f => exact hstop.elim
  | error e =>
    refine ⟨e, s'', ?_⟩
    rw [Course.refusedAt, List.getElem?_eq_getElem hk]
    exact hplays

end ObliviousRouting
