import ObliviousRouting.Message

/-!
# Courses

A course lists what a process does on its links as long as everything goes well: what it hands to
which link, and which messages it is given. A process follows a course if it does exactly that and
then ends with a result. Nothing is said about what it does when a link answers otherwise, so a course
describes one run of a process, seen from its own end.

Courses compose like the roles they belong to. `Role.Performs.bind` is what every description of a
role is put together with: the course of a role is the courses of its parts, one after the other, and
the state that one part leaves is the one that the next part finds.
-/

namespace ObliviousRouting

variable {α β : Type}

/-- One action of a process on its links, with the messages that it is given. -/
inductive Action where
  | send (target : Nat) (phase : String) (message : Bytes)
  | receive (source : Nat) (message : Bytes)
  | receiveBoth (first : Nat) (message₁ : Bytes) (second : Nat) (message₂ : Bytes)

abbrev Course := List Action

namespace Process

/-- A process takes a course and ends with a result. Where it waits for two messages, it has to go
the same way whichever of them comes first. -/
inductive Follows : Process α → Course → α → Prop
  | done (a : α) : Follows (.done a) [] a
  | send {target : Nat} {phase : String} {message : Bytes} {next : Sent → Process α} {c : Course}
      {a : α} : Follows (next (.ok ())) c a →
      Follows (.send target phase message next) (.send target phase message :: c) a
  | receive {source : Nat} {message : Bytes} {next : Received → Process α} {c : Course} {a : α} :
      Follows (next (.ok message)) c a →
      Follows (.receive source next) (.receive source message :: c) a
  | receiveBoth {first second : Nat} {message₁ message₂ : Bytes}
      {onFirst onSecond : Received → Process α} {c : Course} {a : α} :
      Follows (onFirst (.ok message₁)) (.receive second message₂ :: c) a →
      Follows (onSecond (.ok message₂)) (.receive first message₁ :: c) a →
      Follows (.receiveEither first second onFirst onSecond)
        (.receiveBoth first message₁ second message₂ :: c) a

theorem Follows.bind {p : Process α} {f : α → Process β} {c d : Course} {a : α} {b : β}
    (hp : p.Follows c a) (hf : (f a).Follows d b) : (p >>= f).Follows (c ++ d) b := by
  induction hp with
  | done a => exact hf
  | send _ ih => exact .send (ih hf)
  | receive _ ih => exact .receive (ih hf)
  | receiveBoth _ _ ih₁ ih₂ => exact .receiveBoth (ih₁ hf) (ih₂ hf)

theorem Follows.map {p : Process α} {c : Course} {a : α} (f : α → β) (h : p.Follows c a) :
    (p >>= fun a => .done (f a)).Follows c (f a) := by
  have hbind := h.bind (f := fun a => .done (f a)) (.done (f a))
  rwa [List.append_nil] at hbind

theorem Follows.eq_of_nil {p : Process α} {a : α} (h : p.Follows [] a) : p = .done a := by
  cases h with
  | done a => rfl

theorem follows_receiveBoth {ε : Type} (first second : Nat) {message₁ message₂ : Bytes}
    {readFirst : Received → Except ε α} {readSecond : Received → Except ε β} {a : α} {b : β}
    (ha : readFirst (.ok message₁) = .ok a) (hb : readSecond (.ok message₂) = .ok b) :
    (receiveBoth first second readFirst readSecond).Follows
      [.receiveBoth first message₁ second message₂] (.ok (a, b)) := by
  apply Follows.receiveBoth
  · rw [ha]
    apply Follows.receive
    rw [hb]
    exact .done _
  · rw [hb]
    apply Follows.receive
    rw [ha]
    exact .done _

end Process

theorem Received.bytes_ok_bind (phase : String) (message : Bytes) (f : Bytes → Except LinkError β) :
    (Received.bytes phase (.ok message) >>= f) = f message := rfl

namespace Role

variable {σ τ ε δ : Type}

theorem start_bind (x : Role σ ε α) (f : α → Role σ ε β) (s : σ) :
    (x >>= f).start s = x.start s >>= fun (r, s) => match r with
      | .ok a => (f a).start s
      | .error e => .done (.error e, s) := by
  simp only [start, ExceptT.run_bind, StateT.run_bind]
  congr 1
  funext p
  rcases p with ⟨_ | a, s⟩ <;> rfl

theorem start_receiveList (c : Codec α) (source : Nat) (phase : String) (s : σ) :
    (receiveList c source phase).start s = .receive source fun r =>
      .done ((Received.bytes phase r >>= c.read phase).mapError .error, s) := by
  refine congrArg (Process.receive source) (funext fun r => ?_)
  cases r with
  | error failure => rfl
  | ok message =>
    rw [Received.bytes_ok_bind]
    change (Role.ofExcept (c.read phase message)).start s = _
    cases c.read phase message with
    | error e => rfl
    | ok l => rfl

theorem start_mapError_bind (g : ε → δ) (x : Role σ ε α) (f : α → Role σ δ β) (s : σ) :
    (Role.mapError g x >>= f).start s = x.start s >>= fun (r, s) => match r with
      | .ok a => (f a).start s
      | .error e => .done (.error (e.map g), s) := by
  rw [start_bind]
  change (x.start s >>= _) >>= _ = _
  rw [Process.bind_assoc]
  congr 1
  funext ⟨r, s⟩
  cases r <;> rfl

/-- From the state `s` on, a role takes the course `c`, gives `a` and leaves the state `s'`. -/
def Performs (x : Role σ ε α) (s : σ) (c : Course) (a : α) (s' : σ) : Prop :=
  (x.start s).Follows c (.ok a, s')

namespace Performs

protected theorem pure (a : α) (s : σ) : Performs (pure a : Role σ ε α) s [] a s := .done _

protected theorem bind {x : Role σ ε α} {f : α → Role σ ε β} {s s' s'' : σ} {c d : Course} {a : α} {b : β}
    (hx : Performs x s c a s') (hf : Performs (f a) s' d b s'') :
    Performs (x >>= f) s (c ++ d) b s'' := by
  rw [Performs, start_bind]
  exact Process.Follows.bind hx hf

/-- A part that leaves the links alone adds nothing to the course. -/
theorem bind_nil {x : Role σ ε α} {f : α → Role σ ε β} {s s' s'' : σ} {c : Course} {a : α} {b : β}
    (hx : Performs x s [] a s') (hf : Performs (f a) s' c b s'') : Performs (x >>= f) s c b s'' :=
  hx.bind hf

theorem bind_end {x : Role σ ε α} {f : α → Role σ ε β} {s s' s'' : σ} {c : Course} {a : α} {b : β}
    (hx : Performs x s c a s') (hf : Performs (f a) s' [] b s'') : Performs (x >>= f) s c b s'' := by
  have hbind := hx.bind hf
  rwa [List.append_nil] at hbind

protected theorem get (s : σ) : Performs (get : Role σ ε σ) s [] s s := .done _

protected theorem set (s t : σ) : Performs (set t : Role σ ε PUnit) s [] () t := .done _

protected theorem modify (f : σ → σ) (s : σ) :
    Performs (modify f : Role σ ε PUnit) s [] () (f s) := .done _

protected theorem modifyGet (f : σ → α × σ) (s : σ) :
    Performs (modifyGet f : Role σ ε α) s [] (f s).1 (f s).2 := .done _

theorem ofExcept {x : Except ε α} {a : α} (h : x = .ok a) (s : σ) :
    Performs (Role.ofExcept x) s [] a s := by
  subst h
  exact .done _

theorem ofChecked {x : Checked α} {a : α} (h : x = .ok a) (s : σ) :
    Performs (Role.ofChecked x : Role σ ε α) s [] a s := by
  subst h
  exact .done _

theorem ofOutcome {x : Outcome ε α} {a : α} (h : x = .ok a) (s : σ) :
    Performs (Role.ofOutcome x) s [] a s := by
  subst h
  exact .done _

theorem ofProcess {p : Process (Except ε α)} {c : Course} {a : α} (h : p.Follows c (.ok a))
    (s : σ) : Performs (Role.ofProcess p) s c a s := by
  have hmap := h.map fun r => (Except.mapError Stop.error r, s)
  exact hmap

theorem mapError {x : Role σ ε α} {s s' : σ} {c : Course} {a : α} (f : ε → δ)
    (h : Performs x s c a s') : Performs (Role.mapError f x) s c a s' := by
  have hmap := Process.Follows.map (fun p : Outcome ε α × σ => (p.1.mapError (Stop.map f), p.2)) h
  exact hmap

theorem within {x : Role τ ε α} {part : σ → τ} {replace : τ → σ → σ} {s : σ} {c : Course} {a : α}
    {t : τ} (h : Performs x (part s) c a t) :
    Performs (Role.within part replace x) s c a (replace t s) := by
  have hmap := Process.Follows.map (fun p : Outcome ε α × τ => (p.1, replace p.2 s)) h
  exact hmap

theorem privately {x : Role τ ε α} {t t' : τ} {c : Course} {a : α} (h : Performs x t c a t')
    (s : σ) : Performs (Role.privately x t) s c (a, t') s := by
  have hmap := Process.Follows.map
    (fun p : Outcome ε α × τ => ((p.1.map (·, p.2) : Outcome ε (α × τ)), s)) h
  exact hmap

theorem sendBytes (target : Nat) (phase : String) (message : Bytes) (s : σ) :
    Performs (Role.sendBytes target phase message) s [.send target phase message] () s := by
  apply ofProcess
  apply Process.Follows.send
  exact .done _

theorem sendList (k : Codec α) (target : Nat) (phase : String) (l : List α) (s : σ) :
    Performs (Role.sendList k target phase l) s [.send target phase (k.encodeList l)] () s :=
  sendBytes ..

theorem receiveBytes (source : Nat) (phase : String) (message : Bytes) (s : σ) :
    Performs (Role.receiveBytes source phase) s [.receive source message] message s := by
  apply ofProcess
  apply Process.Follows.receive
  exact .done _

theorem receiveList {k : Codec α} {phase : String} {message : Bytes} {l : List α}
    (h : k.read phase message = .ok l) (source : Nat) (s : σ) :
    Performs (Role.receiveList k source phase) s [.receive source message] l s :=
  (receiveBytes source phase message s).bind (ofExcept h s)

theorem forM {body : β → Role σ ε PUnit} {l : List β} {course : β → Course} {s : σ}
    (h : ∀ b ∈ l, Performs (body b) s (course b) ⟨⟩ s) :
    Performs (l.forM body) s (l.flatMap course) ⟨⟩ s := by
  induction l with
  | nil => exact .pure _ s
  | cons b l ih =>
    rw [List.forM, List.flatMap_cons]
    exact (h b List.mem_cons_self).bind (ih fun c hc => h c (List.mem_cons_of_mem b hc))

/-- A loop takes the courses of its rounds. Each round starts with the value and the state that the
one before it has left. -/
theorem iterate {body : Nat → β → Role σ ε β} {count : Nat} {course : Nat → Course} {b : Nat → β}
    {s : Nat → σ}
    (h : ∀ k < count, Performs (body k (b k)) (s k) (course k) (b (k + 1)) (s (k + 1))) :
    Performs (Role.iterate body count 0 (b 0)) (s 0) ((List.range count).flatMap course)
      (b count) (s count) := by
  suffices from_ : ∀ n k, k + n = count → Performs (Role.iterate body n k (b k)) (s k)
      ((List.range' k n).flatMap course) (b count) (s count) by
    rw [List.range_eq_range']
    exact from_ count 0 (Nat.zero_add _)
  intro n
  induction n with
  | zero =>
    intro k hk
    rw [← hk]
    exact .pure (b k) (s k)
  | succ n ih =>
    intro k hk
    rw [List.range'_succ, List.flatMap_cons]
    exact (h k (by omega)).bind (ih (k + 1) (by omega))

end Performs

/-! ### Roles that stop early -/

/-- From the state `s` on, a role takes the course `c`, stops early and leaves the state `s'`. -/
def Stops (x : Role σ ε α) (s : σ) (c : Course) (stop : Stop ε) (s' : σ) : Prop :=
  (x.start s).Follows c (.error stop, s')

theorem Stops.fail (e : ε) (s : σ) : Stops (Role.fail e : Role σ ε α) s [] (.error e) s := .done _

theorem Stops.bind_left {x : Role σ ε α} {s s' : σ} {c : Course} {stop : Stop ε} (h : Stops x s c stop s')
    (f : α → Role σ ε β) : Stops (x >>= f) s c stop s' := by
  rw [Stops, start_bind]
  rw [← List.append_nil c]
  exact Process.Follows.bind h (.done _)

theorem Performs.bind_stops {x : Role σ ε α} {f : α → Role σ ε β} {s s' s'' : σ} {c d : Course} {a : α}
    {stop : Stop ε} (hx : Performs x s c a s') (hf : Stops (f a) s' d stop s'') :
    Stops (x >>= f) s (c ++ d) stop s'' := by
  rw [Stops, start_bind]
  exact Process.Follows.bind hx hf

end Role

end ObliviousRouting
