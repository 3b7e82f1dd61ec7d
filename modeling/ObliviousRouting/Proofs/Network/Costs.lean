import Mathlib.Algebra.Order.Group.Multiset
import ObliviousRouting.Mesh.Line
import ObliviousRouting.Proofs.Network.Course

/-!
# What it costs to end well

A process that ends well has handed over and received a fixed number of messages, whatever these were. A
budget counts what it still needs: room on links and messages of other ends. It spends one need after the
other, and once a link answers with a failure, it ends at once and does not end well. So whatever the links
answer, it makes no more requests than the budget allows; and if it ends well, nothing of the budget is left.

A role may stop early with any error that it declares. Whether it may stop with a fault too is a parameter.
-/

namespace ObliviousRouting

variable {α β : Type}

namespace Process

/-- A process has ended in a way that is no success. -/
def Stopped (failed : α → Prop) (p : Process α) : Prop := ∃ a, p = .done a ∧ failed a

/-- Ending well costs a process just a budget. -/
def Costs (good failed : α → Prop) : Process α → Multiset Need → Prop
  | .done a, b => failed a ∨ (good a ∧ b = 0)
  | .send target _ _ next, b => ∃ c, b = .room target ::ₘ c ∧
      Costs good failed (next (.ok ())) c ∧ ∀ e, (next (.error e)).Stopped failed
  | .receive source next, b => ∃ c, b = .message source ::ₘ c ∧
      (∀ message, Costs good failed (next (.ok message)) c) ∧ ∀ e, (next (.error e)).Stopped failed
  | .receiveEither first second onFirst onSecond, b =>
    ∃ c, b = .message first ::ₘ .message second ::ₘ c ∧
      (∀ message, Costs good failed (onFirst (.ok message)) (.message second ::ₘ c)) ∧
      (∀ message, Costs good failed (onSecond (.ok message)) (.message first ::ₘ c)) ∧
      (∀ e, (onFirst (.error e)).Stopped failed) ∧ ∀ e, (onSecond (.error e)).Stopped failed

/-- Whatever its links answer, a process ends after so many requests at most, and with a good result. -/
inductive EndsWithin (good : α → Prop) : Nat → Process α → Prop
  | done {n : Nat} {a : α} : good a → EndsWithin good n (.done a)
  | send {n target : Nat} {phase : String} {message : Bytes} {next : Sent → Process α} :
      (∀ r, EndsWithin good n (next r)) → EndsWithin good (n + 1) (.send target phase message next)
  | receive {n source : Nat} {next : Received → Process α} :
      (∀ r, EndsWithin good n (next r)) → EndsWithin good (n + 1) (.receive source next)
  | receiveEither {n first second : Nat} {onFirst onSecond : Received → Process α} :
      (∀ r, EndsWithin good n (onFirst r)) → (∀ r, EndsWithin good n (onSecond r)) →
      EndsWithin good (n + 1) (.receiveEither first second onFirst onSecond)

variable {good failed : α → Prop} {good' failed' : β → Prop} {p : Process α} {b c : Multiset Need}

theorem Stopped.costs (h : p.Stopped failed) (b : Multiset Need) : p.Costs good failed b := by
  obtain ⟨a, rfl, ha⟩ := h
  exact .inl ha

theorem Stopped.bind {f : α → Process β} (h : p.Stopped failed)
    (hf : ∀ a, failed a → (f a).Stopped failed') : (p >>= f).Stopped failed' := by
  obtain ⟨a, rfl, ha⟩ := h
  exact hf a ha

theorem Stopped.endsWithin {good : α → Prop} (h : p.Stopped failed) (hfailed : ∀ a, failed a → good a)
    (n : Nat) : p.EndsWithin good n := by
  obtain ⟨a, rfl, ha⟩ := h
  exact .done (hfailed a ha)

namespace Costs

theorem bind {f : α → Process β} (hp : p.Costs good failed b)
    (hgood : ∀ a, good a → (f a).Costs good' failed' c)
    (hfailed : ∀ a, failed a → (f a).Stopped failed') : (p >>= f).Costs good' failed' (b + c) := by
  induction p generalizing b with
  | done a =>
    rcases hp with ha | ⟨ha, rfl⟩
    · exact (hfailed a ha).costs _
    · rw [zero_add]
      exact hgood a ha
  | send target phase message next ih =>
    obtain ⟨d, rfl, hnext, hstop⟩ := hp
    exact ⟨d + c, Multiset.cons_add .., ih _ hnext, fun e => (hstop e).bind hfailed⟩
  | receive source next ih =>
    obtain ⟨d, rfl, hnext, hstop⟩ := hp
    exact ⟨d + c, Multiset.cons_add .., fun message => ih _ (hnext message),
      fun e => (hstop e).bind hfailed⟩
  | receiveEither first second onFirst onSecond ih₁ ih₂ =>
    obtain ⟨d, rfl, hfirst, hsecond, hstop₁, hstop₂⟩ := hp
    refine ⟨d + c, by rw [Multiset.cons_add, Multiset.cons_add], fun message => ?_, fun message => ?_,
      fun e => (hstop₁ e).bind hfailed, fun e => (hstop₂ e).bind hfailed⟩
    · rw [← Multiset.cons_add]
      exact ih₁ _ (hfirst message)
    · rw [← Multiset.cons_add]
      exact ih₂ _ (hsecond message)

theorem map {f : α → β} (hp : p.Costs good failed b) (hgood : ∀ a, good a → good' (f a))
    (hfailed : ∀ a, failed a → failed' (f a)) :
    (p >>= fun a => .done (f a)).Costs good' failed' b := by
  rw [← add_zero b]
  exact hp.bind (fun a ha => .inr ⟨hgood a ha, rfl⟩) fun a ha => ⟨f a, rfl, hfailed a ha⟩

/-- There are no more requests than the budget has needs. -/
theorem endsWithin {P : α → Prop} (hp : p.Costs good failed b) (hgood : ∀ a, good a → P a)
    (hfailed : ∀ a, failed a → P a) : p.EndsWithin P (Multiset.card b) := by
  induction p generalizing b with
  | done a => exact .done (hp.elim (hfailed a) fun h => hgood a h.1)
  | send target phase message next ih =>
    obtain ⟨c, rfl, hnext, hstop⟩ := hp
    rw [Multiset.card_cons]
    refine .send fun r => ?_
    cases r with
    | ok _ => exact ih _ hnext
    | error e => exact (hstop e).endsWithin hfailed _
  | receive source next ih =>
    obtain ⟨c, rfl, hnext, hstop⟩ := hp
    rw [Multiset.card_cons]
    refine .receive fun r => ?_
    cases r with
    | ok message => exact ih _ (hnext message)
    | error e => exact (hstop e).endsWithin hfailed _
  | receiveEither first second onFirst onSecond ih₁ ih₂ =>
    obtain ⟨c, rfl, hfirst, hsecond, hstop₁, hstop₂⟩ := hp
    rw [Multiset.card_cons]
    refine .receiveEither (fun r => ?_) fun r => ?_
    · cases r with
      | ok message =>
        have hends := ih₁ _ (hfirst message)
        rwa [Multiset.card_cons] at hends ⊢
      | error e => exact (hstop₁ e).endsWithin hfailed _
    · cases r with
      | ok message =>
        have hends := ih₂ _ (hsecond message)
        rwa [Multiset.card_cons] at hends ⊢
      | error e => exact (hstop₂ e).endsWithin hfailed _

end Costs

/-- Waiting for the second of two messages. -/
theorem costs_receive_map {γ ε : Type} (source : Nat) {read : Received → Except ε α} (f : α → γ)
    (hread : ∀ e, ∃ e', read (.error e) = .error e') :
    (Process.receive source fun r => .done ((read r).map f)).Costs (fun r => ∃ a, r = .ok a)
      (fun r => ∃ e, r = .error e) {.message source} := by
  refine ⟨0, rfl, fun message => ?_, fun e => ?_⟩
  · cases hmessage : read (.ok message) with
    | error e => exact .inl ⟨e, by rw [hmessage]; rfl⟩
    | ok a => exact .inr ⟨⟨f a, by rw [hmessage]; rfl⟩, rfl⟩
  · obtain ⟨e', he'⟩ := hread e
    exact ⟨_, rfl, e', by rw [he']; rfl⟩

theorem costs_receiveBoth {ε : Type} (first second : Nat) {readFirst : Received → Except ε α}
    {readSecond : Received → Except ε β} (hfirst : ∀ e, ∃ e', readFirst (.error e) = .error e')
    (hsecond : ∀ e, ∃ e', readSecond (.error e) = .error e') :
    (receiveBoth first second readFirst readSecond).Costs (fun r => ∃ a, r = .ok a)
      (fun r => ∃ e, r = .error e) {.message first, .message second} := by
  refine ⟨0, rfl, fun message => ?_, fun message => ?_, fun e => ?_, fun e => ?_⟩
  · dsimp only
    cases readFirst (.ok message) with
    | error e => exact .inl ⟨e, rfl⟩
    | ok a => exact costs_receive_map second _ hsecond
  · dsimp only
    cases readSecond (.ok message) with
    | error e => exact .inl ⟨e, rfl⟩
    | ok b => exact costs_receive_map first _ hfirst
  · obtain ⟨e', he'⟩ := hfirst e
    exact ⟨.error e', by simp only [he'], e', rfl⟩
  · obtain ⟨e', he'⟩ := hsecond e
    exact ⟨.error e', by simp only [he'], e', rfl⟩

/-- A process on a course cannot end otherwise. -/
theorem EndsWithin.of_follows {n : Nat} {course : Course} {a : α} (h : p.EndsWithin good n)
    (hp : p.Follows course a) : good a := by
  induction hp generalizing n with
  | done a => cases h with | done ha => exact ha
  | send _ ih => cases h with | send hnext => exact ih (hnext _)
  | receive _ ih => cases h with | receive hnext => exact ih (hnext _)
  | receiveBoth _ _ ih₁ _ => cases h with | receiveEither hfirst _ => exact ih₁ (hfirst _)

end Process

namespace Role

variable {σ τ ε δ : Type} {faults : Fault → Prop} {s s' : σ} {b c : Multiset Need}

/-- How a role may stop early. -/
def Excused (faults : Fault → Prop) : Stop ε → Prop
  | .error _ => True
  | .fault f => faults f

/-- From the state `s` on, a role gives a value with the property `Q` once it has spent just a budget, or it
stops early. -/
def Costs (faults : Fault → Prop) (x : Role σ ε α) (s : σ) (b : Multiset Need) (Q : α → σ → Prop) : Prop :=
  (x.start s).Costs (fun r => ∃ a, r.1 = .ok a ∧ Q a r.2)
    (fun r => ∃ stop, r.1 = .error stop ∧ Excused faults stop) b

/-- Whatever its links answer, a role ends after so many requests at most, with a value or with an error
that it declares. -/
def Safe (x : Role σ ε α) (s : σ) (n : Nat) : Prop :=
  (x.start s).EndsWithin (fun r => ∀ f, r.1 ≠ .error (.fault f)) n

/-- Some answers of its links bring a role to a fault. -/
def Faults (x : Role σ ε α) (s : σ) (f : Fault) : Prop := ∃ course s', Stops x s course (.fault f) s'

theorem Performs.bind_faults {x : Role σ ε α} {g : α → Role σ ε β} {course : Course} {a : α} {f : Fault}
    (hx : Performs x s course a s') (hg : Faults (g a) s' f) : Faults (x >>= g) s f :=
  let ⟨_, _, hstops⟩ := hg
  ⟨_, _, hx.bind_stops hstops⟩

theorem Faults.bind_left {x : Role σ ε α} {f : Fault} (h : Faults x s f) (g : α → Role σ ε β) :
    Faults (x >>= g) s f :=
  let ⟨_, _, hstops⟩ := h
  ⟨_, _, hstops.bind_left g⟩

theorem Faults.not_safe {x : Role σ ε α} {f : Fault} (h : Faults x s f) (n : Nat) : ¬ Safe x s n :=
  let ⟨_, _, hstops⟩ := h
  fun hsafe => hsafe.of_follows hstops f rfl

namespace Costs

variable {x : Role σ ε α} {Q : α → σ → Prop} {R : β → σ → Prop}

protected theorem pure {a : α} (h : Q a s) : Costs faults (pure a : Role σ ε α) s 0 Q :=
  .inr ⟨⟨a, rfl, h⟩, rfl⟩

theorem fail (e : ε) (s : σ) (b : Multiset Need) (Q : α → σ → Prop) :
    Costs faults (Role.fail e : Role σ ε α) s b Q :=
  .inl ⟨.error e, rfl, trivial⟩

theorem fail_bind (e : ε) (f : α → Role σ ε β) (s : σ) (b : Multiset Need) (R : β → σ → Prop) :
    Costs faults (Role.fail e >>= f) s b R := by
  rw [Costs, start_bind]
  exact .inl ⟨.error e, rfl, trivial⟩

protected theorem bind {f : α → Role σ ε β} (hx : Costs faults x s b Q)
    (hf : ∀ a s', Q a s' → Costs faults (f a) s' c R) : Costs faults (x >>= f) s (b + c) R := by
  rw [Costs, start_bind]
  refine Process.Costs.bind hx ?_ ?_
  · rintro ⟨r, s'⟩ ⟨a, rfl, ha⟩
    exact hf a s' ha
  · rintro ⟨r, s'⟩ ⟨stop, rfl, hstop⟩
    exact ⟨_, rfl, stop, rfl, hstop⟩

/-- A part that leaves the links alone costs nothing. -/
theorem bind_nil {a : α} {f : α → Role σ ε β} (hx : Performs x s [] a s')
    (hf : Costs faults (f a) s' b R) : Costs faults (x >>= f) s b R := by
  rw [Costs, start_bind, hx.eq_of_nil]
  exact hf

theorem bind_end {f : α → Role σ ε β} (hx : Costs faults x s b Q)
    (hf : ∀ a s', Q a s' → Costs faults (f a) s' 0 R) : Costs faults (x >>= f) s b R := by
  have hbind := hx.bind hf
  rwa [add_zero] at hbind

theorem of_performs {a : α} (hx : Performs x s [] a s') (h : Q a s') : Costs faults x s 0 Q := by
  rw [Costs, hx.eq_of_nil]
  exact .inr ⟨⟨a, rfl, h⟩, rfl⟩

theorem mono {Q' : α → σ → Prop} (hx : Costs faults x s b Q) (h : ∀ a s', Q a s' → Q' a s') :
    Costs faults x s b Q' := by
  rw [← bind_pure x]
  exact bind_end hx fun a s' ha => Costs.pure (h a s' ha)

theorem ofExcept_bind {y : Except ε α} {f : α → Role σ ε β}
    (h : ∀ a, y = .ok a → Costs faults (f a) s b R) : Costs faults (Role.ofExcept y >>= f) s b R := by
  cases y with
  | ok a => exact bind_nil (.pure a s) (h a rfl)
  | error e => exact .inl ⟨_, rfl, trivial⟩

theorem ofChecked_bind {y : Checked α} {f : α → Role σ ε β} (hfault : ∀ e, y = .error e → faults e)
    (h : ∀ a, y = .ok a → Costs faults (f a) s b R) : Costs faults (Role.ofChecked y >>= f) s b R := by
  cases y with
  | ok a => exact bind_nil (.pure a s) (h a rfl)
  | error e => exact .inl ⟨_, rfl, hfault e rfl⟩

theorem ofOutcome_bind {y : Outcome ε α} {f : α → Role σ ε β} (hfault : ∀ e, y = .error (.fault e) → faults e)
    (h : ∀ a, y = .ok a → Costs faults (f a) s b R) : Costs faults (Role.ofOutcome y >>= f) s b R := by
  match y with
  | .ok a => exact bind_nil (.pure a s) (h a rfl)
  | .error (.error e) => exact .inl ⟨_, rfl, trivial⟩
  | .error (.fault e) => exact .inl ⟨_, rfl, hfault e rfl⟩

theorem ofProcess {p : Process (Except ε α)} {P : α → Prop}
    (h : p.Costs (fun r => ∃ a, r = .ok a ∧ P a) (fun r => ∃ e, r = .error e) b) (s : σ) :
    Costs faults (Role.ofProcess p) s b fun a s' => P a ∧ s' = s := by
  apply Process.Costs.map h
  · rintro _ ⟨a, rfl, ha⟩
    exact ⟨a, rfl, ha, rfl⟩
  · rintro _ ⟨e, rfl⟩
    exact ⟨.error e, rfl, trivial⟩

theorem mapError (f : ε → δ) (h : Costs faults x s b Q) : Costs faults (Role.mapError f x) s b Q := by
  apply Process.Costs.map h
  · rintro ⟨_, s'⟩ ⟨a, rfl, ha⟩
    exact ⟨a, rfl, ha⟩
  · rintro ⟨_, s'⟩ ⟨stop, rfl, hstop⟩
    refine ⟨stop.map f, rfl, ?_⟩
    cases stop with
    | error e => trivial
    | fault e => exact hstop

theorem within {y : Role τ ε α} {part : σ → τ} {replace : τ → σ → σ} {P : α → τ → Prop}
    (h : Costs faults y (part s) b P) : Costs faults (Role.within part replace y) s b
      fun a s' => ∃ t, P a t ∧ s' = replace t s := by
  apply Process.Costs.map h
  · rintro ⟨_, t⟩ ⟨a, rfl, ha⟩
    exact ⟨a, rfl, t, ha, rfl⟩
  · rintro ⟨_, t⟩ ⟨stop, rfl, hstop⟩
    exact ⟨stop, rfl, hstop⟩

theorem privately {y : Role τ ε α} {t : τ} {P : α → τ → Prop} (h : Costs faults y t b P) (s : σ) :
    Costs faults (Role.privately y t) s b fun a s' => P a.1 a.2 ∧ s' = s := by
  apply Process.Costs.map h
  · rintro ⟨_, t⟩ ⟨a, rfl, ha⟩
    exact ⟨(a, t), rfl, ha, rfl⟩
  · rintro ⟨_, t⟩ ⟨stop, rfl, hstop⟩
    exact ⟨stop, rfl, hstop⟩

theorem sendBytes (target : Nat) (phase : String) (message : Bytes) (s : σ) :
    Costs faults (Role.sendBytes target phase message) s {.room target} fun _ s' => s' = s := by
  refine mono (ofProcess (P := fun _ => True) ?_ s) fun _ _ h => h.2
  exact ⟨0, rfl, .inr ⟨⟨(), rfl, trivial⟩, rfl⟩, fun e => ⟨_, rfl, _, rfl⟩⟩

theorem sendList (k : Codec α) (target : Nat) (phase : String) (l : List α) (s : σ) :
    Costs faults (Role.sendList k target phase l) s {.room target} fun _ s' => s' = s :=
  sendBytes ..

theorem receiveBytes (source : Nat) (phase : String) (s : σ) :
    Costs faults (Role.receiveBytes source phase) s {.message source} fun _ s' => s' = s := by
  refine mono (ofProcess (P := fun _ => True) ?_ s) fun _ _ h => h.2
  exact ⟨0, rfl, fun message => .inr ⟨⟨message, rfl, trivial⟩, rfl⟩, fun e => ⟨_, rfl, _, rfl⟩⟩

theorem receiveList (k : Codec α) (source : Nat) (phase : String) (s : σ) :
    Costs faults (Role.receiveList k source phase) s {.message source} fun _ s' => s' = s := by
  refine bind_end (receiveBytes source phase s) fun message s' hs => ?_
  subst hs
  cases k.read phase message with
  | ok l => exact Costs.pure rfl
  | error e => exact fail e ..

/-- Of two messages, either may come first. -/
theorem receiveBoth (first second : Nat) (readFirst : Received → Except ε α)
    (readSecond : Received → Except ε β) (hfirst : ∀ e, ∃ e', readFirst (.error e) = .error e')
    (hsecond : ∀ e, ∃ e', readSecond (.error e) = .error e') (s : σ) :
    Costs faults (Role.ofProcess (Process.receiveBoth first second readFirst readSecond)) s
      {.message first, .message second} fun _ s' => s' = s := by
  refine mono (ofProcess (P := fun _ => True) ?_ s) fun _ _ h => h.2
  have hboth := Process.costs_receiveBoth first second hfirst hsecond
  simpa only [and_true] using hboth

/-- Each round of a loop spends the same, and keeps what the next one relies on. -/
theorem iterate {body : Nat → β → Role σ ε β} {count : Nat} {I : Nat → β → σ → Prop}
    (h : ∀ k < count, ∀ a s, I k a s → Costs faults (body k a) s b (I (k + 1))) {a : β}
    (hstart : I 0 a s) : Costs faults (Role.iterate body count 0 a) s (count • b) (I count) := by
  suffices from_ : ∀ n k, k + n = count → ∀ a s, I k a s →
      Costs faults (Role.iterate body n k a) s (n • b) (I count) from
    from_ count 0 (Nat.zero_add _) a s hstart
  intro n
  induction n with
  | zero =>
    intro k hk a s hI
    rw [zero_nsmul]
    exact Costs.pure (hk ▸ hI)
  | succ n ih =>
    intro k hk a s hI
    rw [succ_nsmul']
    exact Costs.bind (h k (by omega) a s hI) fun a s' hI' => ih (k + 1) (by omega) a s' hI'

theorem forM {body : β → Role σ ε PUnit} {l : List β} {cost : β → Multiset Need}
    (h : ∀ a ∈ l, Costs faults (body a) s (cost a) fun _ s' => s' = s) :
    Costs faults (l.forM body) s (l.map cost).sum fun _ s' => s' = s := by
  induction l with
  | nil => exact Costs.pure rfl
  | cons a l ih =>
    rw [List.forM, List.map_cons, List.sum_cons]
    refine Costs.bind (h a List.mem_cons_self) fun _ s' hs => ?_
    subst hs
    exact ih fun b hb => h b (List.mem_cons_of_mem a hb)

/-- A role that may not fault makes as many requests as its budget allows. -/
theorem safe (h : Costs (fun _ => False) x s b Q) {n : Nat} (hn : Multiset.card b = n) : Safe x s n := by
  subst hn
  apply Process.Costs.endsWithin h
  · rintro ⟨_, s'⟩ ⟨a, rfl, -⟩ f hf
    cases hf
  · rintro ⟨_, s'⟩ ⟨stop, rfl, hstop⟩ f hf
    cases hf
    exact hstop

end Costs

end Role

end ObliviousRouting
