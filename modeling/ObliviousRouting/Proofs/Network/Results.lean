import ObliviousRouting.Proofs.Network.Schedule

/-!
# What a process can end with

However its links answer, a process ends with one of the results in its tree, and no order of steps brings
up any other. A role that has no result but errors in its tree fails in every run, then.
-/

namespace ObliviousRouting

variable {α β : Type}

namespace Process

/-- Some answers of its links bring a process to a result. -/
inductive CanEnd : Process α → α → Prop
  | done (a : α) : CanEnd (.done a) a
  | next {p q : Process α} {a : α} (h : Next q p) : CanEnd q a → CanEnd p a

theorem canEnd_done {a b : α} (h : (Process.done a).CanEnd b) : b = a := by
  cases h with
  | done => rfl
  | next hnext => cases hnext

theorem CanEnd.of_bind {p : Process α} {f : α → Process β} {b : β} (h : (p >>= f).CanEnd b) :
    ∃ a, p.CanEnd a ∧ (f a).CanEnd b := by
  induction p with
  | done a => exact ⟨a, .done a, h⟩
  | send target phase message next ih =>
    cases h with
    | next hnext hq =>
      cases hnext with
      | send r =>
        obtain ⟨a, ha, hb⟩ := ih r hq
        exact ⟨a, .next (.send r) ha, hb⟩
  | receive source next ih =>
    cases h with
    | next hnext hq =>
      cases hnext with
      | receive r =>
        obtain ⟨a, ha, hb⟩ := ih r hq
        exact ⟨a, .next (.receive r) ha, hb⟩
  | receiveEither first second onFirst onSecond ih₁ ih₂ =>
    cases h with
    | next hnext hq =>
      cases hnext with
      | first r =>
        obtain ⟨a, ha, hb⟩ := ih₁ r hq
        exact ⟨a, .next (.first r) ha, hb⟩
      | second r =>
        obtain ⟨a, ha, hb⟩ := ih₂ r hq
        exact ⟨a, .next (.second r) ha, hb⟩

theorem CanEnd.of_below {p q : Process α} {a : α} (hbelow : q.Below p) (h : q.CanEnd a) : p.CanEnd a := by
  induction hbelow with
  | single hnext => exact .next hnext h
  | tail _ hnext ih => exact .next hnext ih

theorem Step.next {place : Nat} {p q : Process α} {m m' : Mesh} (h : Step place (p, m) (q, m')) :
    Next q p := by
  cases h with
  | send => exact .send _
  | receive => exact .receive _
  | first => exact .first _
  | second => exact .second _

end Process

/-! ### Roles that always fail -/

namespace Role

variable {σ τ ε δ : Type}

/-- Some answers of its links bring a role from the state `s` to the value `a` and the state `s'`. -/
def Returns (x : Role σ ε α) (s : σ) (a : α) (s' : σ) : Prop := (x.start s).CanEnd (.ok a, s')

/-- A role gives no value, however its links answer. -/
def Fails (x : Role σ ε α) (s : σ) : Prop := ∀ a s', ¬ Returns x s a s'

theorem Returns.of_bind {x : Role σ ε α} {f : α → Role σ ε β} {s s'' : σ} {b : β}
    (h : Returns (x >>= f) s b s'') : ∃ a s', Returns x s a s' ∧ Returns (f a) s' b s'' := by
  rw [Returns, start_bind] at h
  obtain ⟨⟨r, s'⟩, hx, hf⟩ := h.of_bind
  cases r with
  | ok a => exact ⟨a, s', hx, hf⟩
  | error e =>
    have heq := Process.canEnd_done hf
    cases heq

theorem Returns.of_pure {a b : α} {s s' : σ} (h : Returns (pure a : Role σ ε α) s b s') : b = a := by
  have heq := Process.canEnd_done h
  cases heq
  rfl

theorem Returns.of_ofChecked {x : Checked α} {a : α} {s s' : σ}
    (h : Returns (Role.ofChecked x : Role σ ε α) s a s') : x = .ok a := by
  cases x with
  | ok b => rw [Returns.of_pure h]
  | error f =>
    have heq := Process.canEnd_done h
    cases heq

/-- A role that runs on a part of the state leaves the rest of it alone. -/
theorem Returns.of_within {y : Role τ ε α} {part : σ → τ} {replace : τ → σ → σ} {a : α} {s s' : σ}
    (h : Returns (Role.within part replace y) s a s') : ∃ t, s' = replace t s := by
  obtain ⟨⟨r, t⟩, -, hdone⟩ := Process.CanEnd.of_bind h
  have heq := Process.canEnd_done hdone
  cases heq
  exact ⟨t, rfl⟩

namespace Fails

protected theorem bind {x : Role σ ε α} {f : α → Role σ ε β} {s : σ}
    (h : ∀ a s', Returns x s a s' → Fails (f a) s') : Fails (x >>= f) s := by
  intro b s'' hreturns
  obtain ⟨a, s', hx, hf⟩ := hreturns.of_bind
  exact h a s' hx b s'' hf

theorem bind_left {x : Role σ ε α} {f : α → Role σ ε β} {s : σ} (h : Fails x s) : Fails (x >>= f) s :=
  Fails.bind fun a s' ha => absurd ha (h a s')

theorem bind_nil {x : Role σ ε α} {f : α → Role σ ε β} {s s' : σ} {a : α} (hx : Performs x s [] a s')
    (hf : Fails (f a) s') : Fails (x >>= f) s := by
  apply Fails.bind
  intro b t hb
  rw [Returns, hx.eq_of_nil] at hb
  have heq := Process.canEnd_done hb
  cases heq
  exact hf

theorem throw (stop : Stop ε) (s : σ) : Fails (throw stop : Role σ ε α) s := by
  intro a s' hreturns
  have heq := Process.canEnd_done hreturns
  cases heq

theorem ofOutcome_bind {x : Outcome ε α} {f : α → Role σ ε β} {s : σ}
    (h : ∀ a, x = .ok a → Fails (f a) s) : Fails (Role.ofOutcome x >>= f) s := by
  cases x with
  | ok a => exact bind_nil (.pure a s) (h a rfl)
  | error stop => exact bind_left (Fails.throw stop s)

theorem ofExcept_bind {x : Except ε α} {f : α → Role σ ε β} {s : σ}
    (h : ∀ a, x = .ok a → Fails (f a) s) : Fails (Role.ofExcept x >>= f) s := by
  cases x with
  | ok a => exact bind_nil (.pure a s) (h a rfl)
  | error e => exact bind_left (Fails.throw _ s)

theorem ofChecked_bind {x : Checked α} {f : α → Role σ ε β} {s : σ}
    (h : ∀ a, x = .ok a → Fails (f a) s) : Fails (Role.ofChecked x >>= f) s := by
  cases x with
  | ok a => exact bind_nil (.pure a s) (h a rfl)
  | error e => exact bind_left (Fails.throw _ s)

theorem mapError {x : Role σ ε α} {s : σ} (f : ε → δ) (h : Fails x s) : Fails (Role.mapError f x) s := by
  intro a s' hreturns
  obtain ⟨⟨r, t⟩, hx, heq⟩ := Process.CanEnd.of_bind hreturns
  have hsame := Process.canEnd_done heq
  cases r with
  | ok b => exact h _ _ hx
  | error e => cases hsame

theorem privately {x : Role τ ε α} {t : τ} (h : Fails x t) (s : σ) : Fails (Role.privately x t) s := by
  intro a s' hreturns
  obtain ⟨⟨r, t'⟩, hx, heq⟩ := Process.CanEnd.of_bind hreturns
  have hsame := Process.canEnd_done heq
  cases r with
  | ok b => exact h _ _ hx
  | error e => cases hsame

end Fails

end Role

/-! ### Seats -/

namespace Seat

variable {seats seats' : List (Seat α)} {m m' : Mesh}

/-- Nothing can be ended with later that could not be ended with before. -/
def Narrows (seats' seats : List (Seat α)) : Prop :=
  List.Forall₂ (fun s' s => ∀ a, s'.process.CanEnd a → s.process.CanEnd a) seats' seats

theorem Narrows.refl (seats : List (Seat α)) : Narrows seats seats :=
  List.forall₂_same.2 fun _ _ _ h => h

theorem Narrows.of_later (h : Later seats' seats) : Narrows seats' seats := by
  induction h with
  | head hbelow => exact .cons (fun _ ha => ha.of_below hbelow) (Narrows.refl _)
  | both hbelow _ ih => exact .cons (fun _ ha => ha.of_below hbelow) ih
  | tail _ ih => exact .cons (fun _ ha => ha) ih

theorem Narrows.trans {seats'' : List (Seat α)} (h : Narrows seats'' seats')
    (h' : Narrows seats' seats) : Narrows seats'' seats := by
  induction h generalizing seats with
  | nil => exact h'
  | cons hfirst _ ih =>
    cases h' with
    | cons hfirst' hrest' => exact .cons (fun a ha => hfirst' a (hfirst a ha)) (ih hrest')

/-- A run in rounds gives no result that its processes do not have in their trees. -/
theorem narrows_run (stop : α → Bool) (m : Mesh) (seats : List (Seat α)) :
    Narrows (run stop m seats).1 seats := by
  have narrows_round (m : Mesh) (seats : List (Seat α)) : Narrows (round stop 0 m seats).seats seats := by
    rcases round_eq_or_later stop 0 m seats with ⟨-, heq⟩ | ⟨-, hlater⟩
    · rw [heq]
      exact .refl seats
    · exact .of_later hlater
  fun_induction run stop m seats with
  | case1 m seats => exact narrows_round m seats
  | case2 m seats after _ _ ih => exact ih.trans (narrows_round m seats)
  | case3 m seats after _ _ hwaiting ih => exact ih.trans (.of_later (later_expireAll hwaiting))
  | case4 m seats => exact .refl seats

/-- What a process ends with in a run is in its tree. -/
theorem canEnd_of_result {results : List (Option α)} (h : (m.run seats).1 = results) :
    List.Forall₂ (fun result s => ∀ a, result = some a → s.process.CanEnd a) results seats := by
  subst h
  refine List.forall₂_map_left_iff.2 ((narrows_run (fun _ => false) m seats).imp ?_)
  intro s' s hs a ha
  cases hp : s'.process with
  | done b =>
    rw [hp] at ha
    cases ha
    exact hs a (hp ▸ .done a)
  | _ =>
    rw [hp] at ha
    cases ha

/-! ### All orders of steps -/

theorem Step.later (h : Step (seats, m) (seats', m')) : Later seats' seats := by
  generalize hstart : (seats, m) = start at h
  generalize hstop : (seats', m') = stop at h
  induction h generalizing seats seats' with
  | head hstep =>
    cases hstart
    cases hstop
    exact .head (.single hstep.next)
  | tail _ ih =>
    cases hstart
    cases hstop
    exact .tail (ih rfl rfl)

/-- No run goes on forever. -/
theorem step_wf : WellFounded fun next state : List (Seat α) × Mesh => Step state next :=
  Subrelation.wf (fun h => Step.later h) (InvImage.wf Prod.fst Later.wf)

/-- No order of steps goes on forever or gets stuck before a state of a certain kind is reached. -/
def Settles (start : List (Seat α) × Mesh) (P : List (Seat α) → Mesh → Prop) : Prop :=
  ∀ seats m, Relation.ReflTransGen Step start (seats, m) →
    ((∃ next, Step (seats, m) next) ∨ P seats m) ∧ Acc (fun next state => Step state next) (seats, m)

/-- Every run can be gone on with until nothing moves any more. -/
theorem exists_complete (state : List (Seat α) × Mesh) :
    ∃ last, Relation.ReflTransGen Step state last ∧ ∀ next, ¬ Step last next := by
  induction state using step_wf.induction with
  | _ state ih =>
    by_cases hstep : ∃ next, Step state next
    · obtain ⟨next, hnext⟩ := hstep
      obtain ⟨last, hrun, hlast⟩ := ih next hnext
      exact ⟨last, .head hnext hrun, hlast⟩
    · exact ⟨state, .refl, fun next hnext => hstep ⟨next, hnext⟩⟩

theorem narrows_of_steps {state state' : List (Seat α) × Mesh}
    (h : Relation.ReflTransGen Step state state') : Narrows state'.1 state.1 := by
  induction h with
  | refl => exact .refl _
  | tail _ hstep ih => exact Narrows.trans (.of_later hstep.later) ih

/-- What processes end with, in any order of steps, is in their trees. -/
theorem canEnd_of_steps {results : List α}
    (h : Relation.ReflTransGen Step (seats, m) (seats', m'))
    (hdone : seats'.map (·.process) = results.map .done) :
    List.Forall₂ (fun result s => s.process.CanEnd result) results seats := by
  have hnarrows : Narrows seats' seats := narrows_of_steps h
  clear h
  induction hnarrows generalizing results with
  | nil =>
    cases results with
    | nil => exact .nil
    | cons result results => cases hdone
  | @cons s' s seats' seats hs _ ih =>
    cases results with
    | nil => cases hdone
    | cons result results =>
      obtain ⟨hfirst, hrest⟩ := List.cons.inj hdone
      have hends : s'.process.CanEnd result := by
        rw [show s'.process = .done result from hfirst]
        exact .done result
      exact .cons (hs result hends) (ih hrest)

end Seat

end ObliviousRouting
